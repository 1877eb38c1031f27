/-!
# Events

What building a circuit and running it have to tell, as texts with the name of the part that
tells them. Whether and how an event is written is decided elsewhere.
-/

namespace QuditSim

/-- A text with the name of the logger that it goes to. -/
structure Event where
  /-- The name of the logger. -/
  logger : String
  /-- The text. -/
  text : String
deriving DecidableEq, Repr

namespace Event

/-- The logger of circuits. -/
def circuitLogger : String := "quditflow.circuit.core"

/-- The logger of engines. -/
def engineLogger : String := "quditflow.engine.core"

/-- The logger of engines with noise. -/
def noisyLogger : String := "quditflow.engine.noisy"

/-- The logger of noise models. -/
def noiseLogger : String := "quditflow.noise.trajectory"

/-- The loggers of all parts that tell events. -/
def loggers : List String := [circuitLogger, engineLogger, noisyLogger, noiseLogger]

end Event

end QuditSim
