import QuditSim.Json.Basic
import QuditSim.Logging.Registry

/-!
# Loggers on display

How levels and streams are read from the exchange format, and how loggers appear in it.
-/

namespace QuditSim

/-- The level that a value chooses; without a value it is that of warnings. -/
def LevelChoice.ofJson : Option Json → LevelChoice
  | some (.string name) => named name
  | some value => (value.integral?.map level).getD foreign
  | none => level warning

/-- The stream that a request gives; a request has but one. -/
def Stream.given : Stream := numbered 0

/-- The members of a logger on display. -/
def Logger.members (logger : Logger) : List (String × Json) :=
  [("name", .string logger.name), ("level", .int logger.level),
    ("propagate", .bool logger.propagates),
    ("handlers", .array (logger.handlers.map fun handler => .int handler.level))]

end QuditSim
