import QuditSim.Logging.Event
import QuditSim.Logging.Template

/-!
# Loggers

A `Registry` knows all loggers. Some of them were asked for through it (`Registry.obtain`);
those are set up with a handler of their own, and they are the ones that `Registry.setLevel` and
`Registry.configure` change. Loggers that others made (`Registry.bare`) are left as they are.
`Registry.written` tells what a record makes all handlers write.

A level that is set, alone or with the rest, is also the level of loggers that are asked for
later. A template or a stream that is set is not: later loggers start with the standard ones.
-/

namespace QuditSim

/-- Where a handler writes. -/
inductive Stream where
  /-- The standard stream for errors. -/
  | standardError
  /-- A stream that was given, by a number that tells it from others. -/
  | numbered (index : Nat)
deriving DecidableEq, Repr

/-- A writer of records. -/
structure Handler where
  /-- How severe a record has to be. -/
  level : Int
  /-- How records are written and where; nothing is written without. -/
  output : Option (Template × Stream)
deriving DecidableEq, Repr

/-- A named source of records. -/
structure Logger where
  /-- The name. Dots divide it into the names of the loggers above. -/
  name : String
  /-- How severe a record has to be; zero leaves it to the loggers above. -/
  level : Int
  /-- Whether records go to the handlers of the loggers above as well. -/
  propagates : Bool
  /-- The handlers. -/
  handlers : List Handler
deriving DecidableEq, Repr

/-- All loggers. -/
structure Registry where
  /-- The loggers, in the order in which they were made. -/
  loggers : List Logger
  /-- The names of those that were asked for. -/
  obtained : List String
  /-- The level of loggers that are asked for later. -/
  level : LevelChoice
deriving DecidableEq, Repr

/-- Computations that change a registry and can fail. What was changed before a failure stays
changed. -/
abbrev Logging (α : Type) : Type := ExceptT LoggingFault (StateM Registry) α

namespace Logger

/-- A logger that nothing was set on. -/
def bare (name : String) : Logger := ⟨name, 0, true, []⟩

/-- A logger with one handler of the same level. -/
def withHandler (name : String) (level : Int) (template : Template) (stream : Stream) : Logger :=
  ⟨name, level, false, [⟨level, some (template, stream)⟩]⟩

/-- The logger with another level on itself and on its handlers. -/
def withLevel (logger : Logger) (level : Int) : Logger :=
  { logger with
    level := level, handlers := logger.handlers.map fun handler => { handler with level := level } }

/-- The logger with another level and one new handler of that level. -/
def withOutput (logger : Logger) (level : Int) (template : Template) (stream : Stream) : Logger :=
  { logger with level := level, handlers := [⟨level, some (template, stream)⟩] }

end Logger

namespace Registry

/-- The name that every logger of the library starts with. -/
def root : String := "quditflow"

/-- The full name of a logger that is asked for. -/
def fullName : Option String → String
  | none => root
  | some name =>
    if name = root || (root ++ ".").toList.isPrefixOf name.toList then name
    else root ++ "." ++ name

/-- The loggers of the parts of the library, as they are made at the start. -/
def ofParts : List Logger :=
  Event.loggers.map fun name =>
    .withHandler name LevelChoice.warning Template.standard .standardError

/-- The registry at the start, in which the parts of the library have asked for theirs. -/
def start : Registry := ⟨ofParts, Event.loggers, .level LevelChoice.warning⟩

/-- The registry at the start, as if no logger had been asked for. -/
def forgetful : Registry := { start with obtained := [] }

/-- The logger of a name. -/
def find? (registry : Registry) (name : String) : Option Logger :=
  registry.loggers.find? (·.name == name)

/-- The registry in which there is a logger of the given name. -/
def ensure (registry : Registry) (name : String) : Registry :=
  match registry.find? name with
  | some _ => registry
  | none => { registry with loggers := registry.loggers ++ [.bare name] }

/-- The registry with a function of every logger for which a test holds. -/
def modifyIf (registry : Registry) (test : String → Bool) (f : Logger → Logger) : Registry :=
  { registry with
    loggers := registry.loggers.map fun logger => if test logger.name then f logger else logger }

/-- The logger of a name that is asked for. One without handlers is given one. -/
def obtain (name : Option String) : Logging Logger := do
  let full := fullName name
  let registry ← get
  -- a logger that was asked for before is left as others may have changed it
  if registry.obtained.contains full then
    return (registry.find? full).getD (.bare full)
  modify fun registry => registry.ensure full
  let logger := ((← get).find? full).getD (.bare full)
  -- the level is read only if a handler is made, so a bad one is not noticed before
  if logger.handlers.isEmpty then
    let level ← registry.level.value
    modify fun registry =>
      registry.modifyIf (· == full) fun _ =>
        .withHandler full level Template.standard .standardError
  modify fun registry => { registry with obtained := registry.obtained ++ [full] }
  return ((← get).find? full).getD (.bare full)

/-- Gives a logger that others made a handler that writes nothing. -/
def bare (name : String) : Logging Unit :=
  modify fun registry =>
    (registry.ensure name).modifyIf (· == name) fun logger =>
      { logger with handlers := logger.handlers ++ [⟨0, none⟩] }

/-- Changes every logger that was asked for with a level, and remembers the level. Without
such a logger nothing is wrong with any choice. -/
def changeAll (choice : LevelChoice) (f : Int → Logger → Logger) : Logging Unit := do
  let registry ← get
  if !registry.obtained.isEmpty then
    let level ← choice.value
    modify fun registry => registry.modifyIf registry.obtained.contains (f level)
  modify fun registry => { registry with level := choice }

/-- Sets the level of every logger that was asked for and of its handlers. -/
def setLevel (choice : LevelChoice) : Logging Unit :=
  changeAll choice fun level logger => logger.withLevel level

/-- Gives every logger that was asked for a level and one new handler. An empty template
stands for the standard one. -/
def configure (choice : LevelChoice) (template : Option String) (stream : Stream) :
    Logging Unit := do
  let text := (template.filter (· ≠ "")).getD Template.standardText
  let template ← Template.parse? text
  changeAll choice fun level logger => logger.withOutput level template stream

/-! ## Records -/

/-- The names above a name, the nearest one first, from its characters in reverse. -/
def enclosing : List Char → List String
  | [] => []
  | ['.'] => []
  | '.' :: c :: rest => String.ofList (c :: rest).reverse :: enclosing rest
  | _ :: rest => enclosing rest

/-- The loggers above one, the nearest one first. -/
def above (registry : Registry) (name : String) : List Logger :=
  (enclosing name.toList.reverse).filterMap registry.find?

/-- How severe a record of a logger has to be: the first level that is set on it or above. -/
def threshold (registry : Registry) (logger : Logger) : Int :=
  match (logger :: registry.above logger.name).find? (·.level ≠ 0) with
  | some logger => logger.level
  | none => LevelChoice.warning

/-- The handlers of loggers up to the first that keeps its records to itself. -/
def handlersFrom : List Logger → List Handler
  | [] => []
  | logger :: rest =>
    logger.handlers ++ if logger.propagates then handlersFrom rest else []

/-- What one handler writes for a record. -/
def Handler.written (handler : Handler) (record : LogRecord) : String :=
  match handler.output with
  | some (template, _) =>
    if handler.level ≤ record.severity.level then template.write record ++ "\n" else ""
  | none => ""

/-- What all handlers write for a record. -/
def written (registry : Registry) (record : LogRecord) : String :=
  match registry.find? record.logger with
  | none => ""
  | some logger =>
    if registry.threshold logger ≤ record.severity.level then
      String.join ((handlersFrom (logger :: registry.above logger.name)).map
        (Handler.written · record))
    else ""

/-- What is written for the events of the library, which are details of its work. -/
def writtenEvents (registry : Registry) (events : List Event) : String :=
  String.join (events.map fun event => registry.written ⟨event.logger, .debug, event.text⟩)

end Registry

end QuditSim
