import QuditSim.Text.Case

/-!
# Levels

The level of a record says how severe it is, and the level of a logger or of a handler how
severe a record has to be for it. Levels are integers, and the common ones have names.
-/

namespace QuditSim

/-- What can be wrong with a request to the loggers. -/
inductive LoggingFault where
  /-- A text that names no level. -/
  | unknownLevel
  /-- A value that is no level. -/
  | notLevel
  /-- A template without a field. -/
  | noField
deriving DecidableEq, Repr

/-- A level as it was chosen. -/
inductive LevelChoice where
  /-- A level. -/
  | level (value : Int)
  /-- A text that is no level, which is noticed when a logger is given it. -/
  | text
  /-- Another value that is no level, which is noticed when a logger is given it. -/
  | foreign
deriving DecidableEq, Repr

namespace LevelChoice

/-- The level of warnings, which is the level of loggers that were never given one. -/
def warning : Int := 30

/-- The choice that a name makes, in letters of any case. A name that is not known means the
level of warnings; two names are taken by a text and by a table that are no levels. -/
def named (name : String) : LevelChoice :=
  match Text.upperName name with
  | "CRITICAL" | "FATAL" => level 50
  | "ERROR" => level 40
  | "WARNING" | "WARN" => level warning
  | "INFO" => level 20
  | "DEBUG" => level 10
  | "NOTSET" => level 0
  | "BASIC_FORMAT" => text
  | "_STYLES" => foreign
  | _ => level warning

/-- The level that a logger is given. -/
def value : LevelChoice → Except LoggingFault Int
  | level value => .ok value
  | text => .error .unknownLevel
  | foreign => .error .notLevel

end LevelChoice

/-- How severe a record is. -/
inductive Severity where
  /-- Details of the work. -/
  | debug
  /-- News of the work. -/
  | info
  /-- Something that may be wrong. -/
  | warning
  /-- Something that went wrong. -/
  | error
  /-- Something that ends the work. -/
  | critical
deriving DecidableEq, Repr

namespace Severity

/-- The level of a severity. -/
def level : Severity → Int
  | debug => 10
  | info => 20
  | warning => 30
  | error => 40
  | critical => 50

/-- The name of a severity. -/
def name : Severity → String
  | debug => "DEBUG"
  | info => "INFO"
  | warning => "WARNING"
  | error => "ERROR"
  | critical => "CRITICAL"

/-- The severity that a word for an act of logging stands for. -/
def ofWord? : String → Option Severity
  | "debug" => some debug
  | "info" => some info
  | "warning" | "warn" => some warning
  | "error" => some error
  | "critical" | "fatal" => some critical
  | _ => none

end Severity

end QuditSim
