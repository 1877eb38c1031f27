import QuditSim.Argument
import QuditSim.Device
import QuditSim.Text.Case
import QuditSim.Text.Integer

/-!
# Settings of an engine

The device, the element type of states, the seed of chance, and whether the norm of the state
is checked after every step. Settings come from the environment (`EngineSettings.ofEnvironment`)
and from fields that are set one by one; the latter win, but a seed in the environment is read
even when it is then replaced.
-/

namespace QuditSim

/-- What can be wrong with settings. -/
inductive SettingsFault where
  /-- The device has no such name, which is given as messages show it. -/
  | badDevice (shown : String)
  /-- The element type is not complex. -/
  | badElementType (type : ElementType)
  /-- The seed is negative. -/
  | negativeSeed (seed : Argument)
  /-- The seed is no number. -/
  | foreignSeed
  /-- The seed in the environment is no integer. -/
  | seedText (text : String)
  /-- There is no such field. -/
  | unknownField (name : String)
  /-- The seed is too large for the generator. -/
  | largeSeed
  /-- The generator takes no seed of this kind. -/
  | unusableSeed

/-- The variable that names the device. -/
def deviceVariable : String := "QUDITFLOW_DEVICE"

/-- The variable that gives the seed. -/
def seedVariable : String := "QUDITFLOW_SEED"

/-- The variable that turns checks on. -/
def debugVariable : String := "QUDITFLOW_DEBUG"

/-- The text of a fault, for those that have one. -/
def SettingsFault.message? : SettingsFault → Option String
  | badDevice shown => some ("device must be 'cpu' or 'cuda', got " ++ shown)
  | badElementType type =>
    some ("dtype must be torch.complex64 or torch.complex128, got " ++ type.qualified)
  | negativeSeed seed => some ("seed must be non-negative, got " ++ seed.text)
  | seedText text => some (seedVariable ++ " must be an integer, got " ++ Text.quoted text)
  | foreignSeed | unknownField _ | largeSeed | unusableSeed => none

/-- Texts under names. -/
abbrev Environment : Type := List (String × String)

/-- Whether a text turns something on. -/
def isTruthy (text : String) : Bool := ["1", "true", "yes", "on"].contains (Text.lower text)

/-- Whether a variable turns something on; one that is not there does not. -/
def Environment.flag (environment : Environment) (name : String) : Bool :=
  isTruthy ((environment.lookup name).getD "0")

/-- The text of a variable that is there and not empty. -/
def Environment.text? (environment : Environment) (name : String) : Option String :=
  (environment.lookup name).filter (· ≠ "")

/-- The settings of an engine. -/
structure EngineSettings where
  /-- The name of the device. -/
  device : String := "cpu"
  /-- The element type of states. -/
  elementType : ElementType := .complex128
  /-- The seed of chance, if it is fixed. -/
  seed : Option Argument := none
  /-- Whether the norm of the state is checked after every step. -/
  checkNormalization : Bool := false

/-- A field of the settings that is set. -/
inductive Setting where
  /-- The name of the device. -/
  | device (name : String)
  /-- A value that is no name of a device, as messages show it. -/
  | foreignDevice (shown : String)
  /-- The element type of states. -/
  | elementType (type : ElementType)
  /-- The seed of chance. -/
  | seed (seed : Option Argument)
  /-- Whether norms are checked. -/
  | checkNormalization (check : Bool)
  /-- A field that there is not. -/
  | unknown (name : String)

namespace EngineSettings

/-- The settings with one field set. -/
def set (settings : EngineSettings) : Setting → Except SettingsFault EngineSettings
  | .device name => .ok { settings with device := name }
  | .foreignDevice shown => .error (.badDevice shown)
  | .elementType type => .ok { settings with elementType := type }
  | .seed seed => .ok { settings with seed := seed }
  | .checkNormalization check => .ok { settings with checkNormalization := check }
  | .unknown name => .error (.unknownField name)

/-- Refuses fields that there are not. -/
def checkFields (fields : List Setting) : Except SettingsFault Unit :=
  fields.forM fun
    | .unknown name => .error (.unknownField name)
    | _ => .ok ()

/-- The settings with several fields set. -/
def setAll (settings : EngineSettings) (fields : List Setting) :
    Except SettingsFault EngineSettings := do
  checkFields fields
  fields.foldlM set settings

/-- Refuses a seed that is negative or no number. -/
def checkSeed (seed : Argument) : Except SettingsFault Unit :=
  match seed.number? with
  | none => .error .foreignSeed
  | some x => if x.below 0 then .error (.negativeSeed seed) else .ok ()

/-- Settings as they are, refused unless every field has a value that is allowed. -/
def validated (settings : EngineSettings) : Except SettingsFault EngineSettings := do
  if settings.device ≠ "cpu" ∧ settings.device ≠ "cuda" then
    throw (.badDevice (Text.quoted settings.device))
  if !settings.elementType.isComplex then throw (.badElementType settings.elementType)
  if let some seed := settings.seed then checkSeed seed
  return settings

/-- The settings with the given fields. -/
def create (fields : List Setting) : Except SettingsFault EngineSettings := do
  (← setAll {} fields).validated

/-- The fields that an environment sets. -/
def fieldsOf (environment : Environment) : Except SettingsFault (List Setting) := do
  let device := (environment.text? deviceVariable).map fun text => .device (Text.lower text)
  let seed ← match environment.text? seedVariable with
    | none => pure none
    | some text =>
      match Text.integer? text with
      | some seed => pure (some (.seed (some (.int seed))))
      | none => throw (.seedText text)
  let check := if environment.flag debugVariable then [.checkNormalization true] else []
  return device.toList ++ seed.toList ++ check

/-- The settings that an environment gives, with some fields set over it. -/
def ofEnvironment (environment : Environment) (fields : List Setting) :
    Except SettingsFault EngineSettings := do
  create ((← fieldsOf environment) ++ fields)

/-- The device of the settings. -/
def makeDevice (settings : EngineSettings) : Except DeviceFault Device :=
  Device.named? settings.device settings.elementType

/-- The seed that a generator is given; it takes integers that words of 64 bits hold. -/
def generatorSeed? (settings : EngineSettings) : Option (Except SettingsFault Int) :=
  settings.seed.map fun
    | .int seed => if seed < 2 ^ 64 then .ok seed else .error .largeSeed
    | _ => .error .unusableSeed

end EngineSettings

end QuditSim
