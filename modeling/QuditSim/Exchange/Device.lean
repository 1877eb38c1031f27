import QuditSim.Engine.Settings
import QuditSim.Exchange.Reading

/-!
# Descriptions of devices and settings

A device is given by nothing, by its name, or by an object that names hardware or a device with
its element type (`DeviceSpec.ofJson`). Settings are given by an object with the fields that are
set (`Setting.ofMembers`).
-/

namespace QuditSim

/-- The hardware with a text. -/
def Hardware.ofDescription (text : String) : Reading Hardware :=
  match ofText? text with
  | some hardware => .ok hardware
  | none => .error (.device .unknownHardware)

/-- The device of a name that a value gives, with an element type. -/
def Device.ofName (type : ElementType) : Json → Reading Device
  | .string name => (named? name type).mapError .device
  | value => .error (.device (.unsupportedName value.shown))

/-- The form of a device that a description gives. -/
def DeviceSpec.ofJson (json : Json) : Reading DeviceSpec :=
  match json with
  | .null => .ok .absent
  | .string text => .ok (.name text)
  | .object _ =>
    match json.text? "torch" with
    | some text => (Hardware.ofDescription text).map .hardware
    | none => do
      let type ← json.elementType .complex128
      return .device (← Device.ofName type (← json.member "name"))
  | value => .ok (.foreign value.shown value.kindName)

/-- The device that a description gives. -/
def Device.ofJson (json : Json) : Reading Device := do
  (resolve? (← DeviceSpec.ofJson json)).mapError .device

namespace Setting

/-- The field that a member sets. -/
def ofMember : String × Json → Reading Setting
  | ("device", .string text) => .ok (.device text)
  | ("device", value) => .ok (.foreignDevice value.shown)
  | ("dtype", .string text) => (Json.elementTypeNamed text).map .elementType
  | ("seed", .null) => .ok (.seed none)
  | ("seed", value) => .ok (.seed (some value.argument))
  | ("check_normalization", value) => .ok (.checkNormalization !value.isBlank)
  | (name, _) => .ok (.unknown name)

/-- The fields that the members of an object set. -/
def ofMembers (members : List (String × Json)) : Reading (List Setting) := members.mapM ofMember

end Setting

/-- The environment that the members of an object give. A member that is null is not set. -/
def Environment.ofMembers (members : List (String × Json)) : Reading Environment :=
  (members.filter fun (_, value) => !value.isNull).mapM fun
    | (name, .string text) => .ok (name, text)
    | _ => .error .wrongKind

end QuditSim
