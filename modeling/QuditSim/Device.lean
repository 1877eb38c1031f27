import QuditSim.Tensor.Typed
import QuditSim.Text.Listing
import QuditSim.Text.Quoted

/-!
# Devices

A device is the hardware that a simulation runs on together with the element type of its
states. `Device.named?` makes the device of a name, and `Device.resolve?` that of any of the
forms in which a device can be given. Only the processor is available here.
-/

namespace QuditSim

/-- A piece of hardware: a family and, where it matters, a number in the family. -/
structure Hardware where
  /-- The family. -/
  family : String
  /-- The number in the family. -/
  index : Option Nat
deriving DecidableEq, Repr

namespace Hardware

/-- The families of hardware that have names. -/
def families : List String :=
  ["cpu", "cuda", "ipu", "xpu", "mkldnn", "opengl", "opencl", "ideep", "hip", "ve", "fpga",
    "maia", "xla", "lazy", "vulkan", "mps", "meta", "hpu", "mtia", "privateuseone"]

/-- The text of a piece of hardware. -/
def text (hardware : Hardware) : String :=
  match hardware.index with
  | none => hardware.family
  | some index => hardware.family ++ ":" ++ toString index

/-- The number that digits without a leading zero write. -/
def indexOf? (digits : List Char) : Option Nat :=
  if digits.isEmpty || digits.any (fun c => !('0' ≤ c && c ≤ '9')) ||
      (digits.head? == some '0' && digits.length ≠ 1) then none
  else some (digits.foldl (fun n c => 10 * n + (c.toNat - 48)) 0)

/-- The hardware with a text: a family, and a number behind a colon. -/
def ofText? (text : String) : Option Hardware := do
  let family := String.ofList (text.toList.takeWhile (· ≠ ':'))
  if !families.contains family then none
  else
    match text.toList.dropWhile (· ≠ ':') with
    | [] => some ⟨family, none⟩
    | _ :: digits => (indexOf? digits).map fun index => ⟨family, some index⟩

/-- The processor. -/
def processor : Hardware := ⟨"cpu", none⟩

example : ofText? "cuda:3" = some ⟨"cuda", some 3⟩ := by decide +kernel
example : ofText? "cpu:03" = none := by decide +kernel

end Hardware

/-- Why there is no such device. -/
inductive DeviceFault where
  /-- The text names no hardware. -/
  | unknownHardware
  /-- The element type is not complex. -/
  | notComplex (type : ElementType)
  /-- The hardware is not available. -/
  | unavailable
  /-- No device has the name, which is given as messages show it. -/
  | unsupportedName (shown : String)
  /-- No device uses hardware of the family. -/
  | unsupportedHardware (family : String)
  /-- The value gives no device, by the name of its kind. -/
  | notDevice (kind : String)
deriving DecidableEq, Repr

/-- The text of a fault, for those that have one. -/
def DeviceFault.message? : DeviceFault → Option String
  | unknownHardware => none
  | notComplex type => some ("complex_dtype must be a complex dtype, got " ++ type.qualified)
  | unavailable => some "CUDA device requested but torch.cuda.is_available() is False"
  | unsupportedName shown =>
    some ("Unsupported device name: " ++ shown ++ ". Supported devices: " ++
      Text.listed (["cpu", "cuda"].map Text.quoted))
  | unsupportedHardware family =>
    some ("Unsupported torch.device type: " ++ family ++ ". Only 'cpu' and 'cuda' are supported.")
  | notDevice kind =>
    some ("device must be Device, str, torch.device, or None, got <class '" ++ kind ++ "'>")

/-- Hardware with the element type of the states on it. -/
structure Device where
  /-- The name of the device as messages show it. -/
  shownName : String
  /-- The hardware. -/
  hardware : Hardware
  /-- The element type of states. -/
  elementType : ElementType
deriving DecidableEq, Repr

/-- The forms in which a device can be given. -/
inductive DeviceSpec where
  /-- Nothing is given. -/
  | absent
  /-- A device. -/
  | device (device : Device)
  /-- A piece of hardware. -/
  | hardware (hardware : Hardware)
  /-- A name. -/
  | name (name : String)
  /-- Another value, by its text and the name of its kind. -/
  | foreign (shown kind : String)
deriving DecidableEq, Repr

namespace Device

/-- The device of the given hardware; its states have to be complex. -/
def create? (shownName : String) (hardware : Hardware) (type : ElementType) :
    Except DeviceFault Device :=
  if type.isComplex then .ok ⟨shownName, hardware, type⟩ else .error (.notComplex type)

/-- The device of a name. -/
def named? (name : String) (type : ElementType) : Except DeviceFault Device :=
  if name = "cpu" then create? (Text.quoted name) .processor type
  else if name = "cuda" then .error .unavailable
  else .error (.unsupportedName (Text.quoted name))

/-- The device that is used when none is given. -/
def standard : Device := ⟨Text.quoted "cpu", .processor, .complex128⟩

/-- The device that is given in any of the forms. -/
def resolve? : DeviceSpec → Except DeviceFault Device
  | .absent => .ok standard
  | .device device => .ok device
  | .name name => named? name .complex128
  | .hardware hardware =>
    if hardware.family = "cpu" ∨ hardware.family = "cuda" then named? hardware.family .complex128
    else .error (.unsupportedHardware hardware.family)
  | .foreign _ kind => .error (.notDevice kind)

/-- Whether two devices use the same hardware and element type, whatever their names. -/
def sameAs (a b : Device) : Bool := a.hardware == b.hardware && a.elementType == b.elementType

/-- The text that shows a device. -/
def shown (device : Device) : String :=
  "Device(name=" ++ device.shownName ++ ", torch_device=" ++ device.hardware.text ++
    ", complex_dtype=" ++ device.elementType.qualified ++ ")"

/-- Every device that is made has complex states. -/
theorem isComplex_of_create? {shownName : String} {hardware : Hardware} {type : ElementType}
    {device : Device} (h : create? shownName hardware type = .ok device) :
    device.elementType.isComplex = true := by
  unfold create? at h
  split at h
  · cases h
    assumption
  · cases h

end Device

/-- Whether two forms give the same: devices by what they use, others by what they are. -/
def DeviceSpec.sameAs : DeviceSpec → DeviceSpec → Bool
  | device a, device b => a.sameAs b
  | a, b => a == b

end QuditSim
