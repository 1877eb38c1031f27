import QuditSim.Exchange.Display
import QuditSim.Exchange.Tensor

/-!
# Requests on libraries of operators

A library of named operators is asked for by the dimension of its qudits and its tolerance
(`Library.ofJson`), and then goes through requests that register operators or look their names
up (`Library.carryOut`), or that list what it holds (`Library.listing?`). Any value serves as a
name that is not nothing, zero or empty.
-/

namespace QuditSim

/-- Values serve as names, except those that are nothing, zero or empty. -/
instance : Label Json := ⟨.string, Json.isBlank⟩

/-- A library of operators with its tolerance as it was given. -/
structure Library where
  /-- The named operators. -/
  gates : GateLibrary Json Float
  /-- How far apart matching entries may be. -/
  tolerance : Argument

namespace Library

variable [Capacity]

/-- The library that a request asks for. Its tolerance is looked at when it is used. -/
def ofJson (json : Json) : Reading Library := do
  let dim ← (quditDimension (json.argumentOr "dim" (.nat 2))).mapError .dimension
  (checkMatrixExtent dim).mapError .extent
  let tolerance := ((json.get? "atol").map Json.numeric).getD
    (.float GateLibrary.standardTolerance)
  return ⟨.standard dim ((toleranceOf tolerance).toOption.getD 0), tolerance⟩

/-- The name of an operator. The tolerance has to be one that entries can be compared with, if
there are any to compare. -/
def nameOf (library : Library) (op : Operator Float) : Reading Json := do
  if library.gates.compares op then
    let _ ← (toleranceOf library.tolerance).mapError .tolerance
  return library.gates.nameOf op

/-- The library with one more operator. -/
def register (library : Library) (name : Json) (op : Operator Float) : Reading Library :=
  match library.gates.register? name op with
  | some gates => .ok { library with gates := gates }
  | none => .error .blankName

/-- The operator of a request. -/
def operatorU (request : Json) : Reading (Operator Float) :=
  ((request.member "U").bind TypedTensor.ofJson).map TypedTensor.toDouble

/-- What a library holds, as it is asked for by a word: the names with their number and the
dimension, or the names with their operators. -/
def listing? (library : Library) : String → Option Json
  | "names" =>
    let names := library.gates.names
    some (.array [.array names, .nat names.length, .nat library.gates.dim])
  | "items" =>
    some (.array (library.gates.entries.map fun (name, op) => .array [name, op.display]))
  | _ => none

/-- The library after a request, with the answer: an operator is registered, or its name is
looked up. -/
def carryOut (library : Library) (request : Json) : Reading (Library × Json) := do
  let op ← operatorU request
  if request.textMember "do" == "register" then
    return (← library.register (← request.member "name") op, .null)
  else return (library, ← library.nameOf op)

end Library

end QuditSim
