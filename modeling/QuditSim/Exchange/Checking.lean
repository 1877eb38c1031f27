import QuditSim.Json.Basic
import QuditSim.State.Checking

/-!
# Descriptions of changes of the mode

A change of checking mode is described by a word, or by an object with the mode of a block and
the changes in its body (`ModeStep.ofJson`).
-/

namespace QuditSim.ModeStep

mutual

/-- The change that a description gives. A word that is not known stands for a probe. -/
def ofJson : Json → ModeStep
  | .string "on" => set true
  | .string "off" => set false
  | .string "raise" => fail
  | .object members => ofMembers (.object members) members
  | _ => probe

/-- The block that the members of a description give. -/
def ofMembers (json : Json) : List (String × Json) → ModeStep
  | [] => block none []
  | ("body", .array body) :: _ =>
    block (match json.get? "context" with
      | some (.bool on) => some on
      | _ => none) (listOfJson body)
  | _ :: rest => ofMembers json rest

/-- The changes that descriptions give. -/
def listOfJson : List Json → List ModeStep
  | [] => []
  | step :: rest => ofJson step :: listOfJson rest

end

end QuditSim.ModeStep
