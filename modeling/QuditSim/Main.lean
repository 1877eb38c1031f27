import QuditSim.Demo.Ghz

/-!
# Command line

Prints the demonstrations that are named by the arguments, and all of them without arguments.
-/

namespace QuditSim.Demo

/-- The demonstrations by name. -/
def all [Capacity] : List (String × (Bool → Draws Float → Except DemoFault String)) :=
  [("teleportation", Teleportation.text), ("qutrit_ghz", Ghz.text)]

/-- The numbers that chance is made of when demonstrations are printed. -/
def draws : Draws Float := .ofList [0.37, 0.82, 0.14, 0.61, 0.95, 0.48, 0.03, 0.73]

/-- The texts of the demonstrations with the given names, all of them if no name is given. -/
def texts [Capacity] (names : List String) : List (Except DemoFault String) :=
  (all.filter fun (name, _) => names.isEmpty || names.contains name).map fun (_, text) =>
    text false draws

end QuditSim.Demo

attribute [local instance] QuditSim.Capacity.common in
/-- Prints demonstrations, and reports by the exit code whether all of them succeeded. -/
def main (args : List String) : IO UInt32 := do
  let mut code := 0
  for result in QuditSim.Demo.texts args do
    match result with
    | .ok text => IO.println text
    | .error _ => code := 1
  return code
