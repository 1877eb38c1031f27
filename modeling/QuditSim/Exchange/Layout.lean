import QuditSim.Exchange.Display
import QuditSim.Exchange.Reading

/-!
# Requests on layouts

How a layout appears in the exchange format, and the operations that can be asked of one
(`Layout.carryOut`). Indices and the number of the step are taken as they are given, and
failures show them so.
-/

namespace QuditSim.Layout

/-- The positions of the qudits of a layout on display. -/
def display (layout : Layout) : Json := .array (layout.positions.map .natOrNull)

/-- The layout of the register of a request. -/
def ofJson [Capacity] (json : Json) : Reading Layout := do
  (create? (← json.argumentMember "n")).mapError .register

/-- The items of a list of indices. -/
def itemsOf : ArgumentList → Reading (List Argument)
  | .items items => .ok items
  | .single => .error .wrongKind

/-- The layout after an operation, with its result. -/
def carryOut (layout : Layout) (request : Json) : Reading (Layout × Json) := do
  let step := request.given? "step"
  let index : Reading Argument :=
    match request.get? "arg" with
    | some value => .ok value.argument
    | none => .error .wrongKind
  match request.textMember "do" with
  | "len" => return (layout, .nat layout.size)
  | "position" =>
    return (layout, .natOrNull (← (layout.position? (← index)).mapError .layout))
  | "is_measured" => return (layout, .bool (← (layout.isMeasured (← index)).mapError .layout))
  | "resolve" =>
    let indices ← itemsOf (((request.get? "arg").getD .null).argumentList)
    return (layout, .naturals (← (layout.resolve indices step).mapError .layout))
  | "retire" => return (← (layout.retire (← index) step).mapError .layout, .null)
  | "reset" => return (layout.reset, .null)
  | "measured" => return (layout, .naturals layout.measured)
  | "live" => return (layout, .naturals layout.live)
  | "live_positions" => return (layout, .naturals layout.livePositions)
  | _ => return (layout, layout.display)

end QuditSim.Layout
