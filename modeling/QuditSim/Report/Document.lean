import QuditSim.Json.Parser
import QuditSim.Json.Printer
import QuditSim.Report.Circuit
import QuditSim.Report.Rebuild

/-!
# Reports as texts

A circuit is kept in a text file as its report with operators. `Circuit.document` is the text
that is written, and `Report.load` makes the circuit of a text that is read.
-/

namespace QuditSim

/-- Why no circuit comes from a file. -/
inductive LoadFault where
  /-- There is no such file. -/
  | noFile (path : String)
  /-- The text is no value of the exchange format. -/
  | malformed (path text : String) (fault : Json.SyntaxFault)
  /-- No circuit comes from the value. -/
  | rebuild (fault : RebuildFault)

/-- The text of a fault, for those that have one. -/
def LoadFault.message? : LoadFault → Option String
  | noFile path => some ("JSON circuit file not found: " ++ path)
  | malformed path text fault =>
    if fault.problem.isExcess then none
    else some ("Invalid JSON in file " ++ path ++ ": " ++ fault.message text)
  | rebuild fault => fault.message?

namespace Report

/-- The characters of a text with every end of a line written as one line feed. -/
def unifiedLines : List Char → List Char
  | [] => []
  | '\r' :: '\n' :: rest => '\n' :: unifiedLines rest
  | '\r' :: rest => '\n' :: unifiedLines rest
  | c :: rest => c :: unifiedLines rest

/-- The circuit that the text of a file describes. -/
def load [Capacity] (serial : Nat) (path : String) (content : Option String) :
    Except LoadFault (Circuit Float) :=
  match content with
  | none => .error (.noFile path)
  | some content =>
    let text := String.ofList (unifiedLines content.toList)
    match Json.parse text with
    | .error fault => .error (.malformed path text fault)
    | .ok value => (rebuild serial value).mapError .rebuild

end Report

/-- The text of the file that a circuit is kept in. -/
def Circuit.document (c : Circuit Float) : String := (c.report [] true).print

end QuditSim
