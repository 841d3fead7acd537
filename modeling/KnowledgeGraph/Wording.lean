import KnowledgeGraph.Fault
import KnowledgeGraph.Value.Display

/-!
# The wording of faults
-/

namespace KnowledgeGraph

namespace Fault

/-- The texts of keys, in quotes and in brackets. -/
def listed? (keys : List Scalar) : Option String :=
  (Value.list (keys.map .scalar)).toQuoted.toOption

/-- The text of a fault that has words of its own, unless a value that they mention cannot be written.
An import that was refused for a malformed record repeats the wording of the cause, or else puts an
asterisk in its place. -/
def wording? : Fault → Option String
  | .missingKey name => some (quote name)
  | .recordNotAMap kind => some ("Atom record must be an object, got " ++ kind)
  | .typeNotText => some "Atom record requires a string 'type'"
  | .metadataNotAMap => some "Atom 'metadata' must be an object"
  | .unknownFields names => (listed? names).map ("Unknown atom fields: " ++ ·)
  | .recordTypeNotText => some "Learning record type must be a non-empty string"
  | .unknownPriority given => given.toQuoted.toOption.map (· ++ " is not a valid Priority")
  | .unknownOutcome given => given.toQuoted.toOption.map (· ++ " is not a valid Outcome")
  | .importRefused .unreadable => some "Invalid JSON: *"
  | .importRefused .notAList => some "Expected a JSON array of atoms"
  | .importRefused (.recordNotAMap i) => some s!"Record {i} is not an object"
  | .importRefused (.unexpectedFields i names) =>
    (listed? names).map (s!"Record {i} has unexpected fields: " ++ ·)
  | .importRefused (.noId i) => some s!"Record {i} has no id"
  | .importRefused (.malformed i cause) =>
    some (s!"Record {i} is malformed: " ++ (wording? cause).getD "*")
  | .modelNotFound id => id.toText.toOption.map ("Learning model not found: " ++ ·)
  | .strategyFailed reason => some reason
  | .badForm | .wrongKind | .noSuchField | .outOfRange | .tooManyDigits | .emptyList
  | .divisionByZero => none

/-- The text of a fault, an asterisk if it has no words of its own. -/
def wording (f : Fault) : String := f.wording?.getD "*"

end Fault

end KnowledgeGraph
