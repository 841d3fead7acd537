import KnowledgeGraph.Value

/-!
# Faults

What can go wrong, by cause. A `Fault` that refuses given data says so in words of its own
(`Fault.wording?`, in `KnowledgeGraph.Wording`); one that comes from putting a value to a use its
kind does not allow has none.
-/

namespace KnowledgeGraph

/-- Why an import is refused. -/
inductive ImportFault (inner : Type) where
  /-- The text cannot be read. -/
  | unreadable
  /-- The text holds something other than a list. -/
  | notAList
  | recordNotAMap (index : Nat)
  | unexpectedFields (index : Nat) (names : List Scalar)
  | noId (index : Nat)
  | malformed (index : Nat) (cause : inner)

/-- A reason to stop. -/
inductive Fault where
  /-- A required key is missing. -/
  | missingKey (name : String)
  /-- An atom record is some other kind of value, named here. -/
  | recordNotAMap (kind : String)
  | typeNotText
  | metadataNotAMap
  | unknownFields (names : List Scalar)
  | recordTypeNotText
  | unknownPriority (given : Value)
  | unknownOutcome (given : Value)
  | importRefused (cause : ImportFault Fault)
  | modelNotFound (id : Value)
  /-- A strategy stopped, for a reason it gives. -/
  | strategyFailed (reason : String)
  /-- The value has the right kind but not the right form: text that is no number, entries that
  are no pairs. -/
  | badForm
  /-- The operation is not defined on values of this kind. -/
  | wrongKind
  /-- Something was asked for that values of this kind do not have. -/
  | noSuchField
  /-- A whole number beyond the range of floats. -/
  | outOfRange
  /-- A whole number with more digits than are read or written. -/
  | tooManyDigits
  /-- The first of an empty list. -/
  | emptyList
  | divisionByZero

namespace Fault

/-- Faults that say that a record is malformed. The others are not expected of records. -/
def isMalformed : Fault → Bool
  | .noSuchField | .outOfRange | .emptyList | .divisionByZero | .importRefused _
  | .modelNotFound _ | .strategyFailed _ => false
  | _ => true

end Fault

end KnowledgeGraph
