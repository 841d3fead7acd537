import KnowledgeGraph.Value.Order
import KnowledgeGraph.Json.Printer

/-!
# Canonical values

Two values are alike if they are written the same once the keys of their maps are sorted: the kinds
of numbers are told apart, and the order of keys is not. `Value.canonical` sorts the keys and writes
them as names.
-/

namespace KnowledgeGraph

/-- The name that stands for a key, unless it is a number with too many digits. -/
def Scalar.toName (k : Scalar) : Except Fault Scalar :=
  if k.isWritable then .ok (.text (Json.keyName k)) else .error .tooManyDigits

namespace Value

mutual

/-- A value with the keys of its maps sorted and written as names. Keys that have no order are a
fault, and so is a number with too many digits. -/
def canonical : Value → Except Fault Value
  | .scalar s => if s.isWritable then .ok (.scalar s) else .error .tooManyDigits
  | .list items => return .list (← canonicalItems items)
  | .map entries => do
    let sorted ← sortByKey (·.1) (canonicalEntries entries)
    return .map (← sorted.mapM fun (k, v) => return (← k.toName, ← v))

/-- The items of a list in canonical form. -/
def canonicalItems : List Value → Except Fault (List Value)
  | [] => .ok []
  | v :: vs => do
    let v ← canonical v
    return v :: (← canonicalItems vs)

/-- The entries of a map with what their values come to. It counts only once the keys are sorted. -/
def canonicalEntries : List (Scalar × Value) → List (Scalar × Except Fault Value)
  | [] => []
  | (k, v) :: es => (k, canonical v) :: canonicalEntries es

end

end Value

end KnowledgeGraph
