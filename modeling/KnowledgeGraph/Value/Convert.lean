import KnowledgeGraph.Fault
import KnowledgeGraph.Number.Reading

/-!
# Putting values to use

Each conversion says what a value has to be for a use, and which fault it is otherwise.
-/

namespace KnowledgeGraph

/-- The nearest float to a whole number; those beyond the range of floats are a fault. -/
def floatOfInt (n : Int) : Except Fault Float :=
  let x := Float.ofInt n
  if x.isInf then .error .outOfRange else .ok x

namespace Scalar

/-- A scalar read as a number: numbers, truth values as 0 and 1, and texts that spell a number. -/
def toFloat : Scalar → Except Fault Float
  | .null => .error .wrongKind
  | .bool b => .ok (if b then 1 else 0)
  | .int n => floatOfInt n
  | .float x => .ok x
  | .nan _ => .ok notANumber
  | .text s => match readNumber? s with
    | some x => .ok x
    | none => .error .badForm

end Scalar

namespace Value

def toFloat : Value → Except Fault Float
  | .scalar s => s.toFloat
  | .list _ | .map _ => .error .wrongKind

/-- A value as the key of a map. -/
def toKey : Value → Except Fault Scalar
  | .scalar s => .ok s
  | .list _ | .map _ => .error .wrongKind

/-- The field of a record; none if the record has no such field. -/
def field? (v : Value) (name : String) : Except Fault (Option Value) :=
  match v with
  | .map es => .ok (Entries.get? es name)
  | _ => .error .noSuchField

/-- The field of a record, null if the record has none. -/
def field (v : Value) (name : String) : Except Fault Value :=
  return (← v.field? name).getD .null

/-- What a value holds, one after the other: the items of a list, the keys of a map, the characters
of a text. -/
def members : Value → Except Fault (List Value)
  | .list items => .ok items
  | .map entries => .ok (entries.map fun e => .scalar e.1)
  | .text s => .ok (s.toList.map fun c => .text c.toString)
  | _ => .error .wrongKind

/-- A value with two members as a key with its value. -/
def toEntry (v : Value) : Except Fault (Scalar × Value) := do
  match ← v.members with
  | [k, w] => return (← k.toKey, w)
  | _ => throw .badForm

/-- The entries that can be read off a list, up to the first fault. -/
def readEntries : List Value → Entries × Option Fault
  | [] => ([], none)
  | v :: vs => match v.toEntry with
    | .ok e => let (es, fault) := readEntries vs; (e :: es, fault)
    | .error f => ([], some f)

/-- The entries that a value stands for, up to the first fault: those of a map, or the members of
a value whose members have two members each. -/
def toEntries : Value → Entries × Option Fault
  | .map es => (es, none)
  | v => match v.members with
    | .ok items => readEntries items
    | .error f => ([], some f)

def toMap (v : Value) : Except Fault Entries :=
  match v with
  | .map es => .ok es
  | _ => match v.toEntries with
    | (es, none) => .ok (Table.merge [] es)
    | (_, some f) => .error f

/-- A value as a map, where one that counts as absent is the empty map. -/
def toMapOrEmpty (v : Value) : Except Fault Entries := (v.orElse (.map [])).toMap

end Value

end KnowledgeGraph
