import KnowledgeGraph.Atom
import KnowledgeGraph.Value.Convert
import KnowledgeGraph.Value.Display

/-!
# Atom records

Atoms are exchanged as records with the fields `id`, `type`, `name`, `truthValue`, `attentionValue`,
`outgoing`, `incoming` and `metadata`; truth and attention may also be given as `truth_value` and
`attention_value`. `Atom.ofRecord` reads a record and `Atom.toRecord` writes one.
-/

namespace KnowledgeGraph

def recordFields : List String :=
  ["id", "type", "name", "truthValue", "attentionValue", "outgoing", "incoming", "metadata"]

/-- The value under the first name, or else under the second, or else null. -/
def Entries.either (es : Entries) (first second : String) : Value :=
  (Entries.get? es first).getD ((Entries.get? es second).getD .null)

/-! ## Truth and attention -/

/-- A required field, to be looked up by its key. -/
def Value.index (v : Value) (name : String) : Except Fault Value :=
  match v with
  | .map es => match Entries.get? es name with
    | some w => .ok w
    | none => .error (.missingKey name)
  | _ => .error .wrongKind

namespace TruthValue

/-- Reads a truth value. Both fields are looked up before either is read as a number. -/
def ofValue (v : Value) : Except Fault TruthValue := do
  let strength ← v.index "strength"
  let confidence ← v.index "confidence"
  return .of (← strength.toFloat) (← confidence.toFloat)

def toValue (t : TruthValue) : Value :=
  .record [("strength", .float t.strength), ("confidence", .float t.confidence)]

end TruthValue

namespace AttentionValue

/-- Reads an attention value, in which missing numbers are zero. -/
def ofValue (v : Value) : Except Fault AttentionValue := do
  return ⟨← component "sti", ← component "lti", ← component "vlti"⟩
where
  /-- One of the numbers. -/
  component (name : String) : Except Fault Float := do
    ((← v.field? name).getD (.float 0)).toFloat

def toValue (a : AttentionValue) : Value :=
  .record [("sti", .float a.sti), ("lti", .float a.lti), ("vlti", .float a.vlti)]

end AttentionValue

/-- Reads a value into a slot, where one that counts as absent leaves the slot empty. -/
def Slot.read {α : Type} (reader : Value → Except Fault α) (v : Value) : Except Fault (Slot α) :=
  if v.isAbsent then .ok .empty else return .known (← reader v)

namespace Atom

/-! ## Reading -/

/-- The checks on a record before its fields are read: a type, and metadata that are a map. -/
def checkRecord (es : Entries) : Except Fault (Value × Entries) :=
  match Entries.get? es "type" with
  | some (.text s) =>
    match ((Entries.get? es "metadata").getD .null).orElse (.map []) with
    | .map metadata => .ok (.text s, metadata)
    | _ => .error .metadataNotAMap
  | _ => .error .typeNotText

mutual

def ofRecord : Value → Except Fault Atom
  | .map es => do
    let (type, metadata) ← checkRecord es
    let truth ← Slot.read TruthValue.ofValue (Entries.either es "truthValue" "truth_value")
    let attention ←
      Slot.read AttentionValue.ofValue (Entries.either es "attentionValue" "attention_value")
    let outgoing ← fieldAtoms "outgoing" es
    let incoming ← fieldAtoms "incoming" es
    return {
      type, metadata, truth, attention
      name := (Entries.get? es "name").getD .null
      id := (Entries.get? es "id").getD .null
      outgoing := outgoing.map .known
      incoming := incoming.map .known }
  | v => .error (.recordNotAMap v.kind)

/-- Reads the atoms of a field; a missing field has none. -/
def fieldAtoms (name : String) : List (Scalar × Value) → Except Fault (List Atom)
  | [] => .ok []
  | (k, v) :: es => if k.same (.text name) then ofMembers v else fieldAtoms name es

/-- Reads the members of a value as atoms. A value that counts as absent has none, and a text or a
map has members that are no records. -/
def ofMembers : Value → Except Fault (List Atom)
  | .list items => ofItems items
  | .text s => if s.isEmpty then .ok [] else .error (.recordNotAMap (Value.text s).kind)
  | .scalar s => if s.isAbsent then .ok [] else .error .wrongKind
  | .map [] => .ok []
  | .map ((k, _) :: _) => .error (.recordNotAMap (Value.scalar k).kind)

/-- Reads the items of a list as atoms. -/
def ofItems : List Value → Except Fault (List Atom)
  | [] => .ok []
  | v :: vs => do
    let a ← ofRecord v
    return a :: (← ofItems vs)

end

/-! ## Writing -/

/-- Writes a slot; one that counts as absent is written as null. -/
def writeSlot {α : Type} (write : α → Value) (s : Slot α) : Except Fault Value :=
  return ((← s.get?).map write).getD .null

mutual

def toRecord : Atom → Except Fault Value
  | ⟨type, name, id, truth, attention, outgoing, incoming, metadata⟩ => do
    return .record [
      ("id", id),
      ("type", type),
      ("name", name),
      ("truthValue", ← writeSlot TruthValue.toValue truth),
      ("attentionValue", ← writeSlot AttentionValue.toValue attention),
      ("outgoing", .list (← toRecords outgoing)),
      ("incoming", .list (← toRecords incoming)),
      ("metadata", .map metadata)]

/-- Writes the atoms that an atom holds. -/
def toRecords : List (Slot Atom) → Except Fault (List Value)
  | [] => .ok []
  | .known a :: rest => do
    let v ← toRecord a
    return v :: (← toRecords rest)
  | .raw _ :: _ => .error .noSuchField

end

end Atom

end KnowledgeGraph
