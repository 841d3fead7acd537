import KnowledgeGraph.Store
import KnowledgeGraph.Json.Parser
import KnowledgeGraph.Json.Printer
import KnowledgeGraph.Wording

/-!
# Export and import

The atoms leave the store as the text of a list of atom records. An import replaces the atoms by
those of such a text; it checks the whole text before it changes anything. After an import the
generated ids go on above those in the text.
-/

namespace KnowledgeGraph.Store

def records (s : Store) : Except Fault (List Value) := s.all.mapM Atom.toRecord

def exportText (s : Store) : Except Fault String := do Json.encode (.list (← s.records))

/-! ## Reading a text -/

/-- Reads one record of an import. A record that is malformed is reported by its place; faults that
are not expected of records are passed on. -/
def importRecord (index : Nat) (record : Value) : Except Fault (Scalar × Atom) := do
  let refuse (cause : ImportFault Fault) : Except Fault (Scalar × Atom) :=
    .error (.importRefused cause)
  match record with
  | .map es =>
    let extra := (Table.keys es).filter fun k => !(k.text?.any recordFields.contains)
    if !extra.isEmpty then refuse (.unexpectedFields index (← sortKeys extra))
    else match Entries.get? es "id" with
      | some (.text id) =>
        if id.isEmpty then refuse (.noId index)
        else match Atom.ofRecord record with
          | .ok a => return (.text id, a)
          | .error f => if f.isMalformed then refuse (.malformed index f) else .error f
      | _ => refuse (.noId index)
  | _ => refuse (.recordNotAMap index)

/-- Reads the records of an import from a place on. -/
def importRecords (index : Nat) : List Value → Except Fault (List (Scalar × Atom))
  | [] => .ok []
  | v :: vs => do
    let entry ← importRecord index v
    return entry :: (← importRecords (index + 1) vs)

/-- Reads what is to be imported. Of records with the same id the last one counts. -/
def readImport (data : Value) : Except Fault (Table Scalar Atom) := do
  match data.text?.bind Json.read? with
  | none => throw (.importRefused .unreadable)
  | some (.list items) => return Table.merge [] (← importRecords 0 items)
  | some _ => throw (.importRefused .notAList)

/-- The digits in an id that has the form of a generated one, in any script. A line end after the
digits is passed over. -/
def generatedDigits? (id : Scalar) : Option (List Char) := do
  let s ← id.text?
  let rest ← Json.expect? "atom_".toList s.toList
  let ds := if rest.getLast? = some '\n' then rest.dropLast else rest
  if !ds.isEmpty && ds.all Text.isDecimal then some ds else none

/-- The number that digits spell, unless they are too many. -/
def readNumber (ds : List Char) : Except Fault Nat :=
  if digitLimit < ds.length then .error .tooManyDigits else .ok (Text.number ds)

/-- The number of the next generated id after an import of atoms with the given ids. -/
def nextAfter (ids : List Scalar) : Except Fault Nat :=
  return 1 + (← (ids.filterMap generatedDigits?).mapM readNumber).foldl max 0

/-- Replaces the atoms by those of a text; how many there are. The numbers in their ids are read
last. -/
def importText (data : Value) : Attempt Store Nat := do
  let atoms ← readImport data
  modify fun s => { s with atoms }
  let next ← nextAfter atoms.keys
  modify fun s => { s with next }
  return atoms.length

/-- Exports the atoms, clears the store and imports them again. -/
def roundTrip : Attempt Store Nat := do
  let text ← (← get).exportText
  clear
  importText (.text text)

end KnowledgeGraph.Store
