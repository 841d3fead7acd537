import KnowledgeGraph.Atom.Query
import KnowledgeGraph.Attempt
import KnowledgeGraph.Selection
import KnowledgeGraph.Value.Order

/-!
# The store

The store owns the atoms. It maps ids to atoms in the order in which the ids came in, and counts the
ids it generates, which are `atom_1`, `atom_2` and so on, without those that are taken.

An operation that stops at a fault leaves the store as it was, unless the fault is a number with too
many digits in an id.
-/

namespace KnowledgeGraph

/-- The atoms by id, and the least number that a generated id may have. -/
structure Store where
  atoms : Table Scalar Atom := []
  next : Nat := 1

namespace Store

def empty : Store := {}

/-- The generated id with a number. -/
def generatedId (n : Nat) : String := "atom_" ++ toString n

/-- The number of the next generated id: the first one from `next` on whose id is not taken. Of as
many numbers as there are atoms and one more, one is free. -/
def freeNumber (s : Store) : Nat :=
  ((List.range' s.next (s.atoms.length + 1)).find? fun n =>
    !s.atoms.has (.text (generatedId n))).getD (s.next + s.atoms.length + 1)

def size (s : Store) : Nat := s.atoms.length

/-- The ids that the atoms carry, in order. -/
def ids (s : Store) : List Value := s.atoms.values.map (·.id)

/-! ## Adding and removing -/

/-- A new id for an atom. Once the numbers with as many digits as are written run out, there is
none, and the next number is the first that is too long. -/
def newId : Attempt Store String := do
  let s ← get
  let n := s.freeNumber
  if n < numberLimit then
    set { s with next := n + 1 }
    return generatedId n
  else
    set { s with next := max s.next numberLimit }
    throw .tooManyDigits

/-- Adds an atom, or replaces the one with its id; an id is generated for an atom without. -/
def add (a : Atom) : Attempt Store Value := do
  if a.id.isAbsent then
    let id ← newId
    modify fun s => { s with atoms := s.atoms.put (.text id) { a with id := .text id } }
    return .text id
  else
    let key ← a.id.toKey
    if (← get).atoms.has key then Value.mention [a.id]
    modify fun s => { s with atoms := s.atoms.put key a }
    return a.id

def addRecord (record : Value) : Attempt Store Value :=
  match record with
  | .map es => do add (← Atom.ofRecord (.map es))
  | _ => throw .noSuchField

/-- Removes the atom with an id; whether there was one. In a store without atoms nothing is looked
up, so that any value will do. -/
def remove (id : Value) : Attempt Store Bool := do
  let s ← get
  if s.atoms.isEmpty then return false
  let key ← id.toKey
  if s.atoms.has key then
    set { s with atoms := s.atoms.erase key }
    return true
  else return false

/-- Removes all atoms and starts the generated ids anew. -/
def clear : Attempt Store Unit := set empty

/-! ## Looking up -/

def atom? (s : Store) (id : Value) : Except Fault (Option Atom) :=
  return s.atoms.lookup? (← id.toKey)

def all (s : Store) : List Atom := s.atoms.values

/-- The atoms that a query accepts, in order. -/
def query (s : Store) (q : Query) : Except Fault (List Atom) := filterE q.accepts s.all

/-- The atoms that a query given as a record accepts. Null asks for all; another value that is no
record accepts no atom, and is a fault once an atom is put to it. -/
def queryRecord (s : Store) (record : Value) : Except Fault (List Atom) :=
  match record with
  | .null => .ok s.all
  | .map es => do s.query (← Query.ofRecord (.map es))
  | _ => if s.atoms.isEmpty then .ok [] else .error .noSuchField

/-! ## Updating -/

/-- The attributes of an atom that an update can change. -/
inductive Attribute where
  | type
  | name
  | truth
  | attention
  | outgoing
  | incoming
  | metadata
deriving DecidableEq

/-- The attribute that a field of an update names. -/
def Attribute.ofName? : String → Option Attribute
  | "type" => some .type
  | "name" => some .name
  | "truthValue" | "truth_value" => some .truth
  | "attentionValue" | "attention_value" => some .attention
  | "outgoing" => some .outgoing
  | "incoming" => some .incoming
  | "metadata" => some .metadata
  | _ => none

def Attribute.ofKey? : Scalar → Option Attribute
  | .text s => ofName? s
  | _ => none

/-- Reads a slot of an update: a map is read as a record, and other values are kept as they are. -/
def readSlot {α : Type} (reader : Value → Except Fault α) (v : Value) : Except Fault (Slot α) :=
  match v with
  | .map es => return .known (← reader (.map es))
  | v => .ok (.raw v)

/-- Reads the members of an update's value as slots for atoms. -/
def readMembers (v : Value) : Except Fault (List (Slot Atom)) := do
  if v.isAbsent then return [] else (← v.members).mapM (readSlot Atom.ofRecord)

def Attribute.assign (a : Atom) (v : Value) : Attribute → Except Fault Atom
  | .type => .ok { a with type := v }
  | .name => .ok { a with name := v }
  | .truth => return { a with truth := ← readSlot TruthValue.ofValue v }
  | .attention => return { a with attention := ← readSlot AttentionValue.ofValue v }
  | .outgoing => return { a with outgoing := ← readMembers v }
  | .incoming => return { a with incoming := ← readMembers v }
  | .metadata => return { a with metadata := ← v.toMapOrEmpty }

/-- Sets the attributes that the fields name, in order; other fields are passed over. -/
def assignAll (a : Atom) : List (Scalar × Value) → Except Fault Atom
  | [] => .ok a
  | (k, v) :: rest => match Attribute.ofKey? k with
    | none => assignAll a rest
    | some found => do assignAll (← found.assign a v) rest

/-- Whether an update may have a field. -/
def isUpdatable (k : Scalar) : Bool := k.same (.text "id") || (Attribute.ofKey? k).isSome

/-- Refuses updates that name fields an atom does not have. -/
def checkUpdates (updates : Value) : Except Fault Entries := do
  let keys ← (← updates.members).mapM Value.toKey
  let unknown := distinct (keys.filter fun k => !isUpdatable k)
  if !unknown.isEmpty then throw (.unknownFields (← sortKeys unknown))
  match updates with
  | .map es => return es
  | _ => throw .noSuchField

/-- Changes the named attributes of the atom with an id, which keeps its id and its place. Whether
there is such an atom. -/
def update (id updates : Value) : Attempt Store Bool := do
  let key ← id.toKey
  let s ← get
  match s.atoms.lookup? key with
  | none => return false
  | some a =>
    let es ← checkUpdates updates
    let a ← assignAll a es
    set { s with atoms := s.atoms.put key { a with id } }
    return true

end Store

end KnowledgeGraph
