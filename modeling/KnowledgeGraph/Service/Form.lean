import KnowledgeGraph.Learning.Record
import KnowledgeGraph.Service.Checked

/-!
# Forms

A form is a check of a value: it says what a part of a body has to be, and gives the part as the
service takes it. Numbers may be given as texts and flags as words. A record may have fields that
its form does not know, and these are passed over.
-/

namespace KnowledgeGraph.Service

/-- A check of a value. -/
abbrev Form (α : Type) := Value → Checked α

namespace Form

variable {α : Type}

/-! ## Simple forms -/

def anything : Form Value := .fine

def text : Form String
  | .text s => .fine s
  | v => .complain .notText v

def textUpTo (limit : Nat) : Form String := fun v =>
  (text v).andThen fun s => if s.length ≤ limit then .fine s else .complain .tooLong v

def oneOf (allowed : List String) : Form String := fun v =>
  (text v).andThen fun s => if allowed.contains s then .fine s else .complain .notAllowed v

/-- A number, a truth value that stands for one, or a text that spells one. -/
def number : Form Float
  | .text s => match readLoose? s with
    | some x => .fine x
    | none => .complain .noNumeral (.text s)
  | v => match v.toFloat with
    | .ok x => .fine x
    | .error _ => .complain .notNumber v

/-- The words for yes. -/
def yesWords : List String := ["1", "t", "y", "on", "yes", "true"]

/-- The words for no. -/
def noWords : List String := ["0", "f", "n", "no", "off", "false"]

/-- What a word says, whatever the case of its letters. -/
def flagOfWord? (s : String) : Option Bool :=
  let word := s.map Char.toLower
  if yesWords.contains word then some true
  else if noWords.contains word then some false
  else none

/-- What a whole number says. -/
def flagOfInt? (n : Int) : Option Bool :=
  if n == 1 then some true else if n == 0 then some false else none

/-- The flag that was read off a word or a number. -/
def flagRead (v : Value) : Option Bool → Checked Bool
  | some b => .fine b
  | none => .complain .noFlagWord v

/-- Whether a whole number has at most 64 bits. -/
def isWord64 (n : Int) : Bool := -9223372036854775808 ≤ n && n ≤ 9223372036854775807

/-- Whether a float is a whole number of less than 64 bits. -/
def isWhole (x : Float) : Bool := x == x.floor && x.abs < 9223372036854775808

/-- A truth value, a word for one, or one of the numbers 0 and 1. Numbers that are not whole or have
too many bits are not even looked at. -/
def flag : Form Bool := fun v =>
  match v with
  | .bool b => .fine b
  | .text s => flagRead v (flagOfWord? s)
  | .int n => if isWord64 n then flagRead v (flagOfInt? n) else .complain .notFlag v
  | .float x =>
    if isWhole x then flagRead v (flagOfInt? (if x == 0 then 0 else if x == 1 then 1 else 2))
    else .complain .notFlag v
  | _ => .complain .notFlag v

def map : Form Entries
  | .map es => .fine es
  | v => .complain .notMap v

/-! ## Parts of values -/

/-- Null, or what another form has. -/
def nullable (form : Form α) : Form (Option α)
  | .null => .fine none
  | v => (form v).map some

/-- Checks the items of a list from a place on. -/
def items (form : Form α) (index : Nat) : List Value → Checked (List α)
  | [] => .fine []
  | v :: vs => (((form v).within (.item index)).map List.cons).apply (items form (index + 1) vs)

def listOf (form : Form α) : Form (List α)
  | .list vs => items form 0 vs
  | v => .complain .notList v

/-! ## Records -/

/-- A check of the fields of a record. -/
abbrev Fields (α : Type) := Entries → Checked α

/-- A record with fields that pass a check. -/
def record (fields : Fields α) : Form α
  | .map es => fields es
  | v => .complain .notRecord v

def required (name : String) (form : Form α) : Fields α := fun es =>
  match Entries.get? es name with
  | some v => (form v).within (.field name)
  | none => (Checked.complain .missing (.map es)).within (.field name)

/-- A field under the first of several names that is there, or else a default. -/
def defaulted (names : List String) (default : α) (form : Form α) : Fields α := fun es =>
  match names with
  | [] => .fine default
  | name :: names => match Entries.get? es name with
    | some v => (form v).within (.field name)
    | none => defaulted names default form es

/-- A field that may be missing or null. -/
def optional (names : List String) (form : Form α) : Fields (Option α) :=
  defaulted names none (nullable form)

/-! ## Records as values -/

/-- What a record as a value has of one field. -/
abbrev Part := Fields (List (String × Value))

/-- A field that has to be there, as part of a record. -/
def requiredPart (name : String) (form : Form Value) : Part := fun es =>
  (required name form es).map fun v => [(name, v)]

/-- A field with a default, as part of a record. -/
def defaultedPart (name : String) (default : Value) (form : Form Value) : Part := fun es =>
  (defaulted [name] default form es).map fun v => [(name, v)]

/-- A field that the record has under the first of the names, if it is given and not null. -/
def optionalPart (names : List String) (form : Form Value) : Part := fun es =>
  (optional names form es).map fun v? => v?.toList.map fun v => (names.headD "", v)

/-- A record as a value, with the given parts. -/
def parts (ps : List Part) : Form Value :=
  record fun es => (Checked.all (ps.map fun p => p es)).map fun fields => .record fields.flatten

end Form

end KnowledgeGraph.Service
