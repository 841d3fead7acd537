import KnowledgeGraph.Value

/-!
# Checked values

A check of a body finds everything that is wrong with it: where the parts are checked one by one,
`Checked` gathers the problems of all of them, in the order of the checks. Only a check without
problems has a result.
-/

namespace KnowledgeGraph.Service

/-- What is wrong with a part of a body. -/
inductive Complaint where
  /-- A required part is not there. -/
  | missing
  | notText
  /-- A text has more characters than it may. -/
  | tooLong
  | notNumber
  /-- A text spells no number. -/
  | noNumeral
  | notFlag
  /-- A text or a number is none of those that stand for yes and no. -/
  | noFlagWord
  | notList
  | notMap
  | notRecord
  /-- A text is none of those allowed here. -/
  | notAllowed
  /-- The body is no JSON text. -/
  | unreadable
deriving DecidableEq, Repr

def Complaint.label : Complaint → String
  | missing => "missing"
  | notText => "string_type"
  | tooLong => "string_too_long"
  | notNumber => "float_type"
  | noNumeral => "float_parsing"
  | notFlag => "bool_type"
  | noFlagWord => "bool_parsing"
  | notList => "list_type"
  | notMap => "dict_type"
  | notRecord => "model_attributes_type"
  | notAllowed => "value_error"
  | unreadable => "json_invalid"

/-- A step from a part of a body to a part of that. -/
inductive Place where
  | field (name : String)
  | item (index : Nat)
deriving DecidableEq, Repr

def Place.toValue : Place → Value
  | field name => .text name
  | item index => .count index

/-- A complaint about the part of a body that the places lead to, and the value it is about: that of
the part, or the record that a part is missing from. -/
structure Problem where
  places : List Place
  complaint : Complaint
  input : Value

def Problem.toValue (p : Problem) : Value :=
  .record [("type", .text p.complaint.label),
    ("loc", .list (.text "body" :: p.places.map Place.toValue))]

/-- The result of a check, or all problems. -/
inductive Checked (α : Type) where
  | fine (a : α)
  | faulty (problems : List Problem)

namespace Checked

variable {α β : Type}

def map (f : α → β) : Checked α → Checked β
  | fine a => fine (f a)
  | faulty problems => faulty problems

/-- Applies the result of a first check to that of a second; the problems of both count. -/
def apply (f : Checked (α → β)) (a : Checked α) : Checked β :=
  match f, a with
  | fine f, fine a => fine (f a)
  | fine _, faulty problems => faulty problems
  | faulty problems, fine _ => faulty problems
  | faulty problems, faulty more => faulty (problems ++ more)

instance : Applicative Checked where
  pure := fine
  map := map
  seq f a := f.apply (a ())

/-- A check of a value that fails with one complaint about the whole. -/
def complain (c : Complaint) (input : Value) : Checked α := faulty [⟨[], c, input⟩]

/-- A check of a part, as one of the whole. -/
def within (place : Place) : Checked α → Checked α
  | fine a => fine a
  | faulty problems => faulty (problems.map fun p => { p with places := place :: p.places })

/-- Gathers the results of several checks. -/
def all : List (Checked α) → Checked (List α)
  | [] => fine []
  | c :: cs => (c.map List.cons).apply (all cs)

/-- Goes on with the result of a check. -/
def andThen (c : Checked α) (next : α → Checked β) : Checked β :=
  match c with
  | fine a => next a
  | faulty problems => faulty problems

end Checked

end KnowledgeGraph.Service
