import KnowledgeGraph.Fault

/-!
# Slots

A slot of a record is meant for one type of thing, and holds either such a thing or a value that
was put there as it came. An empty slot holds null.
-/

namespace KnowledgeGraph

/-- A thing of the type a slot is for, or a value as it came. -/
inductive Slot (α : Type) where
  | known (a : α)
  | raw (v : Value)

namespace Slot

variable {α : Type}

def empty : Slot α := raw .null

/-- The slot of a thing that may be missing. -/
def ofOption : Option α → Slot α
  | some a => known a
  | none => empty

def isEmpty : Slot α → Bool
  | raw .null => true
  | _ => false

/-- Whether the slot counts as absent. A thing of the right type never does. -/
def isAbsent : Slot α → Bool
  | known _ => false
  | raw v => v.isAbsent

/-- The thing in the slot, to be used as one. -/
def get : Slot α → Except Fault α
  | known a => .ok a
  | raw _ => .error .noSuchField

/-- The thing in the slot, none if the slot counts as absent. -/
def get? : Slot α → Except Fault (Option α)
  | known a => .ok (some a)
  | raw v => if v.isAbsent then .ok none else .error .noSuchField

/-- The things of the right type among several slots. -/
def knowns (slots : List (Slot α)) : List α :=
  slots.filterMap fun
    | known a => some a
    | raw _ => none

end Slot

end KnowledgeGraph
