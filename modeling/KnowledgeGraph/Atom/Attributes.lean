import KnowledgeGraph.Atom.Record

/-!
# Attributes of atoms

`Atom.attributes` lays an atom out attribute by attribute. Other than `Atom.toRecord` it takes every
atom as it is, whatever its slots hold, and names truth and attention `truth_value` and
`attention_value`.
-/

namespace KnowledgeGraph

/-- Lays out what a slot holds; a value that was put there stays as it is. -/
def Slot.layOut {α : Type} (write : α → Value) : Slot α → Value
  | .known a => write a
  | .raw v => v

namespace Atom

mutual

/-- Lays out an atom and those it holds. -/
def attributes : Atom → Value
  | ⟨type, name, id, truth, attention, outgoing, incoming, metadata⟩ =>
    .record [
      ("type", type),
      ("name", name),
      ("id", id),
      ("truth_value", truth.layOut TruthValue.toValue),
      ("attention_value", attention.layOut AttentionValue.toValue),
      ("outgoing", .list (attributesOfAll outgoing)),
      ("incoming", .list (attributesOfAll incoming)),
      ("metadata", .map metadata)]

/-- Lays out the atoms that an atom holds. -/
def attributesOfAll : List (Slot Atom) → List Value
  | [] => []
  | .known a :: rest => attributes a :: attributesOfAll rest
  | .raw v :: rest => v :: attributesOfAll rest

end

end Atom

end KnowledgeGraph
