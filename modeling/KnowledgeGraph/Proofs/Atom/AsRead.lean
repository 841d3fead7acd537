import KnowledgeGraph.Proofs.Atom.Inverse
import KnowledgeGraph.Proofs.Value

/-!
# Atoms that come back from their records

From the record of an atom, as it is read again (`Value.asRead`), the same atom is read, up to the
marks of not-a-numbers (`ofRecord_asRead`, `asRead_eq_self`). This takes an atom whose fields have
their types at every depth.
-/

namespace KnowledgeGraph

namespace Atom

/-! ## Atoms -/

mutual

def asRead : Atom → Atom
  | ⟨type, name, id, truth, attention, outgoing, incoming, metadata⟩ =>
    ⟨type, name.asRead, id.asRead, truth, attention, asReadSlots outgoing, asReadSlots incoming,
      Value.asReadEntries metadata⟩

/-- The atoms that an atom holds as they are read again. -/
def asReadSlots : List (Slot Atom) → List (Slot Atom)
  | [] => []
  | .known a :: rest => .known (asRead a) :: asReadSlots rest
  | .raw v :: rest => .raw v :: asReadSlots rest

end

mutual

/-- Whether there is a not-a-number among the values of an atom, at any depth. -/
def hasNaN : Atom → Bool
  | ⟨_, name, id, _, _, outgoing, incoming, metadata⟩ =>
    name.hasNaN || id.hasNaN || hasNaNSlots outgoing || hasNaNSlots incoming ||
      Value.hasNaNEntries metadata

/-- Whether there is a not-a-number among the values of atoms that are held, at any depth. -/
def hasNaNSlots : List (Slot Atom) → Bool
  | [] => false
  | .known a :: rest => hasNaN a || hasNaNSlots rest
  | .raw _ :: rest => hasNaNSlots rest

end

mutual

theorem asRead_eq_self : ∀ {a : Atom}, a.hasNaN = false → a.asRead = a
  | ⟨type, name, id, truth, attention, outgoing, incoming, metadata⟩, h => by
    simp only [hasNaN, Bool.or_eq_false_iff] at h
    obtain ⟨⟨⟨⟨hname, hid⟩, hout⟩, hin⟩, hmetadata⟩ := h
    rw [asRead, Value.asRead_eq_self hname, Value.asRead_eq_self hid, asReadSlots_eq_self hout,
      asReadSlots_eq_self hin, Value.asReadEntries_eq_self hmetadata]

theorem asReadSlots_eq_self : ∀ {slots : List (Slot Atom)},
    hasNaNSlots slots = false → asReadSlots slots = slots
  | [], _ => by rw [asReadSlots]
  | .known a :: rest, h => by
    rw [hasNaNSlots, Bool.or_eq_false_iff] at h
    rw [asReadSlots, asRead_eq_self h.1, asReadSlots_eq_self h.2]
  | .raw v :: rest, h => by
    rw [hasNaNSlots] at h
    rw [asReadSlots, asReadSlots_eq_self h]

end

/-! ## Records -/

theorem asReadSlots_known (bs : List Atom) :
    asReadSlots (bs.map .known) = (bs.map asRead).map .known := by
  induction bs with
  | nil => rw [List.map_nil, asReadSlots]; rfl
  | cons b bs ih => rw [List.map_cons, asReadSlots, ih]; rfl

theorem passesOn_asRead : PassesOn Value.asRead asRead where
  null := Value.asRead_null
  text := Value.asRead_text
  float := Value.toFloat_asRead_float
  list items := by rw [Value.asRead_list, Value.asReadItems_eq_map]
  map es := by rw [Value.asRead_map, Value.asReadEntries_eq_map]
  atom type name id truth attention outgoing incoming metadata := by
    rw [asRead, asReadSlots_known, asReadSlots_known, Value.asReadEntries_eq_map]

/-- The record of an atom is read again as the record of the fields as they are read again. -/
theorem entriesOf_asRead {id type name tv av : Value} {outs ins : List Value} {metadata : Entries} :
    (Value.map (entriesOf id type name tv av outs ins metadata)).asRead =
      .map (entriesOf id.asRead type.asRead name.asRead tv.asRead av.asRead
        (Value.asReadItems outs) (Value.asReadItems ins) (Value.asReadEntries metadata)) := by
  rw [passesOn_asRead.entriesOf, Value.asReadItems_eq_map, Value.asReadItems_eq_map,
    Value.asReadEntries_eq_map]

/-- An atom comes back from its record. -/
def ComesBack (a : Atom) : Prop := ∃ v, a.toRecord = .ok v ∧ ofRecord v.asRead = .ok a.asRead

/-- **Records that come back.** An atom whose fields have their types at every depth is written to a
record, and from the record that comes back the atom is read again. -/
theorem ofRecord_asRead {a : Atom} (h : a.Deep members WellTyped) : a.ComesBack :=
  passesOn_asRead.comesBack h

end Atom

end KnowledgeGraph
