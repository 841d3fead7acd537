import KnowledgeGraph.Store
import KnowledgeGraph.Proofs.Atom.Deep
import KnowledgeGraph.Proofs.Number.Order

/-!
# What updates put into atoms

A reader of records makes well-formed atoms only: the type is a text, truth and attention are missing
or what they should be, and all atoms that are held are well-formed too. An update keeps values that
are no maps as they come, so it depends on the values whether an atom is well-formed afterwards
(`assignAll_typed`): on the last one for each attribute, where there is one. What is read as a truth
value or an atom is in order all the same (`assignAll_isRead`).
-/

namespace KnowledgeGraph

/-! ## Atoms -/

theorem TruthValue.IsClamped.inUnit {t : TruthValue} (h : t.IsClamped) :
    InUnit t.strength ∧ InUnit t.confidence := by
  rw [← h]
  exact ⟨inUnit_clampUnit _, inUnit_clampUnit _⟩

namespace Atom

/-- The type of an atom is a text, and truth and attention are missing or what they should be. -/
structure IsWellFormed (a : Atom) : Prop where
  type : ∃ s, a.type = .text s
  truth : a.truth.Fits fun t => InUnit t.strength ∧ InUnit t.confidence
  attention : a.attention.Fits fun _ => True

theorem WellTyped.isWellFormed {a : Atom} (h : a.WellTyped) : a.IsWellFormed := by
  refine ⟨h.type, ?_, h.attention⟩
  obtain ⟨-, htruth, -⟩ := h
  generalize a.truth = slot at htruth
  cases htruth with
  | empty => exact .empty
  | known ht => exact .known ht.inUnit

/-- What is read in an atom, as against values that were put there as they came: a truth value is in
the unit interval, and the atoms that are held are well-formed. -/
structure IsRead (a : Atom) : Prop where
  truth : ∀ t, a.truth = .known t → t.IsClamped
  atoms : ∀ b, .known b ∈ a.members → b.Deep members WellTyped

theorem IsRead.withId {a : Atom} (h : a.IsRead) (id : Value) : IsRead { a with id } :=
  ⟨h.truth, h.atoms⟩

theorem Deep.isRead {a : Atom} (h : a.Deep members WellTyped) : a.IsRead := by
  refine ⟨fun t ht => ?_, fun b hb => h.atom hb⟩
  have htruth := h.here.truth
  rw [ht] at htruth
  cases htruth with
  | known ht => exact ht

end Atom

namespace Store

open Atom (IsRead IsWellFormed WellTyped members)

variable {a b : Atom} {v : Value} {field : Attribute}

/-! ## Attributes -/

/-- An attribute of the atom holds what it should. -/
def Attribute.Typed (a : Atom) : Attribute → Prop
  | .type => ∃ s, a.type = .text s
  | .name | .metadata => True
  | .truth => ∀ v, a.truth = .raw v → v = .null
  | .attention => ∀ v, a.attention = .raw v → v = .null
  | .outgoing => ∀ v, .raw v ∉ a.outgoing
  | .incoming => ∀ v, .raw v ∉ a.incoming

/-- A value that an update should put into an attribute: a text for the type, a map or null for truth
and attention, and a list of maps, or a value that counts as absent, for the atoms held. -/
def Attribute.Proper (v : Value) : Attribute → Prop
  | .type => ∃ s, v = .text s
  | .name | .metadata => True
  | .truth | .attention => v = .null ∨ ∃ es, v = .map es
  | .outgoing | .incoming =>
    v.isAbsent = true ∨ ∃ items, v = .list items ∧ ∀ item ∈ items, ∃ es, item = .map es

/-- In a well-formed atom each attribute holds what it should. -/
theorem typed_of_deep (h : a.Deep members IsWellFormed) (field : Attribute) : field.Typed a := by
  obtain ⟨htype, htruth, hattention⟩ := h.here
  have hslots : ∀ v, .raw v ∉ a.members := by
    intro v hv
    obtain ⟨b, hb⟩ := h.slot hv
    cases hb
  cases field with
  | type => exact htype
  | name | metadata => trivial
  | truth =>
    intro v hv
    rw [hv] at htruth
    cases htruth
    rfl
  | attention =>
    intro v hv
    rw [hv] at hattention
    cases hattention
    rfl
  | outgoing => exact fun v hv => hslots v (List.mem_append_left _ hv)
  | incoming => exact fun v hv => hslots v (List.mem_append_right _ hv)

/-- The other way round this takes that what is read in the atom is in order. -/
theorem deep_of_typed (ha : a.IsRead) (h : ∀ field : Attribute, field.Typed a) :
    a.Deep members WellTyped := by
  refine .of_members ⟨h .type, ?truth, ?attention⟩ ?members
  case truth =>
    cases htruth : a.truth with
    | known t => exact .known (ha.truth t htruth)
    | raw v =>
      obtain rfl := h .truth v htruth
      exact .empty
  case attention =>
    cases hattention : a.attention with
    | known t => exact .known trivial
    | raw v =>
      obtain rfl := h .attention v hattention
      exact .empty
  case members =>
    intro m hm
    cases m with
    | known b => exact ⟨b, rfl, ha.atoms b hm⟩
    | raw v =>
      obtain hm | hm := List.mem_append.1 hm
      · exact absurd hm (h .outgoing v)
      · exact absurd hm (h .incoming v)

theorem deep_iff_typed (ha : a.IsRead) :
    a.Deep members IsWellFormed ↔ ∀ field : Attribute, field.Typed a :=
  ⟨fun h => typed_of_deep h, fun h => (deep_of_typed ha h).imp fun _ => WellTyped.isWellFormed⟩

theorem deep_wellTyped (ha : a.IsRead) (h : a.Deep members IsWellFormed) :
    a.Deep members WellTyped := deep_of_typed ha (typed_of_deep h)

theorem readSlot_eq_ok {α : Type} {reader : Value → Except Fault α} {slot : Slot α}
    (h : readSlot reader v = .ok slot) :
    (∃ es x, v = .map es ∧ reader v = .ok x ∧ slot = .known x) ∨
      slot = .raw v ∧ ∀ es, v ≠ .map es := by
  unfold readSlot at h
  split at h
  · rename_i es
    obtain ⟨x, hx, h⟩ := Except.bind_eq_ok.1 h
    cases h
    exact .inl ⟨es, x, rfl, hx, rfl⟩
  · rename_i hmap
    cases h
    exact .inr ⟨rfl, hmap⟩

theorem readSlot_raw {α : Type} {reader : Value → Except Fault α} {slot : Slot α}
    (h : readSlot reader v = .ok slot) :
    (∀ w, slot = .raw w → w = .null) ↔ v = .null ∨ ∃ es, v = .map es := by
  obtain ⟨es, x, rfl, -, rfl⟩ | ⟨rfl, hmap⟩ := readSlot_eq_ok h
  · exact ⟨fun _ => .inr ⟨es, rfl⟩, nofun⟩
  · constructor
    · intro hnull
      exact .inl (hnull v rfl)
    · rintro (rfl | ⟨es, rfl⟩) w hw
      · cases hw
        rfl
      · exact absurd rfl (hmap es)

theorem readSlots_raw {items : List Value} {slots : List (Slot Atom)}
    (h : List.Forall₂ (fun item slot => readSlot Atom.ofRecord item = .ok slot) items slots) :
    (∀ w, .raw w ∉ slots) ↔ ∀ item ∈ items, ∃ es, item = .map es := by
  induction h with
  | nil => simp
  | @cons item slot items slots hslot _ ih =>
    have hfirst : (∀ w, Slot.raw w ≠ slot) ↔ ∃ es, item = .map es := by
      obtain ⟨es, x, rfl, -, rfl⟩ | ⟨rfl, hmap⟩ := readSlot_eq_ok hslot
      · simp
      · simp [hmap]
    rw [List.forall_mem_cons, ← ih, ← hfirst]
    simp [forall_and]

/-- What an update puts into an atom is well-formed where it is read, and all of it is read where the
value should be put there. -/
theorem readMembers_eq_ok {slots : List (Slot Atom)} (h : readMembers v = .ok slots) :
    (∀ b, .known b ∈ slots → b.Deep members WellTyped) ∧
      ((∀ w, .raw w ∉ slots) ↔ Attribute.Proper v .outgoing) := by
  unfold readMembers at h
  split at h
  · rename_i habsent
    cases h
    exact ⟨nofun, fun _ => .inl habsent, nofun⟩
  · rename_i hpresent
    obtain ⟨items, hitems, h⟩ := Except.bind_eq_ok.1 h
    refine ⟨fun b hb => ?known, (readSlots_raw (Except.mapM_eq_ok.1 h)).trans ?proper⟩
    case known =>
      obtain ⟨item, -, hitem⟩ := Except.exists_source_of_mapM_eq_ok h hb
      obtain ⟨es, x, -, hx, hslot⟩ | ⟨hslot, -⟩ := readSlot_eq_ok hitem
      · cases hslot
        exact Atom.ofRecord_deep hx
      · cases hslot
    case proper =>
      unfold Attribute.Proper
      rw [or_iff_right hpresent]
      cases v with
      | list items' =>
        cases hitems
        simp
      | map es =>
        cases hitems
        cases es with
        | nil => exact absurd rfl hpresent
        | cons e rest => simp
      | scalar k =>
        cases k with
        | text s =>
          cases hitems
          have hne : s.toList ≠ [] := fun hnil => hpresent (by simp_all [Value.isAbsent, Scalar.isAbsent])
          obtain ⟨ch, rest, hs⟩ := List.exists_cons_of_ne_nil hne
          simp [hs]
        | null | bool _ | int _ | float _ | nan _ => cases hitems

/-! ## Updates -/

/-- What is put into an attribute decides on this attribute, and on no other one. -/
theorem assign_typed {found : Attribute} (h : found.assign a v = .ok b) :
    field.Typed b ↔ if field = found then field.Proper v else field.Typed a := by
  cases found with
  | type =>
    cases h
    cases field <;> simp [Attribute.Typed, Attribute.Proper]
  | name =>
    cases h
    cases field <;> simp [Attribute.Typed, Attribute.Proper]
  | truth =>
    obtain ⟨slot, hslot, h⟩ := Except.bind_eq_ok.1 h
    cases h
    cases field with
    | truth => exact readSlot_raw hslot
    | _ => simp [Attribute.Typed]
  | attention =>
    obtain ⟨slot, hslot, h⟩ := Except.bind_eq_ok.1 h
    cases h
    cases field with
    | attention => exact readSlot_raw hslot
    | _ => simp [Attribute.Typed]
  | outgoing =>
    obtain ⟨slots, hslots, h⟩ := Except.bind_eq_ok.1 h
    cases h
    cases field with
    | outgoing => exact (readMembers_eq_ok hslots).2
    | _ => simp [Attribute.Typed]
  | incoming =>
    obtain ⟨slots, hslots, h⟩ := Except.bind_eq_ok.1 h
    cases h
    cases field with
    | incoming => exact (readMembers_eq_ok hslots).2
    | _ => simp [Attribute.Typed]
  | metadata =>
    obtain ⟨_, -, h⟩ := Except.bind_eq_ok.1 h
    cases h
    cases field <;> simp [Attribute.Typed, Attribute.Proper]

/-- The value that an update gives an attribute; of several the last one counts. -/
def Attribute.given? (field : Attribute) : List (Scalar × Value) → Option Value
  | [] => none
  | (k, v) :: rest => (field.given? rest).or (if ofKey? k = some field then some v else none)

theorem Attribute.mem_of_given? {es : List (Scalar × Value)} (h : field.given? es = some v) :
    ∃ k, (k, v) ∈ es ∧ Attribute.ofKey? k = some field := by
  induction es with
  | nil => cases h
  | cons e rest ih =>
    obtain ⟨k, w⟩ := e
    unfold Attribute.given? at h
    obtain hrest | ⟨-, hfirst⟩ := Option.or_eq_some_iff.1 h
    · obtain ⟨k', hmem, hkey⟩ := ih hrest
      exact ⟨k', List.mem_cons_of_mem _ hmem, hkey⟩
    · split at hfirst
      · rename_i hkey
        cases hfirst
        exact ⟨k, List.mem_cons_self, hkey⟩
      · cases hfirst

/-- An update decides on the attributes that it gives a value; the others stay as they are. -/
theorem assignAll_typed {es : List (Scalar × Value)} (h : assignAll a es = .ok b) :
    field.Typed b ↔ match field.given? es with
      | some v => field.Proper v
      | none => field.Typed a := by
  induction es generalizing a with
  | nil =>
    cases h
    rfl
  | cons e rest ih =>
    obtain ⟨k, v⟩ := e
    rw [assignAll] at h
    unfold Attribute.given?
    cases hfound : Attribute.ofKey? k with
    | none =>
      rw [hfound] at h
      simpa using ih h
    | some found =>
      rw [hfound] at h
      obtain ⟨c, hc, h⟩ := Except.bind_eq_ok.1 h
      rw [ih h]
      cases hgiven : field.given? rest with
      | some w => rfl
      | none =>
        rw [Option.none_or]
        by_cases hsame : found = field
        · subst hsame
          simp [assign_typed hc]
        · simp [assign_typed hc, hsame, Ne.symm hsame]

theorem assign_isRead {found : Attribute} (ha : a.IsRead) (h : found.assign a v = .ok b) :
    b.IsRead := by
  cases found with
  | type | name =>
    cases h
    exact ⟨ha.truth, ha.atoms⟩
  | truth =>
    obtain ⟨slot, hslot, h⟩ := Except.bind_eq_ok.1 h
    cases h
    refine ⟨fun t ht => ?_, ha.atoms⟩
    obtain ⟨es, x, -, hx, rfl⟩ | ⟨rfl, -⟩ := readSlot_eq_ok hslot
    · cases ht
      exact TruthValue.ofValue_isClamped hx
    · cases ht
  | attention | metadata =>
    obtain ⟨_, -, h⟩ := Except.bind_eq_ok.1 h
    cases h
    exact ⟨ha.truth, ha.atoms⟩
  | outgoing =>
    obtain ⟨slots, hslots, h⟩ := Except.bind_eq_ok.1 h
    cases h
    refine ⟨ha.truth, fun b hb => ?_⟩
    obtain hb | hb := List.mem_append.1 hb
    · exact (readMembers_eq_ok hslots).1 b hb
    · exact ha.atoms b (List.mem_append_right _ hb)
  | incoming =>
    obtain ⟨slots, hslots, h⟩ := Except.bind_eq_ok.1 h
    cases h
    refine ⟨ha.truth, fun b hb => ?_⟩
    obtain hb | hb := List.mem_append.1 hb
    · exact ha.atoms b (List.mem_append_left _ hb)
    · exact (readMembers_eq_ok hslots).1 b hb

theorem assignAll_isRead {es : List (Scalar × Value)} (ha : a.IsRead)
    (h : assignAll a es = .ok b) : b.IsRead := by
  induction es generalizing a with
  | nil =>
    cases h
    exact ha
  | cons e rest ih =>
    rw [assignAll] at h
    split at h
    · exact ih ha h
    · obtain ⟨c, hc, h⟩ := Except.bind_eq_ok.1 h
      exact ih (assign_isRead ha hc) h

/-- What an update leaves in an atom is well-formed unless a value that it gives is at fault. -/
theorem deep_of_assignAll {es : List (Scalar × Value)} (ha : a.Deep members WellTyped)
    (h : assignAll a es = .ok b) (id : Value) :
    Atom.Deep members IsWellFormed { b with id } ↔
      ¬ ∃ field v, Attribute.given? field es = some v ∧ ¬ field.Proper v := by
  have hread := assignAll_isRead ha.isRead h
  have htyped := typed_of_deep (ha.imp fun _ => WellTyped.isWellFormed)
  rw [deep_iff_typed (hread.withId id)]
  have hsame : ∀ field : Attribute, field.Typed { b with id } ↔ field.Typed b := by
    intro field
    cases field <;> exact Iff.rfl
  simp only [hsame, assignAll_typed h, not_exists, not_and, not_not]
  refine forall_congr' fun field => ?_
  cases hgiven : field.given? es with
  | none => simp [htyped field]
  | some v => simp

end Store

end KnowledgeGraph
