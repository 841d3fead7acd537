import KnowledgeGraph.Proofs.Store.Attributes
import KnowledgeGraph.Proofs.Store.Calls
import KnowledgeGraph.Proofs.Value

/-!
# Tidy stores

A store is tidy when its keys are texts that are not empty, no key occurs twice, and under each key
there is an atom with this id whose fields have their types at every depth. Plain calls, whose
arguments have the form of records, keep a store tidy, also when they stop at a fault
(`perform_keeps_tidy`), so that every store that such calls lead to is tidy (`after_tidy`).
-/

namespace KnowledgeGraph.Store

open Attempt
open Atom (IsWellFormed WellTyped members)

/-- An atom of the right types under its own id, which is a text that is not empty. -/
def IsEntry (e : Scalar × Atom) : Prop :=
  ∃ id : String, id ≠ "" ∧ e.1 = .text id ∧ e.2.id = .text id ∧ e.2.Deep members WellTyped

/-- No id occurs twice, and all atoms are of the right types. -/
structure Tidy (atoms : Table Scalar Atom) : Prop where
  nodup : atoms.keys.Nodup
  entries : ∀ e ∈ atoms, IsEntry e

variable {s : Store} {c : Command} {o : Except Fault Value} {atoms : Table Scalar Atom} {a b : Atom}
  {key : Scalar}

/-! ## Tables of atoms -/

theorem IsEntry.sharp {e : Scalar × Atom} (h : IsEntry e) : Key.Sharp e.1 := by
  obtain ⟨id, -, hkey, -, -⟩ := h
  rw [hkey]
  exact Key.sharp_text id

theorem tidy_nil : Tidy [] := ⟨List.nodup_nil, nofun⟩

theorem Tidy.put (h : Tidy atoms) (he : IsEntry (key, a)) : Tidy (atoms.put key a) := by
  refine ⟨Table.keys_put_nodup he.sharp h.nodup, fun e hmem => ?_⟩
  rcases Table.mem_put he.sharp hmem with rfl | hmem
  · exact he
  · exact h.entries e hmem

theorem Tidy.erase (h : Tidy atoms) (key : Scalar) : Tidy (atoms.erase key) :=
  ⟨Table.keys_erase_nodup h.nodup key, fun e he => h.entries e (List.mem_filter.1 he).1⟩

theorem Tidy.merge {es : Table Scalar Atom} (h : Tidy atoms) (hes : ∀ e ∈ es, IsEntry e) :
    Tidy (atoms.merge es) := by
  induction es generalizing atoms with
  | nil => exact h
  | cons e rest ih =>
    exact ih (h.put (hes e List.mem_cons_self)) fun e he => hes e (List.mem_cons_of_mem _ he)

theorem Tidy.textKeys (h : Tidy atoms) : atoms.TextKeys := by
  intro e he
  obtain ⟨id, -, hid, -⟩ := h.entries e he
  exact ⟨id, hid⟩

theorem Tidy.sharp (h : Tidy atoms) : ∀ k ∈ atoms.keys, Key.Sharp k := h.textKeys.sharp

/-! ## Changed atoms -/

theorem deep_withId (id : Value) (ha : a.Deep members WellTyped) :
    Atom.Deep members WellTyped { a with id } :=
  .of_members ⟨ha.here.type, ha.here.truth, ha.here.attention⟩ fun _ h => ha.member (a := a) h

/-- What an update may put into an attribute: anything for a name, maps for truth, attention and
metadata, and lists of maps for the atoms held. The type is not changed. -/
def Attribute.Allows (v : Value) : Attribute → Prop
  | .type => False
  | .name => True
  | .truth | .attention | .metadata => ∃ es, v = .map es
  | .outgoing | .incoming => ∃ items, v = .list items ∧ ∀ item ∈ items, ∃ es, item = .map es

theorem Attribute.Allows.proper {field : Attribute} {v : Value} (h : field.Allows v) :
    field.Proper v := by
  cases field with
  | type => exact h.elim
  | name | metadata => trivial
  | truth | attention | outgoing | incoming => exact .inr h

/-- Where an update puts in what the attributes allow, all has its type at every depth again. -/
theorem assignAll_deep {es : List (Scalar × Value)} (ha : a.Deep members WellTyped)
    (hes : ∀ e ∈ es, ∀ field, Attribute.ofKey? e.1 = some field → field.Allows e.2)
    (h : assignAll a es = .ok b) (id : Value) : Atom.Deep members WellTyped { b with id } := by
  refine deep_wellTyped ((assignAll_isRead ha.isRead h).withId id)
    ((deep_of_assignAll ha h id).2 ?_)
  rintro ⟨field, v, hgiven, hbad⟩
  obtain ⟨k, hmem, hkey⟩ := Attribute.mem_of_given? hgiven
  exact hbad (hes _ hmem field hkey).proper

/-! ## Plain calls -/

def IsTidy (s : Store) : Prop := Tidy s.atoms

/-- The id that a record gives to its atom; null if it gives none. -/
def idOf (es : Entries) : Value := (Entries.get? es "id").getD .null

/-- A call whose arguments have the form of records: an added record has a text for an id, or none,
and an update puts into each attribute what the attribute allows. Other calls may have any
arguments. -/
def Command.IsPlain : Command → Prop
  | .add record => ∀ es, record = .map es → (idOf es).isAbsent = true ∨ ∃ id, idOf es = .text id
  | .update _ updates => ∀ es, updates = .map es →
    ∀ e ∈ es, ∀ field, Attribute.ofKey? e.1 = some field → field.Allows e.2
  | _ => True

theorem ofRecord_id {es : Entries} (h : Atom.ofRecord (.map es) = .ok a) : a.id = idOf es := by
  rw [Atom.ofRecord] at h
  obtain ⟨⟨type, metadata⟩, -, h⟩ := Except.bind_eq_ok.1 h
  obtain ⟨truth, -, h⟩ := Except.bind_eq_ok.1 h
  obtain ⟨attention, -, h⟩ := Except.bind_eq_ok.1 h
  obtain ⟨outgoing, -, h⟩ := Except.bind_eq_ok.1 h
  obtain ⟨incoming, -, h⟩ := Except.bind_eq_ok.1 h
  cases h
  rfl

/-- The id of an atom that is added is a text where it is there at all. -/
theorem id_of_present {record : Value}
    (hrecord : ∀ es, record = .map es → (idOf es).isAbsent = true ∨ ∃ id, idOf es = .text id)
    (ha : Atom.ofRecord record = .ok a) (hpresent : a.id.isAbsent = false) :
    ∃ id, a.id = .text id := by
  cases record with
  | scalar _ | list _ => rw [Atom.ofRecord] at ha <;> cases ha
  | map es =>
    obtain habsent | hid := hrecord es rfl
    · rw [← ofRecord_id ha, hpresent] at habsent
      cases habsent
    · rwa [← ofRecord_id ha] at hid

theorem generatedId_ne (n : Nat) : generatedId n ≠ "" := by
  intro h
  have hlength := congrArg String.length h
  rw [generatedId, String.length_append] at hlength
  simp at hlength

theorem importRecord_isEntry {index : Nat} {record : Value} {e : Scalar × Atom}
    (h : importRecord index record = .ok e) : IsEntry e := by
  unfold importRecord at h
  dsimp only at h
  split at h
  · rename_i es
    split at h
    · obtain ⟨names, -, h⟩ := Except.bind_eq_ok.1 h
      cases h
    · split at h
      · rename_i id hid
        split at h
        · cases h
        · rename_i hne
          split at h
          · rename_i a ha
            cases h
            refine ⟨id, fun hempty => hne (hempty ▸ rfl), rfl, ?_, Atom.ofRecord_deep ha⟩
            rw [ofRecord_id ha, idOf, hid]
            rfl
          · split at h <;> cases h
      · cases h
  · cases h

theorem importRecords_isEntry {index : Nat} {items : List Value} {es : List (Scalar × Atom)}
    (h : importRecords index items = .ok es) : ∀ e ∈ es, IsEntry e := by
  induction items generalizing index es with
  | nil =>
    cases h
    exact nofun
  | cons v vs ih =>
    rw [importRecords] at h
    obtain ⟨entry, hentry, h⟩ := Except.bind_eq_ok.1 h
    obtain ⟨rest, hrest, h⟩ := Except.bind_eq_ok.1 h
    cases h
    rintro e (_ | ⟨_, he⟩)
    · exact importRecord_isEntry hentry
    · exact ih hrest e he

theorem readImport_tidy {data : Value} (h : readImport data = .ok atoms) : Tidy atoms := by
  unfold readImport at h
  split at h
  · cases h
  · obtain ⟨es, hes, h⟩ := Except.bind_eq_ok.1 h
    cases h
    exact tidy_nil.merge (importRecords_isEntry hes)
  · cases h

/-- **Plain calls.** However a plain call ends, also at a fault, the atoms stay tidy. -/
theorem Ends.tidy (h : Ends s c o atoms) (hs : Tidy s.atoms) (hc : c.IsPlain) : Tidy atoms := by
  induction h with
  | refused | looked _ | notRemoved _ | notUpdated _ _ => exact hs
  | @appended s record a ha _ =>
    have hentry : IsEntry (withGeneratedId a s.freeNumber) :=
      ⟨_, generatedId_ne _, rfl, rfl, deep_withId _ (Atom.ofRecord_deep ha)⟩
    rw [← Table.put_of_not_mem hentry.sharp (freeNumber_not_mem s)]
    exact hs.put hentry
  | stored ha hpresent hkey =>
    obtain ⟨id, hid⟩ := id_of_present hc ha hpresent
    rw [hid] at hkey hpresent
    cases hkey
    refine hs.put ⟨id, fun hempty => ?_, rfl, hid, Atom.ofRecord_deep ha⟩
    rw [hempty] at hpresent
    cases hpresent
  | removed _ _ => exact hs.erase _
  | @updated s id key es a b hkey ha hb =>
    obtain ⟨label, hne, rfl, -, hdeep⟩ := hs.entries _ (hs.textKeys.mem_of_lookup? ha).1
    obtain rfl := Value.eq_scalar_of_toKey hkey
    exact hs.put ⟨label, hne, rfl, rfl, assignAll_deep hdeep (hc es rfl) hb _⟩
  | cleared => exact tidy_nil
  | imported hread | overLimit hread => exact readImport_tidy hread
  | exchanged _ _ ih => exact ih tidy_nil trivial

theorem perform_keeps_tidy (hc : c.IsPlain) : Keeps IsTidy (perform c) :=
  fun _ hs => (perform_ends rfl).tidy hs hc

theorem after_tidy {cs : List Command} (hcs : ∀ c ∈ cs, c.IsPlain) : IsTidy (after cs) :=
  after_keeps tidy_nil fun c hc => perform_keeps_tidy (hcs c hc)

end KnowledgeGraph.Store
