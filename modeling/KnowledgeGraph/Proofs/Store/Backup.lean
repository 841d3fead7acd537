import KnowledgeGraph.Proofs.Atom.AsRead
import KnowledgeGraph.Proofs.Store.Import

/-!
# Backups

An export followed by a clear and an import of the exported text gives back the atoms of a store
that plain calls lead to: all of them, in their order, with all their fields at every depth
(`roundTrip_after`). The call itself comes out well exactly when no id is over the limit on the
digits of a number; of the text, only that its own value is read from it is assumed (`ReadsBack`).
-/

namespace KnowledgeGraph.Store

open Attempt
open Atom (entriesOf entriesOf_asRead ofRecord_asRead toRecord_eq_ok)

variable {s : Store}

/-! ## Single records -/

/-- An entry as it comes back: under the same key, the atom as it is read again. -/
def entryAsRead (e : Scalar × Atom) : Scalar × Atom := (e.1, e.2.asRead)

theorem asRead_imports {e : Scalar × Atom} (he : IsEntry e) :
    ∃ v, e.2.toRecord = .ok v ∧ Imports v.asRead (entryAsRead e) := by
  obtain ⟨id, hne, hkey, hid, hdeep⟩ := he
  obtain ⟨v, hv, hread⟩ := ofRecord_asRead hdeep
  refine ⟨v, hv, id, ?_, hkey, hread⟩
  obtain ⟨tv, av, outs, ins, -, -, -, -, rfl⟩ := toRecord_eq_ok hv
  rw [entriesOf_asRead, hid, Value.asRead_text]
  refine ⟨_, rfl, fun k hk => ?_, rfl, hne⟩
  obtain ⟨name, hname, rfl⟩ := List.mem_map.1 (show k ∈ recordFields.map .text from hk)
  exact ⟨name, hname, rfl⟩

/-- The records of a tidy store give its atoms as they are read again. -/
theorem asReadItems_imports {es : List (Scalar × Atom)} (hes : ∀ e ∈ es, IsEntry e) :
    ∃ vs, (es.map (·.2)).mapM Atom.toRecord = .ok vs ∧
      List.Forall₂ Imports (Value.asReadItems vs) (es.map entryAsRead) := by
  induction es with
  | nil => exact ⟨[], rfl, .nil⟩
  | cons e rest ih =>
    obtain ⟨v, hv, hentry⟩ := asRead_imports (hes e List.mem_cons_self)
    obtain ⟨vs, hvs, hrest⟩ := ih fun e he => hes e (List.mem_cons_of_mem _ he)
    refine ⟨v :: vs, ?_, .cons hentry hrest⟩
    rw [List.map_cons, List.mapM_cons, hv, Except.ok_bind, hvs]
    rfl

/-! ## The whole store -/

/-- The records of the store can be written, and the text holds what was written, with the
not-a-numbers as they are read. -/
def ReadsBack (s : Store) : Prop :=
  ∀ rs, s.records = .ok rs → ∃ text, Json.encode (.list rs) = .ok text ∧
    Json.read? text = some (Value.list rs).asRead

theorem keys_map_entryAsRead (es : Table Scalar Atom) :
    Table.keys (es.map entryAsRead) = es.keys := by
  unfold Table.keys
  rw [List.map_map]
  rfl

/-- What is read from the text of a tidy store are its own atoms. -/
theorem readImport_exportText (hs : IsTidy s) (htext : s.ReadsBack) :
    ∃ text, s.exportText = .ok text ∧
      readImport (.text text) = .ok (s.atoms.map entryAsRead) := by
  obtain ⟨vs, hvs, himports⟩ := asReadItems_imports hs.entries
  have hrecords : s.records = .ok vs := hvs
  obtain ⟨text, hencode, hread⟩ := htext vs hrecords
  refine ⟨text, ?_, ?_⟩
  · rw [exportText, hrecords]
    exact hencode
  · have hkeys := keys_map_entryAsRead s.atoms
    have hmerge : Table.merge [] (s.atoms.map entryAsRead) = s.atoms.map entryAsRead :=
      Table.merge_of_nodup (hkeys ▸ hs.sharp) (hkeys ▸ hs.nodup)
    have hholds : Holds (.text text) (Value.asReadItems vs) :=
      hread.trans (by rw [Value.asRead_list])
    rw [readImport_of_imports hholds himports, hmerge]

/-- **Round trip.** Exporting the atoms of a tidy store, clearing it and importing them again gives
the atoms back as they are read; only then the numbers in the ids are read. -/
theorem roundTrip_runOn (hs : IsTidy s) (htext : s.ReadsBack) :
    roundTrip.runOn s = match nextAfter s.atoms.keys with
      | .ok next => (.ok s.size, ⟨s.atoms.map entryAsRead, next⟩)
      | .error f => (.error f, ⟨s.atoms.map entryAsRead, 1⟩) := by
  obtain ⟨text, hexport, himport⟩ := readImport_exportText hs htext
  have hkeys := keys_map_entryAsRead s.atoms
  unfold roundTrip importText clear
  simp only [runOn_bind, runOn_get, runOn_lift, runOn_set, runOn_modify, runOn_pure, hexport,
    himport, hkeys]
  cases nextAfter s.atoms.keys with
  | error f => rfl
  | ok next =>
    dsimp only
    rw [List.length_map]
    rfl

/-- **Backup.** After any plain calls on an empty store, failed ones included, the atoms can be
exported, and importing them into the cleared store gives the same atoms in the same order, with all
fields as they are read at every depth: exactly the atoms there were, if there is no not-a-number in
them. The import returns how many there are, unless the number in an id has more digits than are
read. -/
theorem roundTrip_after {cs : List Command} (hcs : ∀ c ∈ cs, c.IsPlain)
    (htext : (after cs).ReadsBack) :
    (∃ text, (after cs).exportText = .ok text) ∧
    (roundTrip.runOn (after cs)).2.all = (after cs).all.map Atom.asRead ∧
    ((∀ a ∈ (after cs).all, a.hasNaN = false) →
      (roundTrip.runOn (after cs)).2.all = (after cs).all) ∧
    (roundTrip.runOn (after cs)).2.atoms.keys = (after cs).atoms.keys ∧
    ((∀ id ∈ (after cs).atoms.keys, ¬ OverLimit id) →
      (roundTrip.runOn (after cs)).1 = .ok (after cs).size) ∧
    ((∃ id ∈ (after cs).atoms.keys, OverLimit id) →
      (roundTrip.runOn (after cs)).1 = .error .tooManyDigits) := by
  have hs : IsTidy (after cs) := after_tidy hcs
  have hrun := roundTrip_runOn hs htext
  have hatoms : (roundTrip.runOn (after cs)).2.atoms = (after cs).atoms.map entryAsRead := by
    rw [hrun]
    cases nextAfter (after cs).atoms.keys <;> rfl
  have hall : (roundTrip.runOn (after cs)).2.all = (after cs).all.map Atom.asRead := by
    unfold all Table.values
    rw [hatoms, List.map_map, List.map_map]
    rfl
  obtain ⟨text, hexport, -⟩ := readImport_exportText hs htext
  refine ⟨⟨text, hexport⟩, hall, fun hnumbers => ?_, ?_, fun hshort => ?_, fun hlong => ?_⟩
  · have hself : ∀ a ∈ (after cs).all, a.asRead = id a := fun a ha =>
      Atom.asRead_eq_self (hnumbers a ha)
    rw [hall, List.map_congr_left hself, List.map_id]
  · rw [hatoms, keys_map_entryAsRead]
  · obtain ⟨next, hnext⟩ := nextAfter_eq_ok hshort
    rw [hrun, hnext]
  · rw [hrun, nextAfter_stops_iff.2 hlong]

/-- An atom that was added and renamed comes back, although a call in between was refused. -/
theorem roundTrip_after_rename :
    let cs : List Command := [
      .add (.record [("id", .text "a"), ("type", .text "t")]),
      .add (.record [("id", .text "b")]),
      .update (.text "a") (.record [("name", .text "n")])]
    (roundTrip.runOn (after cs)).1 = .ok 1 ∧
      (roundTrip.runOn (after cs)).2.all = (after cs).all := by
  intro cs
  have hcs : ∀ c ∈ cs, c.IsPlain := by
    rw [List.forall_mem_cons, List.forall_mem_cons, List.forall_mem_singleton]
    refine ⟨?_, ?_, ?_⟩
    · rintro es ⟨⟩
      exact .inr ⟨"a", rfl⟩
    · rintro es ⟨⟩
      exact .inr ⟨"b", rfl⟩
    · rintro es ⟨⟩ e he field hfield
      rw [List.mem_singleton.1 he] at hfield ⊢
      cases Option.some.inj hfield
      trivial
  have htext : (after cs).ReadsBack := by
    intro rs hrs
    have hrecords : (after cs).records = .ok [.map (Atom.entriesOf (.text "a") (.text "t")
      (.text "n") .null .null [] [] [])] := rfl
    cases hrecords.symm.trans hrs
    exact ⟨_, rfl, by decide +kernel⟩
  have hnumbers : ∀ a ∈ (after cs).all, a.hasNaN = false := by decide +kernel
  obtain ⟨-, -, hall, -, hsize, -⟩ := roundTrip_after hcs htext
  refine ⟨hsize fun id hid => ?_, hall hnumbers⟩
  have hkeys : (after cs).atoms.keys = [.text "a"] := rfl
  rw [hkeys, List.mem_singleton] at hid
  rintro ⟨ds, hds, -⟩
  have hnone : generatedDigits? (.text "a") = none := by decide +kernel
  rw [hid, hnone] at hds
  cases hds

end KnowledgeGraph.Store
