import KnowledgeGraph.Proofs.Atom.AsRead
import KnowledgeGraph.Proofs.Store.Tidy
import KnowledgeGraph.Proofs.Value.Writable

/-!
# Well-formed atoms

An update keeps values that are no maps as they come, so that it may put a value of another kind into
a field (`Spoils`). As long as no update does, all atoms of a store are well-formed, and the store can
be exported if no number in them has too many digits; the first update that does leaves an atom that is
not (`after_wellFormed`). What is at fault then is a field of the atom itself: what is read as a truth
value is in the unit interval, and what is read as an atom is well-formed, whatever the calls.
-/

namespace KnowledgeGraph.Store

open Atom (IsWellFormed WellTyped members)

variable {s : Store} {c : Command} {o : Except Fault Value} {atoms : Table Scalar Atom}

/-! ## Calls -/

/-- **What is read.** However a call ends, what is read in the atoms stays in order. -/
theorem Ends.isRead (h : Ends s c o atoms) (hs : ∀ a ∈ s.all, a.IsRead) :
    ∀ a ∈ atoms.values, a.IsRead := by
  induction h with
  | refused | looked _ | notRemoved _ | notUpdated _ _ => exact hs
  | @appended s record a ha _ =>
    have hread := (Atom.ofRecord_deep ha).isRead
    intro b hb
    rw [Table.values_append] at hb
    obtain hb | hb := List.mem_append.1 hb
    · exact hs b hb
    · obtain rfl := List.mem_singleton.1 hb
      exact ⟨hread.truth, hread.atoms⟩
  | stored ha _ _ =>
    intro b hb
    obtain rfl | hb := Table.mem_values_put hb
    · exact (Atom.ofRecord_deep ha).isRead
    · exact hs b hb
  | removed _ _ => exact fun b hb => hs b (Table.mem_values_erase hb)
  | updated _ ha hb =>
    have hread := assignAll_isRead (hs _ (Table.mem_values_of_lookup? ha)) hb
    intro x hx
    obtain rfl | hx := Table.mem_values_put hx
    · exact hread.withId _
    · exact hs x hx
  | cleared => exact nofun
  | imported hread | overLimit hread =>
    intro b hb
    obtain ⟨e, he, rfl⟩ := List.mem_map.1 hb
    obtain ⟨-, -, -, -, hdeep⟩ := (readImport_tidy hread).entries e he
    exact hdeep.isRead
  | exchanged _ _ ih => exact ih nofun

theorem after_isRead (cs : List Command) : ∀ a ∈ (after cs).all, a.IsRead :=
  after_keeps (I := fun s => ∀ a ∈ s.all, a.IsRead) nofun fun _ _ _ hs => (perform_ends rfl).isRead hs

/-- An update that comes out well and gives an attribute a value that should not be put there. -/
def Command.Spoils (o : Except Fault Value) : Command → Prop
  | .update _ updates => o = .ok (.bool true) ∧ ∃ es field v, updates = .map es ∧
      Attribute.given? field es = some v ∧ ¬ field.Proper v
  | _ => False

/-- **Calls.** Well-formed atoms stay well-formed, except where an update spoils one. -/
theorem Ends.deep_iff (h : Ends s c o atoms) (hs : ∀ a ∈ s.all, a.Deep members WellTyped) :
    (∀ a ∈ atoms.values, a.Deep members IsWellFormed) ↔ ¬ c.Spoils o := by
  have hdeep : ∀ a ∈ s.all, a.Deep members IsWellFormed :=
    fun a ha => (hs a ha).imp fun _ => WellTyped.isWellFormed
  induction h with
  | @refused s c f =>
    refine iff_of_true hdeep ?_
    cases c <;> simp [Command.Spoils]
  | @looked s c v hc =>
    refine iff_of_true hdeep ?_
    cases c <;> simp_all [Command.Spoils, Command.Looks]
  | @appended s record a ha _ =>
    refine iff_of_true (fun b hb => ?_) not_false
    rw [Table.values_append] at hb
    obtain hb | hb := List.mem_append.1 hb
    · exact hdeep b hb
    · obtain rfl := List.mem_singleton.1 hb
      exact (deep_withId _ (Atom.ofRecord_deep ha)).imp fun _ => WellTyped.isWellFormed
  | stored ha _ _ =>
    refine iff_of_true (fun b hb => ?_) not_false
    obtain rfl | hb := Table.mem_values_put hb
    · exact (Atom.ofRecord_deep ha).imp fun _ => WellTyped.isWellFormed
    · exact hdeep b hb
  | removed _ _ => exact iff_of_true (fun b hb => hdeep b (Table.mem_values_erase hb)) not_false
  | notRemoved _ => exact iff_of_true hdeep not_false
  | @updated s id key es a b hkey ha hb =>
    have hb := deep_of_assignAll (hs a (Table.mem_values_of_lookup? ha)) hb id
    have hspoils : ¬ (Command.update id (.map es)).Spoils (.ok (.bool true)) ↔
        Atom.Deep members IsWellFormed { b with id } := by
      rw [hb]
      simp [Command.Spoils]
    rw [hspoils]
    constructor
    · exact fun hall => hall _ (Table.mem_values_put_self _ _ _)
    · intro hnew x hx
      obtain rfl | hx := Table.mem_values_put hx
      · exact hnew
      · exact hdeep x hx
  | notUpdated _ _ => exact iff_of_true hdeep (by simp [Command.Spoils])
  | cleared => exact iff_of_true nofun not_false
  | imported hread | overLimit hread =>
    refine iff_of_true (fun b hb => ?_) not_false
    obtain ⟨e, he, rfl⟩ := List.mem_map.1 hb
    obtain ⟨-, -, -, -, hdeep⟩ := (readImport_tidy hread).entries e he
    exact hdeep.imp fun _ => WellTyped.isWellFormed
  | exchanged _ _ ih => exact ih nofun nofun

/-! ## Runs -/

/-- No call in a row spoils an atom. -/
def Unspoiled : Store → List Command → Prop
  | _, [] => True
  | s, c :: cs => ¬ c.Spoils ((perform c).runOn s).1 ∧ Unspoiled ((perform c).runOn s).2 cs

/-- **Runs.** As long as no call spoils an atom, all atoms are well-formed. -/
theorem Unspoiled.deep {cs : List Command} (h : s.Unspoiled cs) (hread : ∀ a ∈ s.all, a.IsRead)
    (hs : ∀ a ∈ s.all, a.Deep members WellTyped) :
    ∀ a ∈ (s.continued cs).all, a.Deep members WellTyped := by
  induction cs generalizing s with
  | nil => exact hs
  | cons c rest ih =>
    have hends : Ends s c _ _ := perform_ends rfl
    have hnext := hends.isRead hread
    refine ih h.2 hnext fun a ha => ?_
    exact deep_wellTyped (hnext a ha) ((hends.deep_iff hs).2 h.1 a ha)

/-- Well-formed atoms can be exported, unless a number in one of their records has too many digits. -/
theorem exportText_of_wellTyped (hs : ∀ a ∈ s.all, a.Deep members WellTyped) :
    (Except.Returns s.exportText ↔ ∀ a ∈ s.all, ∃ v, a.toRecord = .ok v ∧ v.isWritable = true) ∧
      Except.FailsWith (· = .tooManyDigits) s.exportText := by
  have hrecords : Except.Returns s.records := by
    refine Except.returns_mapM fun a ha => ?_
    obtain ⟨v, hv, -⟩ := Atom.ofRecord_asRead (hs a ha)
    exact ⟨v, hv⟩
  obtain ⟨records, hrecords⟩ := hrecords
  have hexport : s.exportText = Json.encode (.list records) := by
    rw [exportText, hrecords]
    rfl
  have hwritable : (Value.list records).isWritable = true ↔
      ∀ a ∈ s.all, ∃ v, a.toRecord = .ok v ∧ v.isWritable = true := by
    rw [Value.isWritable_list, List.all_eq_true]
    constructor
    · intro h a ha
      obtain ⟨v, hv, hread⟩ := Except.exists_target_of_mapM_eq_ok hrecords ha
      exact ⟨v, hread, h v hv⟩
    · intro h v hv
      obtain ⟨a, ha, hread⟩ := Except.exists_source_of_mapM_eq_ok hrecords hv
      obtain ⟨w, hw, hwritable⟩ := h a ha
      exact Except.ok.inj (hread.symm.trans hw) ▸ hwritable
  rw [hexport, ← hwritable]
  refine ⟨⟨fun ⟨text, h⟩ => (Value.ifWritable_eq_ok.1 h).1, fun h => ?_⟩, fun f h => ?_⟩
  · exact ⟨_, Value.ifWritable_eq_ok.2 ⟨h, rfl⟩⟩
  · exact (Value.ifWritable_eq_error.1 h).2

/-- **Well-formed atoms.** Whatever the calls, with whatever arguments, what is read as a truth value
is in the unit interval, and what is read as an atom that another one holds is well-formed at every
depth. As long as no update has spoiled an atom, every atom is well-formed and comes back from its
record, and the store can be exported if no number in a record has too many digits, which is all that
can stop it; and then a further call leaves all atoms well-formed exactly if it is no update that spoils
one. -/
theorem after_wellFormed (cs : List Command) :
    (∀ a ∈ (after cs).all, (∀ t, a.truth = .known t → InUnit t.strength ∧ InUnit t.confidence) ∧
      ∀ b, .known b ∈ a.members → b.Deep members IsWellFormed) ∧
    (empty.Unspoiled cs →
      (∀ a ∈ (after cs).all, a.Deep members IsWellFormed ∧ a.ComesBack) ∧
      (Except.Returns (after cs).exportText ↔
        ∀ a ∈ (after cs).all, ∃ v, a.toRecord = .ok v ∧ v.isWritable = true) ∧
      Except.FailsWith (· = .tooManyDigits) (after cs).exportText ∧
      ∀ c, (∀ a ∈ ((perform c).runOn (after cs)).2.all, a.Deep members IsWellFormed) ↔
        ¬ c.Spoils ((perform c).runOn (after cs)).1) := by
  constructor
  · intro a ha
    have hread := after_isRead cs a ha
    exact ⟨fun t ht => (hread.truth t ht).inUnit,
      fun b hb => (hread.atoms b hb).imp fun _ => WellTyped.isWellFormed⟩
  · intro hcs
    have hdeep : ∀ a ∈ (after cs).all, a.Deep members WellTyped := hcs.deep nofun nofun
    obtain ⟨hexport, hfails⟩ := exportText_of_wellTyped hdeep
    refine ⟨fun a ha => ?_, hexport, hfails, fun c => (perform_ends rfl).deep_iff hdeep⟩
    exact ⟨(hdeep a ha).imp fun _ => WellTyped.isWellFormed, Atom.ofRecord_asRead (hdeep a ha)⟩

/-- A number that an update gives for a type leaves an atom that is not well-formed. -/
theorem after_wellFormed_number :
    let s := after [.add (.record [("id", .text "a"), ("type", .text "t")])]
    let c : Command := .update (.text "a") (.record [("type", .int 5)])
    (∀ a ∈ s.all, a.Deep members IsWellFormed) ∧
      ∃ a ∈ ((perform c).runOn s).2.all, ¬ a.Deep members IsWellFormed := by
  intro s c
  obtain ⟨-, hcalls⟩ := after_wellFormed [.add (.record [("id", .text "a"), ("type", .text "t")])]
  obtain ⟨hdeep, -, -, hnext⟩ := hcalls ⟨not_false, trivial⟩
  have hspoils : c.Spoils ((perform c).runOn s).1 := by
    refine ⟨rfl, _, .type, .int 5, rfl, rfl, ?_⟩
    rintro ⟨label, hlabel⟩
    cases hlabel
  have hbad := mt (hnext c).1 (not_not.2 hspoils)
  simp only [not_forall] at hbad
  obtain ⟨a, ha, hnot⟩ := hbad
  exact ⟨fun a ha => (hdeep a ha).1, a, ha, hnot⟩

end KnowledgeGraph.Store
