import KnowledgeGraph.Proofs.Atom.Inverse
import KnowledgeGraph.Proofs.Json.Keys

/-!
# Atoms from a text

A property that a record has in common with the values in it is one of the values in its atom
(`ofRecord_hasValues`) and of the record that is written for the atom (`toRecord_hasValues`). So a
record that is read from a text, which has texts for the keys of all its maps, makes an atom of such
values (`ofRecord_isJson`), for which a record of such values is written (`exists_toRecord_isJson`).
-/

namespace KnowledgeGraph.Atom

/-- The fields of an atom have their types, and the values in it a property. -/
structure HasValues (P : Value → Prop) (a : Atom) : Prop where
  wellTyped : a.WellTyped
  name : P a.name
  id : P a.id
  metadata : P (.map a.metadata)

/-- The fields of an atom have their types, and the maps in its values have texts for keys. -/
structure IsJson (a : Atom) : Prop where
  wellTyped : a.WellTyped
  name : a.name.IsJson
  id : a.id.IsJson
  metadata : (Value.map a.metadata).IsJson

variable {a : Atom} {v : Value} {es : Entries}

theorem isJson_iff : a.IsJson ↔ a.HasValues Value.IsJson :=
  ⟨fun h => ⟨h.wellTyped, h.name, h.id, h.metadata⟩,
    fun h => ⟨h.wellTyped, h.name, h.id, h.metadata⟩⟩

theorem mem_of_toRecords {slots : List (Slot Atom)} {vs : List Value}
    (h : toRecords slots = .ok vs) : ∀ v ∈ vs, ∃ b, .known b ∈ slots ∧ b.toRecord = .ok v := by
  induction slots generalizing vs with
  | nil =>
    rw [toRecords] at h
    cases h
    exact List.forall_mem_nil _
  | cons m rest ih =>
    cases m with
    | raw _ =>
      rw [toRecords] at h
      cases h
    | known b =>
      rw [toRecords] at h
      obtain ⟨w, hw, h⟩ := Except.bind_eq_ok.1 h
      obtain ⟨ws, hws, h⟩ := Except.bind_eq_ok.1 h
      cases h
      refine List.forall_mem_cons.2 ⟨⟨b, List.mem_cons_self, hw⟩, fun v hv => ?_⟩
      obtain ⟨c, hc, hv⟩ := ih hws v hv
      exact ⟨c, List.mem_cons_of_mem _ hc, hv⟩

section

variable {P : Value → Prop} (hP : Value.IsHereditary P)
include hP

/-! ## Reading -/

theorem Nested.hasValues (h : Nested v es) (hv : P v) : P (.map es) := by
  induction h with
  | here es => exact hv
  | held _ hitems hmem _ ih => exact ih (hP.item (hP.get? hv hitems) hmem)

theorem checkRecord_hasValues {type : Value} {metadata : Entries} (hes : P (.map es))
    (h : checkRecord es = .ok (type, metadata)) : P (.map metadata) := by
  rw [← (checkRecord_eq_ok h).2, Value.orElse]
  by_cases habsent : ((Entries.get? es "metadata").getD .null).isAbsent = true
  · rw [if_pos habsent]
    have hempty : P (.record []) := hP.record .nil nofun
    exact hempty
  · rw [if_neg habsent]
    exact hP.getD hes "metadata"

/-- **Reading.** The values in the atom of a record have the property if the record has it, at every
depth. -/
theorem ofRecord_hasValues (hv : P v) (h : ofRecord v = .ok a) :
    a.Deep members (HasValues P) := by
  refine (ofRecord_deep_readIn h).imp fun b hread => ?_
  obtain ⟨es, hnested, hb⟩ := hread
  have hes := hnested.hasValues hP hv
  obtain ⟨htyped, hname, hid, hcheck, -⟩ := ofRecord_fields hb
  exact ⟨htyped, hname ▸ hP.getD hes "name", hid ▸ hP.getD hes "id",
    checkRecord_hasValues hP hes hcheck⟩

/-! ## Writing -/

theorem writeSlot_hasValues {α : Type} {write : α → Value} {s : Slot α}
    (hwrite : ∀ a, P (write a)) (h : writeSlot write s = .ok v) : P v := by
  obtain ⟨found, -, h⟩ := Except.bind_eq_ok.1 h
  cases h
  cases found with
  | none => exact hP.scalar rfl
  | some a => exact hwrite a

/-- **Writing.** The record of an atom has the property if the values in the atom have it, at every
depth. -/
theorem toRecord_hasValues (h : a.Deep members (HasValues P)) : ∀ v, a.toRecord = .ok v → P v := by
  induction h with
  | @intro a here _ _ ih =>
    intro v hv
    obtain ⟨tv, av, outs, ins, htv, hav, houts, hins, rfl⟩ := toRecord_eq_ok hv
    have hitems {slots : List (Slot Atom)} {vs : List Value} (hvs : toRecords slots = .ok vs)
        (hslots : ∀ m ∈ slots, m ∈ a.members) : P (.list vs) := by
      refine hP.list fun w hw => ?_
      obtain ⟨b, hb, hw⟩ := mem_of_toRecords hvs w hw
      exact ih b (hslots _ hb) w hw
    have hfloat (x : Float) : P (.float x) := hP.scalar rfl
    have htype : P a.type := by
      obtain ⟨s, hs⟩ := here.wellTyped.type
      exact hs ▸ hP.scalar rfl
    have htruth : P tv := by
      refine writeSlot_hasValues hP (fun t => hP.record (by simp) ?_) htv
      simp [hfloat]
    have hattention : P av := by
      refine writeSlot_hasValues hP (fun t => hP.record (by simp) ?_) hav
      simp [hfloat]
    have hout : P (.list outs) := hitems houts fun _ => List.mem_append_left _
    have hin : P (.list ins) := hitems hins fun _ => List.mem_append_right _
    refine hP.record (by simp) ?_
    simp [here.id, htype, here.name, htruth, hattention, hout, hin, here.metadata]

end

/-! ## Texts for keys -/

/-- The values in the atom of a record could be read from a text if the record could, at every
depth. -/
theorem ofRecord_isJson (hv : v.IsJson) (h : ofRecord v = .ok a) : a.Deep members IsJson :=
  (ofRecord_hasValues Value.isHereditary_isJson hv h).imp fun _ => isJson_iff.2

theorem toRecord_isJson (h : a.Deep members IsJson) : ∀ v, a.toRecord = .ok v → v.IsJson :=
  toRecord_hasValues Value.isHereditary_isJson (h.imp fun _ => isJson_iff.1)

/-- **Keys.** A record is written for an atom from a text, and it has texts for keys. -/
theorem exists_toRecord_isJson (h : a.Deep members IsJson) : ∃ v, a.toRecord = .ok v ∧ v.IsJson := by
  obtain ⟨v, hv, -⟩ := ofRecord_toRecord (h.imp fun _ hb => hb.wellTyped)
  exact ⟨v, hv, toRecord_isJson h v hv⟩

end KnowledgeGraph.Atom
