import KnowledgeGraph.Proofs.Atom.Deep

/-!
# Atoms and their records

Where the fields of an atom have their types at every depth, the atom is read again from its record
(`ofRecord_toRecord`). The record may be passed on in between, if that keeps texts, lists, maps and
the floats as numbers (`PassesOn.comesBack`).
-/

namespace KnowledgeGraph

namespace Atom

/-! ## Records with all fields -/

/-- The entries of a record with all fields. -/
def entriesOf (id type name truth attention : Value) (outgoing incoming : List Value)
    (metadata : Entries) : Entries :=
  Entries.ofFields [("id", id), ("type", type), ("name", name), ("truthValue", truth),
    ("attentionValue", attention), ("outgoing", .list outgoing), ("incoming", .list incoming),
    ("metadata", .map metadata)]

section Entries

variable {id type name tv av : Value} {label : String} {outs ins : List Value} {metadata : Entries}

theorem toRecord_eq_ok {a : Atom} {v : Value} (h : a.toRecord = .ok v) :
    ∃ tv av outs ins, writeSlot TruthValue.toValue a.truth = .ok tv ∧
      writeSlot AttentionValue.toValue a.attention = .ok av ∧
      toRecords a.outgoing = .ok outs ∧ toRecords a.incoming = .ok ins ∧
      v = .map (entriesOf a.id a.type a.name tv av outs ins a.metadata) := by
  obtain ⟨type, name, id, truth, attention, outgoing, incoming, metadata⟩ := a
  rw [toRecord] at h
  obtain ⟨tv, htv, h⟩ := Except.bind_eq_ok.1 h
  obtain ⟨av, hav, h⟩ := Except.bind_eq_ok.1 h
  obtain ⟨outs, houts, h⟩ := Except.bind_eq_ok.1 h
  obtain ⟨ins, hins, h⟩ := Except.bind_eq_ok.1 h
  cases h
  exact ⟨tv, av, outs, ins, htv, hav, houts, hins, rfl⟩

theorem toRecord_of_fields {a : Atom} (htv : writeSlot TruthValue.toValue a.truth = .ok tv)
    (hav : writeSlot AttentionValue.toValue a.attention = .ok av)
    (houts : toRecords a.outgoing = .ok outs) (hins : toRecords a.incoming = .ok ins) :
    a.toRecord = .ok (.map (entriesOf a.id a.type a.name tv av outs ins a.metadata)) := by
  obtain ⟨type, name, id, truth, attention, outgoing, incoming, metadata⟩ := a
  rw [toRecord, htv, Except.ok_bind, hav, Except.ok_bind, houts, Except.ok_bind, hins]
  rfl

theorem checkRecord_entriesOf :
    checkRecord (entriesOf id (.text label) name tv av outs ins metadata) =
      .ok (.text label, metadata) := by
  cases metadata <;> rfl

theorem fieldAtoms_outgoing :
    fieldAtoms "outgoing" (entriesOf id type name tv av outs ins metadata) = ofItems outs := by
  have hmembers : ofMembers (.list outs) = ofItems outs := by rw [ofMembers]
  exact hmembers ▸ rfl

theorem fieldAtoms_incoming :
    fieldAtoms "incoming" (entriesOf id type name tv av outs ins metadata) = ofItems ins := by
  have hmembers : ofMembers (.list ins) = ofItems ins := by rw [ofMembers]
  exact hmembers ▸ rfl

theorem ofRecord_entriesOf {truth : Slot TruthValue} {attention : Slot AttentionValue}
    {outgoing incoming : List Atom} (htruth : Slot.read TruthValue.ofValue tv = .ok truth)
    (hattention : Slot.read AttentionValue.ofValue av = .ok attention)
    (hout : ofItems outs = .ok outgoing) (hin : ofItems ins = .ok incoming) :
    ofRecord (.map (entriesOf id (.text label) name tv av outs ins metadata)) =
      .ok ⟨.text label, name, id, truth, attention, outgoing.map .known, incoming.map .known,
        metadata⟩ := by
  have heither : Entries.either (entriesOf id (.text label) name tv av outs ins metadata)
      "truthValue" "truth_value" = tv := rfl
  have heither' : Entries.either (entriesOf id (.text label) name tv av outs ins metadata)
      "attentionValue" "attention_value" = av := rfl
  rw [ofRecord, checkRecord_entriesOf, Except.ok_bind]
  dsimp only
  rw [heither, htruth, Except.ok_bind, heither', hattention, Except.ok_bind, fieldAtoms_outgoing,
    hout, Except.ok_bind, fieldAtoms_incoming, hin]
  rfl

end Entries

/-! ## Passing values on -/

theorem ofItems_toRecords {pass : Value → Value} {passAtom : Atom → Atom}
    {slots : List (Slot Atom)} (h : ∀ m ∈ slots, ∃ b v, m = .known b ∧
      b.toRecord = .ok v ∧ ofRecord (pass v) = .ok (passAtom b)) :
    ∃ (vs : List Value) (bs : List Atom), toRecords slots = .ok vs ∧ slots = bs.map .known ∧
      ofItems (vs.map pass) = .ok (bs.map passAtom) := by
  induction slots with
  | nil => exact ⟨[], [], by rw [toRecords], rfl, by rw [List.map_nil, ofItems]; rfl⟩
  | cons m rest ih =>
    rw [List.forall_mem_cons] at h
    obtain ⟨⟨b, v, rfl, hv, hb⟩, hrest⟩ := h
    obtain ⟨vs, bs, hvs, rfl, hbs⟩ := ih hrest
    refine ⟨v :: vs, b :: bs, ?_, rfl, ?_⟩
    · rw [toRecords, hv, Except.ok_bind, hvs]
      rfl
    · rw [List.map_cons, ofItems, hb, Except.ok_bind, hbs]
      rfl

/-- Values and atoms are passed on in a way that keeps texts, lists and maps as they are, the keys
included, and floats as numbers. -/
structure PassesOn (pass : Value → Value) (passAtom : Atom → Atom) : Prop where
  null : pass .null = .null
  text (s : String) : pass (.text s) = .text s
  float (x : Float) : (pass (.float x)).toFloat = .ok x
  list (items : List Value) : pass (.list items) = .list (items.map pass)
  map (es : Entries) : pass (.map es) = .map (es.map fun e => (e.1, pass e.2))
  atom (type name id : Value) (truth : Slot TruthValue) (attention : Slot AttentionValue)
    (outgoing incoming : List Atom) (metadata : Entries) :
    passAtom ⟨type, name, id, truth, attention, outgoing.map .known, incoming.map .known,
        metadata⟩ =
      ⟨type, pass name, pass id, truth, attention, (outgoing.map passAtom).map .known,
        (incoming.map passAtom).map .known, metadata.map fun e => (e.1, pass e.2)⟩

namespace PassesOn

theorem unchanged : PassesOn (fun v => v) fun a => a where
  null := rfl
  text _ := rfl
  float _ := rfl
  list items := by rw [List.map_id']
  map es := by rw [List.map_id']
  atom _ _ _ _ _ outgoing incoming metadata := by rw [List.map_id', List.map_id', List.map_id']

variable {pass : Value → Value} {passAtom : Atom → Atom} (hpass : PassesOn pass passAtom)
include hpass

theorem record (fields : List (String × Value)) :
    pass (.record fields) = .record (fields.map fun f => (f.1, pass f.2)) := by
  unfold Value.record Entries.ofFields
  rw [hpass.map, List.map_map, List.map_map]
  rfl

theorem truth {t : TruthValue} (h : t.IsClamped) : TruthValue.ofValue (pass t.toValue) = .ok t := by
  have hstrength : (pass t.toValue).index "strength" = .ok (pass (.float t.strength)) := by
    rw [TruthValue.toValue, hpass.record]
    rfl
  have hconfidence : (pass t.toValue).index "confidence" = .ok (pass (.float t.confidence)) := by
    rw [TruthValue.toValue, hpass.record]
    rfl
  unfold TruthValue.ofValue
  rw [hstrength, Except.ok_bind, hconfidence, Except.ok_bind, hpass.float, Except.ok_bind,
    hpass.float, Except.ok_bind, Except.pure_eq, h]

theorem attention (a : AttentionValue) : AttentionValue.ofValue (pass a.toValue) = .ok a := by
  have hsti : AttentionValue.ofValue.component (pass a.toValue) "sti" = .ok a.sti := by
    rw [AttentionValue.toValue, hpass.record]
    exact hpass.float a.sti
  have hlti : AttentionValue.ofValue.component (pass a.toValue) "lti" = .ok a.lti := by
    rw [AttentionValue.toValue, hpass.record]
    exact hpass.float a.lti
  have hvlti : AttentionValue.ofValue.component (pass a.toValue) "vlti" = .ok a.vlti := by
    rw [AttentionValue.toValue, hpass.record]
    exact hpass.float a.vlti
  unfold AttentionValue.ofValue
  rw [hsti, hlti, hvlti]
  rfl

theorem isAbsent_record (field : String × Value) (fields : List (String × Value)) :
    (pass (.record (field :: fields))).isAbsent = false := by
  rw [hpass.record]
  rfl

theorem slot {α : Type} {P : α → Prop} {write : α → Value} {reader : Value → Except Fault α}
    {s : Slot α} (hs : s.Fits P) (hpresent : ∀ a, (pass (write a)).isAbsent = false)
    (hreader : ∀ a, P a → reader (pass (write a)) = .ok a) :
    ∃ v, writeSlot write s = .ok v ∧ Slot.read reader (pass v) = .ok s := by
  cases hs with
  | empty => exact ⟨.null, rfl, by rw [hpass.null]; rfl⟩
  | known h =>
    refine ⟨_, rfl, ?_⟩
    show Slot.read reader (pass (write _)) = _
    unfold Slot.read
    rw [hpresent, if_neg Bool.false_ne_true, hreader _ h]
    rfl

theorem entriesOf (id type name tv av : Value) (outs ins : List Value) (metadata : Entries) :
    pass (.map (Atom.entriesOf id type name tv av outs ins metadata)) =
      .map (Atom.entriesOf (pass id) (pass type) (pass name) (pass tv) (pass av) (outs.map pass)
        (ins.map pass) (metadata.map fun e => (e.1, pass e.2))) := by
  refine (hpass.record _).trans ?_
  simp only [List.map_cons, List.map_nil, hpass.list, hpass.map]
  rfl

/-- **Records that come back.** An atom whose fields have their types at every depth is written to a
record, and from the record as it is passed on the atom is read as it is passed on. -/
theorem comesBack {a : Atom} (h : a.Deep members WellTyped) :
    ∃ v, a.toRecord = .ok v ∧ ofRecord (pass v) = .ok (passAtom a) := by
  induction h with
  | @intro a here slots _ ih =>
    have hmembers : ∀ m ∈ a.members, ∃ b v, m = .known b ∧ b.toRecord = .ok v ∧
        ofRecord (pass v) = .ok (passAtom b) := by
      intro m hm
      obtain ⟨b, rfl⟩ := slots m hm
      obtain ⟨v, hv⟩ := ih b hm
      exact ⟨b, v, rfl, hv⟩
    obtain ⟨type, name, id, truth, attention, outgoing, incoming, metadata⟩ := a
    obtain ⟨⟨label, htype⟩, htruth, hattention⟩ := here
    obtain ⟨tv, hwt, hrt⟩ := hpass.slot htruth (fun _ => hpass.isAbsent_record _ _)
      fun _ => hpass.truth
    obtain ⟨av, hwa, hra⟩ := hpass.slot hattention (fun _ => hpass.isAbsent_record _ _)
      fun a _ => hpass.attention a
    obtain ⟨outs, outAtoms, hwo, hout, hro⟩ :=
      ofItems_toRecords fun m hm => hmembers m (List.mem_append_left _ hm)
    obtain ⟨ins, inAtoms, hwi, hin, hri⟩ :=
      ofItems_toRecords fun m hm => hmembers m (List.mem_append_right _ hm)
    dsimp only at *
    subst htype hout hin
    refine ⟨_, toRecord_of_fields hwt hwa hwo hwi, ?_⟩
    rw [hpass.entriesOf, hpass.text, ofRecord_entriesOf hrt hra hro hri, hpass.atom]

end PassesOn

/-- **Records.** From the record of an atom whose fields have their types at every depth the atom is
read again. -/
theorem ofRecord_toRecord {a : Atom} (h : a.Deep members WellTyped) :
    ∃ v, a.toRecord = .ok v ∧ ofRecord v = .ok a :=
  PassesOn.unchanged.comesBack h

end Atom

end KnowledgeGraph
