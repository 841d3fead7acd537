import KnowledgeGraph.Proofs.Atom.Deep

/-!
# Faults of records

Reading a record stops at faults that say that the record is malformed, and at two others: the
record, or one that it holds at some depth, has something other than a map for its attention value,
or a whole number beyond the range of floats in its truth or its attention value
(`ofRecord_failsWith`).
-/

namespace KnowledgeGraph

/-! ## Numbers -/

/-- A whole number beyond the range of floats. -/
def Value.IsHuge (v : Value) : Prop := ∃ n, v = .int n ∧ floatOfInt n = .error .outOfRange

theorem floatOfInt_error {n : Int} {f : Fault} (h : floatOfInt n = .error f) : f = .outOfRange := by
  unfold floatOfInt at h
  dsimp only at h
  split at h
  · cases h
    rfl
  · cases h

/-- A value that is not read as a number is of the wrong kind or form, or a whole number that is too
large. -/
theorem Value.toFloat_failsWith (v : Value) :
    Except.FailsWith (fun f => f.isMalformed = true ∨ f = .outOfRange ∧ v.IsHuge) v.toFloat := by
  intro f h
  cases v with
  | scalar k =>
    cases k with
    | int n =>
      obtain rfl := floatOfInt_error h
      exact .inr ⟨rfl, n, rfl, h⟩
    | text s =>
      unfold Value.toFloat Scalar.toFloat at h
      dsimp only at h
      split at h
      · cases h
      · cases h
        exact .inl rfl
    | null =>
      cases h
      exact .inl rfl
    | bool _ | float _ | nan _ => cases h
  | list _ | map _ =>
    cases h
    exact .inl rfl

theorem Value.index_failsWith (v : Value) (name : String) :
    Except.FailsWith (fun f => f.isMalformed = true) (v.index name) := by
  unfold Value.index
  split
  · split
    · exact Except.failsWith_ok _
    · exact Except.failsWith_error rfl
  · exact Except.failsWith_error rfl

/-! ## Truth and attention -/

/-- A whole number beyond the range of floats stands under one of the names. -/
def Value.HasHuge (v : Value) (names : List String) : Prop :=
  ∃ es w, v = .map es ∧ (∃ name ∈ names, Entries.get? es name = some w) ∧ w.IsHuge

theorem Value.index_hasHuge {v w : Value} {name : String} {names : List String}
    (h : v.index name = .ok w) (hname : name ∈ names) (hw : w.IsHuge) : v.HasHuge names := by
  unfold Value.index at h
  split at h
  · rename_i es
    split at h
    · rename_i hget
      cases h
      exact ⟨es, w, rfl, ⟨name, hname, hget⟩, hw⟩
    · cases h
  · cases h

theorem TruthValue.ofValue_failsWith (v : Value) :
    Except.FailsWith (fun f => f.isMalformed = true ∨
      f = .outOfRange ∧ v.HasHuge ["strength", "confidence"]) (TruthValue.ofValue v) := by
  have hindex (name : String) : Except.FailsWith (fun f => f.isMalformed = true ∨
      f = .outOfRange ∧ v.HasHuge ["strength", "confidence"]) (v.index name) :=
    fun f h => .inl (v.index_failsWith name f h)
  refine (hindex _).bind fun strength hstrength => (hindex _).bind fun confidence hconfidence => ?_
  refine Except.FailsWith.bind ?_ fun _ _ => ?_
  · exact fun f h => (strength.toFloat_failsWith f h).imp_right fun ⟨hf, hhuge⟩ =>
      ⟨hf, Value.index_hasHuge hstrength (by simp) hhuge⟩
  · refine Except.FailsWith.bind ?_ fun _ _ => Except.failsWith_ok _
    exact fun f h => (confidence.toFloat_failsWith f h).imp_right fun ⟨hf, hhuge⟩ =>
      ⟨hf, Value.index_hasHuge hconfidence (by simp) hhuge⟩

/-- A component of an attention value, which is to be a map or to have no components. -/
theorem AttentionValue.component_failsWith (v : Value) {name : String}
    (hname : name ∈ ["sti", "lti", "vlti"]) :
    Except.FailsWith (fun f => f.isMalformed = true ∨ f = .noSuchField ∧ (∀ es, v ≠ .map es) ∨
      f = .outOfRange ∧ v.HasHuge ["sti", "lti", "vlti"]) (ofValue.component v name) := by
  unfold ofValue.component
  cases v with
  | map es =>
    show Except.FailsWith _ ((Entries.get? es name).getD (.float 0)).toFloat
    cases hget : Entries.get? es name with
    | none => exact Except.failsWith_ok _
    | some w =>
      exact fun f h => (w.toFloat_failsWith f h).imp_right fun ⟨hf, hhuge⟩ =>
        .inr ⟨hf, es, w, rfl, ⟨name, hname, hget⟩, hhuge⟩
  | scalar _ | list _ => exact Except.failsWith_error (.inr (.inl ⟨rfl, nofun⟩))

theorem AttentionValue.ofValue_failsWith (v : Value) :
    Except.FailsWith (fun f => f.isMalformed = true ∨ f = .noSuchField ∧ (∀ es, v ≠ .map es) ∨
      f = .outOfRange ∧ v.HasHuge ["sti", "lti", "vlti"]) (AttentionValue.ofValue v) := by
  unfold ofValue
  refine (component_failsWith v (by simp)).bind fun _ _ => ?_
  refine (component_failsWith v (by simp)).bind fun _ _ => ?_
  exact (component_failsWith v (by simp)).bind fun _ _ => Except.failsWith_ok _

/-! ## Records -/

namespace Atom

/-- The fields of a record lead to a fault that is not expected of records: its attention value is
something other than a map, or has too large a number, or its truth value has one. -/
def IsUnexpected (f : Fault) (es : Entries) : Prop :=
  let truth := Entries.either es "truthValue" "truth_value"
  let attention := Entries.either es "attentionValue" "attention_value"
  f = .noSuchField ∧ attention.isAbsent = false ∧ (∀ fs, attention ≠ .map fs) ∨
    f = .outOfRange ∧ (truth.HasHuge ["strength", "confidence"] ∨
      attention.HasHuge ["sti", "lti", "vlti"])

/-- The fault says that a record is malformed, or it comes from a record within the value. -/
def Explains (v : Value) (f : Fault) : Prop :=
  f.isMalformed = true ∨ ∃ es, Nested v es ∧ IsUnexpected f es

variable {es : Entries} {f : Fault}

theorem Explains.malformed {v : Value} (h : f.isMalformed = true) : Explains v f := .inl h

/-- What explains a fault within a held record explains it within the whole. -/
theorem Explains.held {name : String} {items : List Value} {v : Value} (h : Explains v f)
    (hname : name ∈ ["outgoing", "incoming"])
    (hitems : Entries.get? es name = some (.list items)) (hv : v ∈ items) : Explains (.map es) f :=
  h.imp_right fun ⟨fs, hnested, hf⟩ => ⟨fs, hnested.held hname hitems hv, hf⟩

theorem checkRecord_failsWith (es : Entries) :
    Except.FailsWith (fun f => f.isMalformed = true) (checkRecord es) := by
  unfold checkRecord
  split
  · split
    · exact Except.failsWith_ok _
    · exact Except.failsWith_error rfl
  · exact Except.failsWith_error rfl

theorem slot_failsWith {α : Type} {P : Fault → Prop} {reader : Value → Except Fault α} {v : Value}
    (h : v.isAbsent = false → Except.FailsWith P (reader v)) :
    Except.FailsWith P (Slot.read reader v) := by
  unfold Slot.read
  split
  · exact Except.failsWith_ok _
  · rename_i hpresent
    exact Except.FailsWith.bind (h (Bool.eq_false_iff.2 hpresent)) fun _ _ => Except.failsWith_ok _

theorem truth_failsWith (es : Entries) : Except.FailsWith (Explains (.map es))
    (Slot.read TruthValue.ofValue (Entries.either es "truthValue" "truth_value")) := by
  refine slot_failsWith fun _ f h => ?_
  obtain hf | ⟨hf, hhuge⟩ := TruthValue.ofValue_failsWith _ f h
  · exact .malformed hf
  · exact .inr ⟨es, .here es, .inr ⟨hf, .inl hhuge⟩⟩

theorem attention_failsWith (es : Entries) : Except.FailsWith (Explains (.map es))
    (Slot.read AttentionValue.ofValue (Entries.either es "attentionValue" "attention_value")) := by
  refine slot_failsWith fun hpresent f h => ?_
  obtain hf | ⟨hf, hnomap⟩ | ⟨hf, hhuge⟩ := AttentionValue.ofValue_failsWith _ f h
  · exact .malformed hf
  · exact .inr ⟨es, .here es, .inl ⟨hf, hpresent, hnomap⟩⟩
  · exact .inr ⟨es, .here es, .inr ⟨hf, .inr hhuge⟩⟩

theorem ofMembers_malformed {v : Value} (h : ∀ items, v ≠ .list items) :
    Except.FailsWith (fun f => f.isMalformed = true) (ofMembers v) := by
  unfold ofMembers
  split
  · exact absurd rfl (h _)
  · split
    · exact Except.failsWith_ok _
    · exact Except.failsWith_error rfl
  · split
    · exact Except.failsWith_ok _
    · exact Except.failsWith_error rfl
  · exact Except.failsWith_ok _
  · exact Except.failsWith_error rfl

mutual

/-- **Records.** The faults that reading a record stops at, at every depth. -/
theorem ofRecord_failsWith : ∀ v : Value, Except.FailsWith (Explains v) (ofRecord v)
  | .map es => by
    rw [ofRecord]
    have hheld (name : String) (hname : name ∈ ["outgoing", "incoming"]) :
        Except.FailsWith (Explains (.map es)) (fieldAtoms name es) := by
      intro f h
      obtain hf | ⟨items, v, hitems, hv, hf⟩ := fieldAtoms_failsWith name es f h
      · exact .malformed hf
      · exact hf.held hname hitems hv
    refine Except.FailsWith.bind (fun f h => ?_) fun _ _ => ?_
    · exact .malformed (checkRecord_failsWith es f h)
    refine (truth_failsWith es).bind fun _ _ => (attention_failsWith es).bind fun _ _ => ?_
    refine (hheld "outgoing" (by simp)).bind fun _ _ => ?_
    exact (hheld "incoming" (by simp)).bind fun _ _ => Except.failsWith_ok _
  | .scalar s => by
    unfold ofRecord
    exact Except.failsWith_error (.malformed rfl)
  | .list items => by
    unfold ofRecord
    exact Except.failsWith_error (.malformed rfl)

/-- A field that holds atoms stops at a malformed field, or at a member of its list. -/
theorem fieldAtoms_failsWith : ∀ (name : String) (es : List (Scalar × Value)),
    Except.FailsWith (fun f => f.isMalformed = true ∨ ∃ items v,
      Entries.get? es name = some (.list items) ∧ v ∈ items ∧ Explains v f) (fieldAtoms name es)
  | _, [] => by
    rw [fieldAtoms]
    exact Except.failsWith_ok _
  | name, (k, v) :: es => by
    have hget : Entries.get? ((k, v) :: es) name =
        if k.same (.text name) then some v else Entries.get? es name :=
      Table.lookup?_cons (k, v) es _
    rw [fieldAtoms, hget]
    split
    · intro f h
      obtain hf | ⟨items, w, rfl, hw, hf⟩ := ofMembers_failsWith v f h
      · exact .inl hf
      · exact .inr ⟨items, w, rfl, hw, hf⟩
    · exact fieldAtoms_failsWith name es

theorem ofMembers_failsWith : ∀ v : Value, Except.FailsWith (fun f => f.isMalformed = true ∨
    ∃ items w, v = .list items ∧ w ∈ items ∧ Explains w f) (ofMembers v)
  | .list items => by
    rw [ofMembers]
    intro f h
    obtain ⟨w, hw, hf⟩ := ofItems_failsWith items f h
    exact .inr ⟨items, w, rfl, hw, hf⟩
  | .scalar s => fun f h => .inl (ofMembers_malformed (v := .scalar s) nofun f h)
  | .map es => fun f h => .inl (ofMembers_malformed (v := .map es) nofun f h)

theorem ofItems_failsWith : ∀ items : List Value,
    Except.FailsWith (fun f => ∃ w ∈ items, Explains w f) (ofItems items)
  | [] => by
    rw [ofItems]
    exact Except.failsWith_ok _
  | v :: vs => by
    rw [ofItems]
    refine Except.FailsWith.bind (fun f h => ?_) fun _ _ =>
      Except.FailsWith.bind (fun f h => ?_) fun _ _ => Except.failsWith_ok _
    · exact ⟨v, List.mem_cons_self, ofRecord_failsWith v f h⟩
    · obtain ⟨w, hw, hf⟩ := ofItems_failsWith vs f h
      exact ⟨w, List.mem_cons_of_mem v hw, hf⟩

end

end Atom

end KnowledgeGraph
