import KnowledgeGraph.Proofs.Value
import KnowledgeGraph.Value.Display

/-!
# Values that can be written

A value can be written if no number in it has too many digits, at any depth (`isWritable_list`,
`isWritable_map`). Exactly such values are put into text or mentioned, and at any other value this stops
at the limit on digits (`toText_eq_ok`, `toText_eq_error`, `mention_eq_ok`).
-/

namespace KnowledgeGraph.Value

variable {v : Value} {vs : List Value} {s text : String} {f : Fault}

/-! ## Parts of values -/

@[simp] theorem isWritable_scalar (k : Scalar) : (Value.scalar k).isWritable = k.isWritable := by
  rw [isWritable]

theorem isWritable_list : (Value.list vs).isWritable = vs.all isWritable := by
  rw [isWritable]
  induction vs with
  | nil => rw [areWritable, List.all_nil]
  | cons v vs ih => rw [areWritable, List.all_cons, ih]

theorem isWritable_map {es : List (Scalar × Value)} : (Value.map es).isWritable =
    es.all fun e => e.1.isWritable && e.2.isWritable := by
  rw [isWritable]
  induction es with
  | nil => rw [entriesWritable, List.all_nil]
  | cons e es ih => rw [entriesWritable, List.all_cons, ih]

@[simp] theorem isWritable_scalarInt {n : Int} :
    (Scalar.int n).isWritable = true ↔ n.natAbs < numberLimit := by
  simp only [Scalar.isWritable, decide_eq_true_eq]

@[simp] theorem isWritable_scalarText (s : String) : (Scalar.text s).isWritable = true := rfl

theorem isWritable_text (s : String) : (Value.text s).isWritable = true := by
  rw [isWritable]
  rfl

theorem IsTextOrNull.isWritable (h : v.IsTextOrNull) : v.isWritable = true := by
  obtain rfl | ⟨s, rfl⟩ := h
  · rw [isWritable]
    rfl
  · exact isWritable_text s

theorem pow_le_numberLimit {k : Nat} (hk : k ≤ digitLimit) : Nat.pow 10 k ≤ numberLimit := by
  unfold numberLimit
  generalize digitLimit = n at hk ⊢
  exact Nat.pow_le_pow_right (by decide) hk

theorem numberLimit_pos : 0 < numberLimit := pow_le_numberLimit (Nat.zero_le _)

theorem isWritable_of_isAbsent (h : v.isAbsent = true) : v.isWritable = true := by
  cases v with
  | scalar k =>
    rw [isWritable_scalar]
    cases k with
    | int n =>
      obtain rfl : n = 0 := by simpa [isAbsent, Scalar.isAbsent] using h
      exact isWritable_scalarInt.2 numberLimit_pos
    | _ => rfl
  | list items =>
    rw [isWritable_list, List.isEmpty_iff.1 h]
    rfl
  | map es =>
    rw [isWritable_map, List.isEmpty_iff.1 h]
    rfl

/-! ## Putting values into text -/

theorem ifWritable_eq_ok : v.ifWritable s = .ok text ↔ v.isWritable = true ∧ s = text := by
  unfold ifWritable
  split <;> simp [*]

theorem ifWritable_eq_error : v.ifWritable s = .error f ↔ v.isWritable = false ∧ f = .tooManyDigits := by
  unfold ifWritable
  split <;> simp [*, eq_comm]

theorem toText_eq_ok : v.toText = .ok text ↔ v.isWritable = true ∧ v.display = text :=
  ifWritable_eq_ok

theorem toText_eq_error : v.toText = .error f ↔ v.isWritable = false ∧ f = .tooManyDigits :=
  ifWritable_eq_error

theorem toText_of_isWritable (h : v.isWritable = true) : v.toText = .ok v.display :=
  toText_eq_ok.2 ⟨h, rfl⟩

@[simp] theorem toText_text (s : String) : (Value.text s).toText = .ok s :=
  toText_of_isWritable (isWritable_text s)

theorem mapM_toText (vs : List Value) : vs.mapM toText =
    if vs.all isWritable then .ok (vs.map display) else .error .tooManyDigits :=
  Except.mapM_of_ite fun _ _ => rfl

theorem mapM_toText_of_forall (h : ∀ v ∈ vs, v.isWritable = true) :
    vs.mapM toText = .ok (vs.map display) := by
  rw [mapM_toText, if_pos (List.all_eq_true.2 h)]

/-! ## Mentioning values -/

theorem mention_eq_ok {u : Unit} : mention vs = .ok u ↔ ∀ v ∈ vs, v.isWritable = true := by
  unfold mention
  rw [← List.all_eq_true]
  split <;> simp [*]

theorem mention_of_forall (h : ∀ v ∈ vs, v.isWritable = true) : mention vs = .ok () :=
  mention_eq_ok.2 h

theorem mention_of_exists (h : ∃ v ∈ vs, ¬ v.isWritable) : mention vs = .error .tooManyDigits := by
  unfold mention
  rw [if_neg]
  simpa using h

end KnowledgeGraph.Value
