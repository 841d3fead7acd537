import KnowledgeGraph.Proofs.Number.Arithmetic
import KnowledgeGraph.Value.Convert

/-!
# Whole numbers as floats

A whole number is converted to the float nearest to it, unless it is beyond the range of floats
(`floatOfInt_nearest`). A number of 53 digits is a float itself (`rounded_intCast`); those of up to nine
decimal digits are read and subtracted without loss (`exists_isWhole`, `IsWhole.sub`).
-/

namespace KnowledgeGraph

open Float.Model (Format UnpackedFloat)

open Float.Model.UnpackedFloat (unpack pack packedInfinity)

/-! ## Overflow -/

theorem unpack_packedInfinity (s : UnpackedFloat.Sign) :
    unpack .binary64 (packedInfinity .binary64 s) = .infinity s := by
  cases s <;> rfl

/-- A canonical form comes back from its bits, unless it overflows. -/
theorem unpack_pack_or {a : UnpackedFloat} (ha : IsCanonical a) :
    unpack .binary64 (pack .binary64 a) = a ∨ ∃ s, unpack .binary64 (pack .binary64 a) = .infinity s := by
  cases a with
  | infinity _ | notANumber => exact ha.elim
  | zero s => exact .inl (unpack_zero s)
  | finite s m e hm =>
    by_cases hfits : e ≤ 971
    · refine .inl (unpack_pack ha fun _ _ _ _ heq => ?_)
      cases heq
      exact hfits
    · refine .inr ⟨s, ?_⟩
      rw [pack_finite, if_pos (by omega), unpack_packedInfinity]

theorem value_pack_of_not_isInf {a : UnpackedFloat} {q : ℚ}
    (ha : IsCanonical a ∧ valueOf a = rounded q)
    (h : (Float.ofModel (Float.Model.pack a)).isInf = false) :
    (Float.ofModel (Float.Model.pack a)).isFinite = true ∧
      value (.ofModel (Float.Model.pack a)) = rounded q := by
  have hinf : (Float.ofModel (Float.Model.pack a)).toModel.unpack.isInf = false := h
  have hunpack : (Float.ofModel (Float.Model.pack a)).toModel.unpack = a := by
    obtain hback | ⟨s, hinfinite⟩ := unpack_pack_or ha.1
    · exact hback
    · have heq : (Float.ofModel (Float.Model.pack a)).toModel.unpack = .infinity s := hinfinite
      rw [heq] at hinf
      cases hinf
  unfold value
  rw [hunpack]
  refine ⟨?_, ha.2⟩
  show (Float.ofModel (Float.Model.pack a)).toModel.unpack.isFinite = true
  rw [hunpack]
  cases a with
  | infinity _ | notANumber => exact ha.1.elim
  | zero _ | finite _ _ _ _ => rfl

theorem isInf_of_neg {x : Float} (h : (-x).isInf = false) : x.isInf = false := by
  have hneg : (unpack .binary64 (pack .binary64 x.toModel.unpack.neg)).isInf = false := h
  show x.toModel.unpack.isInf = false
  generalize x.toModel.unpack = a at hneg
  cases a with
  | infinity s =>
    have hpack : pack .binary64 (UnpackedFloat.infinity s).neg = packedInfinity .binary64 (-s) := rfl
    rw [hpack, unpack_packedInfinity] at hneg
    cases hneg
  | notANumber | zero _ | finite _ _ _ _ => rfl

/-! ## Conversion -/

theorem rounded_intCast {n : ℤ} (hn : |n| < 2 ^ 53) : rounded n = n := by
  have := rounded_eq_self (e := 0) hn (by norm_num)
  simpa using this

/-- A whole number with a decimal exponent is rounded once, unless the exponent is beyond all bounds. -/
theorem ofScientific_value {m : ℕ} (hm : 0 < m) {e : ℤ} (hlow : -((2 ^ 11 : ℤ) + m.log2) ≤ e)
    (hhigh : e ≤ 2 ^ 11) : IsCanonical (UnpackedFloat.ofScientific .binary64 m e) ∧
      valueOf (UnpackedFloat.ofScientific .binary64 m e) = rounded (m * 10 ^ e) := by
  unfold UnpackedFloat.ofScientific
  rw [dif_neg hm.ne', if_neg (not_lt.2 hhigh), if_neg (not_lt.2 hlow)]
  by_cases hnonneg : 0 ≤ e
  · rw [if_pos hnonneg]
    obtain ⟨k, rfl⟩ := Int.eq_ofNat_of_zero_le hnonneg
    have hshift : 0 < m <<< 53 := by
      rw [Nat.shiftLeft_eq]
      positivity
    have hvalue : ((m <<< 53 : ℕ) : ℚ) * 2 ^ (-53 : ℤ) * ((10 ^ k : ℕ) * 2 ^ (0 : ℤ)) =
        m * 10 ^ (k : ℤ) := by
      rw [Nat.shiftLeft_eq, zpow_zero, zpow_natCast]
      push_cast
      rw [mul_assoc (m : ℚ)]
      norm_num
    have hone : (1 : ℚ) ≤ m * 10 ^ (k : ℤ) := by
      rw [zpow_natCast]
      exact_mod_cast Nat.mul_pos hm (Nat.pow_pos (by decide))
    have hround := mul_finite .positive .positive (e := -53) (f := 0) hshift
      (Nat.pow_pos (n := k) (show 0 < 10 by decide)) (by
        rw [hvalue]
        exact le_gridExponent ((zpow_le_one_of_nonpos₀ one_le_two (by norm_num)).trans hone))
    rw [hvalue] at hround
    exact hround
  · rw [if_neg hnonneg]
    have hvalue : (m * 2 ^ (0 : ℤ) / ((10 ^ (-e).toNat : ℕ) * 2 ^ (0 : ℤ)) : ℚ) = m * 10 ^ e := by
      obtain ⟨k, rfl⟩ : ∃ k : ℕ, e = -(k : ℤ) := ⟨(-e).toNat, by omega⟩
      rw [neg_neg, Int.toNat_natCast, zpow_zero, mul_one, mul_one, zpow_neg, zpow_natCast]
      push_cast
      rfl
    have hround := div_finite .positive .positive hm
      (Nat.pow_pos (n := (-e).toNat) (show 0 < 10 by decide)) 0 0
    rw [hvalue] at hround
    exact hround

theorem toFloat_nearest {n : ℕ} (h : n.toFloat.isInf = false) :
    n.toFloat.isFinite = true ∧ value n.toFloat = rounded n := by
  by_cases hn : n < 2 ^ 53
  · rw [rounded_natCast hn]
    exact value_toFloat hn
  · have hpack : n.toFloat = .ofModel (.pack (UnpackedFloat.ofScientific .binary64 n 0)) := by
      show Float.ofScientific n false 0 = _
      unfold Float.ofScientific
      rw [dif_neg fun hshort => hn hshort.1]
      rfl
    have hround := @ofScientific_value n (by omega) 0 (by omega) (by decide)
    rw [zpow_zero, mul_one] at hround
    rw [hpack] at h ⊢
    exact value_pack_of_not_isInf hround h

/-- **Conversion.** A whole number is converted to the float nearest to it. -/
theorem floatOfInt_nearest {n : ℤ} {x : Float} (h : floatOfInt n = .ok x) :
    x.isFinite = true ∧ value x = rounded n := by
  unfold floatOfInt at h
  dsimp only at h
  split at h
  · cases h
  · rename_i hinf
    cases h
    rw [Bool.not_eq_true] at hinf
    cases n with
    | ofNat n =>
      rw [Int.ofNat_eq_natCast, Int.cast_natCast]
      exact toFloat_nearest hinf
    | negSucc n =>
      have hneg : Float.ofInt (.negSucc n) = -(n + 1).toFloat := rfl
      rw [hneg] at hinf ⊢
      obtain ⟨hfinite, hvalue⟩ := toFloat_nearest (isInf_of_neg hinf)
      obtain ⟨hfinite', hvalue'⟩ := neg_value hfinite
      exact ⟨hfinite', by rw [hvalue', hvalue, ← rounded_neg, Int.cast_negSucc]⟩

/-! ## Whole numbers -/

/-- A float that is a whole number. -/
structure IsWhole (n : ℤ) (x : Float) : Prop where
  finite : x.isFinite = true
  value_eq : value x = n

variable {m n : ℤ} {x y : Float}

theorem IsWhole.isModest (h : IsWhole n x) (hn : |n| ≤ 10 ^ 9) : IsModest x := by
  refine ⟨h.finite, ?_⟩
  rw [h.value_eq]
  have hcast : |(n : ℚ)| ≤ 10 ^ 9 := by exact_mod_cast hn
  linarith

theorem isWhole_toFloat {k : ℕ} (hk : k ≤ 10 ^ 9) : IsWhole k k.toFloat := by
  obtain ⟨hfinite, hvalue⟩ := value_toFloat (n := k) (by omega)
  exact ⟨hfinite, by rw [hvalue, Int.cast_natCast]⟩

/-- Whole numbers of up to nine digits are floats. -/
theorem exists_isWhole (hn : |n| ≤ 10 ^ 9) : ∃ x, floatOfInt n = .ok x ∧ IsWhole n x := by
  have hfinite : (Float.ofInt n).isFinite = true := by
    cases n with
    | ofNat k =>
      rw [Int.ofNat_eq_natCast, Nat.abs_cast] at hn
      exact (isWhole_toFloat (by exact_mod_cast hn)).finite
    | negSucc k =>
      rw [Int.negSucc_eq, abs_neg] at hn
      have hwhole : IsWhole (k + 1 : ℕ) (k + 1).toFloat :=
        isWhole_toFloat (by exact_mod_cast (le_abs_self _).trans hn)
      exact (hwhole.isModest (by exact_mod_cast hn)).neg.1.finite
  have hread : floatOfInt n = .ok (Float.ofInt n) := by
    unfold floatOfInt
    dsimp only
    rw [isInf_of_isFinite hfinite, if_neg Bool.false_ne_true]
  obtain ⟨-, hvalue⟩ := floatOfInt_nearest hread
  exact ⟨_, hread, hfinite, hvalue.trans (rounded_intCast (by omega))⟩

theorem IsWhole.sub (hx : IsWhole m x) (hy : IsWhole n y) (hm : |m| ≤ 10 ^ 9) (hn : |n| ≤ 10 ^ 9) :
    IsWhole (m - n) (x - y) := by
  obtain ⟨hfinite, hvalue⟩ := (hx.isModest hm).sub (hy.isModest hn)
  refine ⟨hfinite, ?_⟩
  rw [hvalue, hx.value_eq, hy.value_eq, ← Int.cast_sub, rounded_intCast]
  rw [abs_le] at hm hn
  rw [abs_lt]
  omega

end KnowledgeGraph
