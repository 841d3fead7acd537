import KnowledgeGraph.Number.Decimal
import KnowledgeGraph.Proofs.Number.Bounds
import KnowledgeGraph.Proofs.Number.Exact
import KnowledgeGraph.Proofs.Number.Whole

/-!
# Decimals as floats

A decimal gives a positive float exactly if the number that it stands for is rounded to the float
(`Decimal.toFloat_eq_iff`). So it makes no difference how the number is spelled, and the decimal that is
chosen for a float is rounded to it (`Decimal.rounded_shortest`).
-/

namespace KnowledgeGraph

open Float.Model (UnpackedFloat)

/-! ## Counting digits -/

theorem digitCount_bounds {n : ℕ} (hn : 0 < n) :
    10 ^ (digitCount n - 1) ≤ n ∧ n < 10 ^ digitCount n := by
  have hpos : 0 < digitCount n := by
    unfold digitCount
    rw [if_neg hn.ne']
    exact Nat.length_toDigits_pos
  have hle {k : ℕ} (hk : 0 < k) : digitCount n ≤ k ↔ n < 10 ^ k := by
    unfold digitCount
    rw [if_neg hn.ne']
    exact Nat.length_toDigits_le_iff (by decide) hk
  refine ⟨?_, (hle hpos).1 le_rfl⟩
  obtain hone | hmore := Nat.eq_zero_or_pos (digitCount n - 1)
  · rw [hone]
    exact hn
  · by_contra hlt
    have := (hle hmore).2 (not_le.1 hlt)
    omega

theorem digitCount_le_log2 {n : ℕ} (hn : 0 < n) : digitCount n ≤ n.log2 + 1 := by
  have hlow : 2 ^ (digitCount n - 1) ≤ n :=
    (Nat.pow_le_pow_left (by decide) _).trans (digitCount_bounds hn).1
  have := (Nat.le_log2 hn.ne').2 hlow
  omega

/-! ## Powers of ten -/

theorem size_powersOfTen : Float.exactlyRepresentablePowersOfTen.size = 23 := by
  simp [Float.exactlyRepresentablePowersOfTen]

theorem numerator_powersOfTen : ∀ k : Fin Float.exactlyRepresentablePowersOfTen.size,
    Float.exactlyRepresentablePowersOfTen[k].isFinite = true ∧
      (Exact.ofFloat? Float.exactlyRepresentablePowersOfTen[k]).any
        (fun e => e.numerator == ((10 ^ k.val * e.ratio.2 : ℕ) : ℤ)) = true := by
  decide +kernel

/-- The powers of ten up to the 22nd are floats. -/
theorem value_powersOfTen {k : ℕ} (hk : k < Float.exactlyRepresentablePowersOfTen.size) :
    Float.exactlyRepresentablePowersOfTen[k].isFinite = true ∧
      value Float.exactlyRepresentablePowersOfTen[k] = 10 ^ k := by
  obtain ⟨hfinite, hexact⟩ := numerator_powersOfTen ⟨k, hk⟩
  obtain ⟨e, he, hvalue⟩ := exists_exact hfinite
  rw [he, Option.any_some, beq_iff_eq] at hexact
  have hratio : (e.ratio.2 : ℚ) ≠ 0 := by exact_mod_cast (Exact.ratio_pos e).ne'
  have hnumerator := e.numerator_eq
  rw [hexact, hvalue, Fin.getElem_fin] at hnumerator
  refine ⟨hfinite, mul_right_cancel₀ hratio ?_⟩
  rw [← hnumerator]
  push_cast
  rfl

/-- A short mantissa and a power of ten that is a float are multiplied or divided. -/
theorem exists_ofScientific_short {m k : ℕ} (hm : m < 2 ^ 53) (hk : k ≤ 22) (divides : Bool) :
    ∃ a, (IsCanonical a ∧
        valueOf a = rounded (m * 10 ^ (if divides then Int.negOfNat k else Int.ofNat k))) ∧
      Float.ofScientific m divides k = .ofModel (.pack a) := by
  have hsize : k < Float.exactlyRepresentablePowersOfTen.size := by
    rw [size_powersOfTen]
    omega
  obtain ⟨hword, hvalue⟩ := value_toUInt64 hm
  obtain ⟨hpower, hvalue'⟩ := value_powersOfTen hsize
  have hcanonical := isCanonical_of_isFinite hword
  have hcanonical' := isCanonical_of_isFinite hpower
  unfold Float.ofScientific
  rw [dif_pos ⟨hm, hk⟩]
  cases divides with
  | false =>
    obtain ⟨hproduct, hrounded⟩ := mul_canonical hcanonical hcanonical'
    refine ⟨_, ⟨hproduct, hrounded.trans ?_⟩, rfl⟩
    rw [if_neg Bool.false_ne_true, Int.ofNat_eq_natCast, zpow_natCast, ← hvalue, ← hvalue']
    rfl
  | true =>
    have hzero : (10 : ℚ) ^ k ≠ 0 := by positivity
    obtain ⟨hquotient, hrounded⟩ := div_canonical hcanonical hcanonical' (hvalue'.trans_ne hzero)
    refine ⟨_, ⟨hquotient, hrounded.trans ?_⟩, rfl⟩
    rw [if_pos rfl, Int.negOfNat_eq, zpow_neg, Int.ofNat_eq_natCast, zpow_natCast,
      ← div_eq_mul_inv, ← hvalue, ← hvalue']
    rfl

namespace Decimal

/-! ## Rounding -/

/-- The number that a decimal stands for. -/
def value (d : Decimal) : ℚ := d.digits * 10 ^ d.exponent

variable {d : Decimal}

theorem value_of_digits_eq_zero (h : d.digits = 0) : d.value = 0 := by
  unfold value
  rw [h, Nat.cast_zero, zero_mul]

theorem value_bounds (h : d.digits ≠ 0) :
    (10 : ℚ) ^ (digitCount d.digits + d.exponent - 1) ≤ d.value ∧
      d.value < 10 ^ (digitCount d.digits + d.exponent) := by
  obtain ⟨hlow, hhigh⟩ := digitCount_bounds (Nat.pos_of_ne_zero h)
  have hpos : 0 < digitCount d.digits := by
    by_contra hzero
    rw [Nat.eq_zero_of_not_pos hzero] at hhigh
    omega
  have hpower : (0 : ℚ) < 10 ^ d.exponent := zpow_pos (by norm_num) _
  constructor
  · calc (10 : ℚ) ^ (digitCount d.digits + d.exponent - 1)
        = 10 ^ (digitCount d.digits - 1) * 10 ^ d.exponent := by
          rw [← zpow_natCast, ← zpow_add₀ (by norm_num)]
          congr 1
          omega
      _ ≤ d.value := mul_le_mul_of_nonneg_right (by exact_mod_cast hlow) hpower.le
  · calc d.value < 10 ^ digitCount d.digits * 10 ^ d.exponent :=
          mul_lt_mul_of_pos_right (by exact_mod_cast hhigh) hpower
      _ = 10 ^ (digitCount d.digits + d.exponent) := by
          rw [← zpow_natCast, ← zpow_add₀ (by norm_num)]

/-- A decimal in the range of floats is rounded once. -/
theorem exists_toFloat_eq (hdigits : d.digits ≠ 0) (htop : digitCount d.digits + d.exponent ≤ 310)
    (hlow : -330 ≤ digitCount d.digits + d.exponent) :
    ∃ a, (IsCanonical a ∧ valueOf a = rounded d.value) ∧ d.toFloat = .ofModel (.pack a) := by
  have hscientific : d.toFloat =
      Float.ofScientific d.digits (d.exponent < 0) d.exponent.natAbs := by
    unfold toFloat
    dsimp only
    rw [if_neg hdigits, if_neg (not_lt.2 htop), if_neg (not_lt.2 hlow)]
  have hexponent : (if decide (d.exponent < 0) = true then Int.negOfNat d.exponent.natAbs
      else Int.ofNat d.exponent.natAbs) = d.exponent := by
    rw [Int.negOfNat_eq, Int.ofNat_eq_natCast]
    simp only [decide_eq_true_eq]
    split <;> omega
  rw [hscientific]
  by_cases hshort : d.digits < 2 ^ 53 ∧ d.exponent.natAbs ≤ 22
  · have hround := exists_ofScientific_short hshort.1 hshort.2 (decide (d.exponent < 0))
    rwa [hexponent] at hround
  · have hcount := digitCount_le_log2 (Nat.pos_of_ne_zero hdigits)
    refine ⟨_, ofScientific_value (Nat.pos_of_ne_zero hdigits) (e := d.exponent) (by omega) ?_, ?_⟩
    · omega
    · unfold Float.ofScientific
      rw [dif_neg hshort]
      dsimp only
      rw [hexponent]
      rfl

/-! ## Reading back -/

/-- What is less than half of the smallest float is rounded to zero. -/
theorem rounded_of_tiny : rounded (2 ^ (-1076 : ℤ)) = 0 := by
  have hgrid : gridExponent (2 ^ (-1076 : ℤ)) = -1074 := by
    unfold gridExponent
    rw [abs_of_pos (zpow_two_pos _), show (2 : ℚ) = ((2 : ℕ) : ℚ) from rfl, Int.log_zpow (by decide)]
    rfl
  have hquarter : (2 : ℚ) ^ (-1076 : ℤ) / 2 ^ (-1074 : ℤ) = 1 / 4 := by
    rw [← zpow_sub₀ two_ne_zero]
    norm_num
  have hnearest : nearestInt (1 / 4) = 0 := by
    unfold nearestInt
    norm_num [Int.fract, Int.floor_eq_zero_iff]
  unfold rounded
  rw [hgrid, hquarter, hnearest, Int.cast_zero, zero_mul]

section

variable {y : Float} (hpos : 0 < KnowledgeGraph.value y)
include hpos

/-- What lies beyond the range of floats is not rounded to a float, and what lies below it is rounded to
zero. -/
theorem range_of_rounded (h : rounded d.value = KnowledgeGraph.value y) : d.digits ≠ 0 ∧
    digitCount d.digits + d.exponent ≤ 310 ∧ -330 ≤ digitCount d.digits + d.exponent := by
  have hdigits : d.digits ≠ 0 := by
    intro hzero
    rw [value_of_digits_eq_zero hzero, rounded_zero] at h
    exact hpos.ne h
  obtain ⟨hlow, hhigh⟩ := value_bounds hdigits
  refine ⟨hdigits, ?_, ?_⟩
  · by_contra hbeyond
    have hself : rounded (2 ^ 1024) = 2 ^ 1024 := by
      have := rounded_eq_self (n := 1) (e := 1024) (by norm_num) (by norm_num)
      simpa using this
    have hbelow : (2 : ℚ) ^ 1024 ≤ d.value := by
      calc (2 : ℚ) ^ 1024 ≤ 10 ^ 310 := by
            exact_mod_cast (by decide +kernel : 2 ^ 1024 ≤ 10 ^ 310)
        _ = 10 ^ (310 : ℤ) := (zpow_natCast 10 310).symm
        _ ≤ 10 ^ (digitCount d.digits + d.exponent - 1) :=
          zpow_le_zpow_right₀ (by norm_num) (by omega)
        _ ≤ d.value := hlow
    have hrounded := rounded_mono hbelow
    rw [hself, h] at hrounded
    exact absurd ((le_abs_self _).trans_lt (abs_value_lt y)) (not_lt.2 hrounded)
  · by_contra hbelow
    have hbound : d.value ≤ 2 ^ (-1076 : ℤ) := by
      calc d.value ≤ 10 ^ (digitCount d.digits + d.exponent) := hhigh.le
        _ ≤ 10 ^ (-331 : ℤ) := zpow_le_zpow_right₀ (by norm_num) (by omega)
        _ ≤ 2 ^ (-1076 : ℤ) := by
          rw [zpow_neg, zpow_neg]
          refine inv_anti₀ (zpow_two_pos 1076) ?_
          exact_mod_cast (by decide +kernel : 2 ^ 1076 ≤ 10 ^ 331)
    have hrounded := rounded_mono hbound
    rw [rounded_of_tiny, h] at hrounded
    exact absurd hpos (not_lt.2 hrounded)

variable (hy : y.isFinite = true)
include hy

/-- **Decimals as floats.** A decimal gives a positive float exactly if its number is rounded to it. -/
theorem toFloat_eq_iff : d.toFloat = y ↔ rounded d.value = KnowledgeGraph.value y := by
  constructor
  · rintro rfl
    by_cases hdigits : d.digits = 0
    · have hzero : d.toFloat = 0 := if_pos hdigits
      rw [hzero, value_zero] at hpos
      exact absurd hpos (lt_irrefl 0)
    by_cases htop : 310 < digitCount d.digits + d.exponent
    · have hinfinite : d.toFloat = infinity := (if_neg hdigits).trans (if_pos htop)
      rw [hinfinite] at hy
      cases hy
    by_cases hlow : digitCount d.digits + d.exponent < -330
    · have hzero : d.toFloat = 0 := (if_neg hdigits).trans ((if_neg htop).trans (if_pos hlow))
      rw [hzero, value_zero] at hpos
      exact absurd hpos (lt_irrefl 0)
    obtain ⟨a, hround, hfloat⟩ := exists_toFloat_eq hdigits (not_lt.1 htop) (not_lt.1 hlow)
    rw [hfloat] at hy ⊢
    exact (value_pack_of_not_isInf hround (isInf_of_isFinite hy)).2.symm
  · intro h
    obtain ⟨hdigits, htop, hlow⟩ := range_of_rounded hpos h
    obtain ⟨a, ⟨hcanonical, hvalue⟩, hfloat⟩ := exists_toFloat_eq hdigits htop hlow
    have hpack := value_pack_of_lt ⟨hcanonical, hvalue.trans h⟩ (abs_value_lt y)
    rw [hfloat]
    exact eq_of_value hpack.1 hy hpack.2 (hpack.2.trans_ne hpos.ne')

/-- So does one that is as large as the float for the comparison of floats. -/
theorem rounded_of_beq (h : (d.toFloat == y) = true) : rounded d.value = KnowledgeGraph.value y := by
  have hle : d.toFloat ≤ y := le_of_beq h
  have hge : y ≤ d.toFloat := (le_iff_rank (isNaN_of_isFinite hy) (isNaN_of_le hle).1).2 <|
    ((beq_iff_rank (isNaN_of_le hle).1 (isNaN_of_isFinite hy)).1 h).ge
  have hfinite := isFinite_of_within hy hy hge hle
  have hvalue := (beq_iff_value hfinite hy).1 h
  exact (toFloat_eq_iff hpos hy).1 (eq_of_value hfinite hy hvalue (hvalue.trans_ne hpos.ne'))

end

/-! ## The decimal of a float -/

theorem value_exact (e : Exact) : (exact e).value = e.mantissa * 2 ^ e.exponent := by
  unfold exact
  split
  · rename_i hnonneg
    obtain ⟨k, hk⟩ := Int.eq_ofNat_of_zero_le hnonneg
    unfold value
    rw [hk, zpow_zero, mul_one, Int.toNat_natCast, zpow_natCast, Nat.pow_eq]
    push_cast
    rfl
  · rename_i hneg
    obtain ⟨k, hk⟩ := Int.eq_ofNat_of_zero_le (neg_nonneg.2 (not_le.1 hneg).le)
    have hexponent : e.exponent = -(k : ℤ) := by omega
    unfold value
    rw [hk, Int.toNat_natCast, hexponent, zpow_neg, zpow_neg, zpow_natCast, zpow_natCast, Nat.pow_eq,
      show (10 : ℚ) = 5 * 2 by norm_num, mul_pow]
    push_cast
    field_simp

theorem toFloat_of_readsBack? {x : Float} {e : Exact} {count : ℕ}
    (h : readsBack? x e count = some d) : (d.toFloat == x) = true := by
  unfold readsBack? at h
  have hsome := List.find?_some (p := fun d : Decimal => d.toFloat == x) h
  exact hsome

/-- **The decimal of a float.** The decimal that is chosen for a float is rounded to its magnitude. -/
theorem rounded_shortest {x : Float} {e : Exact} (he : Exact.ofFloat? x = some e)
    (hzero : e.mantissa ≠ 0) : rounded (shortest e x).value = e.mantissa * 2 ^ e.exponent := by
  obtain ⟨hfinite, hvalue⟩ := value_of_ofFloat? he
  obtain ⟨habs, hmagnitude⟩ := abs_value hfinite
  rw [hvalue, Exact.abs_value] at hmagnitude
  have hpos : 0 < KnowledgeGraph.value x.abs :=
    hmagnitude ▸ magnitude_pos (Nat.pos_of_ne_zero hzero) e.exponent
  rw [← hmagnitude]
  unfold shortest
  rw [if_neg hzero]
  cases hfound : (List.range 17).findSome? fun n => readsBack? x.abs e (n + 1) with
  | none =>
    rw [Option.getD_none, value_exact, ← hmagnitude, rounded_value habs]
  | some d =>
    obtain ⟨n, -, hread⟩ := List.exists_of_findSome?_eq_some hfound
    rw [Option.getD_some]
    exact rounded_of_beq hpos habs (toFloat_of_readsBack? hread)

/-- A decimal that stands for the same number gives the float with its sign. -/
theorem signed_toFloat {x : Float} {e : Exact} (he : Exact.ofFloat? x = some e)
    (h : d.value = (shortest e x).value) : (if e.negative then -d.toFloat else d.toFloat) = x := by
  obtain ⟨hfinite, hvalue⟩ := value_of_ofFloat? he
  by_cases hzero : e.mantissa = 0
  · have hshortest : shortest e x = ⟨0, 0⟩ := if_pos hzero
    have hdigits : d.digits = 0 := by
      have hnone : (⟨0, 0⟩ : Decimal).value = 0 := value_of_digits_eq_zero rfl
      rw [hshortest, hnone] at h
      have hpower : (10 : ℚ) ^ d.exponent ≠ 0 := zpow_ne_zero _ (by norm_num)
      exact_mod_cast (mul_eq_zero.1 h).resolve_right hpower
    have hfloat : d.toFloat = 0 := if_pos hdigits
    rw [hfloat]
    cases hneg : e.negative with
    | false =>
      have hexact : Exact.ofFloat? 0 = some ⟨false, 0, -1074⟩ := by decide +kernel
      exact Exact.eq_of_magnitude hexact he hneg.symm (by simp [hzero])
    | true =>
      have hexact : Exact.ofFloat? (-0) = some ⟨true, 0, -1074⟩ := by decide +kernel
      exact Exact.eq_of_magnitude hexact he hneg.symm (by simp [hzero])
  · obtain ⟨habs, hmagnitude⟩ := abs_value hfinite
    rw [hvalue, Exact.abs_value] at hmagnitude
    have hpos := magnitude_pos (Nat.pos_of_ne_zero hzero) e.exponent
    have hfloat : d.toFloat = x.abs := by
      rw [toFloat_eq_iff (hmagnitude ▸ hpos) habs, h, rounded_shortest he hzero, hmagnitude]
    rw [hfloat]
    unfold Exact.value Exact.sign at hvalue
    split
    · rename_i hneg
      obtain ⟨hfinite', hvalue'⟩ := neg_value habs
      rw [if_pos hneg] at hvalue
      refine eq_of_value hfinite' hfinite ?_ ?_
      · rw [hvalue', hmagnitude, hvalue]
        rfl
      · rw [hvalue', hmagnitude]
        exact neg_ne_zero.2 hpos.ne'
    · rename_i hneg
      rw [if_neg hneg] at hvalue
      exact eq_of_value habs hfinite (hmagnitude.trans hvalue.symm) (hmagnitude.trans_ne hpos.ne')

end Decimal

end KnowledgeGraph
