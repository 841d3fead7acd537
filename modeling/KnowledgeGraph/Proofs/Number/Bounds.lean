import KnowledgeGraph.Proofs.Number.Arithmetic

/-!
# Bounds of floats

A float between finite bounds is finite and stands for a number between theirs
(`within_iff_value`). A number that is moved a part of the way toward another one, each step rounded,
does not leave the interval from minus one to one (`IsSigned.toward`): the rounding of a short way may
overshoot, but by less than the last digit of one, and that of a longer way by less than is left to
go.
-/

namespace KnowledgeGraph

open Float.Model (UnpackedFloat)

variable {low high x y z : Float}

/-! ## Intervals -/

theorem isFinite_of_within (hlow : low.isFinite = true) (hhigh : high.isFinite = true)
    (h : low ≤ x) (h' : x ≤ high) : x.isFinite = true := by
  obtain ⟨o, ho, hle⟩ := le_iff_compare.1 h
  obtain ⟨o', ho', hle'⟩ := le_iff_compare.1 h'
  have hlow : low.toModel.unpack.isFinite = true := hlow
  have hhigh : high.toModel.unpack.isFinite = true := hhigh
  show x.toModel.unpack.isFinite = true
  generalize low.toModel.unpack = a at *
  generalize high.toModel.unpack = b at *
  generalize x.toModel.unpack = u at *
  cases u with
  | zero _ | finite _ _ _ _ => rfl
  | notANumber => cases a <;> cases ho
  | infinity s =>
    cases s with
    | negative =>
      cases a with
      | notANumber | infinity _ => cases hlow
      | zero _ | finite _ _ _ _ => cases ho; cases hle
    | positive =>
      cases b with
      | notANumber | infinity _ => cases hhigh
      | zero _ | finite _ _ _ _ => cases ho'; cases hle'

/-- An interval of floats is that of the numbers that they stand for. -/
theorem within_iff_value (hlow : low.isFinite = true) (hhigh : high.isFinite = true) :
    low ≤ x ∧ x ≤ high ↔ x.isFinite = true ∧ value low ≤ value x ∧ value x ≤ value high := by
  constructor
  · rintro ⟨h, h'⟩
    have hx := isFinite_of_within hlow hhigh h h'
    exact ⟨hx, (le_iff_value hlow hx).1 h, (le_iff_value hx hhigh).1 h'⟩
  · rintro ⟨hx, h, h'⟩
    exact ⟨(le_iff_value hlow hx).2 h, (le_iff_value hx hhigh).2 h'⟩

/-- A number between minus one and one. -/
def IsSigned (x : Float) : Prop := -1 ≤ x ∧ x ≤ 1

theorem value_minusOne : value (-1) = -1 := by rw [inUnit_one.isModest.neg.2, value_one]

theorem isSigned_iff : IsSigned x ↔ x.isFinite = true ∧ |value x| ≤ 1 := by
  have h : (-1 ≤ x ∧ x ≤ 1) ↔ x.isFinite = true ∧ value (-1) ≤ value x ∧ value x ≤ value 1 :=
    within_iff_value (by decide +kernel) (by decide +kernel)
  rw [value_minusOne, value_one, ← abs_le] at h
  exact h

theorem IsSigned.isModest (h : IsSigned x) : IsModest x := by
  obtain ⟨hx, hbound⟩ := isSigned_iff.1 h
  exact ⟨hx, hbound.trans (one_le_pow₀ one_le_two)⟩

/-! ## Small numbers -/

@[simp] theorem value_half : value 0.5 = 1 / 2 := by
  have hunpack : (0.5 : Float).toModel.unpack = .finite .positive (2 ^ 52) (-53) (by decide) := rfl
  rw [value_of_unpack hunpack]
  norm_num [signed]

/-- A tenth is rounded to a number between zero and an eighth. -/
theorem value_tenth : 0 ≤ value 0.1 ∧ value 0.1 ≤ 1 / 8 := by
  have hunpack : (0.1 : Float).toModel.unpack =
    .finite .positive 7205759403792794 (-56) (by decide) := rfl
  rw [value_of_unpack hunpack]
  norm_num [signed]

/-! ## Rounding and bounds -/

variable {p q rate v r : ℚ}

theorem rounded_le_natCast {n : ℕ} (hn : n < 2 ^ 53) (h : q ≤ n) : rounded q ≤ n :=
  rounded_natCast hn ▸ rounded_mono h

theorem abs_rounded_le_natCast {n : ℕ} (hn : n < 2 ^ 53) (h : |q| ≤ n) : |rounded q| ≤ n := by
  obtain ⟨hlow, hhigh⟩ := abs_le.1 h
  refine abs_le.2 ⟨?_, rounded_le_natCast hn hhigh⟩
  have hneg : rounded (-q) ≤ n := rounded_le_natCast hn (by linarith)
  rw [rounded_neg] at hneg
  linarith

theorem InUnit.mul {x y : Float} (hx : InUnit x) (hy : InUnit y) : InUnit (x * y) := by
  obtain ⟨-, hxlow, hxhigh⟩ := inUnit_iff_value.1 hx
  obtain ⟨-, hylow, hyhigh⟩ := inUnit_iff_value.1 hy
  obtain ⟨hfinite, hvalue⟩ := hx.isModest.mul hy.isModest
  have hproduct : value x * value y ≤ (1 : ℕ) := by
    rw [Nat.cast_one]
    exact mul_le_one₀ hxhigh hylow hyhigh
  have hhigh := rounded_le_natCast (by norm_num) hproduct
  rw [Nat.cast_one] at hhigh
  rw [inUnit_iff_value, hvalue]
  exact ⟨hfinite, rounded_nonneg (mul_nonneg hxlow hylow), hhigh⟩

theorem InUnit.add_div_two {x y : Float} (hx : InUnit x) (hy : InUnit y) : InUnit ((x + y) / 2) := by
  obtain ⟨-, hxlow, hxhigh⟩ := inUnit_iff_value.1 hx
  obtain ⟨-, hylow, hyhigh⟩ := inUnit_iff_value.1 hy
  obtain ⟨hfinite, hvalue⟩ := hx.isModest.add hy.isModest
  have hsum : value x + value y ≤ (2 : ℕ) := by
    push_cast
    linarith
  have hhigh := rounded_le_natCast (by norm_num) hsum
  apply inUnit_div hfinite (by decide +kernel)
  · rw [hvalue]
    exact rounded_nonneg (add_nonneg hxlow hylow)
  · rw [hvalue, value_ofNat 2 (by norm_num)]
    exact_mod_cast hhigh
  · rw [value_ofNat 2 (by norm_num)]
    norm_num

/-- Rounding at most doubles a number that is not among the smallest ones. -/
theorem rounded_le_two_mul (h : 2 ^ (-1000 : ℤ) ≤ q) : rounded q ≤ 2 * q := by
  have hq : 0 < q := (zpow_two_pos _).trans_le h
  have hlog : (2 : ℚ) ^ Int.log 2 q ≤ q := by
    have := Int.zpow_log_le_self (b := 2) one_lt_two hq
    exact_mod_cast this
  have hnext : q ≤ 2 ^ (Int.log 2 q + 1) := by
    have := (Int.lt_zpow_succ_log_self (b := 2) one_lt_two q).le
    exact_mod_cast this
  have hexponent : -1000 ≤ Int.log 2 q := by
    rw [← Int.zpow_le_iff_le_log one_lt_two hq]
    exact_mod_cast h
  have hgrid : gridExponent q ≤ Int.log 2 q + 1 := by
    unfold gridExponent
    rw [abs_of_pos hq]
    omega
  calc rounded q ≤ 2 ^ (Int.log 2 q + 1) := rounded_le_zpow hnext hgrid
    _ = 2 * 2 ^ Int.log 2 q := by rw [zpow_add_one₀ two_ne_zero, mul_comm]
    _ ≤ 2 * q := by linarith

/-- What exceeds a half by more than half of its last digit is not rounded to a half. -/
theorem half_lt_rounded (h : 1 / 2 + 2 ^ (-54 : ℤ) < q) : 1 / 2 < rounded q := by
  have hq : 0 < q := lt_trans (by positivity) h
  obtain hone | hone := le_or_gt 1 q
  · have hmono := rounded_mono hone
    rw [← Nat.cast_one, rounded_natCast (by norm_num), Nat.cast_one] at hmono
    linarith
  · have hlog : Int.log 2 q = -1 := by
      refine le_antisymm ?_ ?_
      · rw [← Int.lt_add_one_iff, ← Int.lt_zpow_iff_log_lt one_lt_two hq]
        simpa using hone
      · rw [← Int.zpow_le_iff_le_log one_lt_two hq]
        norm_num at h ⊢
        linarith
    have hgrid : gridExponent q = -53 := by
      unfold gridExponent
      rw [abs_of_pos hq, hlog]
      rfl
    have hnearest : 2 ^ 52 < nearestInt (q / 2 ^ (-53 : ℤ)) := by
      refine lt_nearestInt ?_
      rw [lt_div_iff₀ (zpow_two_pos _)]
      norm_num at h ⊢
      linarith
    have hcast : (2 : ℚ) ^ 52 < nearestInt (q / 2 ^ (-53 : ℤ)) := by exact_mod_cast hnearest
    unfold rounded
    rw [hgrid]
    have := mul_lt_mul_of_pos_right hcast (zpow_two_pos (-53))
    norm_num at this ⊢
    linarith

/-- A share is above a half as a float exactly if it is more than the half. -/
theorem half_lt_share {k n : ℕ} (h : k ≤ n) (hpos : 0 < n) (hn : n < 2 ^ 53) :
    0.5 < k.toFloat / n.toFloat ↔ n < 2 * k := by
  obtain ⟨hk, hkvalue⟩ := value_toFloat (n := k) (by omega)
  obtain ⟨hfinite, hnvalue⟩ := value_toFloat hn
  have hcast : (0 : ℚ) < n := by exact_mod_cast hpos
  have hshare : |value k.toFloat / value n.toFloat| ≤ 2 ^ 1023 := by
    rw [hkvalue, hnvalue, abs_of_nonneg (by positivity)]
    refine ((div_le_one hcast).2 ?_).trans (one_le_pow₀ one_le_two)
    exact_mod_cast h
  obtain ⟨hdiv, hvalue⟩ := div_value hk hfinite (by rw [hnvalue]; exact hcast.ne') hshare
  rw [lt_iff_value inUnit_half.isFinite hdiv, hvalue, hkvalue, hnvalue, value_half]
  constructor
  · intro hlt
    by_contra hle
    have hhalf : (k / n : ℚ) ≤ (1 : ℤ) * 2 ^ (-1 : ℤ) := by
      have hdouble : (2 * k : ℚ) ≤ n := by exact_mod_cast not_lt.1 hle
      rw [div_le_iff₀ hcast]
      norm_num
      linarith
    have hmono := rounded_mono hhalf
    rw [rounded_eq_self (by norm_num) (by norm_num)] at hmono
    norm_num at hmono hlt
    linarith
  · intro hlt
    refine half_lt_rounded ?_
    have hdouble : (n + 1 : ℚ) ≤ 2 * k := by exact_mod_cast hlt
    have hlong : (n : ℚ) < 2 ^ 53 := by exact_mod_cast hn
    rw [lt_div_iff₀ hcast]
    calc (1 / 2 + 2 ^ (-54 : ℤ)) * (n : ℚ) = n / 2 + n * 2 ^ (-54 : ℤ) := by ring
      _ < n / 2 + 2 ^ 53 * 2 ^ (-54 : ℤ) := by gcongr
      _ = (n + 1) / 2 := by norm_num; ring
      _ ≤ k := by linarith

/-- What exceeds one by less than half of its last digit is rounded to one. -/
theorem rounded_le_one (h : q ≤ 1 + 2 ^ (-61 : ℤ)) : rounded q ≤ 1 := by
  have hlog : Int.log 2 |(1 + 2 ^ (-61 : ℤ) : ℚ)| = 0 := by
    have hpos : (0 : ℚ) < 1 + 2 ^ (-61 : ℤ) := by norm_num
    rw [abs_of_pos hpos]
    refine le_antisymm ?_ ?_
    · rw [← Int.lt_add_one_iff, ← Int.lt_zpow_iff_log_lt one_lt_two hpos]
      norm_num
    · rw [← Int.zpow_le_iff_le_log one_lt_two hpos]
      norm_num
  have hgrid : gridExponent (1 + 2 ^ (-61 : ℤ)) = -52 := by
    unfold gridExponent
    rw [hlog]
    rfl
  have hnearest : nearestInt ((1 + 2 ^ (-61 : ℤ)) / 2 ^ (-52 : ℤ)) = 2 ^ 52 := by
    have hfloor : ⌊((1 + 2 ^ (-61 : ℤ)) / 2 ^ (-52 : ℤ) : ℚ)⌋ = 2 ^ 52 := by
      rw [Int.floor_eq_iff]
      norm_num
    unfold nearestInt Int.fract
    rw [hfloor]
    norm_num
  refine (rounded_mono h).trans (le_of_eq ?_)
  unfold rounded
  rw [hgrid, hnearest]
  norm_num

/-- The way to go, of which a part is gone: what is gone is not more than the whole way, or else is
tiny. -/
theorem rounded_part_le (hrate : 0 ≤ rate) (hrate' : rate ≤ 1 / 8) :
    rounded (rate * rounded p) ≤ p ∨ rounded (rate * rounded p) ≤ 2 ^ (-61 : ℤ) := by
  have hself : rounded (2 ^ (-61 : ℤ)) = 2 ^ (-61 : ℤ) := by
    have := rounded_eq_self (n := 1) (e := -61) (by norm_num) (by norm_num)
    simpa using this
  obtain hshort | hlong := le_total p (2 ^ (-61 : ℤ))
  · refine .inr ?_
    rw [← hself]
    apply rounded_mono
    have hp : rounded p ≤ 2 ^ (-61 : ℤ) := hself ▸ rounded_mono hshort
    calc rate * rounded p ≤ rate * 2 ^ (-61 : ℤ) := mul_le_mul_of_nonneg_left hp hrate
      _ ≤ 1 * 2 ^ (-61 : ℤ) := mul_le_mul_of_nonneg_right (by linarith) (zpow_two_pos _).le
      _ = 2 ^ (-61 : ℤ) := one_mul _
  · refine .inl ?_
    have hp : 0 < p := (zpow_two_pos _).trans_le hlong
    have hsmall : (2 ^ (-1000 : ℤ) : ℚ) ≤ 2 ^ (-63 : ℤ) := zpow_le_zpow_right₀ one_le_two (by decide)
    have hquarter : (2 ^ (-63 : ℤ) : ℚ) ≤ p / 4 := by
      have hshift : (2 ^ (-63 : ℤ) : ℚ) = 2 ^ (-61 : ℤ) / 4 := by norm_num
      rw [hshift]
      exact div_le_div_of_nonneg_right hlong zero_le_four
    have hnormal : (2 ^ (-1000 : ℤ) : ℚ) ≤ p / 4 := hsmall.trans hquarter
    have hdouble : rounded p ≤ 2 * p :=
      rounded_le_two_mul (hnormal.trans (div_le_self hp.le (by norm_num)))
    have hpart : rate * rounded p ≤ p / 4 := by
      calc rate * rounded p ≤ rate * (2 * p) := mul_le_mul_of_nonneg_left hdouble hrate
        _ ≤ 1 / 8 * (2 * p) := mul_le_mul_of_nonneg_right hrate' (by linarith)
        _ = p / 4 := by ring
    calc rounded (rate * rounded p) ≤ rounded (p / 4) := rounded_mono hpart
      _ ≤ 2 * (p / 4) := rounded_le_two_mul hnormal
      _ ≤ p := by linarith only [hp]

/-- A number that is moved toward another one stays below one if both are. -/
theorem rounded_toward_le_one (hrate : 0 ≤ rate) (hrate' : rate ≤ 1 / 8) (hv : v ≤ 1) (hr : r ≤ 1) :
    rounded (v + rounded (rate * rounded (r - v))) ≤ 1 := by
  apply rounded_le_one
  have hpos : (0 : ℚ) < 2 ^ (-61 : ℤ) := zpow_two_pos _
  obtain h | h := rounded_part_le (p := r - v) hrate hrate' <;> linarith

/-- **Moving part of the way.** A number between minus one and one that is moved a tenth of the way
toward another one stays there, rounding included. -/
theorem IsSigned.toward (hx : IsSigned x) (hy : IsSigned y) : IsSigned (x + 0.1 * (y - x)) := by
  obtain ⟨-, hxvalue⟩ := isSigned_iff.1 hx
  obtain ⟨-, hyvalue⟩ := isSigned_iff.1 hy
  obtain ⟨hrate, hrate'⟩ := value_tenth
  obtain ⟨hdiff, hdiffValue⟩ := hy.isModest.sub hx.isModest
  have hway : |value (y - x)| ≤ 2 := by
    rw [hdiffValue]
    have htwo : |value y - value x| ≤ (2 : ℕ) := (abs_sub _ _).trans (by push_cast; linarith)
    exact_mod_cast abs_rounded_le_natCast (by norm_num) htwo
  obtain ⟨hpart, hpartValue⟩ := inUnit_tenth.isModest.mul ⟨hdiff, hway.trans (by norm_num)⟩
  have hpartBound : |value (0.1 * (y - x))| ≤ 1 := by
    rw [hpartValue]
    have hone : |value 0.1 * value (y - x)| ≤ (1 : ℕ) := by
      rw [abs_mul, abs_of_nonneg hrate]
      push_cast
      nlinarith [abs_nonneg (value (y - x))]
    exact_mod_cast abs_rounded_le_natCast (by norm_num) hone
  obtain ⟨hsum, hsumValue⟩ := hx.isModest.add ⟨hpart, hpartBound.trans (by norm_num)⟩
  rw [hpartValue, hdiffValue] at hsumValue
  obtain ⟨hxlow, hxhigh⟩ := abs_le.1 hxvalue
  obtain ⟨hylow, hyhigh⟩ := abs_le.1 hyvalue
  refine isSigned_iff.2 ⟨hsum, abs_le.2 ⟨?_, ?_⟩⟩
  · -- The lower bound is the upper one for the negated numbers.
    have h := rounded_toward_le_one (v := -value x) (r := -value y) hrate hrate'
      (by linarith) (by linarith)
    have hneg : -value x + rounded (value 0.1 * rounded (-value y - -value x)) =
        -(value x + rounded (value 0.1 * rounded (value y - value x))) := by
      have hway : -value y - -value x = -(value y - value x) := by ring
      rw [hway, rounded_neg, mul_neg, rounded_neg]
      ring
    rw [hneg, rounded_neg, ← hsumValue] at h
    linarith
  · rw [hsumValue]
    exact rounded_toward_le_one hrate hrate' hxhigh hyhigh

/-- A rating from one to five as a number between minus one and one. -/
theorem isSigned_rating (h : 1 ≤ x) (h' : x ≤ 5) : IsSigned ((x - 3) / 2) := by
  obtain ⟨hx, hlow, hhigh⟩ :=
    (within_iff_value (by decide +kernel) (by decide +kernel)).1 ⟨h, h'⟩
  rw [value_one] at hlow
  rw [value_ofNat 5 (by norm_num)] at hhigh
  have hmodest : IsModest x := ⟨hx, abs_le.2 ⟨by linarith, by linarith⟩⟩
  have hthree : IsModest 3 := ⟨by decide +kernel, by rw [value_ofNat 3 (by norm_num)]; norm_num⟩
  obtain ⟨hdiff, hdiffValue⟩ := hmodest.sub hthree
  have hbound : |value (x - 3)| ≤ 2 := by
    rw [hdiffValue, value_ofNat 3 (by norm_num)]
    have htwo : |value x - 3| ≤ (2 : ℕ) := abs_le.2 ⟨by push_cast; linarith, by push_cast; linarith⟩
    exact_mod_cast abs_rounded_le_natCast (by norm_num) htwo
  have hhalf : |value (x - 3) / value 2| ≤ (1 : ℕ) := by
    rw [value_ofNat 2 (by norm_num), abs_div, abs_of_pos (two_pos : (0 : ℚ) < 2)]
    push_cast
    linarith
  obtain ⟨hquotient, hvalue⟩ := div_value hdiff (y := 2) (by decide +kernel)
    (by rw [value_ofNat 2 (by norm_num)]; norm_num) (hhalf.trans (by push_cast; exact one_le_pow₀ one_le_two))
  refine isSigned_iff.2 ⟨hquotient, ?_⟩
  rw [hvalue]
  exact_mod_cast abs_rounded_le_natCast (by norm_num) hhalf

end KnowledgeGraph
