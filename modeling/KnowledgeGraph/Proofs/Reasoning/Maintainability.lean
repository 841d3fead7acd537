import KnowledgeGraph.Reasoning.Quality
import KnowledgeGraph.Proofs.Number.Bounds
import KnowledgeGraph.Proofs.Number.Sum

/-!
# The score of maintainability

Without rounding, the score of code is one less a half of the share of its functions that are too
complex and a fifth of the share of its names that do not follow the most common style
(`exactScore`). It is in the unit interval, and one exactly if both shares are zero
(`exactScore_spec`). Shares of up to `2 ^ 50` members are far enough from zero and from one not to get
lost when the computation is rounded, so the float that comes out is one in the same cases
(`maintainability_spec`).
-/

namespace KnowledgeGraph.Quality

variable {x : Float} {q : ℚ}

/-! ## The exact score -/

/-- The score without rounding, by the share of the functions that are too complex and that of the
names that follow the most common style. -/
def exactScore (complex consistency : ℚ) : ℚ := 1 - complex / 2 - (1 - consistency) / 5

/-- The exact score is in the unit interval, and one if nothing is too complex and all names follow
one style. -/
theorem exactScore_spec {complex consistency : ℚ} (hcomplex : 0 ≤ complex ∧ complex ≤ 1)
    (hconsistency : 0 ≤ consistency ∧ consistency ≤ 1) :
    0 ≤ exactScore complex consistency ∧ exactScore complex consistency ≤ 1 ∧
      (exactScore complex consistency = 1 ↔ complex = 0 ∧ consistency = 1) := by
  obtain ⟨hlow, hhigh⟩ := hcomplex
  obtain ⟨hlow', hhigh'⟩ := hconsistency
  unfold exactScore
  refine ⟨by linarith, by linarith, fun h => ⟨by linarith, by linarith⟩, ?_⟩
  rintro ⟨rfl, rfl⟩
  norm_num

/-! ## Shares -/

/-- A share in a whole of up to `2 ^ 50` members: it is zero or not very near to zero, and one or not
very near to one. -/
structure IsPart (q : ℚ) : Prop where
  nonneg : 0 ≤ q
  le_one : q ≤ 1
  gap_zero : q ≠ 0 → 1 / 2 ^ 50 ≤ q
  gap_one : q ≠ 1 → q ≤ 1 - 1 / 2 ^ 50

theorem isPart_one : IsPart 1 := ⟨zero_le_one, le_rfl, fun _ => by norm_num, fun h => absurd rfl h⟩

theorem isPart_div {k n : ℕ} (h : k ≤ n) (hn : n ≤ 2 ^ 50) : IsPart (k / n) := by
  obtain rfl | hpos := Nat.eq_zero_or_pos n
  · rw [Nat.cast_zero, div_zero]
    exact ⟨le_rfl, zero_le_one, fun h => absurd rfl h, fun _ => by norm_num⟩
  have hpos' : (0 : ℚ) < n := by exact_mod_cast hpos
  have hn' : (n : ℚ) ≤ 2 ^ 50 := by exact_mod_cast hn
  have hstep : (1 : ℚ) / 2 ^ 50 ≤ 1 / n := one_div_le_one_div_of_le hpos' hn'
  refine ⟨by positivity, (div_le_one hpos').2 (by exact_mod_cast h), fun hzero => ?_, fun hone => ?_⟩
  · have hk : (1 : ℚ) ≤ k := by
      have : k ≠ 0 := fun hk => hzero (by rw [hk, Nat.cast_zero, zero_div])
      exact_mod_cast Nat.one_le_iff_ne_zero.2 this
    exact hstep.trans (div_le_div_of_nonneg_right hk hpos'.le)
  · have hk : (k : ℚ) ≤ n - 1 := by
      have : k ≠ n := fun hk => hone (by rw [hk, div_self hpos'.ne'])
      have : k + 1 ≤ n := by omega
      have : (k : ℚ) + 1 ≤ n := by exact_mod_cast this
      linarith
    calc (k / n : ℚ) ≤ (n - 1) / n := div_le_div_of_nonneg_right hk hpos'.le
      _ = 1 - 1 / n := by rw [sub_div, div_self hpos'.ne']
      _ ≤ 1 - 1 / 2 ^ 50 := by linarith

/-! ## Rounding -/

/-- A number is the float nearest to an exact one. -/
structure IsNearest (x : Float) (q : ℚ) : Prop where
  finite : x.isFinite = true
  value_eq : value x = rounded q

theorem rounded_fraction {n k : ℕ} (hn : n < 2 ^ 53) (hk : k ≤ 1074) :
    rounded (n / 2 ^ k) = n / 2 ^ k := by
  have habs : |(n : ℤ)| < 2 ^ (53 : ℕ) := by
    rw [abs_of_nonneg (Int.natCast_nonneg n)]
    exact_mod_cast hn
  have hself := rounded_eq_self (e := -k) habs (by omega)
  rwa [Int.cast_natCast, zpow_neg, zpow_natCast, ← div_eq_mul_inv] at hself

section

variable {b : ℚ} (n k : ℕ) (hb : n < 2 ^ 53 ∧ k ≤ 1074 ∧ b = n / 2 ^ k)
include hb

theorem fraction_le_rounded (h : b ≤ q) : b ≤ rounded q := by
  obtain ⟨hn, hk, rfl⟩ := hb
  exact rounded_fraction hn hk ▸ rounded_mono h

theorem rounded_le_fraction (h : q ≤ b) : rounded q ≤ b := by
  obtain ⟨hn, hk, rfl⟩ := hb
  exact rounded_fraction hn hk ▸ rounded_mono h

end

theorem isNearest_div {k n : ℕ} (hk : k ≤ n) (hpos : 0 < n) (hn : n ≤ 2 ^ 50) :
    IsNearest (k.toFloat / n.toFloat) (k / n) := by
  obtain ⟨hkfinite, hkvalue⟩ := value_toFloat (n := k) (by omega)
  obtain ⟨hnfinite, hnvalue⟩ := value_toFloat (n := n) (by omega)
  have hpos' : (0 : ℚ) < n := by exact_mod_cast hpos
  have hquotient := (isPart_div hk hn).le_one
  have hnonneg := (isPart_div hk hn).nonneg
  have hbound : |value k.toFloat / value n.toFloat| ≤ 2 ^ 1023 := by
    rw [hkvalue, hnvalue, abs_of_nonneg hnonneg]
    exact hquotient.trans (one_le_pow₀ one_le_two)
  obtain ⟨hfinite, hvalue⟩ := div_value hkfinite hnfinite (hnvalue ▸ hpos'.ne') hbound
  rw [hkvalue, hnvalue] at hvalue
  exact ⟨hfinite, hvalue⟩

/-- Rounding keeps the unit interval, and changes a number of it by very little. -/
theorem rounded_spec (hlow : 0 ≤ q) (hhigh : q ≤ 1) :
    0 ≤ rounded q ∧ rounded q ≤ 1 ∧ |rounded q - q| ≤ 1 / 2 ^ 53 := by
  refine ⟨rounded_nonneg hlow, rounded_one ▸ rounded_mono hhigh, abs_rounded_sub_le ?_ le_rfl⟩
  rwa [abs_of_nonneg hlow]

theorem IsPart.rounded_gaps (h : IsPart q) :
    (q ≠ 0 → 1 / 2 ^ 50 ≤ rounded q) ∧ (q ≠ 1 → rounded q ≤ 1 - 1 / 2 ^ 50) := by
  refine ⟨fun hzero => ?_, fun hone => ?_⟩
  · exact fraction_le_rounded 1 50 (by norm_num) (h.gap_zero hzero)
  · exact rounded_le_fraction (2 ^ 50 - 1) 50 (by norm_num) (h.gap_one hone)

/-! ## Penalties -/

/-- A number to be taken from the score, for an exact one: it does not get lost and does not come out
of nothing. -/
structure IsPenalty (z : Float) (penalty least most : ℚ) : Prop where
  finite : z.isFinite = true
  nonneg : 0 ≤ value z
  le_most : value z ≤ most
  zero : penalty = 0 → value z = 0
  least_le : penalty ≠ 0 → least ≤ value z
  near : |value z - penalty| ≤ 2 / 2 ^ 53

theorem isPenalty_half (hx : IsNearest x q) (h : IsPart q) :
    IsPenalty (0.5 * x) (q / 2) (1 / 2 ^ 51) (1 / 2) := by
  obtain ⟨hlow, hhigh, hnear⟩ := rounded_spec h.nonneg h.le_one
  have hgap := h.rounded_gaps.1
  rw [← hx.value_eq] at hlow hhigh hnear hgap
  obtain ⟨hfinite, hvalue⟩ := inUnit_half.isModest.mul
    (inUnit_iff_value.2 ⟨hx.finite, hlow, hhigh⟩).isModest
  rw [value_half] at hvalue
  obtain ⟨hnonneg, -, hround⟩ :=
    rounded_spec (show 0 ≤ 1 / 2 * value x by linarith) (by linarith)
  refine ⟨hfinite, hvalue ▸ hnonneg, ?_, fun hzero => ?_, fun hne => ?_, ?_⟩
  · rw [hvalue]
    exact rounded_le_fraction 1 1 (by norm_num) (by linarith)
  · have hq : q = 0 := by linarith
    rw [hvalue, hx.value_eq, hq, rounded_zero, mul_zero, rounded_zero]
  · have hpart := hgap fun hq => hne (by rw [hq, zero_div])
    rw [hvalue]
    exact fraction_le_rounded 1 51 (by norm_num) (by linarith)
  · rw [hvalue]
    rw [abs_le] at hround hnear ⊢
    constructor <;> linarith

theorem value_fifth : value 0.2 = 3602879701896397 / 2 ^ 54 := by
  have hunpack : (0.2 : Float).toModel.unpack =
    .finite .positive 7205759403792794 (-55) (by decide) := rfl
  unfold value
  rw [hunpack]
  show ((7205759403792794 : ℕ) : ℚ) * 2 ^ (-55 : ℤ) = _
  norm_num

/-- The penalty for names that do not follow the most common style. -/
theorem isPenalty_fifth (hx : IsNearest x q) (h : IsPart q) :
    IsPenalty (0.2 * (1 - x)) ((1 - q) / 5) (1 / 2 ^ 53) (1 / 4) := by
  obtain ⟨hlow, hhigh, hnear⟩ := rounded_spec h.nonneg h.le_one
  have hgap := h.rounded_gaps.2
  rw [← hx.value_eq] at hlow hhigh hnear hgap
  -- The rest of the share is a part itself, so it is rounded as one.
  obtain ⟨hrestFinite, hrest⟩ := inUnit_one.isModest.sub
    (inUnit_iff_value.2 ⟨hx.finite, hlow, hhigh⟩).isModest
  rw [value_one] at hrest
  obtain ⟨hrestLow, hrestHigh, hrestNear⟩ :=
    rounded_spec (show 0 ≤ 1 - value x by linarith) (by linarith)
  rw [← hrest] at hrestLow hrestHigh hrestNear
  have hrestGap (hne : q ≠ 1) : 1 / 2 ^ 50 ≤ value (1 - x) := by
    have hpart := hgap hne
    rw [hrest]
    exact fraction_le_rounded 1 50 (by norm_num) (by linarith)
  have hfifth : InUnit 0.2 := ⟨by decide +kernel, by decide +kernel⟩
  obtain ⟨hfinite, hvalue⟩ := hfifth.isModest.mul
    (inUnit_iff_value.2 ⟨hrestFinite, hrestLow, hrestHigh⟩).isModest
  rw [value_fifth] at hvalue
  obtain ⟨hnonneg, -, hround⟩ :=
    rounded_spec (show 0 ≤ 3602879701896397 / 2 ^ 54 * value (1 - x) by positivity) (by linarith)
  refine ⟨hfinite, hvalue ▸ hnonneg, ?_, fun hzero => ?_, fun hne => ?_, ?_⟩
  · rw [hvalue]
    exact rounded_le_fraction 1 2 (by norm_num) (by linarith)
  · have hq : q = 1 := by linarith
    rw [hvalue, hrest, hx.value_eq, hq, rounded_one, sub_self, rounded_zero, mul_zero, rounded_zero]
  · have hpart := hrestGap fun hq => hne (by rw [hq, sub_self, zero_div])
    rw [hvalue]
    exact fraction_le_rounded 1 53 (by norm_num) (by linarith)
  · rw [hvalue]
    rw [abs_le] at hround hnear hrestNear ⊢
    norm_num at hround hnear hrestNear ⊢
    constructor <;> linarith

/-! ## The score -/

/-- What a penalty leaves of one. -/
structure IsRest (y : Float) (penalty : ℚ) : Prop where
  finite : y.isFinite = true
  half_le : 1 / 2 ≤ value y
  le_one : value y ≤ 1
  one : penalty = 0 → value y = 1
  gap : penalty ≠ 0 → value y ≤ 1 - 1 / 2 ^ 51
  near : |value y - (1 - penalty)| ≤ 3 / 2 ^ 53

theorem isRest_one : IsRest 1 0 where
  finite := inUnit_one.isFinite
  half_le := by rw [value_one]; norm_num
  le_one := value_one.le
  one _ := value_one
  gap h := absurd rfl h
  near := by rw [value_one]; norm_num

section

variable {y z : Float} {penalty penalty' : ℚ}

theorem isRest_sub (hz : IsPenalty z penalty (1 / 2 ^ 51) (1 / 2)) : IsRest (1 - z) penalty := by
  have hlow := hz.nonneg
  have hhigh := hz.le_most
  have hnear := hz.near
  obtain ⟨hfinite, hvalue⟩ := inUnit_one.isModest.sub
    (inUnit_iff_value.2 ⟨hz.finite, hlow, by linarith⟩).isModest
  rw [value_one] at hvalue
  obtain ⟨-, hle, hround⟩ := rounded_spec (show 0 ≤ 1 - value z by linarith) (by linarith)
  refine ⟨hfinite, ?_, hvalue ▸ hle, fun hzero => ?_, fun hne => ?_, ?_⟩ <;> rw [hvalue]
  · exact fraction_le_rounded 1 1 (by norm_num) (by linarith)
  · rw [hz.zero hzero, sub_zero, rounded_one]
  · have hleast := hz.least_le hne
    exact rounded_le_fraction (2 ^ 51 - 1) 51 (by norm_num) (by linarith)
  · rw [abs_le] at hround hnear ⊢
    constructor <;> linarith

/-- A second penalty leaves a number of the unit interval, which is one if both penalties are zero. -/
theorem IsRest.sub (hy : IsRest y penalty) (hz : IsPenalty z penalty' (1 / 2 ^ 53) (1 / 4)) :
    InUnit (y - z) ∧ (value (y - z) = 1 ↔ penalty = 0 ∧ penalty' = 0) ∧
      |value (y - z) - (1 - penalty - penalty')| ≤ 6 / 2 ^ 53 := by
  have hylow := hy.half_le
  have hyhigh := hy.le_one
  have hzlow := hz.nonneg
  have hzhigh := hz.le_most
  have hynear := hy.near
  have hznear := hz.near
  obtain ⟨hfinite, hvalue⟩ :=
    (inUnit_iff_value.2 ⟨hy.finite, by linarith, hyhigh⟩).isModest.sub
      (inUnit_iff_value.2 ⟨hz.finite, hzlow, by linarith⟩).isModest
  obtain ⟨hlow, hhigh, hround⟩ :=
    rounded_spec (show 0 ≤ value y - value z by linarith) (by linarith)
  have hless (h : value y - value z ≤ 1 - 1 / 2 ^ 53) : value (y - z) ≠ 1 := by
    have hle := rounded_le_fraction (2 ^ 53 - 1) 53 (by norm_num) h
    rw [hvalue]
    exact (hle.trans_lt (by norm_num)).ne
  refine ⟨inUnit_iff_value.2 ⟨hfinite, hvalue ▸ hlow, hvalue ▸ hhigh⟩,
    ⟨fun hone => ?_, fun ⟨hzero, hzero'⟩ => ?_⟩, ?_⟩
  · constructor
    · by_contra hne
      have hgap := hy.gap hne
      exact hless (by linarith) hone
    · by_contra hne
      have hleast := hz.least_le hne
      exact hless (by linarith) hone
  · rw [hvalue, hy.one hzero, hz.zero hzero', sub_zero, rounded_one]
  · rw [hvalue]
    rw [abs_le] at hround hynear hznear ⊢
    constructor <;> linarith

end

/-- **The score.** It is in the unit interval, it is one exactly if no function is too complex and all
names follow one style, and it is near the exact score. -/
theorem maintainability_spec {high total : ℕ} {consistency : Float} {share : ℚ} (hhigh : high ≤ total)
    (htotal : total ≤ 2 ^ 50) (hconsistency : IsNearest consistency share) (hshare : IsPart share) :
    InUnit (maintainability high total consistency) ∧
      ((maintainability high total consistency == 1) = true ↔ high = 0 ∧ share = 1) ∧
      |value (maintainability high total consistency) - exactScore (high / total) share| ≤
        1 / 2 ^ 50 := by
  have hzero : (high / total : ℚ) / 2 = 0 ↔ high = 0 := by
    rw [div_eq_zero_iff, or_iff_left two_ne_zero, div_eq_zero_iff, Nat.cast_eq_zero,
      Nat.cast_eq_zero]
    omega
  have hone : (1 - share) / 5 = 0 ↔ share = 1 := by
    rw [div_eq_zero_iff, or_iff_left (by norm_num), sub_eq_zero, eq_comm]
  have hrest : IsRest (if total = 0 then 1 else 1 - 0.5 * (high.toFloat / total.toFloat))
      (high / total / 2) := by
    split
    · rename_i hnone
      rw [hnone, Nat.cast_zero, div_zero, zero_div]
      exact isRest_one
    · rename_i hsome
      exact isRest_sub (isPenalty_half (isNearest_div hhigh (Nat.pos_of_ne_zero hsome) htotal)
        (isPart_div hhigh htotal))
  obtain ⟨hunit, hvalue, hnear⟩ := hrest.sub (isPenalty_fifth hconsistency hshare)
  rw [hzero, hone] at hvalue
  unfold maintainability
  dsimp only
  generalize (if total = 0 then (1 : Float) else 1 - 0.5 * (high.toFloat / total.toFloat)) -
    0.2 * (1 - consistency) = score at hunit hvalue hnear
  refine ⟨inUnit_clampUnit score, ?_, ?_⟩
  · rw [beq_iff_value (inUnit_clampUnit score).isFinite inUnit_one.isFinite, hunit.value_clampUnit,
      value_one, hvalue]
  · rw [hunit.value_clampUnit]
    exact hnear.trans (by norm_num)

end KnowledgeGraph.Quality
