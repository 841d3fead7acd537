import Mathlib.Algebra.Order.Floor.Ring
import Mathlib.Data.Int.Log
import Mathlib.Data.Rat.Floor
import Mathlib.Tactic.Linarith
import Mathlib.Tactic.Positivity
import Mathlib.Tactic.Ring

/-!
# Rounding

The rational number that a binary64 float has where the exact result is any rational: the nearest one
of 53 binary digits, and of two that are as near the even one (`rounded`). Overflow is left out. What
is used of it later is that rounding keeps the order (`rounded_mono`) and does not change what has few
digits (`rounded_eq_self`).
-/

namespace KnowledgeGraph

/-! ## Whole numbers -/

/-- The nearest whole number, and of two that are as near the even one. -/
def nearestInt (q : ℚ) : ℤ :=
  if Int.fract q < 1 / 2 then ⌊q⌋
  else if 1 / 2 < Int.fract q then ⌊q⌋ + 1
  else ⌊q⌋ + ⌊q⌋ % 2

variable {p q : ℚ} {n : ℤ}

theorem floor_le_nearestInt (q : ℚ) : ⌊q⌋ ≤ nearestInt q := by
  unfold nearestInt
  split_ifs <;> omega

theorem nearestInt_le_floor_add_one (q : ℚ) : nearestInt q ≤ ⌊q⌋ + 1 := by
  unfold nearestInt
  split_ifs <;> omega

theorem nearestInt_intCast (n : ℤ) : nearestInt n = n := by
  unfold nearestInt
  simp

/-- What is more than half way to the next whole number is not rounded down. -/
theorem lt_nearestInt (h : n + 1 / 2 < q) : n < nearestInt q := by
  have hfloor : n ≤ ⌊q⌋ := Int.le_floor.2 (by linarith)
  obtain hlt | rfl := hfloor.lt_or_eq
  · exact hlt.trans_le (floor_le_nearestInt q)
  · have hfract : 1 / 2 < Int.fract q := by
      unfold Int.fract
      linarith
    unfold nearestInt
    rw [if_neg (not_lt.2 hfract.le), if_pos hfract]
    exact lt_add_one _

theorem nearestInt_mono (h : p ≤ q) : nearestInt p ≤ nearestInt q := by
  obtain hlt | heq := (Int.floor_mono h).lt_or_eq
  · have hp := nearestInt_le_floor_add_one p
    have hq := floor_le_nearestInt q
    omega
  · have hfract : Int.fract p ≤ Int.fract q := by
      unfold Int.fract
      rw [heq]
      linarith
    unfold nearestInt
    rw [heq]
    split_ifs <;> first | omega | linarith

theorem nearestInt_neg (q : ℚ) : nearestInt (-q) = -nearestInt q := by
  by_cases hint : Int.fract q = 0
  · have hq : q = ⌊q⌋ := by
      have := Int.floor_add_fract q
      linarith
    rw [hq, ← Int.cast_neg, nearestInt_intCast, nearestInt_intCast]
  · have hfract : Int.fract (-q) = 1 - Int.fract q := Int.fract_neg hint
    have hfloor : ⌊-q⌋ = -⌊q⌋ - 1 := by
      have h1 := Int.floor_add_fract q
      have h2 := Int.floor_add_fract (-q)
      have h3 : ((⌊-q⌋ : ℤ) : ℚ) = ((-⌊q⌋ - 1 : ℤ) : ℚ) := by
        push_cast
        linarith
      exact_mod_cast h3
    unfold nearestInt
    rw [hfract, hfloor]
    split_ifs <;> first | omega | linarith

/-! ## Grids -/

/-- The numbers of 53 binary digits near a rational are the multiples of two to this power; it is not
below that of the smallest float. -/
def gridExponent (q : ℚ) : ℤ := max (Int.log 2 |q| - 52) (-1074)

/-- The multiple on the grid that is nearest. -/
def rounded (q : ℚ) : ℚ := nearestInt (q / 2 ^ gridExponent q) * 2 ^ gridExponent q

theorem gridExponent_neg (q : ℚ) : gridExponent (-q) = gridExponent q := by
  unfold gridExponent
  rw [abs_neg]

theorem rounded_neg (q : ℚ) : rounded (-q) = -rounded q := by
  unfold rounded
  rw [gridExponent_neg, neg_div, nearestInt_neg, Int.cast_neg, neg_mul]

theorem rounded_zero : rounded 0 = 0 := by
  unfold rounded
  rw [zero_div]
  have h := nearestInt_intCast 0
  simp_all

theorem zpow_two_pos (k : ℤ) : (0 : ℚ) < 2 ^ k := zpow_pos two_pos k

theorem exists_finer {e k : ℤ} (h : e ≤ k) (n : ℤ) : ∃ m : ℤ, (n * 2 ^ k : ℚ) = m * 2 ^ e := by
  obtain ⟨d, hd⟩ := Int.eq_ofNat_of_zero_le (sub_nonneg.2 h)
  refine ⟨n * 2 ^ d, ?_⟩
  rw [show k = d + e by omega, zpow_add₀ two_ne_zero]
  push_cast
  rw [zpow_natCast]
  ring

/-- What is on the grid of a number is not passed by rounding. -/
theorem rounded_le_of_grid (h : q ≤ n * 2 ^ gridExponent q) : rounded q ≤ n * 2 ^ gridExponent q := by
  have hpos := zpow_two_pos (gridExponent q)
  have hnearest := nearestInt_mono ((div_le_iff₀ hpos).2 h)
  rw [nearestInt_intCast] at hnearest
  exact mul_le_mul_of_nonneg_right (by exact_mod_cast hnearest) hpos.le

theorem le_rounded_of_grid (h : n * 2 ^ gridExponent q ≤ q) : n * 2 ^ gridExponent q ≤ rounded q := by
  have hpos := zpow_two_pos (gridExponent q)
  have hnearest := nearestInt_mono ((le_div_iff₀ hpos).2 h)
  rw [nearestInt_intCast] at hnearest
  exact mul_le_mul_of_nonneg_right (by exact_mod_cast hnearest) hpos.le

theorem rounded_le_zpow {k : ℤ} (h : q ≤ 2 ^ k) (hk : gridExponent q ≤ k) : rounded q ≤ 2 ^ k := by
  obtain ⟨n, hn⟩ := exists_finer hk 1
  rw [Int.cast_one, one_mul] at hn
  rw [hn] at h ⊢
  exact rounded_le_of_grid h

theorem zpow_le_rounded {k : ℤ} (h : 2 ^ k ≤ q) (hk : gridExponent q ≤ k) : 2 ^ k ≤ rounded q := by
  obtain ⟨n, hn⟩ := exists_finer hk 1
  rw [Int.cast_one, one_mul] at hn
  rw [hn] at h ⊢
  exact le_rounded_of_grid h

theorem rounded_nonneg (h : 0 ≤ q) : 0 ≤ rounded q := by
  have hzero := le_rounded_of_grid (q := q) (n := 0) (by simpa using h)
  simpa using hzero

/-- The exponent of the grid keeps the order of what is not negative. -/
theorem gridExponent_mono (hp : 0 < p) (h : p ≤ q) : gridExponent p ≤ gridExponent q := by
  have hlog : Int.log 2 |p| ≤ Int.log 2 |q| := by
    rw [abs_of_pos hp, abs_of_pos (hp.trans_le h)]
    exact Int.log_mono_right hp h
  unfold gridExponent
  omega

/-- On one grid the order is kept by the nearest whole number; between two grids there is a power of
two that neither of the numbers passes. -/
theorem rounded_mono_of_pos (hp : 0 < p) (h : p ≤ q) : rounded p ≤ rounded q := by
  have hq := hp.trans_le h
  obtain hgrid | hgrid := (gridExponent_mono hp h).eq_or_lt
  · have hpos := zpow_two_pos (gridExponent q)
    have hnearest := nearestInt_mono (div_le_div_of_nonneg_right h hpos.le)
    unfold rounded
    rw [hgrid]
    exact mul_le_mul_of_nonneg_right (by exact_mod_cast hnearest) hpos.le
  · have hlog : Int.log 2 p < Int.log 2 q := by
      unfold gridExponent at hgrid
      rw [abs_of_pos hp, abs_of_pos hq] at hgrid
      omega
    have hlow : p < 2 ^ Int.log 2 q := by
      have := (Int.lt_zpow_iff_log_lt one_lt_two hp).2 hlog
      simpa using this
    have hhigh : 2 ^ Int.log 2 q ≤ q := by
      have := Int.zpow_log_le_self (R := ℚ) one_lt_two hq
      simpa using this
    have hk : gridExponent q ≤ Int.log 2 q := by
      unfold gridExponent at hgrid ⊢
      rw [abs_of_pos hp, abs_of_pos hq] at hgrid
      rw [abs_of_pos hq]
      omega
    calc rounded p ≤ 2 ^ Int.log 2 q := rounded_le_zpow hlow.le (hgrid.le.trans hk)
      _ ≤ rounded q := zpow_le_rounded hhigh hk

/-- **Rounding keeps the order.** -/
theorem rounded_mono (h : p ≤ q) : rounded p ≤ rounded q := by
  obtain hp | rfl | hp := lt_trichotomy 0 p
  · exact rounded_mono_of_pos hp h
  · rw [rounded_zero]
    exact rounded_nonneg h
  · obtain hq | rfl | hq := lt_trichotomy 0 q
    · have hneg := rounded_nonneg (neg_nonneg.2 hp.le)
      rw [rounded_neg] at hneg
      have := rounded_nonneg hq.le
      linarith
    · have hneg := rounded_nonneg (neg_nonneg.2 hp.le)
      rw [rounded_neg] at hneg
      rw [rounded_zero]
      linarith
    · have hneg := rounded_mono_of_pos (neg_pos.2 hq) (neg_le_neg h)
      rw [rounded_neg, rounded_neg] at hneg
      linarith

/-- **What has 53 digits is not changed.** -/
theorem rounded_eq_self {e : ℤ} (hn : |n| < 2 ^ (53 : ℕ)) (he : -1074 ≤ e) :
    rounded (n * 2 ^ e) = n * 2 ^ e := by
  obtain rfl | hzero := eq_or_ne n 0
  · simp [rounded_zero]
  · have habs : 0 < |(n * 2 ^ e : ℚ)| := by
      have := (zpow_two_pos e).ne'
      have hcast : (n : ℚ) ≠ 0 := by exact_mod_cast hzero
      positivity
    have hlog : Int.log 2 |(n * 2 ^ e : ℚ)| < 53 + e := by
      rw [← Int.lt_zpow_iff_log_lt one_lt_two habs, abs_mul, abs_of_pos (zpow_two_pos e)]
      rw [zpow_add₀ (by norm_num)]
      have hcast : |(n : ℚ)| < 2 ^ (53 : ℤ) := by exact_mod_cast hn
      have := mul_lt_mul_of_pos_right hcast (zpow_two_pos e)
      simpa using this
    have hgrid : gridExponent (n * 2 ^ e) ≤ e := by
      unfold gridExponent
      omega
    obtain ⟨m, hm⟩ := exists_finer hgrid n
    apply le_antisymm
    · have := rounded_le_of_grid hm.le
      rwa [← hm] at this
    · have := le_rounded_of_grid hm.ge
      rwa [← hm] at this

end KnowledgeGraph
