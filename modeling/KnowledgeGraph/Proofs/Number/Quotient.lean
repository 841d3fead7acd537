import KnowledgeGraph.Number.Quotient
import KnowledgeGraph.Proofs.Number.Exact

/-!
# Quotients of whole numbers

The quotient of a part and a whole is rounded once, however large the two are (`value_quotient`), so
that the share of a part is the float nearest to the fraction (`isShare_quotient`). A place on a grid
of base two tells the whole steps below a quotient (`Grid.IsAt.floor`) and which step is the nearest
one (`Grid.IsAt.nearest`).
-/

namespace KnowledgeGraph

/-! ## Grids of base two -/

namespace Grid

/-- Where a quotient lies among the multiples of a power of two. -/
structure IsAt (g : Grid) (q : ℚ) : Prop where
  unit_pos : 0 < g.unit
  remainder_lt : g.remainder < g.unit
  eq : q / 2 ^ g.exponent = g.below + g.remainder / g.unit

theorem place_isAt {k n : ℕ} (hn : 0 < n) (places : ℤ) :
    (place 2 k n places).IsAt (k / n) ∧ (place 2 k n places).exponent = -places := by
  have hn' : (n : ℚ) ≠ 0 := by exact_mod_cast hn.ne'
  unfold place
  split
  · rename_i hplaces
    obtain ⟨j, rfl⟩ := Int.eq_ofNat_of_zero_le hplaces
    have hdiv : (k * 2 ^ j : ℚ) = n * (k * 2 ^ j / n : ℕ) + (k * 2 ^ j % n : ℕ) := by
      exact_mod_cast (Nat.div_add_mod (k * 2 ^ j) n).symm
    refine ⟨⟨hn, Nat.mod_lt _ hn, ?_⟩, rfl⟩
    show (k / n : ℚ) / 2 ^ (-(j : ℤ)) = ((k * 2 ^ j / n : ℕ) : ℚ) + ((k * 2 ^ j % n : ℕ) : ℚ) / n
    rw [zpow_neg, zpow_natCast]
    field_simp
    linarith
  · rename_i hplaces
    obtain ⟨j, rfl⟩ : ∃ j : ℕ, places = -j := ⟨(-places).toNat, by omega⟩
    have hstep : 0 < n * 2 ^ j := Nat.mul_pos hn (Nat.pow_pos Nat.two_pos)
    have hdiv : (k : ℚ) = (n * 2 ^ j) * (k / (n * 2 ^ j) : ℕ) + (k % (n * 2 ^ j) : ℕ) := by
      exact_mod_cast (Nat.div_add_mod k (n * 2 ^ j)).symm
    rw [neg_neg, Int.toNat_natCast]
    refine ⟨⟨hstep, Nat.mod_lt _ hstep, ?_⟩, rfl⟩
    show (k / n : ℚ) / 2 ^ (j : ℤ) =
      ((k / (n * 2 ^ j) : ℕ) : ℚ) + ((k % (n * 2 ^ j) : ℕ) : ℚ) / (n * 2 ^ j : ℕ)
    rw [zpow_natCast]
    push_cast
    field_simp
    linarith

variable {g : Grid} {q : ℚ} (h : g.IsAt q)
include h

theorem IsAt.floor : ⌊q / 2 ^ g.exponent⌋ = g.below := by
  have hunit : (0 : ℚ) < g.unit := by exact_mod_cast h.unit_pos
  have hlt : (g.remainder / g.unit : ℚ) < 1 :=
    (div_lt_one hunit).2 (by exact_mod_cast h.remainder_lt)
  have hnonneg : (0 : ℚ) ≤ g.remainder / g.unit := by positivity
  rw [h.eq, Int.floor_eq_iff, Int.cast_natCast]
  constructor <;> linarith

theorem IsAt.below_lt_iff (m : ℕ) : g.below < m ↔ q < m * 2 ^ g.exponent := by
  have hfloor : ⌊q / 2 ^ g.exponent⌋ < (m : ℤ) ↔ q / 2 ^ g.exponent < ((m : ℤ) : ℚ) := Int.floor_lt
  rw [h.floor, Int.cast_natCast, div_lt_iff₀ (zpow_two_pos _)] at hfloor
  rw [← hfloor, Nat.cast_lt]

/-- The step above is taken if it is nearer, or as near and even. -/
theorem IsAt.roundsUp_iff : g.roundsUp = true ↔ 1 / 2 < (g.remainder / g.unit : ℚ) ∨
    (g.remainder / g.unit : ℚ) = 1 / 2 ∧ g.below % 2 = 1 := by
  have hunit : (0 : ℚ) < g.unit := by exact_mod_cast h.unit_pos
  have hmore : 1 / 2 < (g.remainder / g.unit : ℚ) ↔ g.unit < 2 * g.remainder := by
    rw [div_lt_div_iff₀ two_pos hunit, one_mul, mul_comm]
    exact_mod_cast Iff.rfl
  have htie : (g.remainder / g.unit : ℚ) = 1 / 2 ↔ 2 * g.remainder = g.unit := by
    rw [div_eq_div_iff hunit.ne' two_ne_zero, one_mul, mul_comm]
    exact_mod_cast Iff.rfl
  unfold roundsUp
  rw [hmore, htie, Bool.or_eq_true, Bool.and_eq_true, decide_eq_true_iff, beq_iff_eq, beq_iff_eq]

theorem IsAt.nearest : (g.nearest : ℤ) = nearestInt (q / 2 ^ g.exponent) := by
  have hfract : Int.fract (q / 2 ^ g.exponent) = g.remainder / g.unit := by
    unfold Int.fract
    rw [h.floor, h.eq, Int.cast_natCast, add_sub_cancel_left]
  have hup := h.roundsUp_iff
  unfold nearestInt Grid.nearest
  rw [h.floor, hfract]
  generalize (g.remainder / g.unit : ℚ) = part at hup
  obtain hlt | rfl | hgt := lt_trichotomy part (1 / 2)
  · rw [if_pos hlt, if_neg (mt hup.1 (not_or.2 ⟨hlt.not_gt, fun htie => hlt.ne htie.1⟩))]
  · rw [if_neg (lt_irrefl _), if_neg (lt_irrefl _)]
    split
    · rename_i hodd
      have := (hup.1 hodd).resolve_left (lt_irrefl _)
      push_cast
      omega
    · rename_i heven
      have : ¬ g.below % 2 = 1 := fun hodd => heven (hup.2 (.inr ⟨rfl, hodd⟩))
      omega
  · rw [if_neg hgt.not_gt, if_pos hgt, if_pos (hup.2 (.inl hgt))]
    push_cast
    rfl

end Grid

/-! ## Quotients -/

section

variable {k n : ℕ}

/-- The logarithm of a quotient is the difference of the logarithms, or less by one. -/
theorem log_div_bounds (hk : 0 < k) (hn : 0 < n) :
    (k.log2 : ℤ) - n.log2 - 1 ≤ Int.log 2 (k / n : ℚ) ∧
      Int.log 2 (k / n : ℚ) < (k.log2 : ℤ) - n.log2 + 1 := by
  have hn' : (0 : ℚ) < n := by exact_mod_cast hn
  have hq : (0 : ℚ) < k / n := div_pos (by exact_mod_cast hk) hn'
  have hklow : (2 : ℚ) ^ (k.log2 : ℤ) ≤ k := by exact_mod_cast Nat.log2_self_le hk.ne'
  have hkhigh : (k : ℚ) < 2 ^ (k.log2 + 1 : ℤ) := by exact_mod_cast Nat.lt_log2_self (n := k)
  have hnlow : (2 : ℚ) ^ (n.log2 : ℤ) ≤ n := by exact_mod_cast Nat.log2_self_le hn.ne'
  have hnhigh : (n : ℚ) < 2 ^ (n.log2 + 1 : ℤ) := by exact_mod_cast Nat.lt_log2_self (n := n)
  constructor
  · rw [← Int.zpow_le_iff_le_log one_lt_two hq, le_div_iff₀ hn', Nat.cast_ofNat]
    calc (2 : ℚ) ^ ((k.log2 : ℤ) - n.log2 - 1) * n
        ≤ 2 ^ ((k.log2 : ℤ) - n.log2 - 1) * 2 ^ (n.log2 + 1 : ℤ) :=
          mul_le_mul_of_nonneg_left hnhigh.le (zpow_two_pos _).le
      _ = 2 ^ (k.log2 : ℤ) := by
        rw [← zpow_add₀ two_ne_zero]
        congr 1
        ring
      _ ≤ k := hklow
  · rw [← Int.lt_zpow_iff_log_lt one_lt_two hq, div_lt_iff₀ hn', Nat.cast_ofNat]
    calc (k : ℚ) < 2 ^ (k.log2 + 1 : ℤ) := hkhigh
      _ = 2 ^ ((k.log2 : ℤ) - n.log2 + 1) * 2 ^ (n.log2 : ℤ) := by
        rw [← zpow_add₀ two_ne_zero]
        congr 1
        ring
      _ ≤ 2 ^ ((k.log2 : ℤ) - n.log2 + 1) * n :=
        mul_le_mul_of_nonneg_left hnlow (zpow_two_pos _).le

/-- The binary places that are taken leave 53 digits. -/
theorem binaryPlaces_eq (hk : 0 < k) (hn : 0 < n) :
    binaryPlaces k n = 52 - Int.log 2 (k / n : ℚ) := by
  have hq : (0 : ℚ) < k / n := div_pos (by exact_mod_cast hk) (by exact_mod_cast hn)
  obtain ⟨hlow, hhigh⟩ := log_div_bounds hk hn
  obtain ⟨hat, hexponent⟩ := Grid.place_isAt (k := k) hn (52 + n.log2 - k.log2)
  have hbelow : (Grid.place 2 k n (52 + n.log2 - k.log2)).below < Nat.pow 2 52 ↔
      Int.log 2 (k / n : ℚ) < (k.log2 : ℤ) - n.log2 := by
    have hpower : ((2 ^ 52 : ℕ) * 2 ^ (-(52 + n.log2 - k.log2) : ℤ) : ℚ) =
        (2 : ℕ) ^ ((k.log2 : ℤ) - n.log2) := by
      rw [Nat.cast_pow, Nat.cast_ofNat, ← zpow_natCast, ← zpow_add₀ two_ne_zero]
      congr 1
      push_cast
      ring
    rw [Nat.pow_eq, hat.below_lt_iff, hexponent, hpower, Int.lt_zpow_iff_log_lt one_lt_two hq]
  unfold binaryPlaces
  dsimp only
  split
  · rename_i h
    have := hbelow.1 h
    omega
  · rename_i h
    have := mt hbelow.2 h
    omega

/-- **Quotients.** The quotient of a part and a whole is rounded once, however large the two are. -/
theorem value_quotient (h : k ≤ n) (hn : 0 < n) :
    (quotient k n).isFinite = true ∧ value (quotient k n) = rounded (k / n) := by
  unfold quotient
  obtain rfl | hk := Nat.eq_zero_or_pos k
  · rw [if_pos rfl, Nat.cast_zero, zero_div, rounded_zero]
    exact ⟨by decide +kernel, value_zero⟩
  have hn' : (0 : ℚ) < n := by exact_mod_cast hn
  have hq : (0 : ℚ) < k / n := div_pos (by exact_mod_cast hk) hn'
  have hlog : Int.log 2 (k / n : ℚ) < 1 := by
    have hone : (k / n : ℚ) ≤ 1 := (div_le_one hn').2 (by exact_mod_cast h)
    rw [← Int.lt_zpow_iff_log_lt one_lt_two hq]
    exact hone.trans_lt (by norm_num)
  have hgrid : gridExponent (k / n) = max (Int.log 2 (k / n : ℚ) - 52) (-1074) := by
    unfold gridExponent
    rw [abs_of_pos hq]
  have hplaces : min 1074 (binaryPlaces k n) = -gridExponent (k / n) := by
    rw [binaryPlaces_eq hk hn, hgrid]
    omega
  obtain ⟨hat, hexponent⟩ := Grid.place_isAt (k := k) hn (min 1074 (binaryPlaces k n))
  rw [if_neg hk.ne']
  dsimp only
  generalize Grid.place 2 k n (min 1074 (binaryPlaces k n)) = g at hat hexponent
  rw [hplaces, neg_neg] at hexponent
  obtain ⟨hupper, hlower⟩ := nearestInt_bounds hq
  rw [← hexponent, ← hat.nearest] at hupper hlower
  obtain ⟨e, he⟩ := Int.eq_ofNat_of_zero_le (show 0 ≤ g.exponent + 1074 by omega)
  have hle : g.nearest ≤ 2 ^ 53 := by exact_mod_cast hupper
  have hnormal : e = 0 ∨ 2 ^ 52 ≤ g.nearest := by
    obtain hlow | hlow := hlower
    · exact .inr (by exact_mod_cast hlow)
    · exact .inl (by omega)
  have hbits : min (e * Nat.pow 2 52 + g.nearest) 0x7ff0000000000000 = e * 2 ^ 52 + g.nearest := by
    rw [Nat.pow_eq]
    omega
  have hround : (g.nearest : ℚ) * 2 ^ (e - 1074 : ℤ) = rounded (k / n) := by
    have hstep : (e - 1074 : ℤ) = g.exponent := by omega
    unfold rounded
    rw [hstep, ← hexponent, ← hat.nearest, Int.cast_natCast]
  rw [he, Int.toNat_natCast, hbits, ← hround]
  exact value_ofBits (by omega) hle hnormal

end

/-! ## Shares -/

/-- The share of a part in a whole: the float nearest to the fraction. It is positive if there is a
part at all, unless the fraction is less than the smallest of floats. -/
structure IsShare (x : Float) (part whole : ℕ) : Prop where
  value_eq : value x = rounded (part / whole)
  inUnit : InUnit x
  pos : 0 < part → whole ≤ 2 ^ 1074 → 0 < x

theorem isShare_quotient {part whole : ℕ} (h : part ≤ whole) (hwhole : 0 < whole) :
    IsShare (quotient part whole) part whole := by
  obtain ⟨hfinite, hvalue⟩ := value_quotient h hwhole
  have hwhole' : (0 : ℚ) < whole := by exact_mod_cast hwhole
  have hnonneg : (0 : ℚ) ≤ part / whole := by positivity
  have hone : (part / whole : ℚ) ≤ (1 : ℕ) := by
    rw [Nat.cast_one]
    exact (div_le_one hwhole').2 (by exact_mod_cast h)
  have hle := rounded_mono hone
  rw [rounded_natCast (by norm_num), Nat.cast_one] at hle
  refine ⟨hvalue, inUnit_iff_value.2 ⟨hfinite, ?_, ?_⟩, fun hpart hsmall => ?_⟩
  · rw [hvalue]
    exact rounded_nonneg hnonneg
  · rw [hvalue]
    exact hle
  · have hleast : (2 : ℚ) ^ (-1074 : ℤ) ≤ part / whole := by
      have hpart' : (1 : ℚ) ≤ part := by exact_mod_cast hpart
      have hsmall' : (whole : ℚ) ≤ 2 ^ 1074 := by exact_mod_cast hsmall
      rw [zpow_neg, le_div_iff₀ hwhole', inv_mul_le_iff₀ (zpow_two_pos _)]
      calc (whole : ℚ) ≤ 2 ^ 1074 := hsmall'
        _ = 2 ^ (1074 : ℤ) := (zpow_natCast 2 1074).symm
        _ ≤ 2 ^ (1074 : ℤ) * part := le_mul_of_one_le_right (zpow_two_pos _).le hpart'
    have hself : rounded (2 ^ (-1074 : ℤ)) = 2 ^ (-1074 : ℤ) := by
      have := rounded_eq_self (n := 1) (e := -1074) (by norm_num) le_rfl
      simpa using this
    rw [lt_iff_value (by decide +kernel) hfinite, hvalue, value_zero]
    calc (0 : ℚ) < 2 ^ (-1074 : ℤ) := zpow_two_pos _
      _ = rounded (2 ^ (-1074 : ℤ)) := hself.symm
      _ ≤ rounded (part / whole) := rounded_mono hleast

end KnowledgeGraph
