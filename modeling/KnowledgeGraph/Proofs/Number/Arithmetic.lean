import KnowledgeGraph.Proofs.Number.Value

/-!
# Arithmetic of floats

A sum, a product or a quotient of finite floats stands for the exact one rounded, as long as that does
not overflow (`add_value`, `mul_value`, `div_value`). So sums and products keep the order, and the
share of a part in a whole is in the unit interval (`inUnit_div`, `inUnit_share`).
-/

namespace KnowledgeGraph

open Float.Model (Format UnpackedFloat totalExponent)

open Float.Model.UnpackedFloat (Sign Accuracy ExtendedMantissa roundWithAccuracy shiftToTargetExponent
  shiftToExponent decreaseExponent)

variable {a b : UnpackedFloat}

/-! ## Rounding a mantissa -/

/-- A mantissa with two bits stands for a number: the mantissa is its whole part, the one bit says
whether the rest is a half or more, and the other one whether it is neither nothing nor a half. -/
def Describes (m : ExtendedMantissa) (x : ℚ) : Prop :=
  ∃ t : ℚ, x = m.mantissa + t ∧ 0 ≤ t ∧ t < 1 ∧ (m.roundBit = true ↔ 1 / 2 ≤ t) ∧
    (m.stickyBit = true ↔ t ≠ 0 ∧ t ≠ 1 / 2)

variable {m : ExtendedMantissa} {x : ℚ}

theorem Describes.floor (h : Describes m x) : ⌊x⌋ = m.mantissa := by
  obtain ⟨t, rfl, h0, h1, -⟩ := h
  rw [Int.floor_eq_iff]
  push_cast
  constructor <;> linarith

theorem Describes.roundedMantissa (h : Describes m x) : (m.roundedMantissa : ℤ) = nearestInt x := by
  have hfloor := h.floor
  obtain ⟨t, rfl, h0, h1, hround, hsticky⟩ := h
  have hfract : Int.fract ((m.mantissa : ℚ) + t) = t := by
    rw [Int.fract_natCast_add, Int.fract_eq_self.2 ⟨h0, h1⟩]
  unfold nearestInt
  rw [hfract, hfloor]
  obtain ⟨n, round, sticky⟩ := m
  unfold ExtendedMantissa.roundedMantissa
  dsimp only at hround hsticky ⊢
  obtain hlt | rfl | hgt := lt_trichotomy t (1 / 2)
  · have hnot : round = false := by simpa using mt hround.1 (not_le.2 hlt)
    rw [if_pos hlt, hnot]
    cases sticky <;> rfl
  · have hyes : round = true := hround.2 le_rfl
    have hnot : sticky = false := by simpa using hsticky
    rw [hyes, hnot, if_neg (lt_irrefl _), if_neg (lt_irrefl _)]
    rfl
  · have hyes : round = true := hround.2 hgt.le
    have hyes' : sticky = true := hsticky.2 ⟨by linarith, hgt.ne'⟩
    rw [hyes, hyes', if_neg (not_lt.2 hgt.le), if_pos hgt]
    rfl

theorem Describes.shiftRightOne (h : Describes m x) : Describes m.shiftRightOne (x / 2) := by
  obtain ⟨t, rfl, h0, h1, hround, hsticky⟩ := h
  obtain ⟨n, round, sticky⟩ := m
  have hn : (n : ℚ) = 2 * (n / 2 : ℕ) + (n % 2 : ℕ) := by exact_mod_cast (Nat.div_add_mod n 2).symm
  unfold ExtendedMantissa.shiftRightOne
  dsimp only at hround hsticky ⊢
  refine ⟨((n % 2 : ℕ) + t) / 2, by rw [hn]; ring, ?_⟩
  dsimp only
  have hany : (round || sticky) = true ↔ t ≠ 0 := by
    rw [Bool.or_eq_true, hround, hsticky]
    constructor
    · rintro (h | h)
      · linarith
      · exact h.1
    · intro h
      by_cases hhalf : t = 1 / 2
      · exact .inl hhalf.ge
      · exact .inr ⟨h, hhalf⟩
  rw [hany]
  obtain heven | hodd := Nat.mod_two_eq_zero_or_one n
  · rw [heven, Nat.cast_zero, zero_add]
    refine ⟨by linarith, by linarith, ?_, ?_⟩
    · simp only [bne_self_eq_false, Bool.false_eq_true, false_iff]
      linarith
    · constructor
      · intro h
        exact ⟨by simpa using h, by linarith⟩
      · rintro ⟨h, -⟩ rfl
        simp at h
  · rw [hodd, Nat.cast_one]
    refine ⟨by linarith, by linarith, ?_, ?_⟩
    · simp only [Nat.one_ne_zero, bne_iff_ne, ne_eq, not_false_eq_true, true_iff]
      linarith
    · constructor
      · intro h
        exact ⟨by linarith, fun hhalf => h (by linarith)⟩
      · rintro ⟨-, h⟩ rfl
        simp at h

theorem Describes.shiftRight (h : Describes m x) (n : ℕ) : Describes (m >>> n) (x / 2 ^ n) := by
  show Describes (n.repeat ExtendedMantissa.shiftRightOne m) _
  induction n with
  | zero => simpa [Nat.repeat] using h
  | succ n ih =>
    have hnext := ih.shiftRightOne
    rwa [div_div, ← pow_succ] at hnext

theorem describes_exact (n : ℕ) : Describes (.ofMantissaAndAccuracy n .exact) n :=
  ⟨0, by simp [ExtendedMantissa.ofMantissaAndAccuracy], le_rfl, zero_lt_one,
    by simp [ExtendedMantissa.ofMantissaAndAccuracy],
    by simp [ExtendedMantissa.ofMantissaAndAccuracy]⟩

theorem targetExponent_eq (e : ℤ) : Format.binary64.targetExponent e = max (e - 53) (-1074) := rfl

variable {r : ℚ} {n : ℕ} {e : ℤ} {accuracy : Accuracy}

/-- The exponent that a mantissa is moved to is that of the grid of the number. -/
theorem targetExponent_of_floor (hr : 0 < r) (hn : ⌊r / 2 ^ e⌋ = n)
    (he : n = 0 → e ≤ gridExponent r) :
    Format.binary64.targetExponent (totalExponent n e) = gridExponent r := by
  have hpos := zpow_two_pos e
  rw [targetExponent_eq]
  unfold gridExponent totalExponent at *
  rw [abs_of_pos hr] at he ⊢
  obtain ⟨hlow, hhigh⟩ := Int.floor_eq_iff.1 hn
  rw [le_div_iff₀ hpos] at hlow
  rw [div_lt_iff₀ hpos] at hhigh
  obtain rfl | hzero := eq_or_ne n 0
  · -- Below the exponent there is less than one digit, so this is the lowest one.
    have hlog : Int.log 2 r < e := by
      rw [← Int.lt_zpow_iff_log_lt one_lt_two hr]
      simpa using hhigh
    have hlog0 : Nat.log2 0 = 0 := by decide
    have he := he rfl
    omega
  · have hlog : Int.log 2 r = n.log2 + e := by
      apply le_antisymm
      · have hup : ((n : ℤ) : ℚ) + 1 ≤ 2 ^ (n.log2 + 1) := by exact_mod_cast Nat.lt_log2_self
        have hbound : r < 2 ^ ((n.log2 : ℤ) + e + 1) := by
          calc r < ((n : ℤ) + 1) * 2 ^ e := hhigh
            _ ≤ 2 ^ (n.log2 + 1) * 2 ^ e := mul_le_mul_of_nonneg_right hup hpos.le
            _ = 2 ^ ((n.log2 : ℤ) + e + 1) := by
              rw [← zpow_natCast, ← zpow_add₀ two_ne_zero]
              congr 1
              push_cast
              ring
        rw [← Int.lt_add_one_iff, ← Int.lt_zpow_iff_log_lt one_lt_two hr]
        exact_mod_cast hbound
      · have hdown : (2 ^ n.log2 : ℚ) ≤ (n : ℤ) := by exact_mod_cast Nat.log2_self_le hzero
        have hbound : 2 ^ ((n.log2 : ℤ) + e) ≤ r := by
          calc (2 : ℚ) ^ ((n.log2 : ℤ) + e) = 2 ^ n.log2 * 2 ^ e := by
                rw [zpow_add₀ two_ne_zero, zpow_natCast]
            _ ≤ (n : ℤ) * 2 ^ e := mul_le_mul_of_nonneg_right hdown hpos.le
            _ ≤ r := hlow
        rw [← Int.zpow_le_iff_le_log one_lt_two hr]
        exact_mod_cast hbound
    omega

/-- A mantissa is moved to the grid of the number that it describes. -/
theorem shiftToTargetExponent_describes (hr : 0 < r)
    (h : Describes (.ofMantissaAndAccuracy n accuracy) (r / 2 ^ e)) (he : e ≤ gridExponent r) :
    (shiftToTargetExponent .binary64 n e accuracy).2 = gridExponent r ∧
      Describes (shiftToTargetExponent .binary64 n e accuracy).1 (r / 2 ^ gridExponent r) := by
  have hmantissa : (ExtendedMantissa.ofMantissaAndAccuracy n accuracy).mantissa = n := by
    cases accuracy with
    | exact => rfl
    | inexact o => cases o <;> rfl
  have htarget := targetExponent_of_floor hr (hmantissa ▸ h.floor) fun _ => he
  unfold shiftToTargetExponent shiftToExponent
  dsimp only
  rw [htarget]
  obtain ⟨d, hd⟩ := Int.eq_ofNat_of_zero_le (sub_nonneg.2 he)
  have hsum : gridExponent r = e + d := by omega
  rw [hd, Int.toNat_natCast]
  refine ⟨hsum.symm, ?_⟩
  have hshift := h.shiftRight d
  rwa [div_div, ← zpow_natCast, ← zpow_add₀ two_ne_zero, ← hsum] at hshift

/-- A mantissa of 53 digits stays, and the first one with more gets a digit less. -/
theorem shiftToTargetExponent_exact (hn : n ≤ 2 ^ 53) (he : -1074 ≤ e) :
    shiftToTargetExponent .binary64 n e .exact =
      if n < 2 ^ 53 then (⟨n, false, false⟩, e) else (⟨2 ^ 52, false, false⟩, e + 1) := by
  unfold shiftToTargetExponent shiftToExponent
  rw [targetExponent_eq]
  unfold totalExponent
  split
  · rename_i hlt
    have hlog : n.log2 < 53 := by
      obtain rfl | hzero := eq_or_ne n 0
      · decide
      · exact (Nat.log2_lt hzero).2 hlt
    have hshift : (max ((n.log2 : ℤ) + 1 + e - 53) (-1074) - e).toNat = 0 := by omega
    dsimp only
    rw [hshift, Nat.cast_zero, add_zero]
    rfl
  · have hn : n = 2 ^ 53 := by omega
    subst hn
    have hshift : (max (((2 ^ 53).log2 : ℤ) + 1 + e - 53) (-1074) - e).toNat = 1 := by
      rw [Nat.log2_two_pow]
      omega
    dsimp only
    rw [hshift]
    rfl

/-- The nearest whole number on the grid has at most 53 digits, or is the first one with more; it has
fewer only on the lowest grid. -/
theorem nearestInt_bounds (hr : 0 < r) : nearestInt (r / 2 ^ gridExponent r) ≤ 2 ^ 53 ∧
    (2 ^ 52 ≤ nearestInt (r / 2 ^ gridExponent r) ∨ gridExponent r = -1074) := by
  have hpos := zpow_two_pos (gridExponent r)
  have hself : r < 2 ^ (Int.log 2 r + 1) := by
    have := Int.lt_zpow_succ_log_self (R := ℚ) one_lt_two r
    exact_mod_cast this
  have hlog : (2 : ℚ) ^ Int.log 2 r ≤ r := by
    have := Int.zpow_log_le_self (R := ℚ) one_lt_two hr
    exact_mod_cast this
  constructor
  · have hup : r / 2 ^ gridExponent r ≤ ((2 ^ 53 : ℤ) : ℚ) := by
      rw [div_le_iff₀ hpos]
      calc r ≤ 2 ^ (Int.log 2 r + 1) := hself.le
        _ ≤ 2 ^ (53 + gridExponent r) := by
          refine zpow_le_zpow_right₀ one_le_two ?_
          unfold gridExponent
          rw [abs_of_pos hr]
          omega
        _ = ((2 ^ 53 : ℤ) : ℚ) * 2 ^ gridExponent r := by
          rw [zpow_add₀ two_ne_zero]
          norm_num
    have hnearest := nearestInt_mono hup
    rwa [nearestInt_intCast] at hnearest
  · by_cases hlowest : gridExponent r = -1074
    · exact .inr hlowest
    · have hdown : ((2 ^ 52 : ℤ) : ℚ) ≤ r / 2 ^ gridExponent r := by
        rw [le_div_iff₀ hpos]
        calc ((2 ^ 52 : ℤ) : ℚ) * 2 ^ gridExponent r = 2 ^ (52 + gridExponent r) := by
              rw [zpow_add₀ two_ne_zero]
              norm_num
          _ ≤ 2 ^ Int.log 2 r := by
            refine zpow_le_zpow_right₀ one_le_two ?_
            unfold gridExponent at hlowest ⊢
            rw [abs_of_pos hr] at hlowest ⊢
            omega
          _ ≤ r := hlog
      have hnearest := nearestInt_mono hdown
      rw [nearestInt_intCast] at hnearest
      exact .inl hnearest

/-- The form with a sign, a mantissa and an exponent. -/
def ofMagnitude (s : Sign) (n : ℕ) (e : ℤ) : UnpackedFloat :=
  if h : n = 0 then .zero s else .finite s n e (Nat.pos_of_ne_zero h)

theorem ofMagnitude_value (s : Sign) (hn : n < 2 ^ 53) (he : -1074 ≤ e)
    (hlow : 2 ^ 52 ≤ n ∨ e = -1074) :
    IsCanonical (ofMagnitude s n e) ∧ valueOf (ofMagnitude s n e) = signed s (n * 2 ^ e) := by
  unfold ofMagnitude
  by_cases hzero : n = 0
  · rw [dif_pos hzero, hzero, Nat.cast_zero, zero_mul]
    refine ⟨trivial, ?_⟩
    cases s
    · exact neg_zero.symm
    · rfl
  · rw [dif_neg hzero]
    exact ⟨⟨hn, he, hlow⟩, rfl⟩

theorem roundWithAccuracy_eq (s : Sign) (n : ℕ) (e : ℤ) (accuracy : Accuracy) :
    roundWithAccuracy .binary64 s n e accuracy =
      let first := shiftToTargetExponent .binary64 n e accuracy
      let second := shiftToTargetExponent .binary64 first.1.roundedMantissa first.2 .exact
      ofMagnitude s second.1.mantissa second.2 := rfl

/-- **Rounding.** From a mantissa that describes a number, the number is rounded. -/
theorem roundWithAccuracy_value (hr : 0 < r)
    (h : Describes (.ofMantissaAndAccuracy n accuracy) (r / 2 ^ e)) (he : e ≤ gridExponent r)
    (s : Sign) :
    IsCanonical (roundWithAccuracy .binary64 s n e accuracy) ∧
      valueOf (roundWithAccuracy .binary64 s n e accuracy) = signed s (rounded r) := by
  obtain ⟨hexponent, hdescribes⟩ := shiftToTargetExponent_describes hr h he
  have hnearest := hdescribes.roundedMantissa
  obtain ⟨hup, hdown⟩ := nearestInt_bounds hr
  have hlowest : -1074 ≤ gridExponent r := by
    unfold gridExponent
    omega
  rw [roundWithAccuracy_eq]
  unfold rounded
  dsimp only
  rw [← hnearest] at hup hdown ⊢
  rw [hexponent]
  generalize (shiftToTargetExponent .binary64 n e accuracy).1.roundedMantissa = k at hup hdown ⊢
  generalize gridExponent r = e at hdown hlowest ⊢
  have hk : k ≤ 2 ^ 53 := by exact_mod_cast hup
  rw [shiftToTargetExponent_exact hk hlowest, Int.cast_natCast]
  by_cases hlt : k < 2 ^ 53
  · rw [if_pos hlt]
    exact ofMagnitude_value s hlt hlowest (hdown.imp_left fun h => by exact_mod_cast h)
  · have hk : k = 2 ^ 53 := by omega
    rw [if_neg hlt, hk]
    obtain ⟨hcanonical, hvalue⟩ := ofMagnitude_value (n := 2 ^ 52) (e := e + 1) s (by decide)
      (by omega) (.inl le_rfl)
    refine ⟨hcanonical, hvalue.trans ?_⟩
    rw [zpow_add_one₀ two_ne_zero e]
    congr 1
    push_cast
    ring

theorem describes_of_eq (h : (n : ℚ) = r / 2 ^ e) :
    Describes (.ofMantissaAndAccuracy n .exact) (r / 2 ^ e) := h ▸ describes_exact n

theorem decreaseExponent_value (n : ℕ) (e t : ℤ) :
    ((decreaseExponent n e t).1 : ℚ) * 2 ^ (decreaseExponent n e t).2 = n * 2 ^ e := by
  unfold decreaseExponent
  dsimp only
  rw [Nat.shiftLeft_eq, Nat.cast_mul, Nat.cast_pow, Nat.cast_ofNat, mul_assoc, ← zpow_natCast,
    ← zpow_add₀ two_ne_zero]
  congr 2
  ring

theorem round_value (hn : 0 < n) (e : ℤ) (s : Sign) :
    IsCanonical (UnpackedFloat.round .binary64 s n e) ∧
      valueOf (UnpackedFloat.round .binary64 s n e) = signed s (rounded (n * 2 ^ e)) := by
  have hr : (0 : ℚ) < n * 2 ^ e := magnitude_pos hn e
  have htarget : Format.binary64.targetExponent (totalExponent n e) = gridExponent (n * 2 ^ e) := by
    refine targetExponent_of_floor hr ?_ fun hzero => absurd hzero hn.ne'
    rw [mul_div_cancel_right₀ _ (zpow_two_pos e).ne', Int.floor_natCast]
  unfold UnpackedFloat.round
  rw [htarget]
  have hvalue := decreaseExponent_value n e (gridExponent (n * 2 ^ e))
  have hexponent : (decreaseExponent n e (gridExponent (n * 2 ^ e))).2 ≤ gridExponent (n * 2 ^ e) := by
    unfold decreaseExponent
    dsimp only
    omega
  exact roundWithAccuracy_value hr
    (describes_of_eq (eq_div_of_mul_eq (zpow_two_pos _).ne' hvalue)) hexponent s

theorem normalize_value (z e : ℤ) :
    IsCanonical (UnpackedFloat.normalize .binary64 z e .positive) ∧
      valueOf (UnpackedFloat.normalize .binary64 z e .positive) = rounded (z * 2 ^ e) := by
  unfold UnpackedFloat.normalize
  obtain hneg | rfl | hpos := lt_trichotomy z 0
  · obtain ⟨n, hn⟩ := Int.eq_ofNat_of_zero_le (neg_nonneg.2 hneg.le)
    have hz : (z : ℚ) = -(n : ℚ) := by
      have : z = -(n : ℤ) := by omega
      exact_mod_cast this
    rw [compare_lt_iff_lt.2 hneg, hn, hz, neg_mul, rounded_neg]
    exact round_value (by omega) e .negative
  · rw [compare_eq_iff_eq.2 rfl]
    refine ⟨trivial, ?_⟩
    rw [Int.cast_zero, zero_mul, rounded_zero]
    rfl
  · obtain ⟨n, rfl⟩ := Int.eq_ofNat_of_zero_le hpos.le
    rw [compare_gt_iff_gt.2 hpos, Int.cast_natCast]
    exact round_value (by omega) e .positive

/-! ## Arithmetic -/

theorem signed_apply (s : Sign) (n : ℕ) (e : ℤ) :
    ((s.apply n : ℤ) : ℚ) * 2 ^ e = signed s (n * 2 ^ e) := by
  cases s <;> simp [Sign.apply, signed]

theorem add_canonical (ha : IsCanonical a) (hb : IsCanonical b) :
    IsCanonical (UnpackedFloat.add .binary64 a b) ∧
      valueOf (UnpackedFloat.add .binary64 a b) = rounded (valueOf a + valueOf b) := by
  cases a with
  | infinity _ | notANumber => exact ha.elim
  | zero s =>
    cases b with
    | infinity _ | notANumber => exact hb.elim
    | zero t =>
      unfold UnpackedFloat.add
      dsimp only
      rw [valueOf_zero, valueOf_zero, add_zero, rounded_zero]
      split <;> exact ⟨trivial, rfl⟩
    | finite t n f hn =>
      rw [valueOf_zero, zero_add, hb.rounded_valueOf]
      exact ⟨hb, rfl⟩
  | finite s m e hm =>
    cases b with
    | infinity _ | notANumber => exact hb.elim
    | zero t =>
      rw [valueOf_zero, add_zero, ha.rounded_valueOf]
      exact ⟨ha, rfl⟩
    | finite t n f hn =>
      have hsum := normalize_value (s.apply (decreaseExponent m e (min e f)).1 +
        t.apply (decreaseExponent n f (min e f)).1) (min e f)
      have hleft := decreaseExponent_value m e (min e f)
      have hright := decreaseExponent_value n f (min e f)
      have hexponent : (decreaseExponent m e (min e f)).2 = min e f := by
        unfold decreaseExponent
        dsimp only
        omega
      have hexponent' : (decreaseExponent n f (min e f)).2 = min e f := by
        unfold decreaseExponent
        dsimp only
        omega
      rw [hexponent] at hleft
      rw [hexponent'] at hright
      rw [Int.cast_add, add_mul, signed_apply, signed_apply, hleft, hright] at hsum
      exact hsum

/-- A number of 53 digits has its grid where its last digit is, or above. -/
theorem le_gridExponent {k : ℤ} (h : 2 ^ (52 + k) ≤ r) : k ≤ gridExponent r := by
  have hr : 0 < r := (zpow_two_pos _).trans_le h
  have hlog : 52 + k ≤ Int.log 2 r := by
    rw [← Int.zpow_le_iff_le_log one_lt_two hr]
    exact_mod_cast h
  unfold gridExponent
  rw [abs_of_pos hr]
  omega

theorem signed_mul (s t : Sign) (p q : ℚ) : signed s p * signed t q = signed (s * t) (p * q) := by
  cases s with
  | positive =>
    cases t with
    | positive => rfl
    | negative => exact mul_neg p q
  | negative =>
    cases t with
    | positive => exact neg_mul p q
    | negative => exact neg_mul_neg p q

theorem mul_finite {m n : ℕ} {e f : ℤ} (s t : Sign) (hm : 0 < m) (hn : 0 < n)
    (h : e + f ≤ gridExponent (m * 2 ^ e * (n * 2 ^ f))) :
    IsCanonical (UnpackedFloat.mul .binary64 (.finite s m e hm) (.finite t n f hn)) ∧
      valueOf (UnpackedFloat.mul .binary64 (.finite s m e hm) (.finite t n f hn)) =
        signed (s * t) (rounded (m * 2 ^ e * (n * 2 ^ f))) := by
  have hproduct : ((m * n : ℕ) : ℚ) * 2 ^ (e + f) = m * 2 ^ e * (n * 2 ^ f) := by
    rw [zpow_add₀ two_ne_zero]
    push_cast
    ring
  have hround := roundWithAccuracy_value (magnitude_pos (Nat.mul_pos hm hn) (e + f))
    (describes_of_eq (eq_div_of_mul_eq (zpow_two_pos _).ne' rfl)) (hproduct ▸ h) (s * t)
  rw [hproduct] at hround
  exact hround

theorem mul_canonical (ha : IsCanonical a) (hb : IsCanonical b) :
    IsCanonical (UnpackedFloat.mul .binary64 a b) ∧
      valueOf (UnpackedFloat.mul .binary64 a b) = rounded (valueOf a * valueOf b) := by
  cases a with
  | infinity _ | notANumber => exact ha.elim
  | zero s =>
    rw [valueOf_zero, zero_mul, rounded_zero]
    cases b with
    | infinity _ | notANumber => exact hb.elim
    | zero t | finite t n f hn => exact ⟨trivial, rfl⟩
  | finite s m e hm =>
    cases b with
    | infinity _ | notANumber => exact hb.elim
    | zero t =>
      rw [valueOf_zero, mul_zero, rounded_zero]
      exact ⟨trivial, rfl⟩
    | finite t n f hn =>
      obtain ⟨-, he, hm52⟩ := ha
      obtain ⟨-, hf, hn52⟩ := hb
      have hexponent : e + f ≤ gridExponent (m * 2 ^ e * (n * 2 ^ f)) := by
        by_cases hlong : 2 ^ 52 ≤ m * n
        · refine le_gridExponent ?_
          calc (2 : ℚ) ^ (52 + (e + f)) = 2 ^ (52 : ℤ) * (2 ^ e * 2 ^ f) := by
                rw [zpow_add₀ two_ne_zero, zpow_add₀ two_ne_zero]
            _ ≤ (m * n : ℕ) * (2 ^ e * 2 ^ f) :=
              mul_le_mul_of_nonneg_right (by exact_mod_cast hlong)
                (mul_pos (zpow_two_pos e) (zpow_two_pos f)).le
            _ = m * 2 ^ e * (n * 2 ^ f) := by
              push_cast
              ring
        · -- Then both mantissas are short, and both exponents the lowest one.
          have hm' : m ≤ m * n := Nat.le_mul_of_pos_right m hn
          have hn' : n ≤ m * n := Nat.le_mul_of_pos_left n hm
          unfold gridExponent
          omega
      have hround := mul_finite s t hm hn hexponent
      rw [← rounded_signed, ← signed_mul] at hround
      exact hround

theorem neg_canonical (ha : IsCanonical a) :
    IsCanonical a.neg ∧ valueOf a.neg = -valueOf a := by
  cases a with
  | infinity _ | notANumber => exact ha.elim
  | zero s => exact ⟨trivial, neg_zero.symm⟩
  | finite s m e hm =>
    refine ⟨ha, ?_⟩
    cases s with
    | negative => exact (neg_neg _).symm
    | positive => rfl

theorem abs_canonical (ha : IsCanonical a) :
    IsCanonical a.abs ∧ valueOf a.abs = |valueOf a| := by
  cases a with
  | infinity _ | notANumber => exact ha.elim
  | zero s => exact ⟨trivial, abs_zero.symm⟩
  | finite s m e hm =>
    refine ⟨ha, ?_⟩
    have hmagnitude := (magnitude_pos hm e).le
    cases s with
    | negative => exact ((abs_neg _).trans (abs_of_nonneg hmagnitude)).symm
    | positive => exact (abs_of_nonneg hmagnitude).symm

theorem unpacked_sub_eq_add_neg (f : Format) (a b : UnpackedFloat) :
    UnpackedFloat.sub f a b = UnpackedFloat.add f a b.neg := by
  cases a with
  | notANumber => cases b <;> rfl
  | infinity s | zero s => cases b <;> rfl
  | finite s m e hm =>
    cases b with
    | notANumber | infinity t | zero t => rfl
    | finite t n f' hn =>
      have happly (k : ℕ) : (-t).apply k = -t.apply k := by
        cases t with
        | positive => rfl
        | negative => exact (Int.neg_neg _).symm
      unfold UnpackedFloat.sub UnpackedFloat.add UnpackedFloat.neg
      dsimp only
      rw [happly, Int.sub_eq_add_neg]

theorem sub_canonical (ha : IsCanonical a) (hb : IsCanonical b) :
    IsCanonical (UnpackedFloat.sub .binary64 a b) ∧
      valueOf (UnpackedFloat.sub .binary64 a b) = rounded (valueOf a - valueOf b) := by
  obtain ⟨hneg, hvalue⟩ := neg_canonical hb
  rw [unpacked_sub_eq_add_neg, sub_eq_add_neg, ← hvalue]
  exact add_canonical ha hneg

/-! ## Quotients -/

theorem signed_div (s t : Sign) (p q : ℚ) : signed s p / signed t q = signed (s / t) (p / q) := by
  cases s with
  | positive =>
    cases t with
    | positive => rfl
    | negative => exact div_neg p
  | negative =>
    cases t with
    | positive => exact neg_div q p
    | negative => exact neg_div_neg_eq p q

/-- What is left of a division says whether half of the divisor is left, or less or more. -/
theorem describes_fraction {k d : ℕ} (hd : 0 < d) :
    Describes (.ofMantissaAndAccuracy (k / d) (UnpackedFloat.accuracyOfFraction (k % d) d))
      (k / d : ℚ) := by
  have hd' : (0 : ℚ) < d := by exact_mod_cast hd
  have hk : (k : ℚ) = d * (k / d : ℕ) + (k % d : ℕ) := by exact_mod_cast (Nat.div_add_mod k d).symm
  have hlt : ((k % d : ℕ) : ℚ) < d := by exact_mod_cast Nat.mod_lt k hd
  have hsum : (k : ℚ) / d = (k / d : ℕ) + (k % d : ℕ) / d := by
    rw [hk]
    field_simp
  rw [hsum]
  generalize k / d = n
  generalize k % d = left at hlt
  unfold UnpackedFloat.accuracyOfFraction
  refine ⟨left / d, ?_, div_nonneg (Nat.cast_nonneg _) hd'.le, (div_lt_one hd').2 hlt, ?_⟩
  · split
    · rfl
    · cases compare (2 * left) d <;> rfl
  · obtain rfl | hzero := eq_or_ne left 0
    · simp [ExtendedMantissa.ofMantissaAndAccuracy]
    · have hzero' : (left : ℚ) ≠ 0 := by exact_mod_cast hzero
      have hnot : (left / d : ℚ) ≠ 0 := div_ne_zero hzero' hd'.ne'
      rw [if_neg hzero]
      have hcast : (2 * left : ℚ) = ((2 * left : ℕ) : ℚ) := by push_cast; rfl
      obtain hhalf | hhalf | hhalf := lt_trichotomy (2 * left) d
      · have hhalf' : (left / d : ℚ) < 1 / 2 := by
          rw [div_lt_div_iff₀ hd' two_pos, one_mul, mul_comm, hcast]
          exact_mod_cast hhalf
        rw [compare_lt_iff_lt.2 hhalf]
        exact ⟨iff_of_false Bool.false_ne_true (not_le.2 hhalf'),
          iff_of_true rfl ⟨hnot, hhalf'.ne⟩⟩
      · have hhalf' : (left / d : ℚ) = 1 / 2 := by
          rw [div_eq_div_iff hd'.ne' two_ne_zero, one_mul, mul_comm, hcast]
          exact_mod_cast hhalf
        rw [compare_eq_iff_eq.2 hhalf]
        exact ⟨iff_of_true rfl hhalf'.ge, iff_of_false Bool.false_ne_true fun h => h.2 hhalf'⟩
      · have hhalf' : (1 / 2 : ℚ) < left / d := by
          rw [div_lt_div_iff₀ two_pos hd', one_mul, mul_comm, hcast]
          exact_mod_cast hhalf
        rw [compare_gt_iff_gt.2 hhalf]
        exact ⟨iff_of_true rfl hhalf'.le, iff_of_true rfl ⟨hnot, hhalf'.ne'⟩⟩

/-- The digits that are computed of a quotient reach to its grid. -/
theorem targetExponent_le_grid {m n : ℕ} (hm : 0 < m) (hn : 0 < n) (e f : ℤ) :
    Format.binary64.targetExponent (totalExponent m e - totalExponent n f) ≤
      gridExponent (m * 2 ^ e / (n * 2 ^ f)) := by
  have hr : (0 : ℚ) < m * 2 ^ e / (n * 2 ^ f) := div_pos (magnitude_pos hm e) (magnitude_pos hn f)
  have hlow : (2 ^ m.log2 : ℚ) ≤ m := by exact_mod_cast Nat.log2_self_le hm.ne'
  have hhigh : (n : ℚ) ≤ 2 ^ (n.log2 + 1) := by exact_mod_cast Nat.lt_log2_self.le
  have hlog : (m.log2 : ℤ) + e - (n.log2 + 1 + f) ≤ Int.log 2 (m * 2 ^ e / (n * 2 ^ f) : ℚ) := by
    have hbound : (2 : ℚ) ^ ((m.log2 : ℤ) + e - (n.log2 + 1 + f)) ≤ m * 2 ^ e / (n * 2 ^ f) := by
      rw [le_div_iff₀ (magnitude_pos hn f)]
      calc (2 : ℚ) ^ ((m.log2 : ℤ) + e - (n.log2 + 1 + f)) * (n * 2 ^ f)
          ≤ 2 ^ ((m.log2 : ℤ) + e - (n.log2 + 1 + f)) * (2 ^ (n.log2 + 1) * 2 ^ f) :=
            mul_le_mul_of_nonneg_left
              (mul_le_mul_of_nonneg_right hhigh (zpow_two_pos f).le) (zpow_two_pos _).le
        _ = 2 ^ m.log2 * 2 ^ e := by
          rw [← zpow_natCast, ← zpow_natCast, ← zpow_add₀ two_ne_zero, ← zpow_add₀ two_ne_zero,
            ← zpow_add₀ two_ne_zero]
          congr 1
          push_cast
          ring
        _ ≤ m * 2 ^ e := mul_le_mul_of_nonneg_right hlow (zpow_two_pos e).le
    rw [← Int.zpow_le_iff_le_log one_lt_two hr]
    exact_mod_cast hbound
  rw [targetExponent_eq]
  unfold gridExponent totalExponent
  rw [abs_of_pos hr]
  omega

theorem div_finite {m n : ℕ} (s t : Sign) (hm : 0 < m) (hn : 0 < n) (e f : ℤ) :
    IsCanonical (UnpackedFloat.div .binary64 (.finite s m e hm) (.finite t n f hn)) ∧
      valueOf (UnpackedFloat.div .binary64 (.finite s m e hm) (.finite t n f hn)) =
        signed (s / t) (rounded (m * 2 ^ e / (n * 2 ^ f))) := by
  have hr := div_pos (magnitude_pos hm e) (magnitude_pos hn f)
  have htarget := targetExponent_le_grid hm hn e f
  unfold UnpackedFloat.div UnpackedFloat.divCore
  dsimp only
  generalize Format.binary64.targetExponent (totalExponent m e - totalExponent n f) = t₀ at *
  obtain ⟨d, hd⟩ := Int.eq_ofNat_of_zero_le (sub_nonneg.2 (min_le_left (e - f) t₀))
  have hquotient : (m * 2 ^ e / (n * 2 ^ f) / 2 ^ min (e - f) t₀ : ℚ) = ((m <<< d : ℕ) : ℚ) / n := by
    have hn' : (n : ℚ) ≠ 0 := by exact_mod_cast hn.ne'
    have hf := (zpow_two_pos f).ne'
    have ht := (zpow_two_pos (min (e - f) t₀)).ne'
    have hsplit : (2 : ℚ) ^ e = 2 ^ d * 2 ^ f * 2 ^ min (e - f) t₀ := by
      rw [← zpow_natCast, ← zpow_add₀ two_ne_zero, ← zpow_add₀ two_ne_zero]
      congr 1
      omega
    rw [hsplit, Nat.shiftLeft_eq]
    push_cast
    field_simp
  rw [hd, Int.toNat_natCast]
  exact roundWithAccuracy_value hr (hquotient ▸ describes_fraction hn)
    ((min_le_right _ _).trans htarget) (s / t)

theorem div_canonical (ha : IsCanonical a) (hb : IsCanonical b) (hzero : valueOf b ≠ 0) :
    IsCanonical (UnpackedFloat.div .binary64 a b) ∧
      valueOf (UnpackedFloat.div .binary64 a b) = rounded (valueOf a / valueOf b) := by
  cases b with
  | infinity _ | notANumber => exact hb.elim
  | zero t => exact absurd rfl hzero
  | finite t n f hn =>
    cases a with
    | infinity _ | notANumber => exact ha.elim
    | zero s =>
      rw [valueOf_zero, zero_div, rounded_zero]
      exact ⟨trivial, rfl⟩
    | finite s m e hm =>
      have hround := div_finite s t hm hn e f
      rw [← rounded_signed, ← signed_div] at hround
      exact hround

/-! ## Floats -/

variable {x y z : Float}

theorem IsCanonical.unpack_pack (ha : IsCanonical a) (h : |valueOf a| < 2 ^ 1024) :
    UnpackedFloat.unpack .binary64 (UnpackedFloat.pack .binary64 a) = a := by
  refine KnowledgeGraph.unpack_pack ha ?_
  rintro s m e hm rfl
  obtain ⟨-, -, hm52 | rfl⟩ := ha
  · have habs : |valueOf (.finite s m e hm)| = m * 2 ^ e := by
      have hpos := magnitude_pos hm e
      cases s with
      | negative => exact (abs_neg _).trans (abs_of_pos hpos)
      | positive => exact abs_of_pos hpos
    rw [habs] at h
    have hbound : (2 : ℚ) ^ (52 + e) < 2 ^ (1024 : ℤ) := by
      calc (2 : ℚ) ^ (52 + e) = 2 ^ (52 : ℤ) * 2 ^ e := zpow_add₀ two_ne_zero 52 e
        _ ≤ m * 2 ^ e := mul_le_mul_of_nonneg_right (by exact_mod_cast hm52) (zpow_two_pos e).le
        _ < 2 ^ (1024 : ℤ) := by exact_mod_cast h
    have := (zpow_lt_zpow_iff_right₀ (one_lt_two (α := ℚ))).1 hbound
    omega
  · omega

theorem abs_value_lt (x : Float) : |value x| < 2 ^ 1024 := by
  have hzero : |(0 : ℚ)| < 2 ^ 1024 := by
    rw [abs_zero]
    positivity
  unfold value
  generalize hunpack : x.toModel.unpack = u
  cases u with
  | zero _ | infinity _ | notANumber => exact hzero
  | finite s m e hm =>
    have hfits : e ≤ 971 := exponent_le_of_unpack hunpack
    have hfinite : (UnpackedFloat.unpack .binary64 x.toModel.toBits.toBitVec).isFinite = true :=
      congrArg UnpackedFloat.isFinite hunpack
    have hcanonical : IsCanonical x.toModel.unpack := isCanonical_unpack hfinite
    rw [hunpack] at hcanonical
    have hshort : (m : ℚ) < 2 ^ (53 : ℤ) := by exact_mod_cast hcanonical.1
    have hbound : (m * 2 ^ e : ℚ) < 2 ^ 1024 := by
      calc (m * 2 ^ e : ℚ) < 2 ^ (53 : ℤ) * 2 ^ e := mul_lt_mul_of_pos_right hshort (zpow_two_pos e)
        _ = 2 ^ (53 + e) := (zpow_add₀ two_ne_zero 53 e).symm
        _ ≤ 2 ^ (1024 : ℤ) := zpow_le_zpow_right₀ one_le_two (by omega)
        _ = 2 ^ 1024 := zpow_natCast 2 1024
    have hpos := magnitude_pos hm e
    cases s with
    | negative => exact (abs_neg _).trans_lt ((abs_of_pos hpos).trans_lt hbound)
    | positive => exact (abs_of_pos hpos).trans_lt hbound

theorem two_pow_le {k : ℕ} (h : k ≤ 1023) : (2 : ℚ) ^ k ≤ 2 ^ 1023 := pow_le_pow_right₀ one_le_two h

theorem abs_rounded_le {q : ℚ} (h : |q| ≤ 2 ^ 1023) : |rounded q| ≤ 2 ^ 1023 := by
  have hself : rounded (2 ^ 1023) = 2 ^ 1023 := by
    have := rounded_eq_self (n := 1) (e := 1023) (by norm_num) (by norm_num)
    simpa using this
  obtain ⟨hlow, hhigh⟩ := abs_le.1 h
  refine abs_le.2 ⟨?_, hself ▸ rounded_mono hhigh⟩
  have := rounded_mono hlow
  rwa [rounded_neg, hself] at this

/-- A result in the range of floats is written as it is. -/
theorem value_pack_of_lt {q : ℚ} (ha : IsCanonical a ∧ valueOf a = q) (h : |q| < 2 ^ 1024) :
    (Float.ofModel (Float.Model.pack a)).isFinite = true ∧
      value (.ofModel (Float.Model.pack a)) = q := by
  obtain ⟨hcanonical, hvalue⟩ := ha
  have hunpack : (Float.ofModel (Float.Model.pack a)).toModel.unpack = a :=
    hcanonical.unpack_pack (hvalue ▸ h)
  unfold value
  rw [hunpack]
  refine ⟨?_, hvalue⟩
  show UnpackedFloat.isFinite (Float.ofModel (Float.Model.pack a)).toModel.unpack = true
  rw [hunpack]
  cases a with
  | infinity _ | notANumber => exact hcanonical.elim
  | zero _ | finite _ _ _ _ => rfl

/-- So is one that is rounded far enough below the greatest float. -/
theorem value_pack {q : ℚ} (ha : IsCanonical a ∧ valueOf a = rounded q) (h : |q| ≤ 2 ^ 1023) :
    (Float.ofModel (Float.Model.pack a)).isFinite = true ∧
      value (.ofModel (Float.Model.pack a)) = rounded q :=
  value_pack_of_lt ha ((abs_rounded_le h).trans_lt (pow_lt_pow_right₀ one_lt_two (by decide)))

section

variable (hx : x.isFinite = true) (hy : y.isFinite = true)
include hx

theorem neg_value : (-x).isFinite = true ∧ value (-x) = -value x :=
  value_pack_of_lt (neg_canonical (isCanonical_of_isFinite hx))
    ((abs_neg _).trans_lt (abs_value_lt x))

theorem abs_value : x.abs.isFinite = true ∧ value x.abs = |value x| :=
  value_pack_of_lt (abs_canonical (isCanonical_of_isFinite hx))
    ((abs_abs _).trans_lt (abs_value_lt x))

include hy

theorem add_value (h : |value x + value y| ≤ 2 ^ 1023) :
    (x + y).isFinite = true ∧ value (x + y) = rounded (value x + value y) :=
  value_pack (add_canonical (isCanonical_of_isFinite hx) (isCanonical_of_isFinite hy)) h

theorem sub_value (h : |value x - value y| ≤ 2 ^ 1023) :
    (x - y).isFinite = true ∧ value (x - y) = rounded (value x - value y) :=
  value_pack (sub_canonical (isCanonical_of_isFinite hx) (isCanonical_of_isFinite hy)) h

theorem mul_value (h : |value x * value y| ≤ 2 ^ 1023) :
    (x * y).isFinite = true ∧ value (x * y) = rounded (value x * value y) :=
  value_pack (mul_canonical (isCanonical_of_isFinite hx) (isCanonical_of_isFinite hy)) h

theorem div_value (hzero : value y ≠ 0) (h : |value x / value y| ≤ 2 ^ 1023) :
    (x / y).isFinite = true ∧ value (x / y) = rounded (value x / value y) :=
  value_pack (div_canonical (isCanonical_of_isFinite hx) (isCanonical_of_isFinite hy) hzero) h

end

theorem rounded_value (hx : x.isFinite = true) : rounded (value x) = value x :=
  (isCanonical_of_isFinite hx).rounded_valueOf

/-! ## Order -/

/-- A finite number that is far from where a sum or a product overflows. -/
structure IsModest (x : Float) : Prop where
  finite : x.isFinite = true
  bound : |value x| ≤ 2 ^ 64

theorem InUnit.isModest (h : InUnit x) : IsModest x := by
  obtain ⟨hx, hlow, hhigh⟩ := inUnit_iff_value.1 h
  exact ⟨hx, abs_le.2 ⟨by linarith, by linarith⟩⟩

namespace IsModest

variable (hx : IsModest x) (hy : IsModest y) (hz : IsModest z)
include hx

theorem neg : IsModest (-x) ∧ value (-x) = -value x := by
  obtain ⟨hfinite, hvalue⟩ := neg_value hx.finite
  exact ⟨⟨hfinite, by rw [hvalue, abs_neg]; exact hx.bound⟩, hvalue⟩

include hy

theorem le_iff : x ≤ y ↔ value x ≤ value y := le_iff_value hx.finite hy.finite

theorem add : (x + y).isFinite = true ∧ value (x + y) = rounded (value x + value y) := by
  refine add_value hx.finite hy.finite ?_
  calc |value x + value y| ≤ |value x| + |value y| := abs_add_le _ _
    _ ≤ 2 ^ 64 + 2 ^ 64 := add_le_add hx.bound hy.bound
    _ = 2 ^ 65 := by norm_num
    _ ≤ 2 ^ 1023 := two_pow_le (by decide)

theorem sub : (x - y).isFinite = true ∧ value (x - y) = rounded (value x - value y) := by
  refine sub_value hx.finite hy.finite ?_
  calc |value x - value y| ≤ |value x| + |value y| := abs_sub _ _
    _ ≤ 2 ^ 64 + 2 ^ 64 := add_le_add hx.bound hy.bound
    _ = 2 ^ 65 := by norm_num
    _ ≤ 2 ^ 1023 := two_pow_le (by decide)

theorem mul : (x * y).isFinite = true ∧ value (x * y) = rounded (value x * value y) := by
  refine mul_value hx.finite hy.finite ?_
  calc |value x * value y| = |value x| * |value y| := abs_mul _ _
    _ ≤ 2 ^ 64 * 2 ^ 64 := mul_le_mul hx.bound hy.bound (abs_nonneg _) (by positivity)
    _ = 2 ^ 128 := by norm_num
    _ ≤ 2 ^ 1023 := two_pow_le (by decide)

theorem le_add (h : 0 ≤ value y) : x ≤ x + y := by
  obtain ⟨hfinite, hvalue⟩ := hx.add hy
  rw [le_iff_value hx.finite hfinite, hvalue]
  calc value x = rounded (value x) := (rounded_value hx.finite).symm
    _ ≤ rounded (value x + value y) := rounded_mono (by linarith)

theorem add_le (h : value y ≤ 0) : x + y ≤ x := by
  obtain ⟨hfinite, hvalue⟩ := hx.add hy
  rw [le_iff_value hfinite hx.finite, hvalue]
  calc rounded (value x + value y) ≤ rounded (value x) := rounded_mono (by linarith)
    _ = value x := rounded_value hx.finite

include hz

theorem add_le_add_left (h : y ≤ z) : x + y ≤ x + z := by
  obtain ⟨hfinite, hvalue⟩ := hx.add hy
  obtain ⟨hfinite', hvalue'⟩ := hx.add hz
  rw [hy.le_iff hz] at h
  rw [le_iff_value hfinite hfinite', hvalue, hvalue']
  exact rounded_mono (by linarith)

theorem mul_le_mul_left (hnonneg : 0 ≤ value x) (h : y ≤ z) : x * y ≤ x * z := by
  obtain ⟨hfinite, hvalue⟩ := hx.mul hy
  obtain ⟨hfinite', hvalue'⟩ := hx.mul hz
  rw [hy.le_iff hz] at h
  rw [le_iff_value hfinite hfinite', hvalue, hvalue']
  exact rounded_mono (mul_le_mul_of_nonneg_left h hnonneg)

theorem mul_le_mul_right (hnonneg : 0 ≤ value x) (h : y ≤ z) : y * x ≤ z * x := by
  obtain ⟨hfinite, hvalue⟩ := hy.mul hx
  obtain ⟨hfinite', hvalue'⟩ := hz.mul hx
  rw [hy.le_iff hz] at h
  rw [le_iff_value hfinite hfinite', hvalue, hvalue']
  exact rounded_mono (mul_le_mul_of_nonneg_right h hnonneg)

end IsModest

theorem IsModest.abs (hx : IsModest x) :
    IsModest x.abs ∧ value x.abs = |value x| := by
  obtain ⟨hfinite, hvalue⟩ := abs_value hx.finite
  exact ⟨⟨hfinite, by rw [hvalue, abs_abs]; exact hx.bound⟩, hvalue⟩

/-- The sum of two numbers of the unit interval is between zero and two. -/
theorem isModest_add (hx : InUnit x) (hy : InUnit y) : IsModest (x + y) := by
  obtain ⟨-, hxlow, hxhigh⟩ := inUnit_iff_value.1 hx
  obtain ⟨-, hylow, hyhigh⟩ := inUnit_iff_value.1 hy
  obtain ⟨hfinite, hvalue⟩ := hx.isModest.add hy.isModest
  have htwo : rounded (2 ^ (1 : ℤ)) = 2 ^ (1 : ℤ) := by
    have := rounded_eq_self (n := 1) (e := 1) (by norm_num) (by norm_num)
    simpa using this
  have hlow : 0 ≤ value (x + y) := hvalue ▸ rounded_nonneg (by linarith)
  have hhigh : value (x + y) ≤ 2 ^ (1 : ℤ) := by
    rw [hvalue, ← htwo]
    exact rounded_mono (by norm_num; linarith)
  refine ⟨hfinite, ?_⟩
  rw [abs_of_nonneg hlow]
  exact hhigh.trans (by norm_num)

theorem InUnit.confidenceOf_beq (h : InUnit x) : (confidenceOf x == x) = true := by
  unfold confidenceOf
  rw [if_pos h.isFinite]
  exact h.clampUnit_beq

/-! ## Shares -/

theorem rounded_natCast {n : ℕ} (hn : n < 2 ^ 53) : rounded n = n := by
  have habs : |(n : ℤ)| < 2 ^ (53 : ℕ) := by
    rw [abs_of_nonneg (Int.natCast_nonneg n)]
    exact_mod_cast hn
  have := rounded_eq_self (e := 0) habs (by norm_num)
  simpa using this

theorem rounded_one : rounded 1 = 1 := by
  simpa using rounded_natCast (n := 1) (by norm_num)

theorem abs_natCast_le {n : ℕ} (hn : n < 2 ^ 53) : |(n : ℚ)| ≤ 2 ^ 1023 := by
  rw [abs_of_nonneg (Nat.cast_nonneg n)]
  have : (n : ℚ) ≤ 2 ^ 53 := by exact_mod_cast hn.le
  exact this.trans (two_pow_le (by decide))

theorem value_toUInt64 {n : ℕ} (hn : n < 2 ^ 53) :
    n.toUInt64.toFloat.isFinite = true ∧ value n.toUInt64.toFloat = n := by
  have hword : n.toUInt64.toNat = n := Nat.mod_eq_of_lt (by omega)
  have hnormal : IsCanonical (UnpackedFloat.ofUInt64 .binary64 n.toUInt64) ∧
      valueOf (UnpackedFloat.ofUInt64 .binary64 n.toUInt64) =
        rounded ((n.toUInt64.toNat : ℤ) * 2 ^ (0 : ℤ)) := normalize_value n.toUInt64.toNat 0
  rw [hword, zpow_zero, mul_one, Int.cast_natCast] at hnormal
  have hvalue : n.toUInt64.toFloat.isFinite = true ∧ value n.toUInt64.toFloat = rounded n :=
    value_pack hnormal (abs_natCast_le hn)
  rwa [rounded_natCast hn] at hvalue

theorem value_toFloat {n : ℕ} (hn : n < 2 ^ 53) :
    n.toFloat.isFinite = true ∧ value n.toFloat = n := by
  have hproduct : n.toFloat = n.toUInt64.toFloat * 1 := by
    show Float.ofScientific n false 0 = _
    unfold Float.ofScientific
    rw [dif_pos ⟨hn, by decide⟩]
    rfl
  obtain ⟨hfinite, hvalue⟩ := value_toUInt64 hn
  have hmul := mul_value hfinite (y := 1) (by decide +kernel)
    (by simpa only [hvalue, value_one, mul_one] using abs_natCast_le hn)
  rw [hvalue, value_one, mul_one, rounded_natCast hn] at hmul
  rwa [hproduct]

theorem value_ofNat (n : ℕ) [n.AtLeastTwo] (hn : n < 2 ^ 53) :
    value (OfNat.ofNat n) = OfNat.ofNat n := (value_toFloat hn).2

theorem inUnit_div (hx : x.isFinite = true) (hy : y.isFinite = true) (hlow : 0 ≤ value x)
    (hhigh : value x ≤ value y) (hpos : 0 < value y) : InUnit (x / y) := by
  have hquotient : 0 ≤ value x / value y ∧ value x / value y ≤ 1 :=
    ⟨div_nonneg hlow hpos.le, (div_le_one hpos).2 hhigh⟩
  obtain ⟨hdiv, hvalue⟩ := div_value hx hy hpos.ne'
    (by rw [abs_of_nonneg hquotient.1]; exact hquotient.2.trans (one_le_pow₀ one_le_two))
  rw [inUnit_iff_value, hvalue]
  exact ⟨hdiv, rounded_nonneg hquotient.1, rounded_one ▸ rounded_mono hquotient.2⟩

/-- The share of a count in a total that is not too long for a float. -/
theorem inUnit_share {k n : ℕ} (h : k ≤ n) (hpos : 0 < n) (hn : n < 2 ^ 53) :
    InUnit (k.toFloat / n.toFloat) := by
  obtain ⟨hk, hkvalue⟩ := value_toFloat (n := k) (by omega)
  obtain ⟨hn, hnvalue⟩ := value_toFloat hn
  apply inUnit_div hk hn
  · rw [hkvalue]
    exact Nat.cast_nonneg k
  · rw [hkvalue, hnvalue]
    exact_mod_cast h
  · rw [hnvalue]
    exact_mod_cast hpos

end KnowledgeGraph
