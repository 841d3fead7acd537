import KnowledgeGraph.Proofs.Number.Order
import KnowledgeGraph.Proofs.Number.Rounding

/-!
# Floats as rational numbers

A finite float has a canonical form (`isCanonical_unpack`), which comes back from its bits
(`unpack_pack`), and stands for a rational number (`value`). Finite floats compare as these numbers do
(`le_iff_value`).
-/

namespace KnowledgeGraph

open Float.Model (Format UnpackedFloat)

open Float.Model.UnpackedFloat (Sign unpack pack packedInfinity packComponents unpackSign
  unpackExponent unpackMantissa unpackExponent_packComponents unpackMantissa_packComponents)

/-! ## Values -/

/-- A magnitude with a sign. -/
def signed : Sign → ℚ → ℚ
  | .positive, q => q
  | .negative, q => -q

/-- The rational number that a finite float stands for; zero for the others. -/
def valueOf : UnpackedFloat → ℚ
  | .finite s m e _ => signed s (m * 2 ^ e)
  | _ => 0

@[simp] theorem valueOf_zero (s : Sign) : valueOf (.zero s) = 0 := rfl

/-- The forms that a finite float has: a mantissa of 53 digits, or of fewer at the lowest exponent. -/
def IsCanonical : UnpackedFloat → Prop
  | .zero _ => True
  | .finite _ m e _ => m < 2 ^ 53 ∧ -1074 ≤ e ∧ (2 ^ 52 ≤ m ∨ e = -1074)
  | _ => False

theorem rounded_signed (s : Sign) (q : ℚ) : rounded (signed s q) = signed s (rounded q) := by
  cases s
  · exact rounded_neg q
  · rfl

variable {a b : UnpackedFloat}

theorem IsCanonical.rounded_valueOf (h : IsCanonical a) : rounded (valueOf a) = valueOf a := by
  cases a with
  | infinity _ | notANumber => exact h.elim
  | zero _ => exact rounded_zero
  | finite s m e _ =>
    obtain ⟨hm, he, -⟩ := h
    have habs : |(m : ℤ)| < 2 ^ (53 : ℕ) := by
      rw [abs_of_nonneg (Int.natCast_nonneg m)]
      exact_mod_cast hm
    have hself := rounded_eq_self habs he
    rw [Int.cast_natCast] at hself
    unfold valueOf
    rw [rounded_signed, hself]

/-! ## Order -/

/-- Of two canonical forms the one with the lower exponent stands for less, and with the same exponent
the one with the lower mantissa. -/
theorem magnitude_lt {m n : ℕ} {e f : ℤ} (hm : m < 2 ^ 53) (hn : 2 ^ 52 ≤ n ∨ f = -1074)
    (he : -1074 ≤ e) (h : e < f ∨ e = f ∧ m < n) : (m * 2 ^ e : ℚ) < n * 2 ^ f := by
  obtain hlt | ⟨rfl, hlt⟩ := h
  · have hm : (m : ℚ) < 2 ^ (53 : ℤ) := by exact_mod_cast hm
    have hn : (2 ^ (52 : ℤ) : ℚ) ≤ n := by
      have : 2 ^ 52 ≤ n := hn.resolve_right (by omega)
      exact_mod_cast this
    calc (m * 2 ^ e : ℚ) < 2 ^ (53 : ℤ) * 2 ^ e := mul_lt_mul_of_pos_right hm (zpow_two_pos e)
      _ = 2 ^ (53 + e) := (zpow_add₀ two_ne_zero 53 e).symm
      _ ≤ 2 ^ (52 + f) := zpow_le_zpow_right₀ one_le_two (by omega)
      _ = 2 ^ (52 : ℤ) * 2 ^ f := zpow_add₀ two_ne_zero 52 f
      _ ≤ n * 2 ^ f := mul_le_mul_of_nonneg_right hn (zpow_two_pos f).le
  · exact mul_lt_mul_of_pos_right (by exact_mod_cast hlt) (zpow_two_pos e)

/-- The number at a place. -/
def placeValue (p : ℤ ×ₗ ℤ ×ₗ ℤ) : ℚ :=
  let side := (ofLex p).1
  let rest := ofLex (ofLex p).2
  rest.2 * 2 ^ (side * rest.1)

theorem placeValue_zero (side : ℤ) : placeValue (toLex (side, toLex (0, 0))) = 0 := by
  simp [placeValue]

theorem valueOf_eq_placeValue (a : UnpackedFloat) : valueOf a = placeValue (place a) := by
  cases a with
  | infinity s | zero s => cases s <;> exact (placeValue_zero _).symm
  | notANumber => exact (placeValue_zero 0).symm
  | finite s m e hm =>
    cases s with
    | positive =>
      show (m * 2 ^ e : ℚ) = ((m : ℤ) : ℚ) * 2 ^ (1 * e)
      rw [Int.cast_natCast, one_mul]
    | negative =>
      show -(m * 2 ^ e : ℚ) = ((-m : ℤ) : ℚ) * 2 ^ (-1 * -e)
      rw [Int.cast_neg, Int.cast_natCast, neg_mul_neg, one_mul, neg_mul]

theorem magnitude_pos {m : ℕ} (hm : 0 < m) (e : ℤ) : (0 : ℚ) < m * 2 ^ e :=
  mul_pos (by exact_mod_cast hm) (zpow_two_pos e)

/-- Places compare by the side of zero, then by the exponent and then by the mantissa. -/
theorem place_lt_iff {s t e f m n : ℤ} :
    (toLex (s, toLex (e, m)) : ℤ ×ₗ ℤ ×ₗ ℤ) < toLex (t, toLex (f, n)) ↔
      s < t ∨ s = t ∧ (e < f ∨ e = f ∧ m < n) := by
  rw [Prod.Lex.toLex_lt_toLex, Prod.Lex.toLex_lt_toLex]

theorem valueOf_lt_of_place_lt (ha : IsCanonical a) (hb : IsCanonical b) (h : place a < place b) :
    valueOf a < valueOf b := by
  cases a with
  | infinity _ | notANumber => exact ha.elim
  | zero s =>
    cases b with
    | infinity _ | notANumber => exact hb.elim
    | zero t => exact absurd h (lt_irrefl _)
    | finite t n f hn =>
      cases t with
      | negative =>
        have := place_lt_iff.1 h
        omega
      | positive => exact magnitude_pos hn f
  | finite s m e hm =>
    have hpos := magnitude_pos hm e
    cases b with
    | infinity _ | notANumber => exact hb.elim
    | zero t =>
      cases s with
      | negative => exact neg_neg_of_pos hpos
      | positive =>
        have := place_lt_iff.1 h
        omega
    | finite t n f hn =>
      have hpos' := magnitude_pos hn f
      obtain ⟨hm53, he, hm52⟩ := ha
      obtain ⟨hn53, hf, hn52⟩ := hb
      cases s with
      | negative =>
        cases t with
        | negative =>
          have := place_lt_iff.1 h
          exact neg_lt_neg (magnitude_lt hn53 hm52 hf (by omega))
        | positive => exact (neg_neg_of_pos hpos).trans hpos'
      | positive =>
        cases t with
        | negative =>
          have := place_lt_iff.1 h
          omega
        | positive =>
          have := place_lt_iff.1 h
          exact magnitude_lt hm53 hn52 he (by omega)

/-- Canonical forms are in the order of the numbers that they stand for. -/
theorem place_le_iff (ha : IsCanonical a) (hb : IsCanonical b) :
    place a ≤ place b ↔ valueOf a ≤ valueOf b := by
  constructor
  · intro h
    obtain h | h := h.lt_or_eq
    · exact (valueOf_lt_of_place_lt ha hb h).le
    · rw [valueOf_eq_placeValue, valueOf_eq_placeValue, h]
  · intro h
    by_contra hlt
    exact absurd h (not_le.2 (valueOf_lt_of_place_lt hb ha (not_le.1 hlt)))

/-! ## Bits -/

theorem unpackSign_packComponents {f : Format} (s : Sign) (e : BitVec f.exponentBits)
    (m : BitVec f.mantissaBitsWithoutImplicit) :
    unpackSign (packComponents f s e m) = s.toBitVec := by
  refine BitVec.eq_of_getElem_eq fun i hi => ?_
  obtain rfl : i = 0 := by omega
  unfold unpackSign packComponents
  simp [BitVec.getLsbD_append, BitVec.getElem_append]

theorem ofBitVec_toBitVec (s : Sign) : Sign.ofBitVec s.toBitVec = s := by
  cases s <;> rfl

theorem toNat_leadingOne (m : BitVec 52) : (1#1 ++ m).toNat = 2 ^ 52 + m.toNat := by
  rw [BitVec.toNat_append, ← Nat.shiftLeft_add_eq_or_of_lt m.isLt, Nat.shiftLeft_eq]
  simp

theorem finite_congr {s t : Sign} {m n : ℕ} {e f : ℤ} {hm : 0 < m} {hn : 0 < n} (hsign : s = t)
    (hmantissa : m = n) (hexponent : e = f) :
    UnpackedFloat.finite s m e hm = .finite t n f hn := by
  subst hsign hmantissa hexponent
  rfl

theorem unpack_zero (s : Sign) : unpack .binary64 (pack .binary64 (.zero s)) = .zero s := by
  cases s <;> rfl

section

variable {bits : BitVec Format.binary64.numBits}

theorem unpack_of_ones (he : unpackExponent bits = -1#11) : unpack .binary64 bits =
    if unpackMantissa bits = 0#52 then .infinity (.ofBitVec (unpackSign bits)) else .notANumber := by
  unfold unpack
  dsimp only
  rw [if_pos he]

theorem unpack_of_zero (he : unpackExponent bits = 0#11) (hm : unpackMantissa bits = 0#52) :
    unpack .binary64 bits = .zero (.ofBitVec (unpackSign bits)) := by
  unfold unpack
  dsimp only
  rw [if_neg (by rw [he]; decide), if_pos he, dif_pos hm]

theorem unpack_of_normal (hlow : unpackExponent bits ≠ 0#11) (hhigh : unpackExponent bits ≠ -1#11) :
    ∃ h, unpack .binary64 bits = .finite (.ofBitVec (unpackSign bits))
      (2 ^ 52 + (unpackMantissa bits).toNat) ((unpackExponent bits).toNat - 1075) h := by
  refine ⟨by omega, ?_⟩
  unfold unpack
  dsimp only
  rw [if_neg hhigh, if_neg hlow]
  exact finite_congr rfl (toNat_leadingOne _) rfl

theorem unpack_of_subnormal (he : unpackExponent bits = 0#11) (hm : unpackMantissa bits ≠ 0#52) :
    ∃ h, unpack .binary64 bits = .finite (.ofBitVec (unpackSign bits))
      (unpackMantissa bits).toNat (-1074) h := by
  refine ⟨Nat.pos_of_ne_zero fun h => hm (BitVec.eq_of_toNat_eq h), ?_⟩
  unfold unpack
  dsimp only
  rw [if_neg (by rw [he]; decide), if_pos he, dif_neg hm]
  refine finite_congr rfl rfl ?_
  rw [he]
  rfl

end

theorem unpack_normal (s : Sign) (e : BitVec 11) (m : BitVec 52) (hlow : e ≠ 0#11)
    (hhigh : e ≠ -1#11) : ∃ h,
      unpack .binary64 (packComponents .binary64 s e m) =
        .finite s (2 ^ 52 + m.toNat) (e.toNat - 1075) h := by
  have hexponent : unpackExponent (packComponents .binary64 s e m) = e :=
    unpackExponent_packComponents
  have hmantissa : unpackMantissa (packComponents .binary64 s e m) = m :=
    unpackMantissa_packComponents
  rw [← hexponent] at hlow hhigh
  obtain ⟨_, hunpack⟩ := unpack_of_normal hlow hhigh
  refine ⟨by omega, hunpack.trans (finite_congr ?_ ?_ ?_)⟩
  · rw [unpackSign_packComponents, ofBitVec_toBitVec]
  · rw [hmantissa]
  · rw [hexponent]

theorem unpack_subnormal (s : Sign) (m : BitVec 52) (hm : m ≠ 0#52) : ∃ h,
      unpack .binary64 (packComponents .binary64 s 0#11 m) = .finite s m.toNat (-1074) h := by
  have hmantissa : unpackMantissa (packComponents .binary64 s 0#11 m) = m :=
    unpackMantissa_packComponents
  obtain ⟨_, hunpack⟩ := unpack_of_subnormal unpackExponent_packComponents (hmantissa ▸ hm)
  refine ⟨Nat.pos_of_ne_zero fun h => hm (BitVec.eq_of_toNat_eq h),
    hunpack.trans (finite_congr ?_ ?_ rfl)⟩
  · rw [unpackSign_packComponents, ofBitVec_toBitVec]
  · rw [hmantissa]

theorem pack_finite (s : Sign) (m : ℕ) (e : ℤ) (hm : 0 < m) :
    pack .binary64 (.finite s m e hm) =
      if 2 ^ 11 ≤ (e + 1023 + 52).toNat + 1 then packedInfinity .binary64 s
      else if m.log2 + 1 = 53 then
        packComponents .binary64 s (.ofNat 11 (e + 1023 + 52).toNat) (.ofNat 52 m)
      else packComponents .binary64 s 0#11 (.ofNat 52 m) := rfl

theorem unpack_pack {a : UnpackedFloat} (ha : IsCanonical a)
    (hfits : ∀ s m e h, a = .finite s m e h → e ≤ 971) :
    unpack .binary64 (pack .binary64 a) = a := by
  cases a with
  | infinity _ | notANumber => exact ha.elim
  | zero s => exact unpack_zero s
  | finite s m e hm =>
    obtain ⟨hm53, he, hm52⟩ := ha
    have he' := hfits s m e hm rfl
    rw [pack_finite, if_neg (by omega)]
    by_cases hnormal : 2 ^ 52 ≤ m
    · have hlog : m.log2 + 1 = 53 := by
        have h1 := (Nat.le_log2 hm.ne').2 hnormal
        have h2 := (Nat.log2_lt hm.ne').2 hm53
        omega
      rw [if_pos hlog]
      have hexponent : (BitVec.ofNat 11 (e + 1023 + 52).toNat).toNat = (e + 1075).toNat := by
        rw [BitVec.toNat_ofNat]
        omega
      have hmantissa : (BitVec.ofNat 52 m).toNat = m - 2 ^ 52 := by
        rw [BitVec.toNat_ofNat]
        omega
      obtain ⟨h, hunpack⟩ := unpack_normal s (.ofNat 11 (e + 1023 + 52).toNat) (.ofNat 52 m)
        (fun hzero => by rw [hzero] at hexponent; simp at hexponent; omega)
        (fun hones => by rw [hones] at hexponent; simp at hexponent; omega)
      rw [hunpack]
      exact finite_congr rfl (by omega) (by omega)
    · have hlog : m.log2 + 1 ≠ 53 := by
        have h2 := (Nat.log2_lt hm.ne').2 (not_le.1 hnormal)
        omega
      rw [if_neg hlog]
      have hmantissa : (BitVec.ofNat 52 m).toNat = m := by
        rw [BitVec.toNat_ofNat]
        omega
      obtain ⟨h, hunpack⟩ := unpack_subnormal s (.ofNat 52 m)
        (fun hzero => by rw [hzero] at hmantissa; simp at hmantissa; omega)
      rw [hunpack]
      exact finite_congr rfl (by omega) (by omega)

/-- What bits hold is no number, infinite or of a canonical form. -/
theorem isCanonical_unpack {bits : BitVec Format.binary64.numBits}
    (h : (unpack .binary64 bits).isFinite = true) : IsCanonical (unpack .binary64 bits) := by
  have hm : (unpackMantissa bits).toNat < 2 ^ 52 := (unpackMantissa bits).isLt
  by_cases hhigh : unpackExponent bits = -1#11
  · rw [unpack_of_ones hhigh] at h
    split at h <;> cases h
  · by_cases hlow : unpackExponent bits = 0#11
    · by_cases hzero : unpackMantissa bits = 0#52
      · rw [unpack_of_zero hlow hzero]
        trivial
      · obtain ⟨_, hunpack⟩ := unpack_of_subnormal hlow hzero
        rw [hunpack]
        exact ⟨by omega, le_rfl, .inr rfl⟩
    · obtain ⟨_, hunpack⟩ := unpack_of_normal hlow hhigh
      rw [hunpack]
      have he : (unpackExponent bits).toNat ≠ 0 := fun h => hlow (BitVec.eq_of_toNat_eq h)
      exact ⟨by omega, by omega, .inl (by omega)⟩

theorem exponent_le_of_unpack {bits : BitVec Format.binary64.numBits} {s : Sign} {m : ℕ} {e : ℤ}
    {hm : 0 < m} (h : unpack .binary64 bits = .finite s m e hm) : e ≤ 971 := by
  by_cases hhigh : unpackExponent bits = -1#11
  · by_cases hzero : unpackMantissa bits = 0#52
    · cases ((unpack_of_ones hhigh).trans (if_pos hzero)).symm.trans h
    · cases ((unpack_of_ones hhigh).trans (if_neg hzero)).symm.trans h
  · by_cases hlow : unpackExponent bits = 0#11
    · by_cases hzero : unpackMantissa bits = 0#52
      · rw [unpack_of_zero hlow hzero] at h
        cases h
      · obtain ⟨_, hunpack⟩ := unpack_of_subnormal hlow hzero
        cases hunpack.symm.trans h
        decide
    · obtain ⟨_, hunpack⟩ := unpack_of_normal hlow hhigh
      cases hunpack.symm.trans h
      have hbound : (unpackExponent bits).toNat < 2 ^ 11 := (unpackExponent bits).isLt
      have hones : (unpackExponent bits).toNat ≠ 2047 := fun h => hhigh (BitVec.eq_of_toNat_eq h)
      omega

/-! ## Floats -/

/-- The rational number that a finite float stands for; zero for the others. -/
def value (x : Float) : ℚ := valueOf x.toModel.unpack

variable {x y : Float}

theorem isCanonical_of_isFinite (h : x.isFinite = true) : IsCanonical x.toModel.unpack :=
  isCanonical_unpack h

theorem isNaN_of_isFinite (h : x.isFinite = true) : x.isNaN = false := by
  have hfinite : x.toModel.unpack.isFinite = true := h
  show x.toModel.unpack.isNaN = false
  generalize x.toModel.unpack = u at hfinite
  cases u with
  | notANumber => cases hfinite
  | infinity _ | zero _ | finite _ _ _ _ => rfl

theorem isInf_of_isFinite (h : x.isFinite = true) : x.isInf = false := by
  have hfinite : x.toModel.unpack.isFinite = true := h
  show x.toModel.unpack.isInf = false
  generalize x.toModel.unpack = u at hfinite
  cases u with
  | infinity _ | notANumber => cases hfinite
  | zero _ | finite _ _ _ _ => rfl

/-- **Finite floats compare as the numbers that they stand for.** -/
theorem le_iff_value (hx : x.isFinite = true) (hy : y.isFinite = true) :
    x ≤ y ↔ value x ≤ value y := by
  rw [le_iff_rank (isNaN_of_isFinite hx) (isNaN_of_isFinite hy)]
  exact place_le_iff (isCanonical_of_isFinite hx) (isCanonical_of_isFinite hy)

theorem lt_iff_value (hx : x.isFinite = true) (hy : y.isFinite = true) :
    x < y ↔ value x < value y := by
  rw [lt_iff_rank (isNaN_of_isFinite hx) (isNaN_of_isFinite hy), ← not_le, ← not_le,
    ← le_iff_rank (isNaN_of_isFinite hy) (isNaN_of_isFinite hx), le_iff_value hy hx]

theorem beq_iff_value (hx : x.isFinite = true) (hy : y.isFinite = true) :
    (x == y) = true ↔ value x = value y := by
  have hx' := isNaN_of_isFinite hx
  have hy' := isNaN_of_isFinite hy
  rw [beq_iff_rank hx' hy', le_antisymm_iff, le_antisymm_iff, ← le_iff_rank hx' hy',
    ← le_iff_rank hy' hx', le_iff_value hx hy, le_iff_value hy hx]

theorem value_of_unpack {s : Sign} {m : ℕ} {e : ℤ} {hm : 0 < m}
    (h : x.toModel.unpack = .finite s m e hm) : value x = signed s (m * 2 ^ e) := by
  unfold value
  rw [h]
  rfl

theorem unpack_one : (1 : Float).toModel.unpack = .finite .positive (2 ^ 52) (-52) (by decide) := rfl

@[simp] theorem value_zero : value 0 = 0 := rfl

@[simp] theorem value_one : value 1 = 1 := by
  rw [value_of_unpack unpack_one]
  norm_num [signed]

theorem InUnit.isFinite (h : InUnit x) : x.isFinite = true := by
  obtain ⟨o, ho, hlow⟩ := le_iff_compare.1 h.1
  obtain ⟨o', ho', hhigh⟩ := le_iff_compare.1 h.2
  rw [unpack_one] at ho'
  show x.toModel.unpack.isFinite = true
  generalize x.toModel.unpack = u at ho ho'
  cases u with
  | zero _ | finite _ _ _ _ => rfl
  | notANumber => cases ho'
  | infinity s =>
    cases s with
    | negative => cases ho; cases hlow
    | positive => cases ho'; cases hhigh

theorem InUnit.value_clampUnit (h : InUnit x) : value (clampUnit x) = value x :=
  (beq_iff_value (inUnit_clampUnit x).isFinite h.isFinite).1 h.clampUnit_beq

/-- The unit interval of floats is that of the numbers that they stand for. -/
theorem inUnit_iff_value : InUnit x ↔ x.isFinite = true ∧ 0 ≤ value x ∧ value x ≤ 1 := by
  constructor
  · intro h
    have hx := h.isFinite
    refine ⟨hx, ?_, ?_⟩
    · simpa using (le_iff_value (by decide +kernel) hx).1 h.1
    · simpa using (le_iff_value hx (by decide +kernel)).1 h.2
  · rintro ⟨hx, hlow, hhigh⟩
    refine ⟨(le_iff_value (by decide +kernel) hx).2 ?_, (le_iff_value hx (by decide +kernel)).2 ?_⟩
    · simpa using hlow
    · simpa using hhigh

end KnowledgeGraph
