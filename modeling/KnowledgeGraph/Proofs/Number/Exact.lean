import KnowledgeGraph.Proofs.Number.Arithmetic
import KnowledgeGraph.Value

/-!
# The bits of floats

The sign, the exponent and the mantissa of a float are read off its bits by division, and the exact
number that is read so is the rational number that the float stands for (`exists_exact`). Hence whole
numbers and finite floats compare with each other as rational numbers do (`Quantity.compare?_eq`). The
other way round, an exponent and a mantissa are put together to the bits of their float
(`value_ofBits`).
-/

namespace KnowledgeGraph

open Float.Model (Format)

open Float.Model.UnpackedFloat (Sign unpack unpackSign unpackExponent unpackMantissa)

/-! ## Fields -/

section

variable (b : BitVec Format.binary64.numBits)

theorem toNat_unpackExponent : (unpackExponent b).toNat = b.toNat / 2 ^ 52 % 2 ^ 11 := by
  unfold unpackExponent
  rw [BitVec.toNat_cast, BitVec.extractLsb_toNat, Nat.shiftRight_eq_div_pow]
  rfl

theorem toNat_unpackMantissa : (unpackMantissa b).toNat = b.toNat % 2 ^ 52 := by
  unfold unpackMantissa
  rw [BitVec.toNat_cast, BitVec.extractLsb_toNat, Nat.shiftRight_zero]
  rfl

theorem toNat_unpackSign : (unpackSign b).toNat = b.toNat / 2 ^ 63 := by
  have hb : b.toNat < 2 ^ 64 := b.isLt
  have hbit : b.toNat / 2 ^ 63 < 2 := by omega
  unfold unpackSign
  rw [BitVec.toNat_cast, BitVec.extractLsb_toNat, Nat.shiftRight_eq_div_pow]
  exact Nat.mod_eq_of_lt hbit

theorem ofBitVec_unpackSign : Sign.ofBitVec (unpackSign b) =
    if (b.toNat / 2 ^ 63 == 1) = true then .negative else .positive := by
  rw [← toNat_unpackSign]
  generalize unpackSign b = s
  obtain rfl | rfl := BitVec.eq_zero_or_eq_one s <;> rfl

end

/-! ## Exact numbers -/

namespace Exact

def sign (e : Exact) : Sign := if e.negative then .negative else .positive

/-- The rational number that an exact number is. -/
def value (e : Exact) : ℚ := signed e.sign (e.mantissa * 2 ^ e.exponent)

/-- The exact number that bits stand for. -/
def ofBits (bits : ℕ) : Exact :=
  if bits / 2 ^ 52 % 2 ^ 11 = 0 then ⟨bits / 2 ^ 63 == 1, bits % 2 ^ 52, -1074⟩
  else ⟨bits / 2 ^ 63 == 1, bits % 2 ^ 52 + 2 ^ 52, (bits / 2 ^ 52 % 2 ^ 11 : ℕ) - 1075⟩

theorem ofFloat?_eq (x : Float) : ofFloat? x =
    if x.toBits.toNat / 2 ^ 52 % 2 ^ 11 = 2047 then none else some (ofBits x.toBits.toNat) := by
  unfold ofFloat? ofBits
  simp only [Nat.pow_eq]
  split
  · rfl
  · split <;> rfl

end Exact

/-- Bits that hold neither an infinity nor a not-a-number stand for their exact number. -/
theorem valueOf_unpack {b : BitVec Format.binary64.numBits}
    (h : b.toNat / 2 ^ 52 % 2 ^ 11 ≠ 2047) :
    (unpack .binary64 b).isFinite = true ∧
      valueOf (unpack .binary64 b) = (Exact.ofBits b.toNat).value := by
  have hexponent := toNat_unpackExponent b
  have hmantissa := toNat_unpackMantissa b
  have hsign := ofBitVec_unpackSign b
  have hhigh : unpackExponent b ≠ -1#11 := fun heq => h (by rw [← hexponent, heq]; rfl)
  by_cases hlow : unpackExponent b = 0#11
  · have hzero : b.toNat / 2 ^ 52 % 2 ^ 11 = 0 := by rw [← hexponent, hlow]; rfl
    unfold Exact.ofBits
    rw [if_pos hzero]
    by_cases hm : unpackMantissa b = 0#52
    · have hnone : b.toNat % 2 ^ 52 = 0 := by rw [← hmantissa, hm]; rfl
      rw [unpack_of_zero hlow hm]
      refine ⟨rfl, ?_⟩
      unfold Exact.value
      rw [hnone, Nat.cast_zero, zero_mul]
      generalize Exact.sign _ = s
      cases s <;> simp [signed]
    · obtain ⟨_, hunpack⟩ := unpack_of_subnormal hlow hm
      rw [hunpack]
      refine ⟨rfl, ?_⟩
      unfold valueOf Exact.value Exact.sign
      dsimp only
      rw [hmantissa, hsign]
  · have hnonzero : b.toNat / 2 ^ 52 % 2 ^ 11 ≠ 0 := fun heq =>
      hlow (BitVec.eq_of_toNat_eq (hexponent.trans heq))
    obtain ⟨_, hunpack⟩ := unpack_of_normal hlow hhigh
    unfold Exact.ofBits
    rw [if_neg hnonzero, hunpack]
    refine ⟨rfl, ?_⟩
    unfold valueOf Exact.value Exact.sign
    dsimp only
    rw [hmantissa, hexponent, add_comm, hsign]

/-- **Bits.** A finite float stands for the exact number that is read off its bits. -/
theorem exists_exact {x : Float} (hx : x.isFinite = true) :
    ∃ e, Exact.ofFloat? x = some e ∧ e.value = value x := by
  have hfield : x.toBits.toNat / 2 ^ 52 % 2 ^ 11 ≠ 2047 := by
    intro hones
    have hexponent := toNat_unpackExponent x.toBits.toBitVec
    have hfinite : (unpack .binary64 x.toBits.toBitVec).isFinite = true := hx
    rw [unpack_of_ones (BitVec.eq_of_toNat_eq (hexponent.trans hones))] at hfinite
    split at hfinite <;> cases hfinite
  refine ⟨Exact.ofBits x.toBits.toNat, ?_, (valueOf_unpack hfield).2.symm⟩
  rw [Exact.ofFloat?_eq, if_neg hfield]

theorem value_of_ofFloat? {x : Float} {e : Exact} (h : Exact.ofFloat? x = some e) :
    x.isFinite = true ∧ value x = e.value := by
  rw [Exact.ofFloat?_eq] at h
  split at h
  · cases h
  · rename_i hfield
    cases h
    exact valueOf_unpack (b := x.toBits.toBitVec) hfield

theorem magnitude_nonneg (m : ℕ) (k : ℤ) : (0 : ℚ) ≤ m * 2 ^ k :=
  mul_nonneg (Nat.cast_nonneg m) (zpow_two_pos k).le

theorem Exact.abs_value (e : Exact) : |e.value| = e.mantissa * 2 ^ e.exponent := by
  have hmagnitude := magnitude_nonneg e.mantissa e.exponent
  unfold value
  cases e.sign with
  | negative => exact (abs_neg _).trans (abs_of_nonneg hmagnitude)
  | positive => exact abs_of_nonneg hmagnitude

/-! ## Floats of one number -/

namespace Exact

/-- The form that is read off bits: a mantissa of 53 digits, or of fewer with the lowest exponent. -/
structure IsNormal (e : Exact) : Prop where
  short : e.mantissa < 2 ^ 53
  lowest : -1074 ≤ e.exponent
  long : 2 ^ 52 ≤ e.mantissa ∨ e.exponent = -1074

theorem isNormal_ofBits (bits : ℕ) : (ofBits bits).IsNormal := by
  unfold ofBits
  split
  · exact ⟨by dsimp only; omega, le_rfl, .inr rfl⟩
  · exact ⟨by dsimp only; omega, by dsimp only; omega, .inl (by dsimp only; omega)⟩

theorem ofBits_negative (bits : ℕ) : (ofBits bits).negative = (bits / 2 ^ 63 == 1) := by
  unfold ofBits
  split <;> rfl

theorem ofBits_inj {bits bits' : ℕ} (h : bits < 2 ^ 64) (h' : bits' < 2 ^ 64)
    (heq : ofBits bits = ofBits bits') : bits = bits' := by
  have hnegative : (ofBits bits).negative = (ofBits bits').negative := by rw [heq]
  have hmantissa : (ofBits bits).mantissa = (ofBits bits').mantissa := by rw [heq]
  have hexponent : (ofBits bits).exponent = (ofBits bits').exponent := by rw [heq]
  have hsign : bits / 2 ^ 63 = 1 ↔ bits' / 2 ^ 63 = 1 := by
    rwa [ofBits_negative, ofBits_negative, Bool.eq_iff_iff, beq_iff_eq, beq_iff_eq] at hnegative
  unfold ofBits at hmantissa hexponent
  split at hmantissa <;> split at hmantissa <;> simp only [*, ↓reduceIte] at hexponent <;>
    dsimp only at hmantissa <;> omega

/-- Magnitudes are told apart by their exponents and then by their mantissas. -/
theorem IsNormal.eq_of_magnitude {e e' : Exact} (he : e.IsNormal) (he' : e'.IsNormal)
    (h : (e.mantissa * 2 ^ e.exponent : ℚ) = e'.mantissa * 2 ^ e'.exponent) :
    e.mantissa = e'.mantissa ∧ e.exponent = e'.exponent := by
  by_contra hne
  have hless : (e.exponent < e'.exponent ∨ e.exponent = e'.exponent ∧ e.mantissa < e'.mantissa) ∨
      (e'.exponent < e.exponent ∨ e'.exponent = e.exponent ∧ e'.mantissa < e.mantissa) := by
    omega
  obtain hless | hless := hless
  · exact (magnitude_lt he.short he'.long he.lowest hless).ne h
  · exact (magnitude_lt he'.short he.long he'.lowest hless).ne h.symm

variable {x y : Float} {e e' : Exact}

theorem eq_ofBits (h : ofFloat? x = some e) : e = ofBits x.toBits.toNat := by
  rw [ofFloat?_eq] at h
  split at h
  · cases h
  · exact (Option.some.inj h).symm

theorem eq_of_magnitude (hx : ofFloat? x = some e) (hy : ofFloat? y = some e')
    (hsign : e.negative = e'.negative)
    (h : (e.mantissa * 2 ^ e.exponent : ℚ) = e'.mantissa * 2 ^ e'.exponent) : x = y := by
  have hx := eq_ofBits hx
  have hy := eq_ofBits hy
  obtain ⟨hmantissa, hexponent⟩ := IsNormal.eq_of_magnitude (hx ▸ isNormal_ofBits _)
    (hy ▸ isNormal_ofBits _) h
  have heq : e = e' := by
    cases e
    cases e'
    simp_all
  have hbits := ofBits_inj x.toBits.toNat_lt y.toBits.toNat_lt (hx.symm.trans (heq.trans hy))
  exact eq_of_toBits (UInt64.toNat_inj.1 hbits)

end Exact

/-- A finite float other than zero is the number that it stands for. -/
theorem eq_of_value {x y : Float} (hx : x.isFinite = true) (hy : y.isFinite = true)
    (h : value x = value y) (hzero : value x ≠ 0) : x = y := by
  obtain ⟨e, he, hvalue⟩ := exists_exact hx
  obtain ⟨e', he', hvalue'⟩ := exists_exact hy
  have hsame : e.value = e'.value := by rw [hvalue, hvalue', h]
  rw [← hvalue] at hzero
  have hmagnitude := magnitude_nonneg e.mantissa e.exponent
  have hmagnitude' := magnitude_nonneg e'.mantissa e'.exponent
  unfold Exact.value Exact.sign at hsame hzero
  cases hneg : e.negative <;> cases hneg' : e'.negative <;>
    simp only [hneg, hneg', signed, ↓reduceIte, Bool.false_eq_true] at hsame hzero
  · exact Exact.eq_of_magnitude he he' (hneg.trans hneg'.symm) hsame
  · exact absurd (le_antisymm (by linarith) hmagnitude) hzero
  · exact absurd (neg_eq_zero.2 (le_antisymm (by linarith) hmagnitude)) hzero
  · exact Exact.eq_of_magnitude he he' (hneg.trans hneg'.symm) (neg_injective hsame)

theorem eq_infinity {x : Float} (h : Exact.ofFloat? x = none) (hnan : x.isNaN = false) :
    x = infinity ∨ x = -infinity := by
  have hfield : x.toBits.toNat / 2 ^ 52 % 2 ^ 11 = 2047 := by
    by_contra hfield
    rw [Exact.ofFloat?_eq, if_neg hfield] at h
    cases h
  have hfraction : x.toBits.toNat % 2 ^ 52 = 0 := by
    have hexponent := toNat_unpackExponent x.toBits.toBitVec
    have hmantissa := toNat_unpackMantissa x.toBits.toBitVec
    have hunpack : (unpack .binary64 x.toBits.toBitVec).isNaN = false := hnan
    rw [unpack_of_ones (BitVec.eq_of_toNat_eq (hexponent.trans hfield))] at hunpack
    split at hunpack
    · rename_i hzero
      rw [hzero] at hmantissa
      exact hmantissa.symm
    · cases hunpack
  have hbits := x.toBits.toNat_lt
  have hinfinity : infinity.toBits.toNat = 2047 * 2 ^ 52 := by decide +kernel
  have hnegative : (-infinity).toBits.toNat = 2 ^ 63 + 2047 * 2 ^ 52 := by decide +kernel
  have hor : x.toBits.toNat = infinity.toBits.toNat ∨ x.toBits.toNat = (-infinity).toBits.toNat := by
    omega
  exact hor.imp (fun heq => eq_of_toBits (UInt64.toNat_inj.1 heq))
    fun heq => eq_of_toBits (UInt64.toNat_inj.1 heq)

/-! ## Comparisons -/

theorem compare_intCast (m n : ℤ) : compare (m : ℚ) (n : ℚ) = compare m n := by
  rw [← cmp_eq_compare, ← cmp_eq_compare]
  exact StrictMono.cmp_map_eq (fun _ _ h => Int.cast_lt.2 h) m n

namespace Exact

theorem ratio_pos (e : Exact) : 0 < e.ratio.2 := by
  unfold ratio
  split
  · exact Nat.one_pos
  · exact Nat.pow_pos Nat.two_pos

/-- The numerator and the denominator are those of the rational number. -/
theorem numerator_eq (e : Exact) : (e.numerator : ℚ) = e.value * e.ratio.2 := by
  have hratio : (e.ratio.1 : ℚ) = e.mantissa * 2 ^ e.exponent * e.ratio.2 := by
    unfold ratio
    split
    · rename_i hexponent
      obtain ⟨k, hk⟩ := Int.eq_ofNat_of_zero_le hexponent
      rw [hk]
      simp
    · rename_i hexponent
      obtain ⟨k, hk⟩ : ∃ k : ℕ, e.exponent = -k := ⟨(-e.exponent).toNat, by omega⟩
      rw [hk]
      simp
  unfold numerator value sign
  cases e.negative with
  | true =>
    rw [if_pos rfl, if_pos rfl]
    push_cast
    rw [hratio]
    exact (neg_mul _ _).symm
  | false =>
    rw [if_neg Bool.false_ne_true, if_neg Bool.false_ne_true]
    push_cast
    exact hratio

theorem compareInt_eq (n : ℤ) (e : Exact) : compareInt n e = compare (n : ℚ) e.value := by
  have hpos : (0 : ℚ) < e.ratio.2 := by exact_mod_cast e.ratio_pos
  unfold compareInt
  rw [← compare_intCast, numerator_eq]
  push_cast
  rw [← cmp_eq_compare, ← cmp_eq_compare]
  exact StrictMono.cmp_map_eq (fun _ _ h => mul_lt_mul_of_pos_right h hpos) _ _

end Exact

namespace Quantity

/-- A number that stands for a rational one. -/
def IsFinite : Quantity → Prop
  | .int _ => True
  | .float x => x.isFinite = true

/-- The rational number that a finite number stands for. -/
def value : Quantity → ℚ
  | .int n => n
  | .float x => KnowledgeGraph.value x

variable {a b : Quantity} (ha : a.IsFinite) (hb : b.IsFinite)
include ha hb

/-- **Finite numbers of both kinds compare as rational numbers.** -/
theorem compare?_eq : a.compare? b = some (compare a.value b.value) := by
  cases a with
  | int m =>
    cases b with
    | int n => exact congrArg some (compare_intCast m n).symm
    | float y =>
      obtain ⟨e, he, hvalue⟩ := exists_exact hb
      show compare?.ofMixed m y = _
      unfold compare?.ofMixed
      rw [he]
      dsimp only
      rw [Exact.compareInt_eq, hvalue]
      rfl
  | float x =>
    cases b with
    | int n =>
      obtain ⟨e, he, hvalue⟩ := exists_exact ha
      show (compare?.ofMixed n x).map Ordering.swap = _
      unfold compare?.ofMixed
      rw [he]
      dsimp only
      rw [Exact.compareInt_eq, hvalue, Option.map_some, ← cmp_eq_compare, cmp_swap, cmp_eq_compare]
      rfl
    | float y =>
      have hlt := lt_iff_value ha hb
      have hgt := lt_iff_value hb ha
      unfold compare? value
      dsimp only
      obtain h | h | h := lt_trichotomy (KnowledgeGraph.value x) (KnowledgeGraph.value y)
      · rw [if_pos (hlt.2 h), compare_lt_iff_lt.2 h]
      · rw [if_neg (mt hlt.1 h.not_lt), if_neg (mt hgt.1 h.not_gt),
          if_pos ((beq_iff_value ha hb).2 h), compare_eq_iff_eq.2 h]
      · rw [if_neg (mt hlt.1 h.not_gt), if_pos (hgt.2 h), compare_gt_iff_gt.2 h]

theorem less_iff : a.less b = true ↔ a.value < b.value := by
  unfold less
  rw [compare?_eq ha hb, beq_iff_eq, Option.some.injEq, compare_lt_iff_lt]

end Quantity

/-! ## Putting bits together -/

theorem ofBits_eq (w : UInt64) :
    Float.ofBits w = .ofModel (Float.Model.pack (unpack .binary64 w.toBitVec)) := rfl

theorem toNat_word {bits : ℕ} (h : bits < 2 ^ 64) :
    (UInt64.ofNat bits).toBitVec.toNat = bits := UInt64.toNat_ofNat_of_lt' h

section

variable {e n : ℕ} (he : e ≤ 2044) (hn : n ≤ 2 ^ 53) (hnormal : e = 0 ∨ 2 ^ 52 ≤ n)
include he hn hnormal

/-- An exponent above a mantissa, of which a leading one is added to the exponent. -/
theorem Exact.value_ofBits :
    (Exact.ofBits (e * 2 ^ 52 + n)).value = n * 2 ^ (e - 1074 : ℤ) := by
  have hfield : (e * 2 ^ 52 + n) / 2 ^ 52 % 2 ^ 11 = (e * 2 ^ 52 + n) / 2 ^ 52 := by omega
  have hpositive : ((e * 2 ^ 52 + n) / 2 ^ 63 == 1) = false := beq_eq_false_iff_ne.2 (by omega)
  have hvalue (m : ℕ) (f : ℤ) : (Exact.mk false m f).value = m * 2 ^ f := rfl
  unfold ofBits
  rw [hfield, hpositive]
  by_cases hlow : (e * 2 ^ 52 + n) / 2 ^ 52 = 0
  · obtain ⟨rfl, hlt⟩ : e = 0 ∧ n < 2 ^ 52 := by omega
    rw [if_pos hlow, hvalue, Nat.zero_mul, Nat.zero_add, Nat.mod_eq_of_lt hlt, Nat.cast_zero,
      zero_sub]
  · rw [if_neg hlow, hvalue]
    obtain hlt | rfl := hn.lt_or_eq
    · have hmantissa : (e * 2 ^ 52 + n) % 2 ^ 52 + 2 ^ 52 = n := by omega
      have hexponent : (((e * 2 ^ 52 + n) / 2 ^ 52 : ℕ) - 1075 : ℤ) = e - 1074 := by omega
      rw [hmantissa, hexponent]
    · -- The mantissa has one digit too many and counts as the next exponent.
      have hmantissa : (e * 2 ^ 52 + 2 ^ 53) % 2 ^ 52 + 2 ^ 52 = 2 ^ 52 := by omega
      have hexponent : (((e * 2 ^ 52 + 2 ^ 53) / 2 ^ 52 : ℕ) - 1075 : ℤ) = e - 1074 + 1 := by omega
      rw [hmantissa, hexponent, zpow_add_one₀ two_ne_zero]
      push_cast
      ring

/-- **The float of an exponent and a mantissa.** -/
theorem value_ofBits : (Float.ofBits (.ofNat (e * 2 ^ 52 + n))).isFinite = true ∧
    value (.ofBits (.ofNat (e * 2 ^ 52 + n))) = n * 2 ^ (e - 1074 : ℤ) := by
  have hbound : |(n * 2 ^ (e - 1074 : ℤ) : ℚ)| ≤ 2 ^ 1023 := by
    have hpos := zpow_two_pos (e - 1074)
    have hn' : (n : ℚ) ≤ 2 ^ (53 : ℤ) := by exact_mod_cast hn
    rw [abs_of_nonneg (mul_nonneg (Nat.cast_nonneg n) hpos.le)]
    calc (n * 2 ^ (e - 1074 : ℤ) : ℚ) ≤ 2 ^ (53 : ℤ) * 2 ^ (e - 1074 : ℤ) := by gcongr
      _ = 2 ^ (53 + (e - 1074) : ℤ) := (zpow_add₀ two_ne_zero _ _).symm
      _ ≤ 2 ^ (1023 : ℤ) := zpow_le_zpow_right₀ one_le_two (by omega)
      _ = 2 ^ 1023 := zpow_natCast 2 1023
  have hexact := Exact.value_ofBits he hn hnormal
  generalize hbits : e * 2 ^ 52 + n = bits at hexact ⊢
  have hfield : bits / 2 ^ 52 % 2 ^ 11 ≠ 2047 := by omega
  have hword : (UInt64.ofNat bits).toBitVec.toNat = bits := toNat_word (by omega)
  rw [ofBits_eq]
  generalize (UInt64.ofNat bits).toBitVec = b at hword ⊢
  subst hword
  obtain ⟨hfinite, hvalue⟩ := valueOf_unpack hfield
  rw [hexact] at hvalue
  have hcanonical := isCanonical_unpack hfinite
  have hround := hcanonical.rounded_valueOf
  rw [hvalue] at hround
  have hpack := value_pack ⟨hcanonical, hvalue.trans hround.symm⟩ hbound
  rwa [hround] at hpack

end

end KnowledgeGraph
