import KnowledgeGraph.Number.Reading
import KnowledgeGraph.Number.Style
import KnowledgeGraph.Proofs.Number.Decimal
import Mathlib.Data.List.DropRight

/-!
# Numerals

A numeral is made of digits before and after a point and of an exponent. Where a style keeps the point,
each decimal is written as a numeral that stands for the same number, with a fraction or an exponent
(`NumberStyle.exists_numeral`).
-/

namespace KnowledgeGraph

/-! ## Digits -/

theorem naturalOf_append (cs ds : List Char) :
    naturalOf (cs ++ ds) = naturalOf cs * 10 ^ ds.length + naturalOf ds := by
  have hleft : naturalOf (cs ++ ds) = Nat.ofDigitChars 10 ds (naturalOf cs) :=
    Nat.ofDigitChars_append 0
  rw [hleft, Nat.ofDigitChars_eq_ofDigitChars_zero, mul_comm]
  rfl

@[simp] theorem naturalOf_toDigits (n : ℕ) : naturalOf (Nat.toDigits 10 n) = n :=
  Nat.ofDigitChars_ten_toDigits

@[simp] theorem naturalOf_zeros (k : ℕ) : naturalOf (List.replicate k '0') = 0 := by
  have hzero : Nat.ofDigitChars 10 (List.replicate k '0') 0 = 10 ^ k * 0 :=
    Nat.ofDigitChars_replicate_zero
  exact hzero.trans (mul_zero _)

theorem naturalOf_lt {ds : List Char} (hds : ∀ c ∈ ds, c.isDigit = true) :
    naturalOf ds < 10 ^ ds.length := by
  induction ds using List.reverseRecOn with
  | nil => exact Nat.one_pos
  | append_singleton ds c ih =>
    rw [List.forall_mem_append, List.forall_mem_singleton] at hds
    have hvalue : naturalOf [c] < 10 := by
      have hrange : '0'.toNat ≤ c.toNat ∧ c.toNat ≤ '9'.toNat := by
        simpa [Char.isDigit, UInt32.le_iff_toNat_le] using hds.2
      have hsingle : naturalOf [c] = c.toNat - '0'.toNat := by simp [naturalOf]
      have hnine : '9'.toNat = '0'.toNat + 9 := rfl
      omega
    have hrest := ih hds.1
    rw [naturalOf_append, List.length_append, List.length_singleton, pow_one, pow_succ]
    omega

theorem head?_toDigits {n : ℕ} (hn : 0 < n) : (Nat.toDigits 10 n).head? ≠ some '0' := by
  induction n using Nat.strong_induction_on with
  | _ n ih =>
    rw [Nat.toDigits_eq_if (by decide)]
    split
    · simpa using hn.ne'
    · rw [List.head?_append_of_ne_nil _ Nat.toDigits_ne_nil]
      exact ih (n / 10) (by omega) (by omega)

/-- Digits that spell a number as it is written: a zero alone, or digits of which the first is not
zero. -/
structure AreLeading (ds : List Char) : Prop where
  ne_nil : ds ≠ []
  isDigit : ∀ c ∈ ds, c.isDigit = true
  first : ds = ['0'] ∨ ds.head? ≠ some '0'

theorem areLeading_toDigits (n : ℕ) : AreLeading (Nat.toDigits 10 n) where
  ne_nil := Nat.toDigits_ne_nil
  isDigit _ hc := Nat.isDigit_of_mem_toDigits (by decide) (by decide) hc
  first := by
    obtain rfl | hn := Nat.eq_zero_or_pos n
    · exact .inl rfl
    · exact .inr (head?_toDigits hn)

theorem AreLeading.append_zeros {ds : List Char} {k : ℕ} (h : AreLeading ds)
    (hzero : ds = ['0'] → k = 0) : AreLeading (ds ++ List.replicate k '0') where
  ne_nil := List.append_ne_nil_of_left_ne_nil h.ne_nil _
  isDigit := List.forall_mem_append.2
    ⟨h.isDigit, fun _ hc => List.eq_of_mem_replicate hc ▸ rfl⟩
  first := by
    obtain hsingle | hfirst := h.first
    · rw [hzero hsingle, List.replicate_zero, List.append_nil]
      exact .inl hsingle
    · rw [List.head?_append_of_ne_nil _ h.ne_nil]
      exact .inr hfirst

theorem AreLeading.take {ds : List Char} {k : ℕ} (h : AreLeading ds) (hk : 0 < k)
    (hlong : k < ds.length) : AreLeading (ds.take k) where
  ne_nil := by
    rw [ne_eq, List.take_eq_nil_iff]
    exact fun hnil => hnil.elim hk.ne' h.ne_nil
  isDigit c hc := h.isDigit c (List.mem_of_mem_take hc)
  first := by
    obtain hsingle | hfirst := h.first
    · rw [hsingle, List.length_singleton] at hlong
      omega
    · rw [List.head?_take, if_neg hk.ne']
      exact .inr hfirst

/-! ## Numerals -/

/-- The parts of a numeral. -/
structure Numeral where
  whole : List Char
  fraction : List Char
  power : Option Int

namespace Numeral

def text (n : Numeral) : List Char :=
  n.whole ++ ((if n.fraction = [] then [] else '.' :: n.fraction) ++
    n.power.elim [] NumberStyle.writeExponent)

def decimal (n : Numeral) : Decimal :=
  ⟨naturalOf (n.whole ++ n.fraction), n.power.getD 0 - n.fraction.length⟩

/-- A numeral with a fraction or an exponent. -/
structure IsPointed (n : Numeral) : Prop where
  whole : AreLeading n.whole
  fraction : ∀ c ∈ n.fraction, c.isDigit = true
  pointed : n.fraction ≠ [] ∨ n.power ≠ none

theorem text_of_fraction {n : Numeral} (h : n.fraction ≠ []) : n.text =
    n.whole ++ '.' :: (n.fraction ++ n.power.elim [] NumberStyle.writeExponent) := by
  unfold text
  rw [if_neg h]
  rfl

/-- A numeral that is written so, and stands for digits of which the first stands for `10 ^ lead`. -/
structure Spells (n : Numeral) (text ds : List Char) (lead : ℤ) : Prop where
  pointed : n.IsPointed
  written : text = n.text
  value : n.decimal.value = naturalOf ds * 10 ^ (lead + 1 - ds.length)

section

variable {ds : List Char} {lead : ℤ} (hds : AreLeading ds)
include hds

/-- Zeros stand between the point and the digits. -/
theorem spells_below (hlead : lead < 0) :
    Spells ⟨['0'], List.replicate (-lead - 1).toNat '0' ++ ds, none⟩
      ('0' :: '.' :: (List.replicate (-lead - 1).toNat '0' ++ ds)) ds lead := by
  have hfraction : List.replicate (-lead - 1).toNat '0' ++ ds ≠ [] :=
    List.append_ne_nil_of_right_ne_nil _ hds.ne_nil
  refine ⟨⟨areLeading_toDigits 0, ?_, .inl hfraction⟩, ?_, ?_⟩
  · exact List.forall_mem_append.2 ⟨fun c hc => List.eq_of_mem_replicate hc ▸ rfl, hds.isDigit⟩
  · rw [text_of_fraction hfraction]
    simp
  · have hnone : naturalOf ['0'] = 0 := rfl
    unfold decimal Decimal.value
    dsimp only
    rw [naturalOf_append, naturalOf_append, naturalOf_zeros, hnone, zero_mul, zero_mul, zero_add,
      zero_add, List.length_append, List.length_replicate, Option.getD_none]
    congr 2
    push_cast
    omega

/-- Zeros stand between the digits and the point. -/
theorem spells_whole (hzero : ds = ['0'] → lead = 0) (hlead : 0 ≤ lead)
    (hshort : ds.length ≤ lead.toNat + 1) :
    Spells ⟨ds ++ List.replicate (lead.toNat + 1 - ds.length) '0', ['0'], none⟩
      (ds ++ List.replicate (lead.toNat + 1 - ds.length) '0' ++ ['.', '0']) ds lead := by
  obtain ⟨k, hk⟩ := Nat.exists_eq_add_of_le hshort
  have hzeros : lead.toNat + 1 - ds.length = k := by omega
  rw [hzeros]
  refine ⟨⟨hds.append_zeros fun hsingle => ?_, List.forall_mem_singleton.2 rfl,
    .inl (List.cons_ne_nil _ _)⟩, rfl, ?_⟩
  · rw [hzero hsingle, hsingle] at hk
    simp at hk
    omega
  · have hnone : naturalOf ['0'] = 0 := rfl
    unfold decimal Decimal.value
    dsimp only
    rw [naturalOf_append, naturalOf_append, naturalOf_zeros, hnone, List.length_replicate,
      List.length_singleton, Option.getD_none, add_zero, add_zero, pow_one]
    push_cast
    rw [mul_assoc, mul_assoc, ← zpow_natCast, ← zpow_one_add₀ (by norm_num),
      ← zpow_add₀ (by norm_num)]
    congr 2
    omega

/-- The point stands among the digits. -/
theorem spells_among (hlead : 0 ≤ lead) (hlong : lead.toNat + 1 < ds.length) :
    Spells ⟨ds.take (lead.toNat + 1), ds.drop (lead.toNat + 1), none⟩
      (ds.take (lead.toNat + 1) ++ '.' :: ds.drop (lead.toNat + 1)) ds lead := by
  have hfraction : ds.drop (lead.toNat + 1) ≠ [] := by
    rw [ne_eq, List.drop_eq_nil_iff]
    omega
  refine ⟨⟨hds.take (Nat.succ_pos _) hlong, fun c hc => hds.isDigit c (List.mem_of_mem_drop hc),
    .inl hfraction⟩, ?_, ?_⟩
  · rw [text_of_fraction hfraction]
    simp
  · unfold decimal Decimal.value
    dsimp only
    rw [List.take_append_drop, List.length_drop, Option.getD_none]
    congr 2
    omega

end

theorem spells_power {d : Char} {more : List Char} (hds : AreLeading (d :: more)) (lead : ℤ) :
    Spells ⟨[d], more, some lead⟩
      (d :: ((if more = [] then [] else '.' :: more) ++ NumberStyle.writeExponent lead))
      (d :: more) lead := by
  refine ⟨⟨?_, fun c hc => hds.isDigit c (List.mem_cons_of_mem _ hc),
    .inr (Option.some_ne_none _)⟩, rfl, ?_⟩
  · by_cases hmore : more = []
    · exact hmore ▸ hds
    · exact hds.take Nat.one_pos (by simpa [List.length_pos_iff] using hmore)
  · unfold decimal Decimal.value
    simp

end Numeral

namespace NumberStyle

variable {style : NumberStyle} {ds : List Char} {lead : Int}

/-- Of the digits of a positive number, zeros at the end are left out and nothing else. -/
theorem stripZeros_toDigits {n : ℕ} (hn : 0 < n) : AreLeading (stripZeros (Nat.toDigits 10 n)) ∧
    ∃ k, Nat.toDigits 10 n = stripZeros (Nat.toDigits 10 n) ++ List.replicate k '0' := by
  obtain ⟨hne, hdigits, -⟩ := areLeading_toDigits n
  have hfirst := head?_toDigits hn
  generalize Nat.toDigits 10 n = ds at hne hdigits hfirst ⊢
  obtain ⟨c, hc⟩ := Option.isSome_iff_exists.1 (List.isSome_head?.2 hne)
  have hkept : ds.rdropWhile (· == '0') ≠ [] := by
    intro hnil
    have hzero := List.rdropWhile_eq_nil_iff.1 hnil c (List.mem_of_mem_head? hc)
    exact hfirst (hc.trans (congrArg some (beq_iff_eq.1 hzero)))
  have hstrip : stripZeros ds = ds.rdropWhile (· == '0') := by
    unfold stripZeros
    split
    · rename_i hnil
      exact absurd hnil hkept
    · rfl
  have hsplit := List.rdropWhile_append_rtakeWhile (p := (· == '0')) (l := ds)
  rw [hstrip]
  refine ⟨⟨hkept, fun d hd => ?_, .inr ?_⟩, (ds.rtakeWhile (· == '0')).length, ?_⟩
  · exact hdigits d ((List.rdropWhile_prefix _ _).subset hd)
  · rwa [← hsplit, List.head?_append_of_ne_nil _ hkept] at hfirst
  · have hzeros : ds.rtakeWhile (· == '0') =
        List.replicate (ds.rtakeWhile (· == '0')).length '0' :=
      List.eq_replicate_iff.2 ⟨rfl, fun d hd => beq_iff_eq.1 (List.mem_rtakeWhile_imp (p := (· == '0')) hd)⟩
    rw [← hzeros, hsplit]

/-- Digits are written as a numeral with the exponent of the first of them. -/
theorem exists_spells (hpoint : style.keepsPoint = true) (hds : AreLeading ds)
    (hzero : ds = ['0'] → lead = 0) : ∃ n : Numeral, n.Spells (style.writeDigits ds lead) ds lead := by
  unfold writeDigits
  split
  · split
    · exact ⟨_, Numeral.spells_below hds ‹_›⟩
    · dsimp only
      rename_i hneg
      split
      · exact ⟨_, Numeral.spells_whole hds hzero (not_lt.1 hneg) ‹_›⟩
      · exact ⟨_, Numeral.spells_among hds (not_lt.1 hneg) (not_le.1 ‹_›)⟩
  · split
    · exact absurd rfl hds.ne_nil
    · exact ⟨_, Numeral.spells_power hds lead⟩
    · rename_i d more hmore
      have hpower := Numeral.spells_power hds lead
      rw [if_neg hmore] at hpower
      exact ⟨_, hpower⟩

/-- **Numerals.** A decimal is written as a numeral that stands for the same number. -/
theorem exists_numeral (hpoint : style.keepsPoint = true) (d : Decimal) :
    ∃ n : Numeral, n.IsPointed ∧ style.writeDecimal d = n.text ∧ n.decimal.value = d.value := by
  unfold writeDecimal
  dsimp only
  split
  · rename_i hzero
    obtain ⟨n, hpointed, htext, hvalue⟩ :=
      @exists_spells style _ 0 hpoint (areLeading_toDigits 0) fun _ => rfl
    refine ⟨n, hpointed, htext, hvalue.trans ?_⟩
    rw [naturalOf_toDigits, d.value_of_digits_eq_zero hzero, Nat.cast_zero, zero_mul]
  · rename_i hdigits
    obtain ⟨hleading, k, hk⟩ := stripZeros_toDigits (Nat.pos_of_ne_zero hdigits)
    have hzero : stripZeros (Nat.toDigits 10 d.digits) ≠ ['0'] := by
      intro hzero
      have hfirst := head?_toDigits (Nat.pos_of_ne_zero hdigits)
      rw [hk, hzero] at hfirst
      exact hfirst rfl
    obtain ⟨n, hpointed, htext, hvalue⟩ := @exists_spells style _
      ((Nat.toDigits 10 d.digits).length - 1 + d.exponent) hpoint hleading fun h => absurd h hzero
    refine ⟨n, hpointed, htext, hvalue.trans ?_⟩
    generalize stripZeros (Nat.toDigits 10 d.digits) = ds at hk
    have hlength : (Nat.toDigits 10 d.digits).length = ds.length + k := by
      rw [hk, List.length_append, List.length_replicate]
    have hnatural : (d.digits : ℚ) = naturalOf ds * 10 ^ k := by
      have hread := congrArg naturalOf hk
      rw [naturalOf_toDigits, naturalOf_append, naturalOf_zeros, List.length_replicate] at hread
      exact_mod_cast hread
    unfold Decimal.value
    rw [hnatural, mul_assoc, ← zpow_natCast, ← zpow_add₀ (by norm_num), hlength]
    congr 2
    push_cast
    ring

end NumberStyle

end KnowledgeGraph
