import KnowledgeGraph.Proofs.Number
import Mathlib.Data.Prod.Lex
import Mathlib.Order.Compare

/-!
# The order of floats

A float has a place on a line (`rank`), and floats other than the not-a-number compare as their
places do (`lt_iff_rank`, `le_iff_rank`, `beq_iff_rank`). The not-a-number compares with nothing
(`isNaN_of_le`), so a number of the unit interval is none (`InUnit.isNaN`).
-/

namespace KnowledgeGraph

open Float.Model (UnpackedFloat)

/-! ## Comparisons -/

section

variable {x y : Float}

theorem lt_iff_compare : x < y ↔ x.toModel.unpack.compare y.toModel.unpack = some .lt := by
  show x.lt y = true ↔ _
  unfold Float.lt
  rw [decide_eq_true_iff]
  show Float.Model.lt _ _ = true ↔ _
  unfold Float.Model.lt UnpackedFloat.lt
  exact beq_iff_eq

theorem le_iff_compare :
    x ≤ y ↔ ∃ o, x.toModel.unpack.compare y.toModel.unpack = some o ∧ o.isLE = true := by
  show x.le y = true ↔ _
  unfold Float.le
  rw [decide_eq_true_iff]
  show Float.Model.le _ _ = true ↔ _
  unfold Float.Model.le UnpackedFloat.le
  exact Option.any_eq_true _ _

theorem beq_iff_compare :
    (x == y) = true ↔ x.toModel.unpack.compare y.toModel.unpack = some .eq := by
  show Float.Model.beq _ _ = true ↔ _
  unfold Float.Model.beq UnpackedFloat.beq
  exact beq_iff_eq

theorem le_of_less (h : x < y) : x ≤ y := le_iff_compare.2 ⟨.lt, lt_iff_compare.1 h, rfl⟩

theorem le_of_beq (h : (x == y) = true) : x ≤ y := le_iff_compare.2 ⟨.eq, beq_iff_compare.1 h, rfl⟩

/-- The not-a-number is neither below nor above anything. -/
theorem isNaN_of_le (h : x ≤ y) : x.isNaN = false ∧ y.isNaN = false := by
  obtain ⟨o, ho, -⟩ := le_iff_compare.1 h
  show x.toModel.unpack.isNaN = false ∧ y.toModel.unpack.isNaN = false
  generalize x.toModel.unpack = a at ho
  generalize y.toModel.unpack = b at ho
  cases a with
  | notANumber => cases ho
  | _ =>
    cases b with
    | notANumber => cases ho
    | _ => exact ⟨rfl, rfl⟩

end

/-! ## Places -/

/-- The place of a number: its side, and there its exponent and then its mantissa, which count
downwards on the negative side. -/
def place : UnpackedFloat → ℤ ×ₗ ℤ ×ₗ ℤ
  | .infinity .negative => toLex (-2, toLex (0, 0))
  | .finite .negative m e _ => toLex (-1, toLex (-e, -m))
  | .zero _ => toLex (0, toLex (0, 0))
  | .notANumber => toLex (0, toLex (0, 0))
  | .finite .positive m e _ => toLex (1, toLex (e, m))
  | .infinity .positive => toLex (2, toLex (0, 0))

theorem compare_lex {α β : Type} [LinearOrder α] [LinearOrder β] (p q : α ×ₗ β) :
    compare p q =
      (compare (ofLex p).1 (ofLex q).1).then (compare (ofLex p).2 (ofLex q).2) := by
  rw [Prod.Lex.compare_def]
  rfl

theorem compare_natCast (m n : ℕ) : compare (m : ℤ) (n : ℤ) = compare m n := by
  rw [← cmp_eq_compare, ← cmp_eq_compare]
  exact StrictMono.cmp_map_eq (fun _ _ h => Int.ofNat_lt.2 h) m n

theorem compare_neg (a b : ℤ) : compare (-a) (-b) = (compare a b).swap := by
  rw [← cmp_eq_compare, ← cmp_eq_compare, cmp_swap]
  exact StrictAnti.cmp_map_eq (fun _ _ h => Int.neg_lt_neg h) a b

theorem compare_eq_place {a b : UnpackedFloat} (ha : a.isNaN = false) (hb : b.isNaN = false) :
    a.compare b = some (compare (place a) (place b)) := by
  cases a with
  | notANumber => cases ha
  | infinity s =>
    cases b with
    | notANumber => cases hb
    | infinity t => cases s <;> cases t <;> decide
    | zero t => cases s <;> cases t <;> decide
    | finite t n f hn => cases s <;> cases t <;> rw [compare_lex] <;> rfl
  | zero s =>
    cases b with
    | notANumber => cases hb
    | infinity t => cases s <;> cases t <;> decide
    | zero t => cases s <;> cases t <;> decide
    | finite t n f hn => cases s <;> cases t <;> rw [compare_lex] <;> rfl
  | finite s m e hm =>
    cases b with
    | notANumber => cases hb
    | infinity t => cases s <;> cases t <;> rw [compare_lex] <;> rfl
    | zero t => cases s <;> cases t <;> rw [compare_lex] <;> rfl
    | finite t n f hn =>
      -- Only numbers of one side are told apart by exponent and mantissa.
      cases s <;> cases t <;> rw [compare_lex]
      · rw [compare_lex (ofLex (place _)).2]
        show _ = some ((compare (-e) (-f)).then (compare (-(m : ℤ)) (-(n : ℤ))))
        rw [compare_neg, compare_neg, compare_natCast, ← Ordering.swap_then]
        rfl
      · rfl
      · rfl
      · rw [compare_lex (ofLex (place _)).2]
        show _ = some ((compare e f).then (compare (m : ℤ) (n : ℤ)))
        rw [compare_natCast]
        rfl

/-- The place of a float. -/
def rank (x : Float) : ℤ ×ₗ ℤ ×ₗ ℤ := place x.toModel.unpack

section

variable {x y : Float} (hx : x.isNaN = false) (hy : y.isNaN = false)
include hx hy

theorem lt_iff_rank : x < y ↔ rank x < rank y := by
  rw [lt_iff_compare, compare_eq_place hx hy, Option.some.injEq, compare_lt_iff_lt, rank, rank]

theorem le_iff_rank : x ≤ y ↔ rank x ≤ rank y := by
  rw [le_iff_compare, compare_eq_place hx hy]
  simp only [Option.some.injEq, exists_eq_left', Ordering.isLE_iff_ne_gt, compare_le_iff_le, rank]

theorem beq_iff_rank : (x == y) = true ↔ rank x = rank y := by
  rw [beq_iff_compare, compare_eq_place hx hy, Option.some.injEq, compare_eq_iff_eq, rank, rank]

end

theorem le_of_le_le {x y z : Float} (h : x ≤ y) (h' : y ≤ z) : x ≤ z := by
  obtain ⟨hx, hy⟩ := isNaN_of_le h
  obtain ⟨-, hz⟩ := isNaN_of_le h'
  rw [le_iff_rank hx hy] at h
  rw [le_iff_rank hy hz] at h'
  exact (le_iff_rank hx hz).2 (h.trans h')

theorem rank_eq_of_beq {x y : Float} (h : (x == y) = true) : rank x = rank y := by
  obtain ⟨hx, hy⟩ := isNaN_of_le (le_of_beq h)
  exact (beq_iff_rank hx hy).1 h

/-! ## The unit interval -/

def InUnit (x : Float) : Prop := 0 ≤ x ∧ x ≤ 1

theorem InUnit.isNaN {x : Float} (h : InUnit x) : x.isNaN = false := (isNaN_of_le h.1).2

theorem inUnit_zero : InUnit 0 := by
  unfold InUnit
  decide +kernel

theorem inUnit_one : InUnit 1 := by
  unfold InUnit
  decide +kernel

theorem inUnit_half : InUnit 0.5 := by
  unfold InUnit
  decide +kernel

theorem inUnit_tenth : InUnit 0.1 := by
  unfold InUnit
  decide +kernel

/-- What is moved into an interval is in it, the not-a-number too. -/
theorem clamp_within {low high : Float} (h : low ≤ high) (x : Float) :
    low ≤ clamp low high x ∧ clamp low high x ≤ high := by
  obtain ⟨hlow, hhigh⟩ := isNaN_of_le h
  have hself {y : Float} (hy : y.isNaN = false) : y ≤ y := (le_iff_rank hy hy).2 le_rfl
  unfold clamp most least
  by_cases hbelow : x < high
  · rw [if_pos hbelow]
    by_cases habove : low < x
    · rw [if_pos habove]
      exact ⟨le_of_less habove, le_of_less hbelow⟩
    · rw [if_neg habove]
      exact ⟨hself hlow, h⟩
  · rw [if_neg hbelow]
    split
    · exact ⟨h, hself hhigh⟩
    · exact ⟨hself hlow, h⟩

theorem inUnit_clampUnit (x : Float) : InUnit (clampUnit x) := clamp_within inUnit_one.1 x

theorem inUnit_least {x y : Float} (hx : InUnit x) (hy : InUnit y) : InUnit (least x y) := by
  unfold least
  split
  · exact hy
  · exact hx

theorem InUnit.rank_clampUnit {x : Float} (h : InUnit x) : rank (clampUnit x) = rank x := by
  have hone : (1 : Float).isNaN = false := inUnit_one.isNaN
  have hzero : (0 : Float).isNaN = false := inUnit_zero.isNaN
  by_cases hhigh : x < 1
  · by_cases hlow : 0 < x
    · rw [clampUnit_of_within hhigh hlow]
    · rw [clampUnit_of_not_pos hhigh hlow]
      rw [lt_iff_rank hzero h.isNaN, not_lt] at hlow
      exact le_antisymm ((le_iff_rank hzero h.isNaN).1 h.1) hlow
  · rw [clampUnit_of_not_lt hhigh]
    rw [lt_iff_rank h.isNaN hone, not_lt] at hhigh
    exact le_antisymm hhigh ((le_iff_rank h.isNaN hone).1 h.2)

/-- Moved into the unit interval, a number of it is the same number. -/
theorem InUnit.clampUnit_beq {x : Float} (h : InUnit x) : (clampUnit x == x) = true :=
  (beq_iff_rank (inUnit_clampUnit x).isNaN h.isNaN).2 h.rank_clampUnit

theorem clampUnit_mono {x y : Float} (h : x ≤ y) : clampUnit x ≤ clampUnit y := by
  obtain ⟨hx, hy⟩ := isNaN_of_le h
  have hone : (1 : Float).isNaN = false := inUnit_one.isNaN
  have hzero : (0 : Float).isNaN = false := inUnit_zero.isNaN
  have hrank := (le_iff_rank hx hy).1 h
  by_cases hhigh : y < 1
  · have hhigh' : x < 1 := (lt_iff_rank hx hone).2 (hrank.trans_lt ((lt_iff_rank hy hone).1 hhigh))
    by_cases hlow : 0 < x
    · have hlow' : 0 < y :=
        (lt_iff_rank hzero hy).2 (((lt_iff_rank hzero hx).1 hlow).trans_le hrank)
      rwa [clampUnit_of_within hhigh' hlow, clampUnit_of_within hhigh hlow']
    · rw [clampUnit_of_not_pos hhigh' hlow]
      exact (inUnit_clampUnit y).1
  · rw [clampUnit_of_not_lt hhigh]
    exact (inUnit_clampUnit x).2

theorem inUnit_confidenceOf (x : Float) : InUnit (confidenceOf x) := by
  unfold confidenceOf
  split
  · exact inUnit_clampUnit x
  · exact inUnit_zero

end KnowledgeGraph
