import KnowledgeGraph.Number.Exact
import KnowledgeGraph.Number.Statistics

/-!
# Floats

There is one not-a-number only (`eq_notANumber`), and moving a number into an interval once more
does not change it (`clamp_clamp`).
-/

namespace KnowledgeGraph

open Float.Model (Format)

open Float.Model.UnpackedFloat (unpack unpackExponent unpackMantissa packedNaN)

theorem eq_of_toBits {x y : Float} (h : x.toModel.toBits = y.toModel.toBits) : x = y := by
  obtain ⟨⟨bits, hvalid⟩⟩ := x
  obtain ⟨⟨bits', hvalid'⟩⟩ := y
  dsimp only at h
  subst h
  rfl

/-! ## Not-a-numbers -/

theorem bits_of_isNaN {spec : Format} {b : BitVec spec.numBits}
    (h : (unpack spec b).isNaN = true) : unpackExponent b = -1#_ ∧ unpackMantissa b ≠ 0#_ := by
  unfold Float.Model.UnpackedFloat.unpack at h
  dsimp only at h
  by_cases he : unpackExponent b = -1#_
  · refine ⟨he, fun hm => ?_⟩
    rw [if_pos he, if_pos hm] at h
    cases h
  · rw [if_neg he] at h
    by_cases hzero : unpackExponent b = 0#_
    · rw [if_pos hzero] at h
      by_cases hm : unpackMantissa b = 0#_
      · rw [dif_pos hm] at h
        cases h
      · rw [dif_neg hm] at h
        cases h
    · rw [if_neg hzero] at h
      cases h

theorem eq_notANumber {x : Float} (h : x.isNaN = true) : x = notANumber := by
  have hbits : ∀ y : Float, y.isNaN = true → y.toModel.toBits.toBitVec = packedNaN .binary64 := by
    intro y hy
    obtain ⟨he, hm⟩ := bits_of_isNaN hy
    exact y.toModel.valid.eq_packedNaN he hm
  have hnan : notANumber.isNaN = true := by decide +kernel
  exact eq_of_toBits (UInt64.toBitVec_inj.1 ((hbits x h).trans (hbits _ hnan).symm))

/-! ## Bounds -/

theorem most_self (x : Float) : most x x = x := ite_self x

theorem least_self (x : Float) : least x x = x := ite_self x

/-- What is moved into an interval stays there when it is moved once more, even if the ends are the
wrong way round. -/
theorem clamp_clamp (low high x : Float) :
    clamp low high (clamp low high x) = clamp low high x := by
  unfold clamp
  by_cases hhigh : x < high
  · have hx : least high x = x := if_pos hhigh
    rw [hx]
    by_cases hlow : low < x
    · have hmost : most low x = x := if_pos hlow
      rw [hmost, hx, hmost]
    · have hmost : most low x = low := if_neg hlow
      rw [hmost]
      by_cases hends : low < high
      · rw [least, if_pos hends, most_self]
      · rw [least, if_neg hends, most, if_neg hends]
  · have hx : least high x = high := if_neg hhigh
    rw [hx]
    by_cases hends : low < high
    · have hmost : most low high = high := if_pos hends
      rw [hmost, least_self, hmost]
    · have hmost : most low high = low := if_neg hends
      rw [hmost, least, if_neg hends, hmost]

/-! ## The unit interval -/

section

variable {x : Float}

theorem clampUnit_of_not_lt (h : ¬ x < 1) : clampUnit x = 1 := by
  unfold clampUnit clamp most least
  rw [if_neg h]
  exact if_pos (by decide +kernel)

theorem clampUnit_of_not_pos (h : x < 1) (hzero : ¬ 0 < x) : clampUnit x = 0 := by
  unfold clampUnit clamp most least
  rw [if_pos h, if_neg hzero]

theorem clampUnit_of_within (h : x < 1) (hpos : 0 < x) : clampUnit x = x := by
  unfold clampUnit clamp most least
  rw [if_pos h, if_pos hpos]

theorem clampUnit_clampUnit (x : Float) : clampUnit (clampUnit x) = clampUnit x := clamp_clamp 0 1 x

end

end KnowledgeGraph
