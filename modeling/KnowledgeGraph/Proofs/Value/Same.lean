import KnowledgeGraph.Proofs.Number.Exact
import KnowledgeGraph.Proofs.Table

/-!
# When scalars are the same

Numbers lie on a line, whole numbers and floats of one value at one point, with the infinities at
its ends. Numbers are the same exactly when they have one point (`Quantity.same_iff`), and so every
scalar is told apart by what it is (`Scalar.same_iff`), save a not-a-number without a mark, which is
the same as nothing. Hence scalars are consistent as keys.
-/

namespace KnowledgeGraph

open Float.Model (UnpackedFloat)

open Float.Model.UnpackedFloat (Sign)

/-! ## Floats -/

/-- A point on the line of numbers. -/
inductive Point where
  | number (q : ℚ)
  | infinity (s : Sign)

namespace Quantity

/-- The point of an unpacked float. The not-a-number has none. -/
def pointOf? : UnpackedFloat → Option Point
  | .notANumber => none
  | .infinity s => some (.infinity s)
  | a => some (.number (valueOf a))

/-- The point of a number of either kind. -/
def point? : Quantity → Option Point
  | .int n => some (.number n)
  | .float x => pointOf? x.toModel.unpack

theorem point?_of_isFinite {a : Quantity} (ha : a.IsFinite) :
    a.point? = some (.number a.value) := by
  cases a with
  | int n => rfl
  | float x =>
    have hx : x.toModel.unpack.isFinite = true := ha
    show pointOf? x.toModel.unpack = some (.number (valueOf x.toModel.unpack))
    generalize x.toModel.unpack = u at hx
    cases u with
    | notANumber | infinity _ => cases hx
    | zero _ | finite _ _ _ _ => rfl

theorem point?_of_not_isFinite {x : Float} (hx : ¬ x.isFinite = true) (q : ℚ) :
    point? (.float x) ≠ some (.number q) := by
  have hx : ¬ x.toModel.unpack.isFinite = true := hx
  show pointOf? x.toModel.unpack ≠ _
  generalize x.toModel.unpack = u at hx
  cases u with
  | notANumber | infinity _ => exact nofun
  | zero _ | finite _ _ _ _ => exact absurd rfl hx

/-- Beside an infinity or the not-a-number, floats are the same only if they have one point. -/
theorem compare_of_not_isFinite {a b : UnpackedFloat}
    (h : ¬ (a.isFinite = true ∧ b.isFinite = true)) :
    a.compare b = some .eq ↔ ∃ i, pointOf? a = some i ∧ pointOf? b = some i := by
  cases a with
  | notANumber => cases b <;> exact ⟨nofun, nofun⟩
  | infinity s =>
    cases b with
    | infinity t =>
      cases s <;> cases t
      · exact ⟨fun _ => ⟨_, rfl, rfl⟩, fun _ => rfl⟩
      · exact ⟨nofun, nofun⟩
      · exact ⟨nofun, nofun⟩
      · exact ⟨fun _ => ⟨_, rfl, rfl⟩, fun _ => rfl⟩
    | notANumber | zero _ | finite _ _ _ _ => cases s <;> exact ⟨nofun, nofun⟩
  | zero _ | finite _ _ _ _ =>
    cases b with
    | infinity t => cases t <;> exact ⟨nofun, nofun⟩
    | notANumber => exact ⟨nofun, nofun⟩
    | zero _ | finite _ _ _ _ => exact absurd ⟨rfl, rfl⟩ h

variable {a b : Quantity}

theorem same_iff_of_isFinite (ha : a.IsFinite) (hb : b.IsFinite) :
    a.same b = true ↔ ∃ i, a.point? = some i ∧ b.point? = some i := by
  unfold same
  rw [compare?_eq ha hb, point?_of_isFinite ha, point?_of_isFinite hb, beq_iff_eq,
    Option.some.injEq, compare_eq_iff_eq]
  simp [eq_comm]

theorem same_float {x y : Float} : same (.float x) (.float y) = true ↔ (x == y) = true := by
  have hless {x y : Float} (h : x < y) : (x == y) = false := by
    rw [← Bool.not_eq_true, beq_iff_compare, lt_iff_compare.1 h]
    exact nofun
  have hmore {x y : Float} (h : y < x) : (x == y) = false := by
    have hnan := isNaN_of_le (le_of_less h)
    rw [← Bool.not_eq_true, beq_iff_rank hnan.2 hnan.1]
    exact fun heq => absurd ((lt_iff_rank hnan.1 hnan.2).1 h) (heq ▸ lt_irrefl _)
  show (compare? (.float x) (.float y) == some .eq) = true ↔ _
  unfold compare?
  dsimp only
  split
  · rename_i h
    rw [hless h]
    simp
  · split
    · rename_i h
      rw [hmore h]
      simp
    · split
      · rename_i h
        simp [h]
      · rename_i h
        simp [h]

/-- A whole number is not the same as a float that is not finite. -/
theorem compare?_ne_eq {x : Float} (hx : ¬ x.isFinite = true) (n : ℤ) :
    compare?.ofMixed n x ≠ some .eq := by
  have hnone : Exact.ofFloat? x = none := by
    rw [Exact.ofFloat?_eq, if_pos]
    by_contra hfield
    exact hx (valueOf_unpack (b := x.toBits.toBitVec) hfield).1
  unfold compare?.ofMixed
  rw [hnone]
  dsimp only
  split
  · exact nofun
  · split <;> exact nofun

/-- **Numbers.** Numbers are the same exactly when they have one point. -/
theorem same_iff : a.same b = true ↔ ∃ i, a.point? = some i ∧ b.point? = some i := by
  cases a with
  | int m =>
    cases b with
    | int n => exact same_iff_of_isFinite trivial trivial
    | float y =>
      by_cases hy : y.isFinite = true
      · exact same_iff_of_isFinite trivial hy
      · refine ⟨fun h => absurd (beq_iff_eq.1 h) (compare?_ne_eq hy m), ?_⟩
        rintro ⟨i, hi, hi'⟩
        cases hi
        exact absurd hi' (point?_of_not_isFinite hy m)
  | float x =>
    cases b with
    | int n =>
      by_cases hx : x.isFinite = true
      · exact same_iff_of_isFinite hx trivial
      · refine ⟨fun h => ?_, ?_⟩
        · have h : (compare?.ofMixed n x).map Ordering.swap = some .eq := beq_iff_eq.1 h
          obtain ⟨o, ho, hswap⟩ := Option.map_eq_some_iff.1 h
          cases o with
          | eq => exact absurd ho (compare?_ne_eq hx n)
          | lt | gt => cases hswap
        · rintro ⟨i, hi, hi'⟩
          cases hi'
          exact absurd hi (point?_of_not_isFinite hx n)
    | float y =>
      by_cases hboth : x.isFinite = true ∧ y.isFinite = true
      · exact same_iff_of_isFinite hboth.1 hboth.2
      · rw [same_float, beq_iff_compare]
        exact compare_of_not_isFinite hboth

end Quantity

/-! ## Scalars -/

/-- What a scalar is: scalars are the same when they are one thing. -/
inductive Identity where
  | null
  | text (s : String)
  | nan (mark : ℕ)
  | point (p : Point)

namespace Scalar

/-- What a scalar is. Numbers of all kinds are their points, and a not-a-number without a mark is
nothing. -/
def identity? : Scalar → Option Identity
  | .null => some .null
  | .text s => some (.text s)
  | .nan mark => some (.nan mark)
  | .bool b => (Quantity.int (if b then 1 else 0)).point?.map .point
  | .int n => (Quantity.int n).point?.map .point
  | .float x => (Quantity.float x).point?.map .point

theorem exists_point_iff {m n : Quantity} : m.same n = true ↔
    ∃ i, m.point?.map Identity.point = some i ∧ n.point?.map Identity.point = some i := by
  rw [Quantity.same_iff]
  constructor
  · rintro ⟨p, hm, hn⟩
    rw [hm, hn]
    exact ⟨.point p, rfl, rfl⟩
  · rintro ⟨i, hi, hi'⟩
    obtain ⟨p, hm, rfl⟩ := Option.map_eq_some_iff.1 hi
    obtain ⟨p', hn, heq⟩ := Option.map_eq_some_iff.1 hi'
    cases heq
    exact ⟨p, hm, hn⟩

theorem not_same_notANumber (m : Quantity) :
    ¬ (Quantity.float notANumber).same m = true ∧ ¬ m.same (.float notANumber) = true := by
  have hnone : (Quantity.float notANumber).point? = none := rfl
  rw [Quantity.same_iff, Quantity.same_iff, hnone]
  exact ⟨nofun, nofun⟩

/-- **Scalars.** Scalars are the same exactly when they are one thing. -/
theorem same_iff {a b : Scalar} :
    a.same b = true ↔ ∃ i, a.identity? = some i ∧ b.identity? = some i := by
  cases a with
  | null => cases b <;> simp [same, identity?, quantity?]
  | text s =>
    cases b with
    | text t => simp [same, identity?, eq_comm (a := t)]
    | _ => simp [same, identity?, quantity?]
  | nan mark =>
    cases b with
    | nan mark' => simp [same, identity?, eq_comm (a := mark')]
    | _ => simp [same, identity?, quantity?, not_same_notANumber]
  | bool _ | int _ | float _ =>
    cases b with
    | null | text _ => simp [same, identity?, quantity?]
    | nan mark => simp [same, identity?, quantity?, not_same_notANumber]
    | bool _ | int _ | float _ => exact exists_point_iff

instance : PartialEquivKey Scalar where
  symm h := by
    obtain ⟨i, ha, hb⟩ := same_iff.1 h
    exact same_iff.2 ⟨i, hb, ha⟩
  trans h h' := by
    obtain ⟨i, ha, hb⟩ := same_iff.1 h
    obtain ⟨j, hb', hc⟩ := same_iff.1 h'
    rw [hb, Option.some.injEq] at hb'
    subst hb'
    exact same_iff.2 ⟨i, ha, hc⟩

end Scalar

end KnowledgeGraph
