import KnowledgeGraph.Proofs.Number.Order
import KnowledgeGraph.Proofs.Store.WellFormed
import Mathlib.Data.List.Forall2

/-!
# What a query finds

A query describes atoms (`Query.Meets`): their type and name are the wanted ones, and each number of
their truth and attention values is at least as great as that of the threshold. It is tested the
other way round, so that an atom is left out for a number that is below the threshold. The
not-a-number is below nothing, and nothing is below it. With it an attention value passes that does
not reach the threshold (`Query.Slips`); a truth value is free of it. `after_query` says that the
query finds these atoms besides those that it describes, and no others.
-/

namespace KnowledgeGraph

/-! ## Comparisons -/

/-- The second number is at least as great as the first, or they cannot be compared. -/
def AtLeastOrUnordered (wanted actual : Float) : Prop :=
  wanted ≤ actual ∨ wanted.isNaN = true ∨ actual.isNaN = true

instance : DecidableRel AtLeastOrUnordered := fun _ _ => inferInstanceAs (Decidable (_ ∨ _ ∨ _))

/-- What is not below is at least as great, unless the two cannot be compared. -/
theorem not_lt_iff_atLeast {wanted actual : Float} :
    ¬ actual < wanted ↔ AtLeastOrUnordered wanted actual := by
  unfold AtLeastOrUnordered
  cases hwanted : wanted.isNaN with
  | true =>
    refine iff_of_true (fun h => ?_) (.inr (.inl rfl))
    exact Bool.false_ne_true ((isNaN_of_le (le_of_less h)).2.symm.trans hwanted)
  | false =>
    cases hactual : actual.isNaN with
    | true =>
      refine iff_of_true (fun h => ?_) (.inr (.inr rfl))
      exact Bool.false_ne_true ((isNaN_of_le (le_of_less h)).1.symm.trans hactual)
    | false =>
      rw [lt_iff_rank hactual hwanted, le_iff_rank hwanted hactual, not_lt]
      simp only [Bool.false_eq_true, or_false]

theorem forall₂_atLeast {xs ys : List Float} (hx : ∀ x ∈ xs, x.isNaN = false)
    (hy : ∀ y ∈ ys, y.isNaN = false) :
    List.Forall₂ AtLeastOrUnordered xs ys ↔ List.Forall₂ (· ≤ ·) xs ys := by
  constructor
  · intro h
    induction h with
    | nil => exact .nil
    | @cons x y xs ys h _ ih =>
      rw [List.forall_mem_cons] at hx hy
      refine .cons ?_ (ih hx.2 hy.2)
      obtain h | h | h := h
      · exact h
      · exact absurd (hx.1.symm.trans h) Bool.false_ne_true
      · exact absurd (hy.1.symm.trans h) Bool.false_ne_true
  · exact List.Forall₂.imp fun _ _ h => .inl h

def TruthValue.numbers (t : TruthValue) : List Float := [t.strength, t.confidence]

def AttentionValue.numbers (v : AttentionValue) : List Float := [v.sti, v.lti, v.vlti]

theorem TruthValue.IsClamped.isNaN {t : TruthValue} (h : t.IsClamped) :
    ∀ x ∈ t.numbers, x.isNaN = false := by
  simp only [numbers, List.forall_mem_cons]
  exact ⟨h.inUnit.1.isNaN, h.inUnit.2.isNaN, nofun⟩

namespace Query

variable {α : Type} {R : Float → Float → Prop} {q : Query} {a : Atom}

/-! ## Descriptions -/

/-- Each number of a threshold, if there is one, is in a relation to that of what the slot holds. -/
def Reaches (numbers : α → List Float) (R : Float → Float → Prop) : Option α → Slot α → Prop
  | none, _ => True
  | some wanted, .known actual => List.Forall₂ R (numbers wanted) (numbers actual)
  | some _, .raw _ => False

instance (numbers : α → List Float) [DecidableRel R] :
    ∀ (wanted : Option α) (actual : Slot α), Decidable (Reaches numbers R wanted actual)
  | none, _ => .isTrue trivial
  | some wanted, .known actual =>
    inferInstanceAs (Decidable (List.Forall₂ R (numbers wanted) (numbers actual)))
  | some _, .raw _ => .isFalse id

/-- An atom is as a query describes, with numbers of the attention value that are in a relation to
those of the threshold. -/
def MeetsBy (R : Float → Float → Prop) (q : Query) (a : Atom) : Prop :=
  fits q.type a.type = true ∧ fits q.name a.name = true ∧
    Reaches TruthValue.numbers (· ≤ ·) q.truth a.truth ∧
    Reaches AttentionValue.numbers R q.attention a.attention

instance [DecidableRel R] : Decidable (MeetsBy R q a) :=
  inferInstanceAs (Decidable (_ ∧ _ ∧ _ ∧ _))

/-- An atom is as a query describes. -/
def Meets (q : Query) (a : Atom) : Prop := MeetsBy (· ≤ ·) q a

instance : Decidable (q.Meets a) := inferInstanceAs (Decidable (MeetsBy _ q a))

/-- An atom is not as a query describes, but only for numbers that cannot be compared. -/
def Slips (q : Query) (a : Atom) : Prop := MeetsBy AtLeastOrUnordered q a ∧ ¬ q.Meets a

instance : Decidable (q.Slips a) := inferInstanceAs (Decidable (_ ∧ ¬ _))

/-- The not-a-number is in no threshold for attention values and in no attention value of an atom. -/
def Compares (q : Query) (a : Atom) : Prop :=
  (∀ wanted, q.attention = some wanted → ∀ x ∈ wanted.numbers, x.isNaN = false) ∧
    ∀ actual, a.attention = .known actual → ∀ x ∈ actual.numbers, x.isNaN = false

theorem reaches_atLeast {numbers : α → List Float} {wanted : Option α} {actual : Slot α}
    (hwanted : ∀ t, wanted = some t → ∀ x ∈ numbers t, x.isNaN = false)
    (hactual : ∀ t, actual = .known t → ∀ x ∈ numbers t, x.isNaN = false) :
    Reaches numbers AtLeastOrUnordered wanted actual ↔ Reaches numbers (· ≤ ·) wanted actual := by
  unfold Reaches
  split
  · rfl
  · exact forall₂_atLeast (hwanted _ rfl) (hactual _ rfl)
  · rfl

theorem Meets.meetsBy (h : q.Meets a) : MeetsBy AtLeastOrUnordered q a := by
  obtain ⟨htype, hname, htruth, hattention⟩ := h
  refine ⟨htype, hname, htruth, ?_⟩
  unfold Reaches at hattention ⊢
  split at hattention
  · trivial
  · exact hattention.imp fun _ _ h => .inl h
  · exact hattention

theorem not_slips_of_compares (h : q.Compares a) : ¬ q.Slips a := by
  rintro ⟨⟨htype, hname, htruth, hattention⟩, hnot⟩
  exact hnot ⟨htype, hname, htruth, (reaches_atLeast h.1 h.2).1 hattention⟩

theorem meets_or_slips : q.Meets a ∨ q.Slips a ↔ MeetsBy AtLeastOrUnordered q a := by
  constructor
  · rintro (h | h)
    · exact h.meetsBy
    · exact h.1
  · intro h
    by_cases hmeets : q.Meets a
    · exact .inl hmeets
    · exact .inr ⟨h, hmeets⟩

/-! ## Tests -/

theorem reachesTruth_iff (wanted actual : TruthValue) : reachesTruth wanted actual = true ↔
    List.Forall₂ AtLeastOrUnordered wanted.numbers actual.numbers := by
  simp [reachesTruth, TruthValue.numbers, not_lt_iff_atLeast]

theorem reachesAttention_iff (wanted actual : AttentionValue) :
    reachesAttention wanted actual = true ↔
      List.Forall₂ AtLeastOrUnordered wanted.numbers actual.numbers := by
  simp [reachesAttention, AttentionValue.numbers, not_lt_iff_atLeast, and_assoc]

theorem reaches_eq {numbers : α → List Float} {test : α → α → Bool} {P : α → Prop}
    (htest : ∀ wanted actual, test wanted actual = true ↔
      List.Forall₂ AtLeastOrUnordered (numbers wanted) (numbers actual))
    (wanted : Option α) {actual : Slot α} (hactual : actual.Fits P) :
    reaches test wanted actual = .ok (decide (Reaches numbers AtLeastOrUnordered wanted actual)) := by
  cases wanted with
  | none => rfl
  | some wanted =>
    cases hactual with
    | empty => rfl
    | known h =>
      show Except.ok _ = Except.ok _
      rw [Except.ok.injEq, Bool.eq_iff_iff, htest, decide_eq_true_iff]
      rfl

/-- What the tests let pass of an atom with values of the right types. -/
theorem accepts_eq (ha : a.WellTyped) (hq : ∀ t, q.truth = some t → t.IsClamped) :
    q.accepts a = .ok (decide (MeetsBy AtLeastOrUnordered q a)) := by
  have htruth : Reaches TruthValue.numbers AtLeastOrUnordered q.truth a.truth ↔
      Reaches TruthValue.numbers (· ≤ ·) q.truth a.truth := by
    refine reaches_atLeast (fun t ht => (hq t ht).isNaN) fun t ht => ?_
    have hfits := ha.truth
    rw [ht] at hfits
    cases hfits with
    | known h => exact h.isNaN
  have hreaches : reaches reachesTruth q.truth a.truth =
      .ok (decide (Reaches TruthValue.numbers (· ≤ ·) q.truth a.truth)) :=
    (reaches_eq reachesTruth_iff q.truth ha.truth).trans
      (congrArg Except.ok (decide_eq_decide.2 htruth))
  unfold accepts
  rw [hreaches, reaches_eq reachesAttention_iff q.attention ha.attention]
  by_cases hkind : fits q.type a.type = true ∧ fits q.name a.name = true
  · obtain ⟨htype, hname⟩ := hkind
    by_cases hreached : Reaches TruthValue.numbers (· ≤ ·) q.truth a.truth
    · simp [MeetsBy, htype, hname, hreached]
    · simp [MeetsBy, htype, hname, hreached]
  · have hnot : ¬ MeetsBy AtLeastOrUnordered q a := fun h => hkind ⟨h.1, h.2.1⟩
    rw [← Bool.and_eq_true, Bool.not_eq_true] at hkind
    rw [hkind, decide_eq_false hnot]
    rfl

end Query

namespace Store

open Atom (WellTyped members)

/-- **Queries.** As long as no update has spoiled an atom, a query comes out well. It finds, in their
order, the atoms that it describes and those that slip through; these are none where no attention
value has a not-a-number in it. -/
theorem after_query (cs : List Command) (hcs : empty.Unspoiled cs) (q : Query)
    (hq : ∀ t, q.truth = some t → t.IsClamped) :
    ∃ found, (after cs).query q = .ok found ∧
      found = (after cs).all.filter (fun a => q.Meets a ∨ q.Slips a) ∧
      ((∀ a ∈ (after cs).all, q.Compares a) →
        found = (after cs).all.filter fun a => q.Meets a) := by
  have hdeep : ∀ a ∈ (after cs).all, a.Deep members WellTyped := hcs.deep nofun nofun
  have hfound : (after cs).query q =
      .ok ((after cs).all.filter fun a => q.Meets a ∨ q.Slips a) := by
    refine Except.filterE_of_forall fun a ha => ?_
    rw [Query.accepts_eq (hdeep a ha).here hq, decide_eq_decide.2 Query.meets_or_slips]
  refine ⟨_, hfound, rfl, fun hclean => List.filter_congr fun a ha => ?_⟩
  exact decide_eq_decide.2 (or_iff_left (Query.not_slips_of_compares (hclean a ha)))

/-- A not-a-number passes a threshold of one. -/
theorem after_query_nan :
    let cs : List Command := [.add (.record [("type", .text "t"),
      ("attentionValue", .record [("sti", .scalar (.nan 0))])])]
    let q : Query := { Query.everything with attention := some ⟨1, 0, 0⟩ }
    empty.Unspoiled cs ∧ ∃ found, (after cs).query q = .ok found ∧
      found.length = 1 ∧ (after cs).all.filter (fun a => q.Meets a) = [] := by
  intro cs q
  have hcs : empty.Unspoiled cs := ⟨not_false, trivial⟩
  obtain ⟨found, hfound, hall, -⟩ := after_query cs hcs q nofun
  refine ⟨hcs, found, hfound, ?_, ?_⟩
  · rw [hall]
    decide +kernel
  · decide +kernel

end Store

end KnowledgeGraph
