import KnowledgeGraph.Proofs.Learning.Sightings

/-!
# Predictions are the most certain of the likely actions

A behaviour is considered in a context if its last context has more than half of the queried entries,
too. Then it makes a prediction (`Predicts`): the share of these entries is the similarity, and the
confidence is the one in the behaviour in proportion to that. A user gets the five most certain
predictions at most (`IsTop`), and actions that are as certain as each other come in the order in
which the user showed them first (`predict_top`).
-/

namespace KnowledgeGraph

/-! ## Shares of confidences -/

theorem mul_pos_of_half_le {x y : Float} (hx : 0.5 ≤ x) (hx' : x ≤ 1) (hy : 0.5 ≤ y) (hy' : y ≤ 1) :
    0 < x * y := by
  have hxunit : InUnit x := ⟨le_of_le_le inUnit_half.1 hx, hx'⟩
  have hyunit : InUnit y := ⟨le_of_le_le inUnit_half.1 hy, hy'⟩
  have hquarter : (0.5 * 0.5 : Float) ≤ x * y := by
    refine le_of_le_le (y := 0.5 * y) ?_ ?_
    · exact inUnit_half.isModest.mul_le_mul_left inUnit_half.isModest hyunit.isModest
        (by rw [value_half]; norm_num) hy
    · exact hyunit.isModest.mul_le_mul_right inUnit_half.isModest hxunit.isModest
        (inUnit_iff_value.1 hyunit).2.1 hx
  have hpos : (0 : Float) < 0.5 * 0.5 := by decide +kernel
  obtain ⟨hlow, hhigh⟩ := isNaN_of_le hquarter
  rw [lt_iff_rank (by decide +kernel) hhigh]
  exact ((lt_iff_rank (by decide +kernel) hlow).1 hpos).trans_le
    ((le_iff_rank hlow hhigh).1 hquarter)

namespace Learner

open History

variable {b : Behavior} {queried : Entries}

/-! ## Single predictions -/

/-- The last context of a behaviour has more than half of the queried entries, too. -/
def IsLikely (queried : Entries) (b : Behavior) : Prop :=
  queried.length < 2 * Behavior.agreement b.context queried

instance : DecidablePred (IsLikely queried) := fun _ => Nat.decLt _ _

/-- What a behaviour predicts in a context. -/
structure Predicts (queried : Entries) (b : Behavior) (p : Prediction) : Prop where
  action : p.action = b.action
  similarity : p.similarity =
    (Behavior.agreement b.context queried).toFloat / queried.length.toFloat
  confidence : ∃ x, b.confidence = .float x ∧ p.confidence = p.similarity * x
  isSimilar : 0.5 < p.similarity ∧ p.similarity ≤ 1
  isConfident : 0 < p.confidence ∧ p.confidence ≤ 1

theorem Predicts.isNaN {p : Prediction} (h : Predicts queried b p) : p.confidence.isNaN = false :=
  (isNaN_of_le h.isConfident.2).1

theorem quantity_half : (Value.float 0.5).quantity = .ok (.float 0.5) := rfl

theorem prediction?_empty (b : Behavior) : prediction? (.float 0.5) [] b = .ok none := by
  have hless : ¬ (Quantity.float 0.5).less (.float (Behavior.similarity b.context [])) = true := by
    show ¬ (Quantity.float 0.5).less (.float 0) = true
    rw [Quantity.less_float]
    decide +kernel
  unfold prediction?
  rw [quantity_half, Except.ok_bind, if_neg hless]
  rfl

section

variable (hne : queried ≠ []) (hlen : queried.length < 2 ^ 53)
include hne hlen

theorem half_lt_similarity :
    0.5 < Behavior.similarity b.context queried ↔ IsLikely queried b := by
  unfold Behavior.similarity
  rw [if_neg (by simpa using hne)]
  exact half_lt_share List.countP_le_length (List.length_pos_of_ne_nil hne) hlen

theorem prediction?_spec (hb : b.InRange) : if IsLikely queried b then
      ∃ p, prediction? (.float 0.5) queried b = .ok (some p) ∧ Predicts queried b p
    else prediction? (.float 0.5) queried b = .ok none := by
  obtain ⟨x, hx, hlow, hhigh⟩ := hb.confidence
  have hoperand : b.confidence.operand = .ok x := by
    rw [hx]
    rfl
  have hless : (Quantity.float 0.5).less (.float (Behavior.similarity b.context queried)) = true ↔
      IsLikely queried b := Quantity.less_float.trans (half_lt_similarity hne hlen)
  unfold prediction?
  rw [quantity_half, Except.ok_bind]
  split
  · rename_i hlikely
    have hsimilar := (half_lt_similarity hne hlen).2 hlikely
    have hshare : Behavior.similarity b.context queried =
        (Behavior.agreement b.context queried).toFloat / queried.length.toFloat :=
      if_neg (by simpa using hne)
    have hunit : InUnit (Behavior.similarity b.context queried) := by
      rw [hshare]
      exact inUnit_share List.countP_le_length (List.length_pos_of_ne_nil hne) hlen
    rw [if_pos (hless.2 hlikely), hoperand]
    refine ⟨_, rfl, rfl, hshare, ⟨x, hx, rfl⟩, ⟨hsimilar, hunit.2⟩, ?_, ?_⟩
    · exact mul_pos_of_half_le (le_of_less hsimilar) hunit.2 hlow hhigh
    · exact (hunit.mul (inUnit_of_half_le hlow hhigh)).2
  · rename_i hunlikely
    rw [if_neg (mt hless.1 hunlikely)]
    rfl

/-- The predictions are those of the likely behaviours, by falling confidence. -/
theorem predictions_eq_ok {behaviors : List Behavior} (h : ∀ b ∈ behaviors, b.InRange) :
    ∃ all, List.Forall₂ (Predicts queried) (behaviors.filter (IsLikely queried)) all ∧
      predictions (.float 0.5) behaviors queried = .ok (byFalling (·.confidence) all) := by
  obtain ⟨found, hfound, hall⟩ :=
    Except.exists_mapM_filterMap fun b hb => prediction?_spec hne hlen (h b hb)
  refine ⟨_, hall, ?_⟩
  unfold predictions
  rw [hfound]
  rfl

end

theorem predictions_empty (behaviors : List Behavior) :
    predictions (.float 0.5) behaviors [] = .ok [] := by
  have hnone : behaviors.mapM (prediction? (.float 0.5) []) = .ok (behaviors.map fun _ => none) :=
    Except.mapM_of_forall fun b _ => prediction?_empty b
  unfold predictions
  rw [hnone, Except.ok_bind, List.filterMap_map]
  have hempty : behaviors.filterMap (id ∘ fun _ => (none : Option Prediction)) = [] :=
    List.filterMap_eq_nil_iff.2 fun _ _ => rfl
  rw [hempty, byFalling, List.mergeSort_nil]
  rfl

/-! ## Questions -/

/-- The actions that are predicted are some of those of the behaviours, in their order. -/
theorem actions_of_predicts {behaviors : List Behavior} {all : List Prediction}
    (h : List.Forall₂ (Predicts queried) (behaviors.filter (IsLikely queried)) all) :
    (all.map (·.action)).Sublist (behaviors.map (·.action)) := by
  have heq : all.map (·.action) = (behaviors.filter (IsLikely queried)).map (·.action) := by
    rw [← List.forall₂_eq_eq_eq, List.forall₂_map_left_iff, List.forall₂_map_right_iff]
    exact h.flip.imp fun _ _ => Predicts.action
  rw [heq]
  exact List.filter_sublist.map _

theorem readQueried_map (behaviors : List Behavior) (es : Entries) :
    readQueried behaviors (.map es) = .ok es := by
  cases es <;> rfl

/-- What a user is told by default: five predictions at most. -/
theorem predict_eq {l : Learner} (hconfig : l.config = {}) (u : String) (es : Entries) :
    l.predict (.text u) (.map es) = do
      let found ← predictions (.float 0.5) (behaviorsBy u l.behaviors).values es
      return found.take 5 := by
  show (do
    let queried ← readQueried (behaviorsBy u l.behaviors).values (.map es)
    let found ← predictions l.config.predictionThreshold (behaviorsBy u l.behaviors).values queried
    return takeUpTo (← l.config.maxPredictions.limit?) found) = _
  rw [readQueried_map, hconfig]
  rfl

/-- In a context with entries the user is told the most certain of what the likely behaviours predict. -/
theorem predict_of_remembers {l : Learner} {u : String} (h : l.Remembers u) (hne : queried ≠ [])
    (hlen : queried.length < 2 ^ 53) :
    let actions := actionsOf l.history u
    ∃ all top, List.Forall₂ (Predicts queried)
        ((behaviorsBy u l.behaviors).values.filter (IsLikely queried)) all ∧
      l.predict (.text u) (.map queried) = .ok top ∧
      IsTop (·.confidence) (fun p q => actions.idxOf p.action < actions.idxOf q.action) 5 all top ∧
      (top.map (·.action)).Nodup := by
  intro actions
  obtain ⟨hrange, hsighted⟩ := h
  obtain ⟨all, hall, hpredictions⟩ := predictions_eq_ok hne hlen hrange.own
  have hnan : ∀ p ∈ all, p.confidence.isNaN = false := by
    intro p hp
    obtain ⟨b, -, hb⟩ := Except.exists_of_forall₂ hall hp
    exact hb.isNaN
  have hfirst : (all.map (·.action)).Pairwise fun a b => actions.idxOf a < actions.idxOf b := by
    have hsublist := actions_of_predicts hall
    rw [hsighted.actions] at hsublist
    exact (pairwise_idxOf_eraseDups actions).sublist hsublist
  have htop := isTop_take hnan (List.pairwise_map.1 hfirst) 5
  refine ⟨all, _, hall, ?_, htop, ?_⟩
  · rw [predict_eq hrange.1, hpredictions]
    rfl
  · have hnodup : (all.map (·.action)).Nodup := hfirst.imp fun hab heq => (heq ▸ hab).false
    obtain ⟨rest, hperm, -⟩ := htop.rest
    have hmap := (hperm.map (·.action)).nodup_iff.2 hnodup
    rw [List.map_append] at hmap
    exact hmap.of_append_left

/-- **Predictions.** By default, after any calls, failed ones included, the behaviours of a user are one
for each action, in the order of first occurrences, with the circumstances of its last record. In a
context without entries nothing is predicted. In any other one that is not too long for a float the
likely behaviours make a prediction each, and the user is told the five most certain ones at most, with
actions of their own, by falling confidence; of equal confidence the action that occurred first comes
first. -/
theorem predict_top (calls : List (Nat × Command)) (u : String) :
    let l := after {} calls
    let actions := actionsOf l.history u
    ∃ behaviors, l.behaviorsOf (.text u) = .ok behaviors ∧
      behaviors.map (·.action) = actions.eraseDups ∧
      (∀ b ∈ behaviors, ∃ last, (ofAction l.history u b.action).getLast? = some last ∧
        b.context = last.circumstances) ∧
      l.predict (.text u) (.map []) = .ok [] ∧
      ∀ queried, queried ≠ [] → queried.length < 2 ^ 53 → ∃ all top,
        List.Forall₂ (Predicts queried) (behaviors.filter (IsLikely queried)) all ∧
        l.predict (.text u) (.map queried) = .ok top ∧
        IsTop (·.confidence) (fun p q => actions.idxOf p.action < actions.idxOf q.action) 5 all top ∧
        (top.map (·.action)).Nodup := by
  intro l actions
  have h : l.Remembers u := after_remembers calls u
  refine ⟨(behaviorsBy u l.behaviors).values, rfl, h.2.actions, fun b hb => ?_, ?_,
    fun queried hne hlen => predict_of_remembers h hne hlen⟩
  · obtain ⟨e, he, rfl⟩ := List.mem_map.1 hb
    rw [h.2.action e he]
    exact h.2.context e he
  · rw [predict_eq h.1.1, predictions_empty]
    rfl

/-- Of three actions those are predicted whose last contexts fit. -/
theorem predict_top_fitting :
    let sighting (action mode : String) : Command :=
      .behavior (.text "ann") (.text action) (.record [("mode", .text mode)])
    let l := after {} [(0, sighting "open" "edit"), (1, sighting "run" "test"),
      (2, sighting "save" "edit")]
    ∃ top, l.predict (.text "ann") (.record [("mode", .text "edit")]) = .ok top ∧
      top.length = 2 := by
  intro sighting l
  let queried := Entries.ofFields [("mode", .text "edit")]
  obtain ⟨behaviors, hbehaviors, -, -, -, hpredict⟩ :=
    predict_top [(0, sighting "open" "edit"), (1, sighting "run" "test"),
      (2, sighting "save" "edit")] "ann"
  obtain ⟨all, top, hall, htop, hcut, -⟩ := hpredict queried (List.cons_ne_nil _ _) (by decide)
  have hlikely : (behaviors.filter (IsLikely queried)).length = 2 := by
    cases hbehaviors
    decide +kernel
  refine ⟨top, htop, ?_⟩
  rw [hcut.length, ← hall.length_eq, hlikely]
  rfl

end Learner

end KnowledgeGraph
