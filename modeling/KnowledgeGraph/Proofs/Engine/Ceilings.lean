import KnowledgeGraph.Proofs.Engine.Asking
import KnowledgeGraph.Proofs.Learning.Ranges

/-!
# Ceilings and weights

Induction and abduction put a ceiling over their confidence, each its own, and what they conclude is
never more certain. What was learned weighs the confidence afterwards, and a weight may be more than
one. So a ceiling holds for an answer as long as its user has no such weight for the type, and the
weight moves it otherwise, within the unit interval (`after_ceilings`).
-/

namespace KnowledgeGraph

variable {c x y : Float}

/-! ## Caps -/

theorem Value.capped_float_le (hc : c.isNaN = false) (h : (Value.float c).capped x = .ok y) :
    y ≤ c := by
  unfold Value.capped at h
  rw [Value.cap_float] at h
  cases h
  unfold least
  split
  · rename_i hless
    exact le_of_less hless
  · exact (le_iff_rank hc hc).2 le_rfl

theorem clampUnit_le (hc : InUnit c) (h : y ≤ c) : clampUnit y ≤ c :=
  le_of_le_le (clampUnit_mono h)
    ((le_iff_rank (inUnit_clampUnit c).isNaN hc.isNaN).2 hc.rank_clampUnit.le)

theorem confidenceOf_le (hc : InUnit c) (h : y ≤ c) : confidenceOf y ≤ c := by
  unfold confidenceOf
  split
  · exact clampUnit_le hc h
  · exact hc.1

/-- An answer under a ceiling is not more certain than the ceiling, and neither is one without
certainty, where there is nothing to conclude. -/
theorem Answer.confidence_le_of_capped {a nothing : Answer} {P : Prop} [Decidable P]
    {β : Type} (atoms : Except Fault (List Atom)) (parts : Except Fault β) (wording : β → String)
    {fields : List (String × Value)} (hc : InUnit c) (hnothing : nothing.confidence = confidenceOf 0)
    (h : (if P then Except.ok nothing
      else (do return Answer.of (← atoms) (← (Value.float c).capped x) (wording (← parts)) fields)) =
        Except.ok a) : a.confidence ≤ c := by
  split at h
  · cases h
    exact hnothing ▸ confidenceOf_le hc hc.1
  · obtain ⟨conclusion, -, h⟩ := Except.bind_eq_ok.1 h
    obtain ⟨y, hy, h⟩ := Except.bind_eq_ok.1 h
    obtain ⟨text, -, h⟩ := Except.bind_eq_ok.1 h
    cases h
    exact confidenceOf_le hc (Value.capped_float_le hc.isNaN hy)

/-! ## Uncertain reasoning -/

/-- A type of reasoning that is never certain, with its ceiling by default, and with what an answer
does not exceed under any weight. -/
inductive Uncertain : ReasoningType → Float → Float → Prop
  | induction : Uncertain .induction 0.75 1
  | abduction : Uncertain .abduction 0.5 0.75

variable {t : ReasoningType} {ceiling top w : Float}

theorem Uncertain.ceiling_inUnit (h : Uncertain t ceiling top) : InUnit ceiling := by
  unfold InUnit
  cases h with
  | induction => decide +kernel
  | abduction => decide +kernel

theorem Uncertain.zero_le_top (h : Uncertain t ceiling top) : 0 ≤ top := by
  cases h with
  | induction => decide +kernel
  | abduction => decide +kernel

theorem Uncertain.mul_one_le (h : Uncertain t ceiling top) : ceiling * 1 ≤ ceiling := by
  cases h with
  | induction => decide +kernel
  | abduction => decide +kernel

theorem Uncertain.mul_heaviest_le (h : Uncertain t ceiling top) :
    clampUnit (ceiling * (0.5 + 1)) ≤ top := by
  cases h with
  | induction => decide +kernel
  | abduction => decide +kernel

theorem Uncertain.weighed_le (h : Uncertain t ceiling top) (hw : IsModest w) :
    (w ≤ 1 → clampUnit (ceiling * w) ≤ ceiling) ∧ (w ≤ 1.5 → clampUnit (ceiling * w) ≤ top) := by
  have hc := h.ceiling_inUnit
  have hnonneg : 0 ≤ value ceiling := (inUnit_iff_value.1 hc).2.1
  refine ⟨fun hle => clampUnit_le hc ?_, fun hle => ?_⟩
  · exact le_of_le_le (hc.isModest.mul_le_mul_left hw inUnit_one.isModest hnonneg hle) h.mul_one_le
  · have hheaviest : w ≤ 0.5 + 1 := le_of_le_le hle (by decide +kernel)
    refine le_of_le_le (clampUnit_mono ?_) h.mul_heaviest_le
    exact hc.isModest.mul_le_mul_left hw (isModest_add inUnit_half inUnit_one) hnonneg hheaviest

/-- By default the strategies of uncertain reasoning keep to their ceilings. -/
theorem Uncertain.produces_le (h : Uncertain t ceiling top) {r : Reasoner} {recognizer : Recognizer}
    {store : Store} (hstrategies : r.strategies = Reasoner.standard {} recognizer store)
    {q : Question} (hq : q.reasoningType = t) {a : Answer} (ha : r.Produces q a) :
    a.confidence ≤ ceiling := by
  cases ha with
  | hybrid htype =>
    cases h <;> cases hq.symm.trans htype
  | strategy _ _ hs hrun =>
    rw [hstrategies, hq] at hs
    cases h with
    | induction =>
      cases hs
      obtain ⟨gs, -, hanswer⟩ := Except.bind_eq_ok.1 hrun
      exact Answer.confidence_le_of_capped _ (.ok _) id Uncertain.induction.ceiling_inUnit rfl hanswer
    | abduction =>
      cases hs
      obtain ⟨hypotheses, -, hanswer⟩ := Except.bind_eq_ok.1 hrun
      exact Answer.confidence_le_of_capped (.ok _) _ _ Uncertain.abduction.ceiling_inUnit rfl hanswer

theorem Uncertain.question (h : Uncertain t ceiling top) {es : Entries} {q : Question}
    (htype : Entries.field es "type" = .text t.label)
    (hq : Question.ofRecord (.map es) = .ok q) : q.reasoningType = t ∧ q.label = t.label := by
  unfold Question.reasoningType Question.label
  rw [Question.ofRecord_type hq, htype]
  cases h <;> exact ⟨rfl, rfl⟩

namespace Engine

variable {e : Engine} {es : Entries} {q : Question} {user : Scalar}

/-! ## Answers -/

theorem reason_weighed_le (hconfig : e.config.reasoning = {}) (hbounded : e.learner.IsBounded)
    (h : Uncertain t ceiling top) (htype : Entries.field es "type" = .text t.label)
    (hq : Question.ofRecord (.map es) = .ok q) (huser : actingUser q.context = .scalar user) :
    let w := e.learner.weightIn user (.text t.label)
    (∀ a, e.reasoner.Produces q a →
      a.confidence ≤ ceiling ∧ e.reason (.map es) = a.weighedBy w) ∧
    (e.reason (.map es)).confidence ≤ clampUnit (ceiling * w) := by
  intro w
  obtain ⟨hknown, hlabel⟩ := h.question htype hq
  have hproduced (a : Answer) (ha : e.reasoner.Produces q a) :
      a.confidence ≤ ceiling ∧ e.reason (.map es) = a.weighedBy w := by
    have hstrategies : e.reasoner.strategies = Reasoner.standard {} e.recognizer e.store := by
      rw [← hconfig]
      rfl
    have hreason := e.reason_of_produces hq ha huser
    rw [hlabel] at hreason
    exact ⟨h.produces_le hstrategies hknown ha, hreason⟩
  refine ⟨hproduced, ?_⟩
  by_cases hfails : e.reasoner.Fails (.map es)
  · have hzero : (e.reason (.map es)).confidence = 0 := (Reasoner.reason_of_fails hfails).confidence
    rw [hzero]
    exact (inUnit_clampUnit _).1
  · obtain ⟨q', a, c, hq', ha, -, -⟩ := Reasoner.reason_of_not_fails hfails
    cases hq.symm.trans hq'
    obtain ⟨hle, hreason⟩ := hproduced a ha
    have hconfidence : InUnit a.confidence :=
      ha.inUnit fun _ _ hs => Reasoner.standard_isSound _ _ _ hs
    have hw : IsModest w := hbounded.isModest_weightIn user (.text t.label)
    have hnonneg : 0 ≤ value w := by
      have hhalf : 0.5 ≤ w := (hbounded.weightIn_inRange user (.text t.label)).1
      exact (inUnit_iff_value.1 inUnit_half).2.1.trans ((inUnit_half.isModest.le_iff hw).1 hhalf)
    rw [hreason]
    exact clampUnit_mono
      (hw.mul_le_mul_right hconfidence.isModest h.ceiling_inUnit.isModest hnonneg hle)

/-- A question that cannot be read, or for which nobody can be weighed, gets no confidence. -/
theorem reason_of_nobody
    (hnone : ∀ q user, Question.ofRecord (.map es) = .ok q → actingUser q.context ≠ .scalar user) :
    (e.reason (.map es)).confidence = 0 := by
  by_cases hfails : e.reasoner.Fails (.map es)
  · exact (Reasoner.reason_of_fails hfails).confidence
  · obtain ⟨q, a, c, hq, ha, -, -⟩ := Reasoner.reason_of_not_fails hfails
    rw [e.reason_of_produces_nobody hq ha fun user => hnone q user hq]
    exact (Reasoner.isMarked_failed _ _).confidence

/-- **Ceilings.** By default, whatever was learned, what induction and abduction produce keeps to
their ceilings. The answer has this confidence times the weight of its user for the type, which is
between a half and one and a half, moved into the unit interval; so it keeps to the ceiling as long as
the weight is not more than one. A question that cannot be read, or for which nobody can be weighed,
gets no confidence, and an answer of abduction has three quarters at most in any case. -/
theorem after_ceilings (calls : List (Nat × Command)) (h : Uncertain t ceiling top)
    (htype : Entries.field es "type" = .text t.label) :
    let e := after {} calls
    let answer := e.reason (.map es)
    (∀ q user, Question.ofRecord (.map es) = .ok q → actingUser q.context = .scalar user →
      let w := e.learner.weightIn user (.text t.label)
      0.5 ≤ w ∧ w ≤ 1.5 ∧
      (∀ a, e.reasoner.Produces q a → a.confidence ≤ ceiling ∧ answer = a.weighedBy w) ∧
      answer.confidence ≤ clampUnit (ceiling * w) ∧ (w ≤ 1 → answer.confidence ≤ ceiling)) ∧
    ((∀ q user, Question.ofRecord (.map es) = .ok q → actingUser q.context ≠ .scalar user) →
      answer.confidence = 0) ∧
    answer.confidence ≤ top := by
  intro e answer
  have hbounded : e.learner.IsBounded := (after_learner calls).2
  have hconfig : e.config.reasoning = {} := congrArg EngineConfig.reasoning (after_config {} calls)
  refine ⟨fun q user hq huser => ?_, reason_of_nobody, ?_⟩
  · obtain ⟨hlow, hhigh⟩ := hbounded.weightIn_inRange user (.text t.label)
    obtain ⟨hproduced, hle⟩ := reason_weighed_le hconfig hbounded h htype hq huser
    obtain ⟨hone, -⟩ := h.weighed_le (hbounded.isModest_weightIn user (.text t.label))
    exact ⟨hlow, hhigh, hproduced, hle, fun hw => le_of_le_le hle (hone hw)⟩
  · by_cases hsomeone : ∃ q user, Question.ofRecord (.map es) = .ok q ∧
        actingUser q.context = .scalar user
    · obtain ⟨q, user, hq, huser⟩ := hsomeone
      obtain ⟨-, hle⟩ := reason_weighed_le hconfig hbounded h htype hq huser
      obtain ⟨-, htop⟩ := h.weighed_le (hbounded.isModest_weightIn user (.text t.label))
      exact le_of_le_le hle (htop (hbounded.weightIn_inRange user (.text t.label)).2)
    · have hzero : answer.confidence = 0 :=
        reason_of_nobody fun q user hq huser => hsomeone ⟨q, user, hq, huser⟩
      rw [hzero]
      exact h.zero_le_top

/-- A question of a user about atoms of their own. -/
def asking (t : ReasoningType) (atoms : List Value) : Entries :=
  Entries.ofFields [("type", .text t.label), ("atoms", .list atoms),
    ("context", .record [("userId", .text "u")])]

def concepts : List Value :=
  List.replicate 6 (.record [("type", .text "ConceptNode")])

def wet : List Value :=
  [.record [("type", .text "ConceptNode"), ("name", .text "wet")],
    .record [("type", .text "ImplicationLink"),
      ("truthValue", .record [("strength", .float 1), ("confidence", .float 1)]),
      ("outgoing", .list [.record [("type", .text "ConceptNode"), ("name", .text "rain")],
        .record [("type", .text "ConceptNode"), ("name", .text "wet")]])]]

/-- Before any feedback six concepts are generalized up to the ceiling. -/
theorem after_ceilings_fresh :
    ((after {} []).reason (.map (asking .induction concepts))).confidence ≤ 0.75 := by
  obtain ⟨hweighed, -, -⟩ := after_ceilings [] .induction
    (show Entries.field (asking .induction concepts) "type" = _ from rfl)
  obtain ⟨-, -, -, -, hone⟩ := hweighed _ (.text "u") rfl rfl
  exact hone (by decide +kernel)

/-- After helpful feedback the answers exceed the ceilings. -/
theorem after_ceilings_exceeded :
    let praise (t : ReasoningType) : Nat × Command := (0, .learner (.feedback
      (.record [("rating", .float 5), ("helpful", .bool true)]) (feedbackContext "u" t)))
    let e := after {} [praise .induction, praise .abduction]
    0.75 < (e.reason (.map (asking .induction concepts))).confidence ∧
      0.5 < (e.reason (.map (asking .abduction wet))).confidence := by
  decide +kernel

end Engine

end KnowledgeGraph
