import KnowledgeGraph.Proofs.Reasoning.Failure

/-!
# What reasoning depends on

The strategies of the library look at the weights through recognition only, and at the store only for
the patterns and the concepts that a completion reports; where these are the same, so are the
strategies (`Reasoner.standard_congr`). Of two reasoners with the same strategies that weigh
differently, a question with atoms of its own gets two answers that differ at most in the confidence
(`Reasoner.reason_reweighed`).
-/

namespace KnowledgeGraph

/-! ## Recognition -/

theorem Recognizer.recognize_congr {r r' : Recognizer} (hconfig : r'.config = r.config)
    (hweight : ∀ context, r'.weight context = r.weight context) (request : RecognitionRequest) :
    r'.recognize request = r.recognize request := by
  unfold recognize
  simp only [hconfig, hweight]

theorem PatternMatching.answer_congr {r r' : Recognizer}
    (hr : ∀ request, r'.recognize request = r.recognize request) : answer r' = answer r := by
  funext atoms q
  unfold answer
  simp only [hr]

theorem Quality.assess_congr {r r' : Recognizer}
    (hr : ∀ request, r'.recognize request = r.recognize request) (config : ReasoningConfig) :
    assess config r' = assess config r := by
  funext atoms q
  unfold assess textPatterns
  simp only [hr]

/-! ## Completion -/

/-- The patterns and the concepts are all that a completion sees of a store. -/
structure Completion.SeesSame (s s' : Store) : Prop where
  patterns : s'.all.filter (·.hasType .patternNode) = s.all.filter (·.hasType .patternNode)
  concepts : s'.all.filter (·.hasType .conceptNode) = s.all.filter (·.hasType .conceptNode)

theorem Completion.complete_congr {r r' : Recognizer} {s s' : Store}
    (hr : ∀ request, r'.recognize request = r.recognize request) (hs : SeesSame s s')
    (config : ReasoningConfig) : complete config r' s' = complete config r s := by
  funext atoms q
  unfold complete candidatesFromPatterns summary
  simp only [hr, hs.patterns, hs.concepts]

namespace Reasoner

theorem standard_congr {r r' : Recognizer} {s s' : Store}
    (hr : ∀ request, r'.recognize request = r.recognize request)
    (hs : Completion.SeesSame s s') (config : ReasoningConfig) :
    standard config r' s' = standard config r s := by
  funext t
  cases t with
  | codeAnalysis => exact congrArg some (Quality.assess_congr hr config)
  | codeCompletion => exact congrArg some (Completion.complete_congr hr hs config)
  | patternMatching => exact congrArg some (PatternMatching.answer_congr hr)
  | deduction | induction | abduction | hybrid | unknown => rfl

/-! ## Weights -/

variable {r r' : Reasoner} {q : Question} {a : Answer} {record : Value}

theorem Produces.congr (ha : r.Produces q a) (hstrategies : r'.strategies = r.strategies)
    (hknowledge : r'.knowledge q = r.knowledge q) : r'.Produces q a := by
  cases ha with
  | hybrid htype =>
    rw [← hstrategies, ← hknowledge]
    exact .hybrid htype
  | strategy hknown hsingle hs hrun =>
    exact .strategy hknown hsingle (hstrategies ▸ hs) (hknowledge ▸ hrun)

/-- Of a question either an answer is produced, or there is no answer to weigh. -/
theorem produces_or_run_eq (hstrategies : r'.strategies = r.strategies)
    (hknowledge : r'.knowledge q = r.knowledge q) :
    (∃ a, r.Produces q a) ∨ r'.run q = r.run q ∧ ∀ a, r.run q = .ok a → a.confidence = 0 := by
  have hfailure (why label : String) : (Answer.failure why label).confidence = 0 := by
    show confidenceOf 0 = 0
    decide +kernel
  by_cases hknown : q.reasoningType = .unknown
  · refine .inr ⟨by rw [run_unknown hknown, run_unknown hknown], fun a ha => ?_⟩
    rw [run_unknown hknown] at ha
    cases ha
    exact hfailure _ _
  by_cases hsingle : q.reasoningType = .hybrid
  · exact .inl ⟨_, .hybrid hsingle⟩
  cases hs : r.strategies q.reasoningType with
  | none =>
    have hs' : r'.strategies q.reasoningType = none := hstrategies ▸ hs
    refine .inr ⟨by rw [run_missing hknown hsingle hs, run_missing hknown hsingle hs'], fun a ha => ?_⟩
    rw [run_missing hknown hsingle hs] at ha
    cases ha
    exact hfailure _ _
  | some s =>
    have hs' : r'.strategies q.reasoningType = some s := hstrategies ▸ hs
    cases hrun : s (r.knowledge q) q with
    | ok a => exact .inl ⟨a, .strategy hknown hsingle hs hrun⟩
    | error f =>
      have hstops : r.run q = .error f := by
        rw [run_strategy hknown hsingle hs, hrun, Except.error_bind]
      refine .inr ⟨?_, fun a ha => by rw [hstops] at ha; cases ha⟩
      rw [hstops, run_strategy hknown hsingle hs', hknowledge, hrun, Except.error_bind]

/-- **Weights.** Two reasoners with the same strategies and the same knowledge give the same answer up to
the weight of its confidence. Where nothing is weighed the answers are the same, without confidence. -/
theorem reason_reweighed {weigh weigh' : Float → Float} (hstrategies : r'.strategies = r.strategies)
    (hquestion : ∀ q, Question.ofRecord record = .ok q → r'.knowledge q = r.knowledge q ∧
      (∀ x, r.weighed q x = .ok (weigh x)) ∧ ∀ x, r'.weighed q x = .ok (weigh' x)) :
    (∃ q a, r.Produces q a ∧ r.reason record = { a with confidence := weigh a.confidence } ∧
      r'.reason record = { a with confidence := weigh' a.confidence }) ∨
    r'.reason record = r.reason record ∧ (r.reason record).confidence = 0 := by
  unfold reason
  cases hq : read record with
  | error f => exact .inr ⟨rfl, (isMarked_failed f _).confidence⟩
  | ok q =>
    obtain ⟨hknowledge, hweigh, hweigh'⟩ := hquestion q (ofRecord_of_read hq)
    obtain ⟨a, ha⟩ | ⟨hsame, hzero⟩ := produces_or_run_eq hstrategies hknowledge
    · refine .inl ⟨q, a, ha, ?_, ?_⟩
      · simp only [run_of_produces ha, weigh_ok (hweigh a.confidence)]
      · simp only [run_of_produces (ha.congr hstrategies hknowledge), weigh_ok (hweigh' a.confidence)]
    · refine .inr ⟨by simp only [hsame], ?_⟩
      dsimp only
      cases hrun : r.run q with
      | error f => exact (isMarked_failed f _).confidence
      | ok a => exact hzero a hrun

end Reasoner

end KnowledgeGraph
