import KnowledgeGraph.Proofs.Except
import KnowledgeGraph.Proofs.Number.Order
import KnowledgeGraph.Proofs.Value
import KnowledgeGraph.Reasoning.Reasoner

/-!
# Failures of reasoning

Reasoning always gives an answer. Where something stands in the way (`Reasoner.Fails`) the answer is
marked as failed, and in all other cases it is the one that the strategy or the hybrid fold produces,
up to the weight of its confidence (`Reasoner.reason_marked_or_rescaled`). A weight that is no
factor, such as a whole number beyond the range of floats, stands in the way as well
(`Reasoner.reason_heavy`).

Strategies are taken to answer with a confidence of the unit interval, as those of the library do
(`Reasoner.standard_isSound`).
-/

namespace KnowledgeGraph

/-! ## Marked answers -/

namespace Answer

/-- A failed answer concludes nothing, with no confidence at all, says why, and is marked. -/
structure IsMarked (a : Answer) : Prop where
  conclusion : a.conclusion = []
  confidence : a.confidence = 0
  explanation : a.explanation ≠ ""
  error : Entries.get? a.metadata "error" = some (.bool true)

theorem isMarked_failure {why more label : String} (h : why ≠ "") :
    (failure (why ++ more) label).IsMarked where
  conclusion := rfl
  confidence := by
    show confidenceOf 0 = 0
    decide +kernel
  explanation := fun hempty => h (String.append_eq_empty_iff.1 hempty).1
  error := rfl

end Answer

/-! ## Sound strategies -/

/-- Whatever comes out has a confidence of the unit interval. -/
def YieldsInUnit (x : Except Fault Answer) : Prop := ∀ a, x = .ok a → InUnit a.confidence

theorem yieldsInUnit_of {conclusion : List Atom} {confidence : Float} {explanation : String}
    {metadata : List (String × Value)} :
    YieldsInUnit (pure (.of conclusion confidence explanation metadata)) := by
  intro a ha
  cases ha
  exact inUnit_confidenceOf _

theorem yieldsInUnit_bind {α : Type} {x : Except Fault α} {g : α → Except Fault Answer}
    (h : ∀ a, YieldsInUnit (g a)) : YieldsInUnit (x >>= g) := by
  intro b hb
  obtain ⟨a, -, ha⟩ := Except.bind_eq_ok.1 hb
  exact h a b ha

theorem Deduction.yieldsInUnit (config : ReasoningConfig) (d : Deduction) :
    YieldsInUnit (d.answer config) := by
  unfold Deduction.answer
  dsimp only
  split
  · exact yieldsInUnit_of
  · exact yieldsInUnit_bind fun _ => yieldsInUnit_bind fun _ => yieldsInUnit_of

theorem Induction.yieldsInUnit (config : ReasoningConfig) (gs : List Generalization) :
    YieldsInUnit (answer config gs) := by
  unfold Induction.answer
  split
  · exact yieldsInUnit_of
  · exact yieldsInUnit_bind fun _ => yieldsInUnit_bind fun _ => yieldsInUnit_of

theorem Abduction.yieldsInUnit (config : ReasoningConfig) (hs : List Hypothesis) :
    YieldsInUnit (answer config hs) := by
  unfold Abduction.answer
  split
  · exact yieldsInUnit_of
  · exact yieldsInUnit_bind fun _ => yieldsInUnit_bind fun _ => yieldsInUnit_of

theorem PatternMatching.yieldsInUnit (r : Recognizer) (atoms : List Atom) (q : Question) :
    YieldsInUnit (answer r atoms q) := by
  unfold PatternMatching.answer
  dsimp only
  split
  all_goals
    refine yieldsInUnit_bind fun patterns => ?_
    split
    · exact yieldsInUnit_of
    · exact yieldsInUnit_bind fun _ => yieldsInUnit_bind fun _ => yieldsInUnit_of

theorem Completion.yieldsInUnit (config : ReasoningConfig) (q : Question) (summary : Value)
    (ranked : List Atom) : YieldsInUnit (answer config q summary ranked) := by
  unfold Completion.answer
  dsimp only
  split
  · exact yieldsInUnit_of
  · refine yieldsInUnit_bind fun _ => yieldsInUnit_bind fun _ => yieldsInUnit_bind fun _ => ?_
    exact yieldsInUnit_of

theorem Quality.yieldsInUnit (config : ReasoningConfig) (r : Recognizer) (atoms : List Atom)
    (q : Question) : YieldsInUnit (assess config r atoms q) := by
  unfold Quality.assess
  refine yieldsInUnit_bind fun patterns => ?_
  split
  · exact yieldsInUnit_of
  · refine yieldsInUnit_bind fun _ => yieldsInUnit_bind fun _ => yieldsInUnit_bind fun _ => ?_
    refine yieldsInUnit_bind fun _ => yieldsInUnit_bind fun _ => yieldsInUnit_bind fun _ => ?_
    exact yieldsInUnit_of

/-- A strategy whose answers have a confidence of the unit interval. -/
def Strategy.IsSound (s : Strategy) : Prop := ∀ atoms q, YieldsInUnit (s atoms q)

theorem Reasoner.standard_isSound (config : ReasoningConfig) (r : Recognizer) (store : Store)
    {t : ReasoningType} {s : Strategy} (h : standard config r store t = some s) : s.IsSound := by
  intro atoms q
  cases t with
  | hybrid => cases h
  | unknown => cases h
  | deduction =>
    cases h
    exact yieldsInUnit_bind fun _ => Deduction.yieldsInUnit config _
  | induction =>
    cases h
    exact yieldsInUnit_bind fun _ => Induction.yieldsInUnit config _
  | abduction =>
    cases h
    exact yieldsInUnit_bind fun _ => Abduction.yieldsInUnit config _
  | codeAnalysis =>
    cases h
    exact Quality.yieldsInUnit config r atoms q
  | codeCompletion =>
    cases h
    refine yieldsInUnit_bind fun _ => yieldsInUnit_bind fun _ => yieldsInUnit_bind fun _ => ?_
    exact Completion.yieldsInUnit config q _ _
  | patternMatching =>
    cases h
    exact PatternMatching.yieldsInUnit r atoms q

namespace Reasoner

variable {r : Reasoner} {q : Question} {a : Answer}

/-! ## What stands in the way -/

/-- The weight that a provider gives for a question. -/
def weightOf (provider : WeightProvider) (q : Question) : Except Fault Value := do
  provider (← contextUser (.map q.context)) q.label

/-- What a question of a known type is answered before the confidence is weighed. -/
inductive Produces (r : Reasoner) (q : Question) : Answer → Prop where
  | hybrid (htype : q.reasoningType = .hybrid) :
    Produces r q (Hybrid.answer r.strategies (r.knowledge q) q)
  | strategy {s : Strategy} {a : Answer} (hknown : q.reasoningType ≠ .unknown)
    (hsingle : q.reasoningType ≠ .hybrid) (hs : r.strategies q.reasoningType = some s)
    (hrun : s (r.knowledge q) q = .ok a) : Produces r q a

/-- What can stand in the way of an answer to a question. -/
inductive FailsOn (r : Reasoner) (q : Question) : Prop where
  | unknownType (htype : q.reasoningType = .unknown)
  | strategyMissing (hsingle : q.reasoningType ≠ .hybrid)
    (hs : r.strategies q.reasoningType = none)
  | strategyStops {s : Strategy} {f : Fault} (hsingle : q.reasoningType ≠ .hybrid)
    (hs : r.strategies q.reasoningType = some s) (hrun : s (r.knowledge q) q = .error f)
  | weightStops {a : Answer} {provider : WeightProvider} {f : Fault} (ha : r.Produces q a)
    (hp : r.weight? = some provider) (hw : weightOf provider q = .error f)
  | weightNoNumber {a : Answer} {provider : WeightProvider} {v : Value} {f : Fault}
    (ha : r.Produces q a) (hp : r.weight? = some provider) (hw : weightOf provider q = .ok v)
    (hv : v.quantity = .error f)
  | weightTooLarge {a : Answer} {provider : WeightProvider} {v : Value} {n : Int} {f : Fault}
    (ha : r.Produces q a) (hp : r.weight? = some provider) (hw : weightOf provider q = .ok v)
    (hv : v.quantity = .ok (.int n)) (hn : floatOfInt n = .error f)

/-- What can stand in the way of an answer to a record: it is no question, or one that fails. -/
def Fails (r : Reasoner) (record : Value) : Prop :=
  (∃ f, Question.ofRecord record = .error f) ∨
    ∃ q, Question.ofRecord record = .ok q ∧ r.FailsOn q

/-- Without a provider a confidence stays as it is; with one it is multiplied by the weight and
moved back into the unit interval. -/
def Rescales (r : Reasoner) (q : Question) (confidence rescaled : Float) : Prop :=
  match r.weight? with
  | none => rescaled = confidence
  | some provider => ∃ v w, weightOf provider q = .ok v ∧ v.operand = .ok w ∧
      rescaled = clampUnit (confidence * w)

/-! ## Runs -/

theorem weighed_some {provider : WeightProvider} (hp : r.weight? = some provider) (x : Float) :
    r.weighed q x = do
      let weight ← weightOf provider q
      return clampUnit (x * (← weight.operand)) := by
  unfold weighed weightOf
  rw [hp]
  exact (bind_assoc _ _ _).symm

theorem weigh_error {f : Fault} (h : r.weighed q a.confidence = .error f) :
    r.weigh q a = .error f := by
  unfold weigh
  rw [h]
  rfl

theorem weigh_ok {c : Float} (h : r.weighed q a.confidence = .ok c) :
    r.weigh q a = .ok { a with confidence := c } := by
  unfold weigh
  rw [h]
  rfl

theorem run_unknown (h : q.reasoningType = .unknown) :
    r.run q = .ok (.failure ("Unsupported reasoning type: " ++ q.type.display) q.label) := by
  unfold run
  rw [h]
  rfl

theorem run_missing (hknown : q.reasoningType ≠ .unknown) (hsingle : q.reasoningType ≠ .hybrid)
    (hs : r.strategies q.reasoningType = none) :
    r.run q =
      .ok (.failure ("No strategy registered for reasoning type: " ++ q.label) q.label) := by
  unfold run
  generalize q.reasoningType = t at *
  cases t <;> first | contradiction | (simp only [hs]; rfl)

theorem run_strategy {s : Strategy} (hknown : q.reasoningType ≠ .unknown)
    (hsingle : q.reasoningType ≠ .hybrid) (hs : r.strategies q.reasoningType = some s) :
    r.run q = s (r.knowledge q) q >>= r.weigh q := by
  unfold run
  generalize q.reasoningType = t at *
  cases t <;> first | contradiction | simp only [hs]

theorem Produces.isKnown (ha : r.Produces q a) : q.reasoningType ≠ .unknown := by
  cases ha with
  | hybrid htype =>
    rw [htype]
    exact nofun
  | strategy hknown => exact hknown

theorem run_of_produces (ha : r.Produces q a) : r.run q = r.weigh q a := by
  cases ha with
  | hybrid htype =>
    unfold run
    rw [htype]
  | strategy hknown hsingle hs hrun =>
    rw [run_strategy hknown hsingle hs, hrun, Except.ok_bind]

theorem run_of_weighed_error {f : Fault} (ha : r.Produces q a)
    (h : r.weighed q a.confidence = .error f) : r.run q = .error f :=
  (run_of_produces ha).trans (weigh_error h)

theorem weighed_of_operand_error {provider : WeightProvider} {v : Value} {f : Fault} {x : Float}
    (hp : r.weight? = some provider) (hw : weightOf provider q = .ok v)
    (hv : v.operand = .error f) : r.weighed q x = .error f := by
  rw [weighed_some hp, hw, Except.ok_bind, hv, Except.error_bind]

/-- A question that fails ends in a fault or in an answer that is marked. -/
theorem run_of_failsOn (h : r.FailsOn q) :
    (∃ f, r.run q = .error f) ∨ ∃ a, r.run q = .ok a ∧ a.IsMarked := by
  by_cases hknown : q.reasoningType = .unknown
  · exact .inr ⟨_, run_unknown hknown, Answer.isMarked_failure (by decide)⟩
  cases h with
  | unknownType htype => exact absurd htype hknown
  | strategyMissing hsingle hs =>
    exact .inr ⟨_, run_missing hknown hsingle hs, Answer.isMarked_failure (by decide)⟩
  | @strategyStops s f hsingle hs hrun =>
    refine .inl ⟨f, ?_⟩
    rw [run_strategy hknown hsingle hs, hrun, Except.error_bind]
  | @weightStops a provider f ha hp hw =>
    have hweighed : r.weighed q a.confidence = .error f := by
      rw [weighed_some hp, hw, Except.error_bind]
    exact .inl ⟨f, run_of_weighed_error ha hweighed⟩
  | @weightNoNumber a provider v f ha hp hw hv =>
    have hoperand : v.operand = .error f := by rw [Value.operand, hv, Except.error_bind]
    exact .inl ⟨f, run_of_weighed_error ha (weighed_of_operand_error hp hw hoperand)⟩
  | @weightTooLarge a provider v n f ha hp hw hv hn =>
    have hoperand : v.operand = .error f := by
      rw [Value.operand, hv, Except.ok_bind, Quantity.real, hn]
    exact .inl ⟨f, run_of_weighed_error ha (weighed_of_operand_error hp hw hoperand)⟩

/-- What is produced is weighed well, or the weight stands in the way. -/
theorem weighed_or_failsOn (ha : r.Produces q a) :
    r.FailsOn q ∨ ∃ c, r.weighed q a.confidence = .ok c ∧ r.Rescales q a.confidence c := by
  cases hp : r.weight? with
  | none =>
    refine .inr ⟨a.confidence, ?_, ?_⟩
    · rw [weighed, hp]
    · rw [Rescales, hp]
  | some provider =>
    cases hw : weightOf provider q with
    | error f => exact .inl (.weightStops ha hp hw)
    | ok v =>
      cases hv : v.quantity with
      | error f => exact .inl (.weightNoNumber ha hp hw hv)
      | ok n =>
        have hoperand : v.operand = n.real := by rw [Value.operand, hv, Except.ok_bind]
        cases hn : n.real with
        | error f =>
          cases n with
          | int n => exact .inl (.weightTooLarge ha hp hw hv hn)
          | float x => cases hn
        | ok w =>
          refine .inr ⟨clampUnit (a.confidence * w), ?_, ?_⟩
          · rw [weighed_some hp, hw, Except.ok_bind, hoperand, hn]
            rfl
          · rw [Rescales, hp]
            exact ⟨v, w, hw, hoperand.trans hn, rfl⟩

/-- A question with nothing in the way is answered by what is produced for it. -/
theorem run_of_not_failsOn (h : ¬ r.FailsOn q) :
    ∃ a c, r.Produces q a ∧ r.Rescales q a.confidence c ∧
      r.run q = .ok { a with confidence := c } := by
  have hproduces : ∃ a, r.Produces q a := by
    by_cases hhybrid : q.reasoningType = .hybrid
    · exact ⟨_, .hybrid hhybrid⟩
    have hknown : q.reasoningType ≠ .unknown := fun hunknown => h (.unknownType hunknown)
    cases hs : r.strategies q.reasoningType with
    | none => exact absurd (.strategyMissing hhybrid hs) h
    | some s =>
      cases hrun : s (r.knowledge q) q with
      | error f => exact absurd (.strategyStops hhybrid hs hrun) h
      | ok a => exact ⟨a, .strategy hknown hhybrid hs hrun⟩
  obtain ⟨a, ha⟩ := hproduces
  obtain ⟨c, hc, hrescales⟩ := (weighed_or_failsOn ha).resolve_left h
  exact ⟨a, c, ha, hrescales, (run_of_produces ha).trans (weigh_ok hc)⟩

/-! ## Confidence -/

theorem Produces.inUnit (ha : r.Produces q a) (hr : ∀ t s, r.strategies t = some s → s.IsSound) :
    InUnit a.confidence := by
  cases ha with
  | hybrid htype =>
    unfold Hybrid.answer Hybrid.join
    split <;> exact inUnit_confidenceOf _
  | strategy _ _ hs hrun => exact hr _ _ hs _ _ a hrun

theorem Rescales.inUnit {x c : Float} (h : r.Rescales q x c) (hx : InUnit x) : InUnit c := by
  unfold Rescales at h
  split at h
  · rw [h]
    exact hx
  · obtain ⟨v, w, -, -, rfl⟩ := h
    exact inUnit_clampUnit _

/-! ## Answers -/

theorem isMarked_failed (f : Fault) (label : String) : (failed f label).IsMarked :=
  Answer.isMarked_failure (by decide)

theorem type_isTextOrNull (h : q.reasoningType ≠ .unknown) : q.type.IsTextOrNull := by
  by_contra hother
  obtain ⟨hnull, htext⟩ := not_or.1 hother
  have hnone (s : String) : q.type.isText s = false :=
    Bool.eq_false_iff.2 fun hs => htext ⟨s, Value.isText_iff.1 hs⟩
  refine h ?_
  unfold Question.reasoningType ReasoningType.ofValue
  split
  · exact absurd ‹_› hnull
  · simp only [hnone]
    rfl

theorem read_eq {record : Value} (hq : Question.ofRecord record = .ok q) : read record =
    if q.type.isWritable then .ok q else .error .tooManyDigits := by
  unfold read Value.mention
  rw [hq, Except.ok_bind, List.all_cons, List.all_nil, Bool.and_true]
  split <;> rfl

theorem read_error {record : Value} {f : Fault} (hf : Question.ofRecord record = .error f) :
    read record = .error f := by
  unfold read
  rw [hf]
  rfl

theorem ofRecord_of_read {record : Value} (h : read record = .ok q) :
    Question.ofRecord record = .ok q := by
  obtain ⟨q', hq, h⟩ := Except.bind_eq_ok.1 h
  obtain ⟨_, -, h⟩ := Except.bind_eq_ok.1 h
  cases h
  exact hq

theorem read_of_known {record : Value} (hq : Question.ofRecord record = .ok q)
    (h : q.reasoningType ≠ .unknown) : read record = .ok q := by
  obtain htype | ⟨s, htype⟩ := type_isTextOrNull h
  all_goals
    rw [read_eq hq, htype]
    rfl

theorem reason_of_fails {record : Value} (h : r.Fails record) : (r.reason record).IsMarked := by
  unfold reason
  obtain ⟨f, hf⟩ | ⟨q, hq, hfails⟩ := h
  · rw [read_error hf]
    exact isMarked_failed f _
  · rw [read_eq hq]
    split
    · exact isMarked_failed _ _
    · rename_i q' hread
      have hsame : q = q' := by
        split at hread
        · exact Except.ok.inj hread
        · cases hread
      subst hsame
      obtain ⟨f, hf⟩ | ⟨a, ha, hmarked⟩ := run_of_failsOn hfails
      · simp only [hf]
        exact isMarked_failed f _
      · simp only [ha]
        exact hmarked

/-- Without a fault, the answer is the one that is produced, with its confidence rescaled. -/
theorem reason_of_not_fails {record : Value} (h : ¬ r.Fails record) :
    ∃ q a c, Question.ofRecord record = .ok q ∧ r.Produces q a ∧
      r.Rescales q a.confidence c ∧ r.reason record = { a with confidence := c } := by
  cases hq : Question.ofRecord record with
  | error f => exact absurd (.inl ⟨f, hq⟩) h
  | ok q =>
    have hfails : ¬ r.FailsOn q := fun hfails => h (.inr ⟨q, hq, hfails⟩)
    obtain ⟨a, c, ha, hc, hrun⟩ := run_of_not_failsOn hfails
    refine ⟨q, a, c, rfl, ha, hc, ?_⟩
    unfold reason
    rw [read_of_known hq fun hunknown => hfails (.unknownType hunknown)]
    simp only [hrun]

/-- Reasoning gives an answer to every record, with a confidence of the unit interval. It is marked
as failed where something stands in the way. Otherwise it is the answer that the strategy or the
hybrid fold produces, and only the confidence is rescaled. -/
theorem reason_marked_or_rescaled (r : Reasoner)
    (hr : ∀ t s, r.strategies t = some s → s.IsSound) (record : Value) :
    InUnit (r.reason record).confidence ∧
    (r.Fails record → (r.reason record).IsMarked) ∧
    (¬ r.Fails record → ∃ q a c, Question.ofRecord record = .ok q ∧ r.Produces q a ∧
      r.Rescales q a.confidence c ∧ r.reason record = { a with confidence := c }) := by
  refine ⟨?_, reason_of_fails, reason_of_not_fails⟩
  by_cases h : r.Fails record
  · rw [(reason_of_fails h).confidence]
    exact inUnit_zero
  · obtain ⟨q, a, c, -, ha, hc, hreason⟩ := reason_of_not_fails h
    rw [hreason]
    exact hc.inUnit (ha.inUnit hr)

/-! ## Weights -/

/-- A reasoner that answers every question alike and weighs everyone alike. -/
def steady (a : Answer) (weight : Value) : Reasoner where
  store := {}
  strategies := fun _ => some fun _ _ => .ok a
  weight? := some fun _ _ => .ok weight

theorem steady_isSound {weight : Value} (ha : InUnit a.confidence) (t : ReasoningType)
    (s : Strategy) (hs : (steady a weight).strategies t = some s) : s.IsSound := by
  cases hs
  rintro atoms q b ⟨⟩
  exact ha

def deductive : Question := ⟨.text "deductive", none, [], []⟩

theorem ofRecord_deductive :
    Question.ofRecord (.record [("type", .text "deductive")]) = .ok deductive := rfl

theorem steady_produces {weight : Value} : (steady a weight).Produces deductive a :=
  .strategy (by decide) (by decide) rfl rfl

/-- The not-a-number is a weight like others, and it is an unknown type that fails. -/
theorem reason_marked_or_rescaled_steady :
    InUnit ((steady ⟨[], 1, "Seen", []⟩ (.float notANumber)).reason
      (.record [("type", .text "deductive")])).confidence ∧
    ((steady ⟨[], 1, "Seen", []⟩ (.float notANumber)).reason
      (.record [("type", .text "guess")])).IsMarked := by
  have hsound : ∀ t s, (steady ⟨[], 1, "Seen", []⟩ (.float notANumber)).strategies t = some s →
      s.IsSound := steady_isSound inUnit_one
  refine ⟨(reason_marked_or_rescaled _ hsound _).1, (reason_marked_or_rescaled _ hsound _).2.1 ?_⟩
  exact .inr ⟨⟨.text "guess", none, [], []⟩, rfl, .unknownType (by decide)⟩

/-- A weight that is a number, but a whole one beyond the range of floats, makes an answer fail
although the strategy gives it and the provider does not stop. -/
theorem reason_heavy :
    ∃ r : Reasoner, ∃ provider : WeightProvider,
      (∀ t s, r.strategies t = some s → s.IsSound) ∧
      Question.ofRecord (.record [("type", .text "deductive")]) = .ok deductive ∧
      r.Produces deductive ⟨[], 1, "Seen", []⟩ ∧
      r.weight? = some provider ∧ weightOf provider deductive = .ok (.int (10 ^ 400)) ∧
      (Value.int (10 ^ 400)).quantity = .ok (.int (10 ^ 400)) ∧
      (r.reason (.record [("type", .text "deductive")])).IsMarked ∧
      ∀ c, r.reason (.record [("type", .text "deductive")]) ≠ ⟨[], c, "Seen", []⟩ := by
  have hmarked : ((steady ⟨[], 1, "Seen", []⟩ (.int (10 ^ 400))).reason
      (.record [("type", .text "deductive")])).IsMarked := by
    refine reason_of_fails (.inr ⟨deductive, ofRecord_deductive, ?_⟩)
    exact .weightTooLarge steady_produces rfl rfl rfl floatOfInt_tooLarge
  refine ⟨steady ⟨[], 1, "Seen", []⟩ (.int (10 ^ 400)), _, steady_isSound inUnit_one,
    ofRecord_deductive, steady_produces, rfl, rfl, rfl, hmarked, fun c hc => ?_⟩
  have herror := hmarked.error
  rw [hc] at herror
  cases herror

end Reasoner

end KnowledgeGraph
