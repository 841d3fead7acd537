import KnowledgeGraph.Proofs.Engine.Trace
import KnowledgeGraph.Proofs.Learning.Weights
import KnowledgeGraph.Proofs.Reasoning.Weighing

/-!
# How feedback steers answers

Feedback on a task weighs later answers of this type for this user (`after_steers`). The answer to a
question that brings its own atoms changes in its confidence only, which after helpful feedback is not
lower and after unhelpful feedback not higher. For other users and other types of reasoning the
answer is the same. The atoms that the feedback leaves in the store are of types that no answer
shows (`OnlyTraces.seesSame`).
-/

namespace KnowledgeGraph

open Attempt

namespace Engine

variable {e e' : Engine} {r : LearningRecord} {x : Attempt Learner LearningRecord} {c : Command}

/-! ## The state after learning -/

/-- The engine has got some traces more in its store, and nothing else. -/
structure OnlyTraces (e e' : Engine) : Prop where
  config : e'.config = e.config
  learner : e'.learner = e.learner
  store : ∃ added, e'.store.all = e.store.all ++ added ∧ ∀ a ∈ added, IsTrace a

theorem isTrace_of_traceAtoms {atoms : List Atom} (h : traceAtoms r = .ok atoms) :
    ∀ a ∈ atoms, IsTrace a := by
  obtain ⟨feedback, context, time, given, -, -, -, rfl⟩ := traceAtoms_eq_ok h
  have htrace {k : TraceKind} (hk : k ∈ TraceKind.all) {a : Atom}
      (ha : a.type = .text k.type.label) : IsTrace a := by
    refine ⟨k, hk, ?_⟩
    rw [Atom.hasType, ha]
    exact beq_self_eq_true k.type.label
  intro a ha
  obtain ha | ha := List.mem_append.1 ha
  · obtain ha | ha := List.mem_append.1 ha
    · rw [List.mem_singleton.1 ha]
      exact htrace (k := .record) (by simp [TraceKind.all]) rfl
    · exact htrace (k := .success) (by simp [TraceKind.all]) (successAtoms_type a ha)
  · exact htrace (k := .personalization) (by simp [TraceKind.all]) (personalizationAtoms_type a ha)

/-- An atom of a trace type without an id is added as a trace, or no id is left for it. -/
theorem addOne_onlyTraces (e : Engine) {a : Atom} (hid : a.id = .null) (ha : IsTrace a) :
    Keeps (OnlyTraces e) (discard (onStore (Store.add a))) := by
  refine Keeps.discard fun e' he' => ?_
  obtain ⟨added, hall, htraces⟩ := he'.store
  have hadd : ((Store.add a).runOn e'.store).2.all = e'.store.all ∨
      ∃ b, b.type = a.type ∧ ((Store.add a).runOn e'.store).2.all = e'.store.all ++ [b] :=
    add_all fun key _ habsent => by rw [hid] at habsent; cases habsent
  refine ⟨he'.config, he'.learner, ?_⟩
  rw [onStore_runOn]
  obtain hsame | ⟨b, htype, hadded⟩ := hadd
  · exact ⟨added, hsame.trans hall, htraces⟩
  · refine ⟨added ++ [b], by rw [hadded, hall, List.append_assoc], ?_⟩
    intro b' hb'
    obtain hb' | hb' := List.mem_append.1 hb'
    · exact htraces b' hb'
    · obtain ⟨k, hk, hkind⟩ := ha
      refine ⟨k, hk, ?_⟩
      rwa [List.mem_singleton.1 hb', Atom.hasType, htype]

theorem leaveTrace_onlyTraces (e : Engine) (r : LearningRecord) :
    Keeps (OnlyTraces e) (leaveTrace r) := by
  refine keeps_lift_bind fun atoms hatoms => keeps_forM fun a ha => ?_
  exact addOne_onlyTraces e (traceAtoms_id hatoms a ha) (isTrace_of_traceAtoms hatoms a ha)

/-- Learning does to the learner what it does without an engine, and leaves traces at most. -/
theorem learning_onlyTraces (x : Attempt Learner LearningRecord) (e : Engine) :
    OnlyTraces { e with learner := (x.runOn e.learner).2 } ((learning x).runOn e).2 := by
  have hrest (r : LearningRecord) : Keeps (OnlyTraces { e with learner := (x.runOn e.learner).2 })
      (leaveTrace r >>= fun _ => pure r) := (leaveTrace_onlyTraces _ r).bind fun _ => keeps_pure _
  have hstart : OnlyTraces { e with learner := (x.runOn e.learner).2 }
      { e with learner := (x.runOn e.learner).2 } :=
    ⟨rfl, rfl, [], (List.append_nil _).symm, List.forall_mem_nil _⟩
  unfold learning
  rw [runOn_bind, onLearner_runOn]
  cases (x.runOn e.learner).1 with
  | error f => exact hstart
  | ok r => exact hrest r _ hstart

/-- Traces are of types that a completion does not look for. -/
theorem OnlyTraces.seesSame (h : OnlyTraces e e') : Completion.SeesSame e.store e'.store := by
  obtain ⟨added, hall, htraces⟩ := h.store
  have hunseen (t : AtomType) (ht : ∀ k ∈ TraceKind.all, k.type.label ≠ t.label) :
      e'.store.all.filter (·.hasType t) = e.store.all.filter (·.hasType t) := by
    have hnone : added.filter (·.hasType t) = [] := by
      refine List.filter_eq_nil_iff.2 fun a ha htype => ?_
      obtain ⟨k, hk, hkind⟩ := htraces a ha
      have htype := Value.isText_iff.1 htype
      rw [Value.isText_iff.1 hkind, Value.scalar.injEq, Scalar.text.injEq] at htype
      exact ht k hk htype
    rw [hall, List.filter_append, hnone, List.append_nil]
  exact ⟨hunseen _ (by decide), hunseen _ (by decide)⟩

/-! ## Runs -/

/-- What a call learns leaves the learner in the state in which the call leaves it without an
engine. -/
theorem Command.recording_snd {command : Learner.Command}
    (hx : (Command.learner command).recording? = some x) (l : Learner) :
    (x.runOn l).2 = ((Learner.perform command).runOn l).2 := by
  cases command with
  | learn record =>
    cases hx
    exact (runOn_bind_snd (fun _ _ => rfl) l).symm
  | feedback feedback context =>
    cases hx
    exact (runOn_bind_snd (fun _ _ => rfl) l).symm
  | behavior user action context =>
    cases hx
    refine ((runOn_bind_snd (fun _ _ => rfl) l).trans ?_).symm
    unfold Learner.learnBehavior
    rw [runOn_bind, runOn_bind, runOn_lift]
    cases Learner.behaviorRecord user action context with
    | error f => rfl
    | ok r =>
      dsimp only
      rw [runOn_bind_snd fun _ _ => rfl, discard_eq, runOn_bind_snd fun _ _ => rfl]
  | _ => cases hx

theorem after_keeps {config : EngineConfig} {P : Engine → Prop} (hstart : P (.start config))
    (hclock : ∀ e now, P e → P (e.clocked now)) (hP : ∀ c, Keeps P (perform c))
    (calls : List (Nat × Command)) : P (after config calls) := by
  unfold after
  suffices hrun : ∀ e : Engine, P e → P (calls.foldl step e) from hrun _ hstart
  induction calls with
  | nil => exact fun _ he => he
  | cons call rest ih =>
    intro e he
    exact ih _ (hP call.2 (e.clocked call.1) (hclock e call.1 he))

section

variable {I : Learner → Prop} (hI : ∀ command, Keeps I (Learner.perform command))
include hI

/-- What each call of a learner keeps, each call of an engine keeps of its learner. -/
theorem perform_keepsLearner (c : Command) : Keeps (fun e => I e.learner) (perform c) := by
  intro e he
  show I ((perform c).runOn e).2.learner
  cases c with
  | store command => exact he
  | recognize request =>
    rw [perform_recognize]
    exact he
  | reason question => exact he
  | learner command =>
    cases hx : (Command.learner command).recording? with
    | some x =>
      rw [perform_recording hx, (learning_onlyTraces x e).learner, Command.recording_snd hx]
      exact hI command e.learner he
    | none =>
      rw [perform_learner hx]
      exact hI command e.learner he

theorem after_keepsLearner {config : EngineConfig} (hstart : I (.start config.learning))
    (hclock : ∀ l now, I l → I { l with now }) (calls : List (Nat × Command)) :
    I (after config calls).learner :=
  after_keeps (P := fun e => I e.learner) hstart (fun e now he => hclock e.learner now he)
    (perform_keepsLearner hI) calls

end

theorem perform_keepsConfig (config : EngineConfig) (c : Command) :
    Keeps (fun e => e.config = config) (perform c) := by
  intro e he
  show ((perform c).runOn e).2.config = config
  cases c with
  | store command => exact he
  | recognize request =>
    rw [perform_recognize]
    exact he
  | reason question => exact he
  | learner command =>
    cases hx : (Command.learner command).recording? with
    | some x => rw [perform_recording hx, (learning_onlyTraces x e).config, he]
    | none =>
      rw [perform_learner hx]
      exact he

theorem after_config (config : EngineConfig) (calls : List (Nat × Command)) :
    (after config calls).config = config :=
  after_keeps (P := fun e => e.config = config) rfl (fun _ _ he => he) (perform_keepsConfig config)
    calls

/-- By default, whatever the calls, the settings stay and every effectiveness is in the unit
interval. -/
theorem after_learner (calls : List (Nat × Command)) :
    (after {} calls).learner.config = {} ∧ (after {} calls).learner.IsBounded :=
  ⟨after_keepsLearner (Learner.perform_keepsConfig {}) rfl (fun _ _ hl => hl) calls,
    after_keepsLearner Learner.perform_keepsBounded nofun (fun _ _ hl => hl) calls⟩

/-! ## Questions -/

/-- The record asks for a type of reasoning by its name, brings atoms of its own, and names the user
in its context; where it names none, the anonymous one is meant. -/
def Asks (record : Value) (t : ReasoningType) (user : String) : Prop :=
  ∃ es cs v, record = .map es ∧ Entries.field es "type" = .text t.label ∧
    Entries.field es "atoms" ≠ .null ∧ (Entries.field es "context").toMapOrEmpty = .ok cs ∧
    contextUser (.map cs) = .ok v ∧ v.orElse (.text Learner.anonymousUser) = .text user

theorem contextUser_map (context : Entries) : contextUser (.map context) =
    .ok ((Entries.field context "userId").orElse (Entries.field context "user_id")) := by
  show (if (Entries.field context "userId").isAbsent = true then
    Except.ok (Entries.field context "user_id") else .ok (Entries.field context "userId")) = _
  unfold Value.orElse
  split <;> rfl

theorem asks_named (t : ReasoningType) (atoms : List Value) (parameters : Value) {user : String}
    (h : user ≠ "") : Asks (.record [("type", .text t.label), ("atoms", .list atoms),
      ("context", .record [("userId", .text user)]), ("parameters", parameters)]) t user := by
  have huser : contextUser (.record [("userId", .text user)]) = .ok (.text user) :=
    (contextUser_map _).trans (congrArg Except.ok (Value.orElse_text h _))
  exact ⟨_, _, .text user, rfl, rfl, nofun, rfl, huser, Value.orElse_text h _⟩

theorem asks_anonymous (t : ReasoningType) (atoms : List Value) (parameters : Value) :
    Asks (.record [("type", .text t.label), ("atoms", .list atoms), ("context", .map []),
      ("parameters", parameters)]) t Learner.anonymousUser :=
  ⟨_, _, .null, rfl, rfl, nofun, rfl, rfl, rfl⟩

/-- What is asked is a question whose atoms are at hand, and which is weighed by the type and the
user. -/
theorem Asks.question {record : Value} {t : ReasoningType} {user : String}
    (h : Asks record t user) {q : Question} (hq : Question.ofRecord record = .ok q) :
    (∃ atoms, q.atoms = some atoms) ∧ q.label = t.label ∧
      ∃ v, contextUser (.map q.context) = .ok v ∧
        v.orElse (.text Learner.anonymousUser) = .text user := by
  obtain ⟨es, cs, v, rfl, htype, hatoms, hcontext, hv, huser⟩ := h
  unfold Entries.field at htype hatoms hcontext
  unfold Question.ofRecord at hq
  dsimp only at hq
  rw [htype, hcontext] at hq
  obtain ⟨atoms, hread, hq⟩ := Except.bind_eq_ok.1 hq
  obtain ⟨_, hcs, hq⟩ := Except.bind_eq_ok.1 hq
  obtain ⟨parameters, -, hq⟩ := Except.bind_eq_ok.1 hq
  cases hcs
  cases hq
  refine ⟨?_, ?_, v, hv, huser⟩
  · unfold Question.readAtoms at hread
    split at hread
    · rename_i hnull
      exact absurd hnull hatoms
    · obtain ⟨items, -, hread⟩ := Except.bind_eq_ok.1 hread
      obtain ⟨atoms, -, hread⟩ := Except.bind_eq_ok.1 hread
      cases hread
      exact ⟨atoms, rfl⟩
  · cases t <;> rfl

/-- The user whose weights count for a context; where it names none, the anonymous one. -/
def actingUser (context : Entries) : Value :=
  ((Entries.field context "userId").orElse (Entries.field context "user_id")).orElse
    (.text Learner.anonymousUser)

/-- A confidence is weighed by the weight of the user in the domain of the question's label. -/
theorem weighed_eq {q : Question} {user : Scalar} (h : actingUser q.context = .scalar user)
    (e : Engine) (x : Float) : e.reasoner.weighed q x =
      .ok (clampUnit (x * e.learner.weightIn user (.text q.label))) := by
  have hweight : Reasoner.weightOf e.weights q =
      .ok (.float (e.learner.weightIn user (.text q.label))) := by
    unfold Reasoner.weightOf weights
    rw [contextUser_map, Except.ok_bind, Learner.weight_eq h]
    rfl
  rw [Reasoner.weighed_some rfl, hweight]
  rfl

/-- The confidence of what is asked is weighed by the weight of the user for the type. -/
theorem Asks.weighed {record : Value} {t : ReasoningType} {user : String}
    (h : Asks record t user) {q : Question} (hq : Question.ofRecord record = .ok q) (e : Engine)
    (x : Float) : e.reasoner.weighed q x =
      .ok (clampUnit (x * e.learner.weightIn (.text user) (.text t.label))) := by
  obtain ⟨-, hlabel, v, hv, huser⟩ := h.question hq
  rw [contextUser_map, Except.ok.injEq] at hv
  subst hv
  rw [weighed_eq huser, hlabel]

theorem Asks.knowledge {record : Value} {t : ReasoningType} {user : String}
    (h : Asks record t user) {q : Question} (hq : Question.ofRecord record = .ok q)
    (e e' : Engine) : e'.reasoner.knowledge q = e.reasoner.knowledge q := by
  obtain ⟨⟨atoms, hatoms⟩, -⟩ := h.question hq
  unfold Reasoner.knowledge
  rw [hatoms]
  rfl

/-! ## Feedback -/

/-- The context of feedback by a user on a type of reasoning. -/
def feedbackContext (user : String) (t : ReasoningType) : Value :=
  .record [("userId", .text user), ("currentTask", .text t.label)]

/-- What feedback does to an engine that is tuned as by default: one weight is nudged, and traces are
left. -/
structure Nudges (f : Feedback) (user : String) (t : ReasoningType) (now : Nat) (e e' : Engine) :
    Prop where
  learner : Learner.Nudged f (.text user) (.text t.label) (e.clocked now).learner e'.learner
  traces : OnlyTraces { e with learner := e'.learner } e'

variable {user : String} {t : ReasoningType} {f : Feedback} {now : Nat} {record : Value}

/-- Feedback by a user on a task nudges their adaptation, and leaves traces. -/
theorem feedback_step {fs cs : Entries} {c : LearningContext}
    (hconfig : Learner.CanNudge e.learner.config) (hf : Feedback.ofRecord (.map fs) = .ok f)
    (hc : LearningContext.ofRecord (.map cs) = .ok c) {user task : String}
    (huser : Learner.feedbackUser c = .text user)
    (htask : Learner.feedbackTask c = .text task) (now : Nat) :
    let e' := e.step (now, .learner (.feedback (.map fs) (.map cs)))
    Learner.Nudged f (.text user) (.text task) (e.clocked now).learner e'.learner ∧
      OnlyTraces { e with learner := e'.learner } e' := by
  intro e'
  obtain ⟨r, l', hrun, -, -, hnudged⟩ := Learner.learnFeedback_nudged
    (l := (e.clocked now).learner) hconfig hf hc huser htask fun _ => ⟨rfl, rfl⟩
  have htraces := learning_onlyTraces (Learner.learnFeedback (.map fs) (.map cs)) (e.clocked now)
  rw [hrun] at htraces
  have hstep : e' = ((learning (Learner.learnFeedback (.map fs) (.map cs))).runOn
      (e.clocked now)).2 := perform_recording rfl (e.clocked now)
  rw [hstep, htraces.learner]
  exact ⟨hnudged, htraces⟩

theorem feedback_nudges (huser : user ≠ "") (t : ReasoningType) {fs : Entries}
    (hf : Feedback.ofRecord (.map fs) = .ok f) (hconfig : e.learner.config = {}) (now : Nat) :
    Nudges f user t now e
      (e.step (now, .learner (.feedback (.map fs) (feedbackContext user t)))) := by
  obtain ⟨c, hc⟩ : ∃ c, LearningContext.ofRecord (feedbackContext user t) = .ok c := ⟨_, rfl⟩
  obtain ⟨hcuser, hctask⟩ := Learner.ofRecord_fields hc
  have huser : Learner.feedbackUser c = .text user := by
    unfold Learner.feedbackUser
    rw [hcuser]
    exact Value.orElse_text huser _
  have htask : Learner.feedbackTask c = .text t.label := by
    unfold Learner.feedbackTask
    rw [hctask]
    cases t <;> rfl
  have hcan : Learner.CanNudge e.learner.config := hconfig ▸ Learner.canNudge_default
  obtain ⟨hlearner, htraces⟩ := feedback_step hcan hf hc huser htask now
  exact ⟨hlearner, htraces⟩

/-- All types of reasoning have names of their own, and none is that of recognition. -/
theorem label_same (t t' : ReasoningType) (h : t' ≠ t) :
    Key.same (Scalar.text t.label) (.text t'.label) = false := by
  revert h
  cases t <;> cases t' <;> decide

theorem label_same_patternDomain (t : ReasoningType) :
    Key.same (Scalar.text t.label) (.text patternDomain) = false := by
  cases t <;> decide

theorem Nudges.strategies (h : Nudges f user t now e e') :
    e'.reasoner.strategies = e.reasoner.strategies := by
  have hweight (v : Value) : e'.weights v patternDomain = e.weights v patternDomain := by
    have hsame := h.learner.weight_of_other (Key.sharp_text user) (Key.sharp_text t.label)
      (label_same_patternDomain t) v
    unfold weights
    rw [hsame]
    rfl
  have hrecognize (request : RecognitionRequest) :
      e'.recognizer.recognize request = e.recognizer.recognize request := by
    refine Recognizer.recognize_congr (congrArg EngineConfig.detection h.traces.config) ?_ request
    intro context
    unfold Recognizer.weight recognizer
    simp only [hweight]
  have hsees : Completion.SeesSame e.store e'.store := h.traces.seesSame
  have hconfig : e'.config = e.config := h.traces.config
  unfold reasoner
  rw [hconfig]
  exact Reasoner.standard_congr hrecognize hsees e.config.reasoning

/-- The later answer is the same up to its confidence, which is not lower if the feedback was helpful
and not higher if it was not. -/
def Steers (helpful : Bool) (before later : Answer) : Prop :=
  ∃ confidence, later = { before with confidence } ∧
    (helpful = true → before.confidence ≤ confidence) ∧
    (helpful = false → confidence ≤ before.confidence)

theorem weighed_mono {x w w' : Float} (hx : InUnit x) (hw : IsModest w) (hw' : IsModest w')
    (h : w ≤ w') : clampUnit (x * w) ≤ clampUnit (x * w') :=
  clampUnit_mono (hx.isModest.mul_le_mul_left hw hw' (inUnit_iff_value.1 hx).2.1 h)

/-- The user of the feedback gets answers of its type with the new weight. -/
theorem Nudges.steers (h : Nudges f user t now e e') (hconfig : e.learner.config = {})
    (hbefore : e.learner.IsBounded) (hlater : e'.learner.IsBounded) (hasks : Asks record t user) :
    Steers f.helpful (e.reason record) (e'.reason record) := by
  obtain ⟨q, a, ha, hbefore', hlater'⟩ | ⟨hsame, hzero⟩ :=
    Reasoner.reason_reweighed h.strategies fun q hq =>
      ⟨hasks.knowledge hq e e', hasks.weighed hq e, hasks.weighed hq e'⟩
  · have hconfidence : InUnit a.confidence :=
      ha.inUnit fun _ _ hs => Reasoner.standard_isSound _ _ _ hs
    have hw := hbefore.isModest_weightIn (.text user) (.text t.label)
    have hw' := hlater.isModest_weightIn (.text user) (.text t.label)
    unfold reason
    rw [hbefore', hlater']
    refine ⟨_, rfl, fun hhelpful => ?_, fun hhelpful => ?_⟩
    · exact weighed_mono hconfidence hw hw' (h.learner.le_weightIn hconfig hbefore
        (Key.sharp_text user) (Key.sharp_text t.label) hhelpful)
    · exact weighed_mono hconfidence hw' hw (h.learner.weightIn_le hconfig hbefore
        (Key.sharp_text user) (Key.sharp_text t.label) hhelpful)
  · have hreflexive : (e.reason record).confidence ≤ (e.reason record).confidence := by
      unfold reason
      rw [hzero]
      decide +kernel
    exact ⟨(e.reason record).confidence, hsame, fun _ => hreflexive, fun _ => hreflexive⟩

/-- Other users, and all users in other types of reasoning, get the answers that they got. -/
theorem Nudges.reason_eq (h : Nudges f user t now e e') {t' : ReasoningType} {user' : String}
    (hasks : Asks record t' user') (hother : t' ≠ t ∨ user' ≠ user) :
    e'.reason record = e.reason record := by
  have hkey : Key.same (Scalar.text user, Scalar.text t.label) (.text user', .text t'.label) =
      false := by
    show (Key.same (Scalar.text user) (.text user') &&
      Key.same (Scalar.text t.label) (.text t'.label)) = false
    obtain htype | huser := hother
    · rw [label_same t t' htype, Bool.and_false]
    · have hne : Scalar.text user ≠ .text user' := fun heq => huser (Scalar.text.inj heq).symm
      rw [(Key.sharp_text user').same_of_ne hne, Bool.false_and]
  have hweight := h.learner.weightIn_of_other (Key.sharp_text user) (Key.sharp_text t.label) hkey
  have hweighed : ∀ q, Question.ofRecord record = .ok q → ∀ x, e'.reasoner.weighed q x =
      .ok (clampUnit (x * e.learner.weightIn (.text user') (.text t'.label))) := by
    intro q hq x
    rw [hasks.weighed hq e', hweight]
    rfl
  obtain ⟨q, a, -, hbefore, hlater⟩ | ⟨hsame, -⟩ :=
    Reasoner.reason_reweighed h.strategies fun q hq =>
      ⟨hasks.knowledge hq e e', hasks.weighed hq e, hweighed q hq⟩
  · exact hlater.trans hbefore.symm
  · exact hsame

/-- **Feedback steers confidence.** Whatever happened before, after feedback of a user on a type of
reasoning the answers to questions with atoms of their own change as follows. For the user and the
type they are the same up to the confidence, which helpful feedback does not lower and other feedback
does not raise. For other users and for other types they are the same. -/
theorem after_steers (calls : List (Nat × Command)) (now : Nat) {user : String} (huser : user ≠ "")
    (t : ReasoningType) {fs : Entries} {f : Feedback} (hf : Feedback.ofRecord (.map fs) = .ok f) :
    let e := after {} calls
    let e' := e.step (now, .learner (.feedback (.map fs) (feedbackContext user t)))
    (∀ record, Asks record t user → Steers f.helpful (e.reason record) (e'.reason record)) ∧
    ∀ record t' user', Asks record t' user' → t' ≠ t ∨ user' ≠ user →
      e'.reason record = e.reason record := by
  intro e e'
  obtain ⟨hconfig, hbefore⟩ := after_learner calls
  have hnudges : Nudges f user t now e e' := feedback_nudges huser t hf hconfig now
  have hlater : e'.learner.IsBounded := by
    have hrun := (after_learner
      (calls ++ [(now, .learner (.feedback (.map fs) (feedbackContext user t)))])).2
    unfold after at hrun
    rw [List.foldl_append] at hrun
    exact hrun
  exact ⟨fun record hasks => hnudges.steers hconfig hbefore hlater hasks,
    fun record t' user' hasks hother => hnudges.reason_eq hasks hother⟩

/-- After unhelpful feedback a user is given less confidence, and the anonymous user as much as
before. -/
theorem after_steers_unhelpful :
    let e := after {} []
    let e' := e.step (1, .learner (.feedback
      (.record [("rating", .float 1), ("helpful", .bool false)]) (feedbackContext "u" .codeAnalysis)))
    let record (context : Value) : Value := .record [("type", .text "code-analysis"),
      ("atoms", .list [.record [("type", .text "FunctionNode"), ("name", .text "f")]]),
      ("context", context), ("parameters", .null)]
    Steers false (e.reason (record (.record [("userId", .text "u")])))
        (e'.reason (record (.record [("userId", .text "u")]))) ∧
      (e'.reason (record (.record [("userId", .text "u")]))).confidence <
        (e.reason (record (.record [("userId", .text "u")]))).confidence ∧
      e'.reason (record (.map [])) = e.reason (record (.map [])) := by
  intro e e' record
  have huser : "u" ≠ "" := by decide
  have hfeedback : Feedback.ofRecord (.record [("rating", .float 1), ("helpful", .bool false)]) =
      .ok ⟨clamp 1 5 1, false, .null, .null, .null, none⟩ := rfl
  obtain ⟨hsteers, hothers⟩ := after_steers [] 1 huser .codeAnalysis hfeedback
  refine ⟨?_, ?_, ?_⟩
  · exact hsteers _ (asks_named .codeAnalysis _ _ (by decide))
  · decide +kernel
  · exact hothers _ .codeAnalysis _ (asks_anonymous .codeAnalysis _ _) (.inr (by decide))

end Engine

end KnowledgeGraph
