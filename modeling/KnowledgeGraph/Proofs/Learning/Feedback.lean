import KnowledgeGraph.Proofs.Learning.Calls
import KnowledgeGraph.Proofs.Learning.Steps

/-!
# Feedback and its nudge

Feedback goes into the history as a record and moves the effectiveness of an adaptation. Whether
both are seen depends on the user and the task that the context names: with scalars for both the call
leaves one record and one nudge, and with a list or a map for one of them it stops between the two and
leaves the record without its nudge (`learnFeedback_whole`). So it does where the adaptation has to be
created for a user or a task with too many digits to be mentioned. Feedback or a context that cannot be
read leaves the learner as it was.
-/

namespace KnowledgeGraph.Learner

open Attempt

variable {l l' : Learner} {r : LearningRecord} {f : Feedback} {c : LearningContext}

/-! ## Records of feedback -/

/-- The user that feedback in a context is about. -/
def feedbackUser (c : LearningContext) : Value := c.userId.orElse (.text anonymousUser)

/-- The task that feedback in a context is about. -/
def feedbackTask (c : LearningContext) : Value := c.currentTask.orElse (.text Tables.generalTask)

/-- The record is of the given feedback in the given context. -/
def IsFeedback (f : Feedback) (c : LearningContext) (r : LearningRecord) : Prop :=
  r.learningType = .supervised ∧ r.feedback = .known f ∧ r.context = .known c

theorem feedbackRecord_isFeedback (f : Feedback) (c : LearningContext) (l : Learner) :
    IsFeedback f c (l.stamp (feedbackRecord f (.known c))) :=
  ⟨rfl, rfl, rfl⟩

theorem taskOf_feedback (hr : IsFeedback f c r) : Tables.taskOf r = .ok (feedbackTask c) := by
  unfold Tables.taskOf
  rw [hr.2.2]
  rfl

theorem process_feedback (hr : IsFeedback f c r) (l : Learner) :
    (process r).runOn l =
      (((Tables.learnTask r).runOn l.tables).1,
        { l with tables := ((Tables.learnTask r).runOn l.tables).2 }) := by
  unfold process learnTables Tables.learn
  rw [hr.1]
  rfl

theorem learnTask_scalar (hr : IsFeedback f c r) {task : Scalar}
    (htask : feedbackTask c = .scalar task) (t : Tables Float) :
    ∃ t', (Tables.learnTask r).runOn t = (.ok (), t') := by
  have hpresent : r.feedback.isAbsent = false := by
    rw [hr.2.1]
    rfl
  unfold Tables.learnTask
  rw [runOn_bind, runOn_lift, taskOf_feedback hr, htask, hpresent, hr.2.1]
  exact ⟨_, rfl⟩

/-- Feedback on a task that cannot be a key stops before anything is counted. -/
theorem learnTask_not_scalar (hr : IsFeedback f c r) (htask : ∀ task, feedbackTask c ≠ .scalar task)
    (t : Tables Float) : (Tables.learnTask r).runOn t = (.error .wrongKind, t) := by
  unfold Tables.learnTask
  rw [runOn_bind, runOn_lift, taskOf_feedback hr]
  cases hc : feedbackTask c with
  | scalar task => exact absurd hc (htask task)
  | list _ | map _ => rfl

/-! ## Nudges -/

/-- The settings allow any feedback to create an adaptation and to nudge it. -/
structure CanNudge (config : LearningConfig) : Prop where
  effectiveness : ∃ x, config.defaultEffectiveness.toFloat = .ok x
  nudge : ∀ f, ∃ delta, config.nudge f = .ok delta

theorem canNudge_default : CanNudge {} := by
  refine ⟨⟨_, rfl⟩, fun f => ?_⟩
  unfold LearningConfig.nudge
  cases f.helpful <;> exact ⟨_, rfl⟩

/-- An adaptation that nothing has moved yet. -/
structure IsFresh (config : LearningConfig) (user domain : Value) (a : Adaptation) : Prop where
  userId : a.userId = user
  domain : a.domain = domain
  parameters : a.parameters = []
  effectiveness : ∃ x, config.defaultEffectiveness.toFloat = .ok x ∧ a.effectiveness = clampUnit x

/-- The adaptation under a key, which is there already or was created between the two tables. -/
def Obtained (config : LearningConfig) (user domain : Scalar) (a : Adaptation)
    (t t' : Table (Scalar × Scalar) Adaptation) : Prop :=
  t.lookup? (user, domain) = some a ∧ t' = t ∨
    t.lookup? (user, domain) = none ∧ IsFresh config (.scalar user) (.scalar domain) a ∧
      t' = t.put (user, domain) a

/-- One adaptation was nudged by feedback, and nothing else was done to any of them: the one of the
user in the domain, which was created before if it was missing. -/
def Nudged (f : Feedback) (user domain : Scalar) (l l' : Learner) : Prop :=
  ∃ a delta t, l.config.nudge f = .ok delta ∧ Obtained l.config user domain a l.adaptations t ∧
    l'.adaptations = t.put (user, domain) (a.nudge delta l.now)

/-- An adaptation was created, and nothing else was done to any of them. -/
def Created (user domain : Scalar) (l l' : Learner) : Prop :=
  ∃ a, IsFresh l.config (.scalar user) (.scalar domain) a ∧
    l'.adaptations = l.adaptations.put (user, domain) a

/-- Whose adaptation a nudge is about, as it is mentioned at the end. An adaptation that is there has
kept the user and the domain it was created for. -/
def named (l : Learner) (user domain : Scalar) : List Value :=
  match l.adaptations.lookup? (user, domain) with
  | some a => [a.userId, a.domain]
  | none => [.scalar user, .scalar domain]

theorem named_of_none {user domain : Scalar} (h : l.adaptations.lookup? (user, domain) = none) :
    l.named user domain = [.scalar user, .scalar domain] := by
  unfold named
  rw [h]

theorem obtainAdaptation_found {user domain : Scalar} {a : Adaptation}
    (h : l.adaptations.lookup? (user, domain) = some a) :
    (obtainAdaptation (.scalar user) (.scalar domain)).runOn l = (.ok a, l) := by
  unfold obtainAdaptation
  rw [runOn_bind, runOn_lift]
  show Attempt.runOn _ l = _
  rw [runOn_bind, runOn_get]
  dsimp only
  rw [h]
  rfl

/-- A new adaptation is there also when user and domain cannot be mentioned. -/
theorem obtainAdaptation_created {x : Float}
    (hdefault : l.config.defaultEffectiveness.toFloat = .ok x) {user domain : Scalar}
    (h : l.adaptations.lookup? (user, domain) = none) :
    ∃ a n, IsFresh l.config (.scalar user) (.scalar domain) a ∧
      (obtainAdaptation (.scalar user) (.scalar domain)).runOn l =
        ((Value.mention [.scalar user, .scalar domain]).map fun _ => a,
          { l with issued := n, adaptations := l.adaptations.put (user, domain) a }) := by
  unfold obtainAdaptation newId
  rw [runOn_bind, runOn_lift]
  show ∃ a n, _ ∧ Attempt.runOn _ l = _
  simp only [runOn_bind, runOn_get, h, runOn_set, runOn_pure, runOn_lift, hdefault]
  refine ⟨{
    id := String.ofList (hex 16 l.issued)
    userId := .scalar user
    domain := .scalar domain
    effectiveness := clampUnit x
    lastUpdated := l.now }, l.issued + 1, ⟨rfl, rfl, rfl, x, hdefault, rfl⟩, ?_⟩
  cases Value.mention [.scalar user, .scalar domain] <;> rfl

/-- The adaptation of a user in a domain is obtained if it is there or can be mentioned. -/
theorem obtainAdaptation_scalar {x : Float}
    (hdefault : l.config.defaultEffectiveness.toFloat = .ok x) {user domain : Scalar}
    (hnew : l.adaptations.lookup? (user, domain) = none → user.isWritable ∧ domain.isWritable) :
    ∃ a n t, (obtainAdaptation (.scalar user) (.scalar domain)).runOn l =
        (.ok a, { l with issued := n, adaptations := t }) ∧
      Obtained l.config user domain a l.adaptations t := by
  cases hfound : l.adaptations.lookup? (user, domain) with
  | some a => exact ⟨a, l.issued, _, obtainAdaptation_found hfound, .inl ⟨hfound, rfl⟩⟩
  | none =>
    obtain ⟨a, n, ha, hrun⟩ := obtainAdaptation_created hdefault hfound
    have hmention : Value.mention [.scalar user, .scalar domain] = .ok () := by
      refine Value.mention_of_forall ?_
      simpa using hnew hfound
    rw [hmention] at hrun
    exact ⟨a, n, _, hrun, .inr ⟨hfound, ha, rfl⟩⟩

theorem obtainAdaptation_text {x : Float} (hdefault : l.config.defaultEffectiveness.toFloat = .ok x)
    (user domain : String) :
    ∃ a n t, (obtainAdaptation (.text user) (.text domain)).runOn l =
        (.ok a, { l with issued := n, adaptations := t }) ∧
      Obtained l.config (.text user) (.text domain) a l.adaptations t :=
  obtainAdaptation_scalar hdefault fun _ => ⟨rfl, rfl⟩

/-- A user and a task that can be keys get their nudge, unless the adaptation is new and they cannot be
mentioned. -/
theorem nudge_scalar {x delta : Float} (hdefault : l.config.defaultEffectiveness.toFloat = .ok x)
    (hdelta : l.config.nudge f = .ok delta) {user task : Scalar}
    (huser : feedbackUser c = .scalar user) (htask : feedbackTask c = .scalar task)
    (hnew : l.adaptations.lookup? (user, task) = none → user.isWritable ∧ task.isWritable) :
    ∃ l', (nudge f (.known c)).runOn l = (Value.mention (l.named user task), l') ∧
      l'.history = l.history ∧ Nudged f user task l l' := by
  obtain ⟨a, n, t, hrun, hobtained⟩ := obtainAdaptation_scalar hdefault hnew
  have hnamed : l.named user task = [a.userId, a.domain] := by
    unfold named
    obtain ⟨hfound, -⟩ | ⟨hnone, hfresh, -⟩ := hobtained
    · rw [hfound]
    · rw [hnone, hfresh.userId, hfresh.domain]
  unfold nudge
  unfold feedbackUser at huser
  unfold feedbackTask at htask
  simp only [runOn_bind, runOn_lift, Slot.get, huser, htask, hrun, runOn_get, hdelta]
  rw [hnamed]
  exact ⟨_, rfl, rfl, a, delta, t, hdelta, hobtained, rfl⟩

/-- A new adaptation whose user and domain cannot be mentioned is not nudged. -/
theorem nudge_created {x : Float} (hdefault : l.config.defaultEffectiveness.toFloat = .ok x)
    {user task : Scalar} (huser : feedbackUser c = .scalar user)
    (htask : feedbackTask c = .scalar task) (hnone : l.adaptations.lookup? (user, task) = none)
    (hlong : ¬ (user.isWritable ∧ task.isWritable)) (f : Feedback) :
    ∃ l', (nudge f (.known c)).runOn l = (.error .tooManyDigits, l') ∧ l'.history = l.history ∧
      Created user task l l' := by
  obtain ⟨a, n, ha, hrun⟩ := obtainAdaptation_created hdefault hnone
  have hmention : Value.mention [.scalar user, .scalar task] = .error .tooManyDigits := by
    unfold Value.mention
    rw [if_neg (by simpa using hlong)]
  rw [hmention] at hrun
  unfold nudge
  unfold feedbackUser at huser
  unfold feedbackTask at htask
  simp only [runOn_bind, runOn_lift, Slot.get, huser, htask, hrun]
  exact ⟨_, rfl, rfl, a, ha, rfl⟩

/-- A user that cannot be a key stops the nudge before anything is changed. -/
theorem nudge_not_scalar (huser : ∀ user, feedbackUser c ≠ .scalar user) (l : Learner) :
    (nudge f (.known c)).runOn l = (.error .wrongKind, l) := by
  have hkey : adaptationKey (feedbackUser c) (feedbackTask c) = .error .wrongKind := by
    unfold adaptationKey
    cases hc : feedbackUser c with
    | scalar user => exact absurd hc (huser user)
    | list _ | map _ => rfl
  unfold nudge obtainAdaptation
  unfold feedbackUser feedbackTask at hkey
  simp only [runOn_bind, runOn_lift, Slot.get, hkey]

/-! ## Calls -/

theorem learnFeedback_runOn {fs cs : Entries} (hf : Feedback.ofRecord (.map fs) = .ok f)
    (hc : LearningContext.ofRecord (.map cs) = .ok c) (l : Learner) :
    (learnFeedback (.map fs) (.map cs)).runOn l = Attempt.runOn (do
      let r ← learn (feedbackRecord f (.known c))
      nudge f (.known c)
      return r) l := by
  unfold learnFeedback LearningRecord.readSlot readContext
  simp only [hf, hc, Except.ok_bind, Except.pure_eq, runOn_bind, runOn_lift, Slot.get]

/-- A record of feedback was put at the end of the history, and no adaptation has moved yet. -/
structure Recorded (f : Feedback) (c : LearningContext) (r : LearningRecord) (l l' : Learner) :
    Prop where
  isFeedback : IsFeedback f c r
  history : l'.history = l.history ++ [r]
  adaptations : l'.adaptations = l.adaptations
  config : l'.config = l.config
  now : l'.now = l.now

/-- The record of feedback on a task that can be a key is learned. -/
theorem learn_feedback_scalar {task : Scalar} (htask : feedbackTask c = .scalar task)
    (f : Feedback) (l : Learner) :
    ∃ r l', (learn (feedbackRecord f (.known c))).runOn l = (.ok r, l') ∧ Recorded f c r l l' := by
  have hr := feedbackRecord_isFeedback f c l
  obtain ⟨t, ht⟩ := learnTask_scalar hr htask (l.withRecord (feedbackRecord f (.known c))).tables
  rw [learn_runOn, runOn_bind, process_feedback hr, ht]
  exact ⟨_, _, rfl, hr, rfl, rfl, rfl, rfl⟩

/-- The record of feedback on a task that cannot be a key stays in the history, and nothing else is
done. -/
theorem learn_feedback_not_scalar (htask : ∀ task, feedbackTask c ≠ .scalar task) (f : Feedback)
    (l : Learner) :
    ∃ r l', (learn (feedbackRecord f (.known c))).runOn l = (.error .wrongKind, l') ∧
      Recorded f c r l l' := by
  have hr := feedbackRecord_isFeedback f c l
  rw [learn_runOn, runOn_bind, process_feedback hr, learnTask_not_scalar hr htask]
  exact ⟨_, _, rfl, hr, rfl, rfl, rfl, rfl⟩

/-- Feedback on a user and a task that can be keys leaves its record, and what happens then is up to
the nudge. -/
theorem learnFeedback_scalar {fs cs : Entries} (hf : Feedback.ofRecord (.map fs) = .ok f)
    (hc : LearningContext.ofRecord (.map cs) = .ok c) {task : Scalar}
    (htask : feedbackTask c = .scalar task) (l : Learner) :
    ∃ r m, Recorded f c r l m ∧ ∀ outcome l', (nudge f (.known c)).runOn m = (outcome, l') →
      (learnFeedback (.map fs) (.map cs)).runOn l = (outcome.map fun _ => r, l') := by
  obtain ⟨r, m, hlearn, hm⟩ := learn_feedback_scalar htask f l
  refine ⟨r, m, hm, fun outcome l' hnudge => ?_⟩
  rw [learnFeedback_runOn hf hc, runOn_bind, hlearn]
  dsimp only
  rw [runOn_bind, hnudge]
  cases outcome <;> rfl

/-- Feedback is taken as a whole if its adaptation is there or its user and task can be mentioned. -/
theorem learnFeedback_nudged {fs cs : Entries} (hconfig : CanNudge l.config)
    (hf : Feedback.ofRecord (.map fs) = .ok f) (hc : LearningContext.ofRecord (.map cs) = .ok c)
    {user task : Scalar} (huser : feedbackUser c = .scalar user)
    (htask : feedbackTask c = .scalar task)
    (hnew : l.adaptations.lookup? (user, task) = none → user.isWritable ∧ task.isWritable) :
    ∃ r l', (learnFeedback (.map fs) (.map cs)).runOn l =
        ((Value.mention (l.named user task)).map fun _ => r, l') ∧ IsFeedback f c r ∧
      l'.history = l.history ++ [r] ∧ Nudged f user task l l' := by
  obtain ⟨r, m, hm, hrun⟩ := learnFeedback_scalar hf hc htask l
  rw [← hm.config] at hconfig
  rw [← hm.adaptations] at hnew
  obtain ⟨x, hx⟩ := hconfig.effectiveness
  obtain ⟨delta, hdelta⟩ := hconfig.nudge f
  obtain ⟨l', hnudge, hhistory, hnudged⟩ := nudge_scalar hx hdelta huser htask hnew
  have hnamed : m.named user task = l.named user task := by
    unfold named
    rw [hm.adaptations]
  rw [hnamed] at hnudge
  refine ⟨r, l', hrun _ _ hnudge, hm.isFeedback, hhistory.trans hm.history, ?_⟩
  unfold Nudged at hnudged ⊢
  rwa [hm.config, hm.adaptations, hm.now] at hnudged

/-- Where the adaptation is new and cannot be mentioned, feedback leaves its record and no nudge. -/
theorem learnFeedback_created {fs cs : Entries} (hconfig : CanNudge l.config)
    (hf : Feedback.ofRecord (.map fs) = .ok f) (hc : LearningContext.ofRecord (.map cs) = .ok c)
    {user task : Scalar} (huser : feedbackUser c = .scalar user)
    (htask : feedbackTask c = .scalar task) (hnone : l.adaptations.lookup? (user, task) = none)
    (hlong : ¬ (user.isWritable ∧ task.isWritable)) :
    ∃ r l', (learnFeedback (.map fs) (.map cs)).runOn l = (.error .tooManyDigits, l') ∧
      IsFeedback f c r ∧ l'.history = l.history ++ [r] ∧ Created user task l l' := by
  obtain ⟨r, m, hm, hrun⟩ := learnFeedback_scalar hf hc htask l
  rw [← hm.config] at hconfig
  rw [← hm.adaptations] at hnone
  obtain ⟨x, hx⟩ := hconfig.effectiveness
  obtain ⟨l', hnudge, hhistory, hcreated⟩ := nudge_created hx huser htask hnone hlong f
  refine ⟨r, l', hrun _ _ hnudge, hm.isFeedback, hhistory.trans hm.history, ?_⟩
  unfold Created at hcreated ⊢
  rwa [hm.config, hm.adaptations] at hcreated

/-- Feedback on a user or a task that cannot be a key leaves its record and no nudge. -/
theorem learnFeedback_not_scalar {fs cs : Entries} (hf : Feedback.ofRecord (.map fs) = .ok f)
    (hc : LearningContext.ofRecord (.map cs) = .ok c)
    (h : ∀ user task, ¬ (feedbackUser c = .scalar user ∧ feedbackTask c = .scalar task))
    (l : Learner) :
    ∃ r l', (learnFeedback (.map fs) (.map cs)).runOn l = (.error .wrongKind, l') ∧
      Recorded f c r l l' := by
  by_cases htask : ∃ task, feedbackTask c = .scalar task
  · -- The record is processed, and the nudge stops at the user.
    obtain ⟨task, htask⟩ := htask
    obtain ⟨r, l', hlearn, hl'⟩ := learn_feedback_scalar htask f l
    refine ⟨r, l', ?_, hl'⟩
    rw [learnFeedback_runOn hf hc, runOn_bind, hlearn]
    dsimp only
    rw [runOn_bind, nudge_not_scalar fun user huser => h user task ⟨huser, htask⟩]
  · -- The processing of the record stops already.
    obtain ⟨r, l', hlearn, hl'⟩ := learn_feedback_not_scalar (fun task hc => htask ⟨task, hc⟩) f l
    refine ⟨r, l', ?_, hl'⟩
    rw [learnFeedback_runOn hf hc, runOn_bind, hlearn]

/-- Feedback or a context that cannot be read leaves the learner as it was. -/
theorem learnFeedback_unreadable {fs cs : Entries}
    (h : ∀ f c, ¬ (Feedback.ofRecord (.map fs) = .ok f ∧
      LearningContext.ofRecord (.map cs) = .ok c)) (l : Learner) :
    ∃ e, (learnFeedback (.map fs) (.map cs)).runOn l = (.error e, l) := by
  unfold learnFeedback LearningRecord.readSlot readContext
  simp only [runOn_bind, runOn_lift]
  cases hf : Feedback.ofRecord (.map fs) with
  | error e => exact ⟨e, rfl⟩
  | ok f =>
    cases hc : LearningContext.ofRecord (.map cs) with
    | error e => exact ⟨e, rfl⟩
    | ok c => exact absurd ⟨hf, hc⟩ (h f c)

/-- **Feedback and its nudge.** Feedback that can be read, on a user and a task that are scalars, leaves
one record in the history. It is taken as a whole, with one nudge, if the user and the task can be
mentioned. If they cannot, the call stops: after the nudge where the adaptation was there already,
and where it was not, with the adaptation created and not nudged. If the user or the task is a list or
a map, the call stops with the record in the history and without the nudge. What cannot be read changes
nothing. -/
theorem learnFeedback_whole (hconfig : CanNudge l.config) (fs cs : Entries) :
    let run := (learnFeedback (.map fs) (.map cs)).runOn l
    (∀ f c, Feedback.ofRecord (.map fs) = .ok f → LearningContext.ofRecord (.map cs) = .ok c →
      (∀ user task, feedbackUser c = .scalar user → feedbackTask c = .scalar task →
        ∃ r, IsFeedback f c r ∧ run.2.history = l.history ++ [r] ∧
          ((∀ v ∈ l.named user task, v.isWritable) →
            run.1 = .ok r ∧ Nudged f user task l run.2) ∧
          ((∃ v ∈ l.named user task, ¬ v.isWritable) → run.1 = .error .tooManyDigits ∧
            if l.adaptations.lookup? (user, task) = none then Created user task l run.2
            else Nudged f user task l run.2)) ∧
      ((∀ user task, ¬ (feedbackUser c = .scalar user ∧ feedbackTask c = .scalar task)) →
        run.1 = .error .wrongKind ∧
          (∃ r, IsFeedback f c r ∧ run.2.history = l.history ++ [r]) ∧
          run.2.adaptations = l.adaptations)) ∧
    ((∀ f c, ¬ (Feedback.ofRecord (.map fs) = .ok f ∧ LearningContext.ofRecord (.map cs) = .ok c)) →
      (∃ e, run.1 = .error e) ∧ run.2 = l) := by
  intro run
  refine ⟨fun f c hf hc => ⟨fun user task huser htask => ?taken, fun h => ?torn⟩, fun h => ?refused⟩
  case taken =>
    by_cases hnew : l.adaptations.lookup? (user, task) = none → user.isWritable ∧ task.isWritable
    · obtain ⟨r, l', hrun, hr, hhistory, hnudged⟩ := learnFeedback_nudged hconfig hf hc huser htask hnew
      have hrun : run = ((Value.mention (l.named user task)).map fun _ => r, l') := hrun
      rw [hrun]
      refine ⟨r, hr, hhistory, fun hall => ⟨?_, hnudged⟩, fun hlong => ⟨?_, ?_⟩⟩
      · rw [Value.mention_of_forall hall]
        rfl
      · rw [Value.mention_of_exists hlong]
        rfl
      · rw [if_neg]
        · exact hnudged
        · intro hnone
          obtain ⟨v, hv, hlong⟩ := hlong
          rw [named_of_none hnone] at hv
          obtain ⟨huser, htask⟩ := hnew hnone
          simp only [List.mem_cons, List.not_mem_nil, or_false] at hv
          obtain rfl | rfl := hv
          · exact hlong ((Value.isWritable_scalar user).trans huser)
          · exact hlong ((Value.isWritable_scalar task).trans htask)
    · obtain ⟨hnone, hlong⟩ := Classical.not_imp.1 hnew
      obtain ⟨r, l', hrun, hr, hhistory, hcreated⟩ :=
        learnFeedback_created hconfig hf hc huser htask hnone hlong
      have hrun : run = (.error .tooManyDigits, l') := hrun
      rw [hrun, if_pos hnone, named_of_none hnone]
      refine ⟨r, hr, hhistory, fun hall => absurd ?_ hlong, fun _ => ⟨rfl, hcreated⟩⟩
      simpa using hall
  case torn =>
    obtain ⟨r, l', hrun, hl'⟩ := learnFeedback_not_scalar hf hc h l
    have hrun : run = (.error .wrongKind, l') := hrun
    rw [hrun]
    exact ⟨rfl, ⟨r, hl'.isFeedback, hl'.history⟩, hl'.adaptations⟩
  case refused =>
    obtain ⟨e, hrun⟩ := learnFeedback_unreadable h l
    have hrun : run = (.error e, l) := hrun
    rw [hrun]
    exact ⟨⟨e, rfl⟩, rfl⟩

/-- Feedback whose user is a list stays in the history without its nudge. -/
theorem learnFeedback_whole_users :
    CanNudge (start {}).config ∧
      let run := (learnFeedback (.record [("rating", .float 5), ("helpful", .bool true)])
        (.record [("userId", .list [.text "u"]), ("currentTask", .text "t")])).runOn (start {})
      run.1 = .error .wrongKind ∧ run.2.history.length = 1 ∧ run.2.adaptations = [] := by
  have hwhole := learnFeedback_whole (l := start {}) canNudge_default
    (Entries.ofFields [("rating", .float 5), ("helpful", .bool true)])
    (Entries.ofFields [("userId", .list [.text "u"]), ("currentTask", .text "t")])
  have husers (user task : Scalar) :
      ¬ (Value.list [.text "u"] = .scalar user ∧ Value.text "t" = .scalar task) :=
    fun h => nomatch h.1
  obtain ⟨herror, ⟨r, -, hhistory⟩, hadaptations⟩ := (hwhole.1 _ _ rfl rfl).2 husers
  refine ⟨canNudge_default, herror, ?_, hadaptations⟩
  exact congrArg List.length hhistory

end KnowledgeGraph.Learner
