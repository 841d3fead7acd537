import KnowledgeGraph.Proofs.Engine.Asking

/-!
# Who feedback is credited to

A context may name its user under two spellings. Feedback takes the first one if it is there,
whatever it says, and otherwise the second one; weighing takes the second one, too, where the first
one says nothing. These are the same user unless a first spelling that says nothing hides the user of
the second one (`Hides`). In that case the feedback is credited to the anonymous user, and the user
whose answers are weighed keeps their weight (`feedback_credits`).
-/

namespace KnowledgeGraph

variable {context : Entries} {s t : String}

/-! ## Texts -/

theorem Value.IsTextOrNull.orElse_anonymous {v : Value} (h : v.IsTextOrNull) :
    ∃ s, v.orElse (.text Learner.anonymousUser) = .text s ∧
      (s = Learner.anonymousUser ∨ v = .text s ∧ s ≠ "") := by
  obtain rfl | ⟨s, rfl⟩ := h
  · exact ⟨_, rfl, .inl rfl⟩
  · by_cases hs : s = ""
    · subst hs
      exact ⟨_, rfl, .inl rfl⟩
    · exact ⟨s, Value.orElse_text hs _, .inr ⟨rfl, hs⟩⟩

theorem Question.label_of_text {q : Question} (h : q.type = .text t) (ht : t ≠ "") : q.label = t := by
  unfold Question.label
  rw [h, Value.isAbsent_text ht, if_neg Bool.false_ne_true]
  rfl

namespace Engine

/-! ## Users of a context -/

/-- The first spelling is there but says nothing, and the second one names a user. -/
def Hides (context : Entries) : Prop :=
  (Entries.get? context "userId" = some .null ∨ Entries.get? context "userId" = some (.text "")) ∧
    ∃ s, Entries.field context "user_id" = .text s ∧ s ≠ "" ∧ s ≠ Learner.anonymousUser

/-- The user that feedback in a context is credited to. -/
def creditedUser (context : Entries) : Value :=
  (Entries.either context "userId" "user_id").orElse (.text Learner.anonymousUser)

/-- Without the first spelling both take the second one. -/
theorem creditedUser_of_none (h : Entries.get? context "userId" = none) :
    creditedUser context = actingUser context := by
  unfold creditedUser actingUser Entries.either Entries.field
  rw [h]
  rfl

/-- A first spelling that names a user is taken by both. -/
theorem creditedUser_of_text (h : Entries.get? context "userId" = some (.text s)) (hs : s ≠ "") :
    creditedUser context = .text s ∧ actingUser context = .text s := by
  unfold creditedUser actingUser Entries.either Entries.field
  rw [h, Option.getD_some, Option.getD_some]
  refine ⟨Value.orElse_text hs _, ?_⟩
  rw [Value.orElse_text hs, Value.orElse_text hs]

/-- A first spelling that says nothing stands for the anonymous user in feedback only. -/
theorem creditedUser_of_empty (h : Entries.get? context "userId" = some .null ∨
    Entries.get? context "userId" = some (.text "")) :
    creditedUser context = .text Learner.anonymousUser ∧ actingUser context =
      (Entries.field context "user_id").orElse (.text Learner.anonymousUser) := by
  unfold creditedUser actingUser Entries.either Entries.field
  obtain h | h := h <;> rw [h] <;> exact ⟨rfl, rfl⟩

/-- A first spelling that says nothing hides the second one if that names another user. -/
theorem exists_users_of_empty (h : Entries.get? context "userId" = some .null ∨
    Entries.get? context "userId" = some (.text ""))
    (h' : (Entries.field context "user_id").IsTextOrNull) :
    ∃ weighed, creditedUser context = .text Learner.anonymousUser ∧
      actingUser context = .text weighed ∧
      (Learner.anonymousUser = weighed ↔ ¬ Hides context) := by
  obtain ⟨hcredited, hacting⟩ := creditedUser_of_empty h
  obtain ⟨s, hs, hsecond⟩ := h'.orElse_anonymous
  refine ⟨s, hcredited, hacting.trans hs, ?_, fun hopen => ?_⟩
  · rintro rfl ⟨-, other, hother, hnamed, hne⟩
    rw [hother, Value.orElse_text hnamed, Value.scalar.injEq, Scalar.text.injEq] at hs
    exact hne hs
  · by_contra hne
    obtain hsame | ⟨hfield, hnamed⟩ := hsecond
    · exact hne hsame.symm
    · exact hopen ⟨h, s, hfield, hnamed, Ne.symm hne⟩

/-- The two users are the same unless the first spelling hides the second one. -/
theorem exists_users (h : (Entries.field context "userId").IsTextOrNull)
    (h' : (Entries.field context "user_id").IsTextOrNull) :
    ∃ credited weighed, creditedUser context = .text credited ∧
      actingUser context = .text weighed ∧ (credited = weighed ↔ ¬ Hides context) := by
  unfold Entries.field at h
  cases hfirst : Entries.get? context "userId" with
  | none =>
    obtain ⟨s, hs, -⟩ := h'.orElse_anonymous
    have hacting : actingUser context = .text s := by
      unfold actingUser
      rw [Entries.field, hfirst]
      exact hs
    have hopen : ¬ Hides context := by
      rintro ⟨hempty | hempty, -⟩ <;> cases hfirst.symm.trans hempty
    exact ⟨s, s, (creditedUser_of_none hfirst).trans hacting, hacting, fun _ => hopen, fun _ => rfl⟩
  | some v =>
    rw [hfirst, Option.getD_some] at h
    obtain rfl | ⟨s, rfl⟩ := h
    · exact ⟨_, exists_users_of_empty (.inl hfirst) h'⟩
    · by_cases hs : s = ""
      · subst hs
        exact ⟨_, exists_users_of_empty (.inr hfirst) h'⟩
      · obtain ⟨hcredited, hacting⟩ := creditedUser_of_text hfirst hs
        have hopen : ¬ Hides context := by
          rintro ⟨hempty | hempty, -⟩ <;> cases hfirst.symm.trans hempty
          exact hs rfl
        exact ⟨s, s, hcredited, hacting, fun _ => hopen, fun _ => rfl⟩

/-! ## Feedback on a task -/

def onTask (context : Entries) (task : String) : Entries :=
  Entries.set context "currentTask" (.text task)

theorem get?_onTask (context : Entries) (task : String) :
    Entries.get? (onTask context task) "currentTask" = some (.text task) :=
  Table.lookup?_put_self (Key.sharp_text _) context (.text task)

theorem get?_onTask_of_ne (context : Entries) (task : String) {name : String}
    (h : name ≠ "currentTask") :
    Entries.get? (onTask context task) name = Entries.get? context name :=
  Table.lookup?_put_of_ne (Key.sharp_text _) (Key.sharp_text name)
    (fun heq => h (Scalar.text.inj heq)) context (.text task)

/-- Feedback on a task is credited to the user of the context and to the task. -/
theorem feedbackUser_onTask {c : LearningContext}
    (hc : LearningContext.ofRecord (.map (onTask context t)) = .ok c) (ht : t ≠ "") :
    Learner.feedbackUser c = creditedUser context ∧ Learner.feedbackTask c = .text t := by
  obtain ⟨huser, htask⟩ := Learner.ofRecord_fields hc
  unfold Entries.either at huser htask
  rw [get?_onTask_of_ne _ _ (by decide), get?_onTask_of_ne _ _ (by decide)] at huser
  rw [get?_onTask, Option.getD_some] at htask
  unfold Learner.feedbackUser Learner.feedbackTask
  rw [huser, htask, Value.orElse_text ht]
  exact ⟨rfl, rfl⟩

/-- **Crediting.** After any calls, feedback in a context nudges what was learned about the task for
one user, and later answers in the context are weighed by what was learned about it for one user. The
two are the same unless the first spelling of the user hides the second one; in that case the
feedback does not change the weight. -/
theorem feedback_credits {config : EngineConfig} (hconfig : Learner.CanNudge config.learning)
    (calls : List (Nat × Command)) (now : Nat) {fs : Entries} {f : Feedback}
    (hf : Feedback.ofRecord (.map fs) = .ok f)
    (huser : (Entries.field context "userId").IsTextOrNull)
    (huser' : (Entries.field context "user_id").IsTextOrNull) (ht : t ≠ "") {c : LearningContext}
    (hc : LearningContext.ofRecord (.map (onTask context t)) = .ok c) :
    let e := after config calls
    let e' := e.step (now, .learner (.feedback (.map fs) (.map (onTask context t))))
    ∃ credited weighed : String,
      Learner.Nudged f (.text credited) (.text t) (e.clocked now).learner e'.learner ∧
      (∀ (d : Engine) record q a, Question.ofRecord record = .ok q → q.type = .text t →
        q.context = context → d.reasoner.Produces q a →
        d.reason record = a.weighedBy (d.learner.weightIn (.text weighed) (.text t))) ∧
      (credited = weighed ↔ ¬ Hides context) ∧
      (Hides context → e'.learner.weightIn (.text weighed) (.text t) =
        e.learner.weightIn (.text weighed) (.text t)) := by
  intro e e'
  obtain ⟨credited, weighed, hcredited, hweighed, hiff⟩ := exists_users huser huser'
  obtain ⟨hfeedback, htask⟩ := feedbackUser_onTask hc ht
  have hlearner : e.learner.config = config.learning :=
    after_keepsLearner (Learner.perform_keepsConfig config.learning) rfl (fun _ _ hl => hl) calls
  obtain ⟨hnudged, -⟩ :=
    feedback_step (hlearner ▸ hconfig) hf hc (hfeedback.trans hcredited) htask now
  refine ⟨credited, weighed, hnudged, fun d record q a hq htype hcontext ha => ?_, hiff,
    fun hhides => ?_⟩
  · rw [d.reason_of_produces hq ha (hcontext.symm ▸ hweighed), Question.label_of_text htype ht]
  · have hne : Scalar.text credited ≠ .text weighed :=
      fun heq => hiff.1 (Scalar.text.inj heq) hhides
    have hother : Key.same (Scalar.text credited, Scalar.text t) (.text weighed, .text t) =
        false := by
      show (Key.same (Scalar.text credited) (.text weighed) && _) = false
      rw [(Key.sharp_text weighed).same_of_ne hne, Bool.false_and]
    exact hnudged.weightIn_of_other (Key.sharp_text credited) (Key.sharp_text t) hother

/-- A null under the first spelling hides the user under the second one. -/
theorem feedback_credits_null :
    let context := Entries.ofFields [("userId", .null), ("user_id", .text "u")]
    let e := after {} []
    let e' := e.step (1, .learner (.feedback
      (.record [("rating", .float 1), ("helpful", .bool false)])
      (.map (onTask context "deductive"))))
    Hides context ∧ ∃ credited weighed : String, credited ≠ weighed ∧
      (∃ f, Learner.Nudged f (.text credited) (.text "deductive") (e.clocked 1).learner e'.learner) ∧
      e'.learner.weightIn (.text weighed) (.text "deductive") =
        e.learner.weightIn (.text weighed) (.text "deductive") := by
  intro context e e'
  have hhides : Hides context := ⟨.inl rfl, "u", rfl, by decide, by decide⟩
  have hconfig : Learner.CanNudge ({} : EngineConfig).learning := Learner.canNudge_default
  have hfirst : (Entries.field context "userId").IsTextOrNull := .inl rfl
  have hsecond : (Entries.field context "user_id").IsTextOrNull := .inr ⟨"u", rfl⟩
  have hfeedback : Feedback.ofRecord (.record [("rating", .float 1), ("helpful", .bool false)]) =
      .ok ⟨clamp 1 5 1, false, .null, .null, .null, none⟩ := rfl
  have hdeductive : "deductive" ≠ "" := by decide
  obtain ⟨credited, weighed, hnudged, -, hiff, hkept⟩ :=
    feedback_credits hconfig [] 1 hfeedback hfirst hsecond hdeductive rfl
  exact ⟨hhides, credited, weighed, fun hsame => hiff.1 hsame hhides, ⟨_, hnudged⟩, hkept hhides⟩

end Engine

end KnowledgeGraph
