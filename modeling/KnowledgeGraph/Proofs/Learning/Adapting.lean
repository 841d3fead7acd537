import KnowledgeGraph.Proofs.Learning.Feedback
import KnowledgeGraph.Proofs.Learning.Unseen

/-!
# When adaptation returns

Adaptation looks through the history, and so records may block it. A context that is neither known
nor absent blocks all users, for it cannot be told whose the record is. Feedback of this kind, and
helpful feedback on a task that cannot be a key, block the user whose record it is, once there are
enough records to sum up. Nothing else blocks anyone (`returns_adapt`). Calls in which feedback,
contexts and tasks have their forms leave no such records (`adapt_returns_iff`).
-/

namespace KnowledgeGraph

open Attempt

/-! ## Records -/

namespace LearningRecord

/-- It can be told whose the record is: its context is known or counts as absent. -/
def IsOwned (r : LearningRecord) : Prop := ∀ v, r.context = .raw v → v.isAbsent = true

/-- The record can be summed up: its feedback is known or counts as absent, and the task of helpful
feedback counts as absent or can be a key. -/
structure IsSummable (r : LearningRecord) : Prop where
  feedback : ∀ v, r.feedback = .raw v → v.isAbsent = true
  task : ∀ c, r.isHelpful = true → r.context = .known c →
    c.currentTask.isAbsent = true ∨ ∃ k, c.currentTask = .scalar k

/-- The record blocks no one from adaptation. -/
structure IsHarmless (r : LearningRecord) : Prop where
  owned : r.IsOwned
  summable : r.IsSummable

theorem returns_userId {r : LearningRecord} : Except.Returns r.userId ↔ r.IsOwned := by
  constructor
  · intro h v hv
    obtain ⟨found, hfound, -⟩ := h.of_bind
    rw [hv, Slot.get?] at hfound
    split at hfound
    · assumption
    · cases hfound
  · intro h
    refine Learner.exists_userId ?_
    cases hcontext : r.context with
    | known c => exact .inl ⟨c, rfl⟩
    | raw v => exact .inr ⟨v, rfl, h v hcontext⟩

end LearningRecord

namespace Learner

variable {config : LearningConfig} {l : Learner} {r : LearningRecord} {u : String}

/-! ## Summaries -/

theorem returns_taskKey {c : LearningContext} (hc : r.context = .known c) :
    Except.Returns (taskKey? r) ↔
      c.currentTask.isAbsent = true ∨ ∃ k, c.currentTask = .scalar k := by
  unfold taskKey?
  rw [hc, Slot.get, Except.ok_bind]
  dsimp only
  split
  · rename_i habsent
    exact ⟨fun _ => .inl habsent, fun _ => Except.returns_ok _⟩
  · rename_i hpresent
    cases htask : c.currentTask with
    | scalar k => exact ⟨fun _ => .inr ⟨k, rfl⟩, fun _ => Except.returns_ok _⟩
    | list _ | map _ =>
      rw [htask] at hpresent
      refine ⟨fun h => absurd h (Except.not_returns_error _), fun h => ?_⟩
      obtain habsent | ⟨k, hk⟩ := h
      · exact absurd habsent hpresent
      · cases hk

theorem returns_firstExperience {rs : List LearningRecord}
    (hrs : ∀ r ∈ rs, ∃ c, r.context = .known c) : Except.Returns (firstExperience rs) := by
  induction rs with
  | nil => exact Except.returns_ok _
  | cons r rest ih =>
    obtain ⟨c, hc⟩ := hrs r List.mem_cons_self
    unfold firstExperience
    rw [hc, Slot.get, Except.ok_bind]
    dsimp only
    split
    · exact ih fun r hr => hrs r (List.mem_cons_of_mem _ hr)
    · exact Except.returns_ok _

/-- Whether the feedback of a record helped, where there is feedback. -/
theorem helpful_eq_ok {b : Bool}
    (h : (return (← r.feedback.get).helpful : Except Fault Bool) = .ok b) :
    (∃ f, r.feedback = .known f) ∧ b = r.isHelpful := by
  obtain ⟨f, hf, h⟩ := Except.bind_eq_ok.1 h
  rw [Slot.get_eq_ok] at hf
  cases h
  exact ⟨⟨f, hf⟩, by rw [LearningRecord.isHelpful, hf]⟩

def rated (rs : List LearningRecord) : List LearningRecord :=
  rs.filter fun r => !r.feedback.isAbsent

theorem mem_rated {rs : List LearningRecord} :
    r ∈ rated rs ↔ r ∈ rs ∧ r.feedback.isAbsent = false := by
  unfold rated
  rw [List.mem_filter, Bool.not_eq_true']

/-- Of records with known feedback those can be picked out whose feedback says that it helped. -/
theorem filterE_isHelpful {rs : List LearningRecord} (h : ∀ r ∈ rs, ∃ f, r.feedback = .known f) :
    filterE (fun r => return (← r.feedback.get).helpful) rs =
      .ok (rs.filter LearningRecord.isHelpful) := by
  refine Except.filterE_of_forall fun r hr => ?_
  obtain ⟨f, hf⟩ := h r hr
  rw [LearningRecord.isHelpful, hf]
  rfl

theorem isSummable_of_returns {rs : List LearningRecord} (h : Except.Returns (summarize rs)) :
    ∀ r ∈ rs, r.IsSummable := by
  intro r hr
  obtain ⟨helpful, hhelpful, h⟩ := h.of_bind
  obtain ⟨keys, hkeys, -⟩ := h.of_bind
  have hknown : r.feedback.isAbsent = false → ∃ f, r.feedback = .known f := by
    intro hpresent
    obtain ⟨b, hb⟩ := Except.returns_of_filterE ⟨_, hhelpful⟩ r (mem_rated.2 ⟨hr, hpresent⟩)
    exact (helpful_eq_ok hb).1
  have hkey : r.isHelpful = true → Except.Returns (taskKey? r) := by
    intro hhelps
    refine Except.exists_of_mapM_eq_ok hkeys ?_
    rw [Except.filterE_eq_ok (fun _ _ _ hb => (helpful_eq_ok hb).2) hhelpful]
    exact List.mem_filter.2 ⟨mem_rated.2 ⟨hr, LearningRecord.isAbsent_of_isHelpful hhelps⟩, hhelps⟩
  constructor
  · intro v hv
    by_contra hpresent
    have hfeedback : r.feedback.isAbsent = false := by
      rw [hv]
      exact Bool.eq_false_iff.2 hpresent
    obtain ⟨f, hf⟩ := hknown hfeedback
    rw [hv] at hf
    cases hf
  · intro c hhelps hc
    exact (returns_taskKey hc).1 (hkey hhelps)

theorem returns_of_isSummable {rs : List LearningRecord}
    (hrs : ∀ r ∈ rs, ∃ c, r.context = .known c) (h : ∀ r ∈ rs, r.IsSummable) :
    Except.Returns (summarize rs) := by
  have hknown : ∀ r ∈ rated rs, ∃ f, r.feedback = .known f := by
    intro r hr
    obtain ⟨hr, hpresent⟩ := mem_rated.1 hr
    cases hf : r.feedback with
    | known f => exact ⟨f, rfl⟩
    | raw v =>
      rw [hf, Slot.isAbsent, (h r hr).feedback v hf] at hpresent
      cases hpresent
  have hhelpful := filterE_isHelpful hknown
  have hkeys : Except.Returns (((rated rs).filter LearningRecord.isHelpful).mapM taskKey?) := by
    refine Except.returns_mapM fun r hr => ?_
    obtain ⟨hr, hhelps⟩ := List.mem_filter.1 hr
    obtain ⟨hr, -⟩ := mem_rated.1 hr
    obtain ⟨c, hc⟩ := hrs r hr
    exact (returns_taskKey hc).2 ((h r hr).task c hhelps hc)
  have hfeedback : Except.Returns ((rated rs).mapM fun r => r.feedback.get) := by
    refine Except.returns_mapM fun r hr => ?_
    obtain ⟨f, hf⟩ := hknown r hr
    exact ⟨f, Slot.get_eq_ok.2 hf⟩
  have hexperience : Except.Returns (firstExperience rs.reverse) :=
    returns_firstExperience fun r hr => hrs r (List.mem_reverse.1 hr)
  obtain ⟨keys, hkeys⟩ := hkeys
  obtain ⟨feedback, hfeedback⟩ := hfeedback
  obtain ⟨experience, hexperience⟩ := hexperience
  refine Except.returns_bind hhelpful (Except.returns_bind hkeys ?_)
  exact Except.returns_bind hfeedback (Except.returns_bind hexperience (Except.returns_ok _))

/-! ## Recommendations -/

/-- There are too few records of a user to recommend anything. -/
def IsShort (l : Learner) (u : String) (least : Quantity) : Prop :=
  (Quantity.int (recordsBy u l.history).length).less least = true

/-- Adaptation for a user is not blocked by the history: it can be told whose each record is, and
the records of the user can be summed up, unless they are too few. -/
def IsClear (l : Learner) (u : String) (least : Quantity) : Prop :=
  (∀ r ∈ l.history, r.IsOwned) ∧
    (l.IsShort u least ∨ ∀ r ∈ recordsBy u l.history, r.IsSummable)

theorem exists_context_of_recordsBy (hr : r ∈ recordsBy u l.history) :
    ∃ c, r.context = .known c := by
  obtain ⟨c, hc, -⟩ := LearningRecord.exists_context (of_decide_eq_true (List.mem_filter.1 hr).2)
  exact ⟨c, hc⟩

theorem returns_recommendations {least : Quantity}
    (hleast : l.config.minHistory.quantity = .ok least) :
    Except.Returns (l.recommendations (.text u)) ↔ l.IsClear u least := by
  unfold recommendations
  constructor
  · intro h
    obtain ⟨rs, hrs, h⟩ := h.of_bind
    have howned : ∀ r ∈ l.history, Except.Returns r.userId := by
      intro r hr
      obtain ⟨v, hv, -⟩ := (Except.returns_of_filterE ⟨rs, hrs⟩ r hr).of_bind
      exact ⟨v, hv⟩
    refine ⟨fun r hr => LearningRecord.returns_userId.1 (howned r hr), ?_⟩
    rw [recordsOf_eq howned] at hrs
    cases hrs
    rw [hleast, Except.ok_bind] at h
    split at h
    · rename_i hshort
      exact .inl hshort
    · exact .inr (isSummable_of_returns h)
  · rintro ⟨howned, h⟩
    have hrecords := recordsOf_eq (u := u) fun r hr => LearningRecord.returns_userId.2 (howned r hr)
    refine Except.returns_bind hrecords (Except.returns_bind hleast ?_)
    split
    · exact Except.returns_ok _
    · rename_i hlong
      exact returns_of_isSummable (fun r hr => exists_context_of_recordsBy hr)
        (h.resolve_left hlong)

/-! ## Adaptation -/

/-- An adaptation is stored with the parameters to adopt, and stored again with the recommendations of
the user, if there are any. -/
theorem adapt_runOn {u d : Scalar} {a : Adaptation} {n : Nat}
    {t : Table (Scalar × Scalar) Adaptation}
    (hobtain : (obtainAdaptation (.scalar u) (.scalar d)).runOn l =
      (.ok a, { l with issued := n, adaptations := t })) (data : Value) :
    (adapt (.scalar u) (.scalar d) data).runOn l =
      let a := a.adopt (data.entries?.getD [])
      let t := t.put (u, d) a
      match l.recommendations (.scalar u) with
      | .error f => (.error f, { l with issued := n, adaptations := t })
      | .ok (es, c) =>
        let a := a.recommend es c l.now
        (.ok a, { l with issued := n, adaptations := t.put (u, d) a }) := by
  have hstore (a : Adaptation) (l : Learner) :
      (storeAdaptation (.scalar u) (.scalar d) a).runOn l =
        (.ok (), { l with adaptations := l.adaptations.put (u, d) a }) := rfl
  -- What is recommended follows from the history, which the steps before leave alone.
  have hsame (n : Nat) (t : Table (Scalar × Scalar) Adaptation) :
      recommendations { l with issued := n, adaptations := t } (.scalar u) =
        l.recommendations (.scalar u) := rfl
  unfold adapt
  simp only [runOn_bind, hobtain, hstore, runOn_get, runOn_lift, hsame]
  cases data <;> cases l.recommendations (.scalar u) <;> rfl

/-- Adaptation returns for a user exactly if the history does not block it. -/
theorem returns_adapt {x : Float} {least : Quantity}
    (hdefault : l.config.defaultEffectiveness.toFloat = .ok x)
    (hleast : l.config.minHistory.quantity = .ok least) (u d : String) (es : Entries) :
    Except.Returns ((adapt (.text u) (.text d) (.map es)).runOn l).1 ↔ l.IsClear u least := by
  obtain ⟨a, n, t, hobtain, -⟩ := obtainAdaptation_text hdefault u d
  rw [← returns_recommendations hleast, adapt_runOn hobtain]
  cases l.recommendations (.text u) with
  | ok recommended => exact ⟨fun _ => Except.returns_ok _, fun _ => Except.returns_ok _⟩
  | error e =>
    exact ⟨fun h => absurd h (Except.not_returns_error _),
      fun h => absurd h (Except.not_returns_error _)⟩

/-! ## Calls -/

/-- The task that a context names counts as absent or can be a key. -/
def HasTaskKey : Value → Prop
  | .map cs =>
    let task := Entries.either cs "currentTask" "current_task"
    task.isAbsent = true ∨ ∃ k, task = .scalar k
  | _ => True

/-- The feedback on a record is a map or counts as absent, and tasks can be keys. Other arguments
may be any values. -/
def Command.IsSummable : Command → Prop
  | .learn record => ∀ es, record = .map es →
    ((Entries.field es "feedback").isAbsent = true ∨
      ∃ fs, Entries.field es "feedback" = .map fs) ∧ HasTaskKey (Entries.field es "context")
  | .feedback _ context => HasTaskKey context
  | _ => True

theorem ofRecord_isSummable {record : Value} (hsummable : (Command.learn record).IsSummable)
    (h : LearningRecord.ofRecord record = .ok r) : r.IsSummable := by
  obtain ⟨es, rfl, hfeedback, hcontext⟩ := ofRecord_slots h
  obtain ⟨hform, htask⟩ := hsummable es rfl
  constructor
  · intro v hv
    rw [hv] at hfeedback
    obtain ⟨rfl, hnomap⟩ := readSlot_eq_raw hfeedback
    exact hform.resolve_right fun ⟨fs, hfs⟩ => hnomap fs hfs
  · intro c _ hc
    rw [hc] at hcontext
    obtain ⟨cs, hcs, hread⟩ := readSlot_eq_known hcontext
    rw [hcs] at htask
    rw [(ofRecord_fields hread).2]
    exact htask

theorem feedbackRecord_isSummable {context : Value} {slot : Slot LearningContext}
    (htask : HasTaskKey context) (h : readContext context = .ok slot) (f : Feedback) :
    (feedbackRecord f slot).IsSummable := by
  refine ⟨nofun, ?_⟩
  rintro c - rfl
  unfold readContext at h
  split at h
  · obtain ⟨c, hc, h⟩ := Except.bind_eq_ok.1 h
    cases h
    rw [(ofRecord_fields hc).2]
    exact htask
  · split at h
    · cases h
      exact .inl rfl
    · cases h

theorem behaviorRecord_isSummable {user action context : Value}
    (h : behaviorRecord user action context = .ok r) : r.IsSummable := by
  obtain ⟨-, -, _, -, rfl⟩ := behaviorRecord_eq_ok h
  constructor
  · rintro v ⟨⟩
    rfl
  · rintro c - ⟨⟩
    exact .inl rfl

theorem Command.Learns.isHarmless {c : Command} (hc : c.Learns r) (hformed : c.IsFormed)
    (hsummable : c.IsSummable) : r.IsHarmless := by
  refine ⟨LearningRecord.returns_userId.1 (hc.user?.2 hformed), ?_⟩
  cases c with
  | learn record => exact ofRecord_isSummable hsummable hc
  | feedback feedback context =>
    obtain ⟨f, slot, -, hcontext, rfl⟩ := hc
    exact feedbackRecord_isSummable hsummable hcontext f
  | behavior user action context => exact behaviorRecord_isSummable hc
  | _ => exact hc.elim

/-- No record of a history blocks anyone after calls of these forms. -/
theorem perform_keepsHarmless {c : Command} (hformed : c.IsFormed) (hsummable : c.IsSummable) :
    Keeps (fun l => ∀ r ∈ l.history, r.IsHarmless) (perform c) := by
  refine perform_keepsOf (P := fun core => ∀ r ∈ core.history, r.IsHarmless) fun r hr => ?_
  have hharmless := hr.isHarmless hformed hsummable
  -- The stamp does not touch the feedback and the context.
  exact learn_keepsRecords fun _ =>
    ⟨hharmless.owned, ⟨hharmless.summable.feedback, hharmless.summable.task⟩⟩

/-- **Adaptation.** After any calls, adaptation returns for a user exactly if it can be told whose
each record of the history is, and each record of the user can be summed up or there are too few of
them. After calls whose feedback, contexts and tasks have their forms it returns for all users. -/
theorem adapt_returns_iff {x : Float} {least : Quantity}
    (hdefault : config.defaultEffectiveness.toFloat = .ok x)
    (hleast : config.minHistory.quantity = .ok least) (calls : List (Nat × Command)) (now : Nat)
    (u d : String) (es : Entries) :
    let l : Learner := { after config calls with now }
    (Except.Returns ((adapt (.text u) (.text d) (.map es)).runOn l).1 ↔ l.IsClear u least) ∧
    ((∀ call ∈ calls, call.2.IsFormed ∧ call.2.IsSummable) →
      Except.Returns ((adapt (.text u) (.text d) (.map es)).runOn l).1) := by
  intro l
  have hconfig : l.config = config := after_config config calls
  have hiff := returns_adapt (l := l) (hconfig ▸ hdefault) (hconfig ▸ hleast) u d es
  refine ⟨hiff, fun hcalls => hiff.2 ?_⟩
  have hharmless : ∀ r ∈ (after config calls).history, r.IsHarmless :=
    after_keeps (fun r hr => absurd hr List.not_mem_nil) (fun _ _ hl => hl) fun call hcall =>
      perform_keepsHarmless (hcalls call hcall).1 (hcalls call hcall).2
  refine ⟨fun r hr => (hharmless r hr).owned, .inr fun r hr => ?_⟩
  exact (hharmless r (List.mem_of_mem_filter hr)).summable

/-- A text in place of a context blocks adaptation, also for a user whom it does not name; a context
that names someone else does not. -/
theorem adapt_returns_iff_text :
    let call (context : Value) :=
      Command.learn (.record [("type", .text "custom"), ("context", context)])
    let later (context : Value) : Learner := { after {} [(0, call context)] with now := 1 }
    let adaptation := adapt (.text "v") (.text "d") (.map [])
    ({} : LearningConfig).defaultEffectiveness.toFloat = .ok 0.5 ∧
      ({} : LearningConfig).minHistory.quantity = .ok (.int 10) ∧
      ¬ Except.Returns (adaptation.runOn (later (.text "x"))).1 ∧
      Except.Returns (adaptation.runOn (later (.record [("userId", .text "u")]))).1 := by
  intro call later adaptation
  have hdefault : ({} : LearningConfig).defaultEffectiveness.toFloat = .ok 0.5 := rfl
  have hleast : ({} : LearningConfig).minHistory.quantity = .ok (.int 10) := rfl
  have hiff (context : Value) :=
    adapt_returns_iff hdefault hleast [(0, call context)] 1 "v" "d" []
  refine ⟨hdefault, hleast, fun hreturns => ?_, (hiff _).2 ?_⟩
  · obtain ⟨howned, -⟩ := (hiff (.text "x")).1.1 hreturns
    obtain ⟨r, hr, hcontext⟩ : ∃ r ∈ (later (.text "x")).history, r.context = .raw (.text "x") :=
      ⟨_, List.mem_cons_self, rfl⟩
    exact absurd (howned r hr _ hcontext) (by decide)
  · rw [List.forall_mem_singleton]
    constructor
    · rintro es ⟨⟩
      exact .inr ⟨_, rfl⟩
    · rintro es ⟨⟩
      exact ⟨.inl rfl, .inl rfl⟩

end Learner

end KnowledgeGraph
