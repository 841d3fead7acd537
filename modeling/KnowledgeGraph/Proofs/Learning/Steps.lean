import KnowledgeGraph.Proofs.Learning.Calls
import KnowledgeGraph.Proofs.Learning.Core
import KnowledgeGraph.Proofs.Value.Writable

/-!
# Single steps of a learner

What learning a record does, in one equation: the record is stamped with a time and a session if it
has none, is put at the end of the history, and is processed then (`learn_runOn`); last, the session is
mentioned. The processing leaves the history alone (`process_keepsHistory`). A call keeps what its
operations keep (`perform_keeps`), so that what it does to the core is what learning its records does
(`perform_keepsOf`); the calls that learn none leave it as it is.
-/

namespace KnowledgeGraph.Learner

open Attempt

/-! ## Learning a record -/

/-- A record with a time and a session, which it is given if it has none. -/
def stamp (l : Learner) (r : LearningRecord) : LearningRecord :=
  { r with
    timestamp := r.timestamp.orElse (.count l.now)
    sessionId := if r.sessionId.isAbsent then
      .text s!"session_{l.now}_{String.ofList (hex 16 l.issued)}" else r.sessionId }

/-- The learner with the stamped record at the end of its history. A new session takes an id. -/
def withRecord (l : Learner) (r : LearningRecord) : Learner :=
  { l with
    issued := if r.sessionId.isAbsent then l.issued + 1 else l.issued
    history := l.history ++ [l.stamp r] }

/-- A record is stamped, put at the end of the history, and processed. -/
theorem learn_runOn (r : LearningRecord) (l : Learner) :
    (learn r).runOn l = Attempt.runOn (do
      process (l.stamp r)
      Value.mention [(l.stamp r).sessionId]
      return l.stamp r) (l.withRecord r) := by
  unfold learn newSession newId withRecord stamp
  rw [runOn_bind, runOn_get]
  dsimp only
  cases r.sessionId.isAbsent with
  | true => simp only [if_true, runOn_bind, runOn_get, runOn_set, runOn_pure, runOn_modify]
  | false => simp only [Bool.false_eq_true, if_false, runOn_bind, runOn_pure, runOn_modify]

theorem mention_stamp (l : Learner) (r : LearningRecord) :
    Value.mention [(l.stamp r).sessionId] = Value.mention [r.sessionId] := by
  unfold stamp
  cases habsent : r.sessionId.isAbsent with
  | false => rfl
  | true =>
    have hgiven : Value.mention [r.sessionId] = .ok () :=
      Value.mention_of_forall (by simpa using Value.isWritable_of_isAbsent habsent)
    rw [hgiven]
    exact Value.mention_of_forall (by simp)

/-- Whether the session can be mentioned makes no difference to the state. -/
theorem learn_runOn_snd (r : LearningRecord) (l : Learner) :
    ((learn r).runOn l).2 = ((process (l.stamp r)).runOn (l.withRecord r)).2 := by
  rw [learn_runOn]
  exact runOn_bind_snd (fun _ t => runOn_bind_snd (fun _ _ => rfl) t) (l.withRecord r)

/-! ## Frames -/

/-- What leaves the core of a learner alone keeps every property of the core. -/
theorem KeepsCore.keeps {α : Type} {x : Attempt Learner α} (hx : KeepsCore x) (P : Core → Prop) :
    Keeps (fun l => P l.core) x := by
  intro l hl
  have hcore : (x.runOn l).2.core = l.core := hx l.core l rfl
  show P (x.runOn l).2.core
  rw [hcore]
  exact hl

/-- The learner has the given settings and the given history. -/
def HasHistory (config : LearningConfig) (history : List LearningRecord) (l : Learner) : Prop :=
  l.config = config ∧ l.history = history

section

variable (config : LearningConfig) (history : List LearningRecord)

/-- **Processing.** However a record is processed, the settings and the history stay as they are. -/
theorem process_keepsHistory (r : LearningRecord) :
    Keeps (HasHistory config history) (process r) := by
  have hcore {α : Type} {x : Attempt Learner α} (hx : KeepsCore x) :
      Keeps (HasHistory config history) x :=
    hx.keeps fun c => c.config = config ∧ c.history = history
  exact process_keeps (fun _ hl => hl)
    (fun user given _ => hcore (mergePreferences_keepsCore user given))
    (fun user action context _ =>
      noteBehavior_keeps (fun _ _ hl => hl) (fun _ _ hl => hl) user action context)
    fun user domain data _ => hcore (adapt_keepsCore user domain data)

end

/-- Learning a record adds this one record to the history, also when the processing stops, and
leaves the settings as they are. -/
theorem learn_history (r : LearningRecord) (l : Learner) :
    HasHistory l.config (l.history ++ [l.stamp r]) ((learn r).runOn l).2 := by
  rw [learn_runOn]
  refine Keeps.bind (process_keepsHistory _ _ (l.stamp r)) (fun _ => ?_) (l.withRecord r) ⟨rfl, rfl⟩
  exact (keeps_lift _).bind fun _ => keeps_pure _

theorem learn_eq_ok {r r' : LearningRecord} {l l' : Learner}
    (h : (learn r).runOn l = (.ok r', l')) : r' = l.stamp r ∧ l'.history = l.history ++ [r'] := by
  have hhistory := (learn_history r l).2
  rw [h] at hhistory
  rw [learn_runOn] at h
  obtain ⟨_, _, -, h⟩ := bind_eq_ok.1 h
  obtain ⟨_, -, h⟩ := lift_bind_eq_ok.1 h
  cases h
  exact ⟨rfl, hhistory⟩

/-- Where the attempt returns a record, this is the one record that it adds to the history. -/
def Appends (x : Attempt Learner LearningRecord) : Prop :=
  ∀ l r l', x.runOn l = (.ok r, l') → l'.history = l.history ++ [r]

theorem learn_appends (r : LearningRecord) : Appends (learn r) :=
  fun _ _ _ h => (learn_eq_ok h).2

theorem lift_learn_appends (e : Except Fault LearningRecord) :
    Appends (do learn (← (liftM e : Attempt Learner LearningRecord))) := by
  intro l r l' h
  obtain ⟨r₀, -, h⟩ := lift_bind_eq_ok.1 h
  exact learn_appends r₀ l r l' h

theorem learnFeedback_appends (feedback context : Value) :
    Appends (learnFeedback feedback context) := by
  intro l r l' h
  obtain ⟨_, -, h⟩ := lift_bind_eq_ok.1 h
  obtain ⟨context, -, h⟩ := lift_bind_eq_ok.1 h
  obtain ⟨f, -, h⟩ := lift_bind_eq_ok.1 h
  obtain ⟨r', m, hlearn, h⟩ := bind_eq_ok.1 h
  obtain ⟨_, l'', hnudge, h⟩ := bind_eq_ok.1 h
  cases h
  have hcore : l'.core = m.core := by
    have hkeeps := nudge_keepsCore f context m.core m rfl
    rwa [hnudge] at hkeeps
  rw [← learn_appends _ _ _ _ hlearn]
  exact congrArg Core.history hcore

/-- What the records of a history and the new record have in common, the records have after
learning. -/
theorem learn_keepsRecords {P : LearningRecord → Prop} {r : LearningRecord}
    (hr : ∀ l, P (stamp l r)) : Keeps (fun l => ∀ r ∈ l.history, P r) (learn r) := by
  intro l hl
  show ∀ r' ∈ ((learn r).runOn l).2.history, P r'
  rw [(learn_history r l).2]
  intro r' hr'
  obtain hr' | hr' := List.mem_append.1 hr'
  · exact hl r' hr'
  · rw [List.mem_singleton.1 hr']
    exact hr l

/-! ## Calls -/

/-- The call learns the record. All calls but those of three kinds learn none. -/
def Command.Learns : Command → LearningRecord → Prop
  | .learn record, r => LearningRecord.ofRecord record = .ok r
  | .feedback verdict context, r => ∃ f slot,
    LearningRecord.readSlot Feedback.ofRecord verdict = .ok (.known f) ∧
      readContext context = .ok slot ∧ r = feedbackRecord f slot
  | .behavior user action context, r => behaviorRecord user action context = .ok r
  | _, _ => False

theorem behaviorRecord_eq_ok {user action context : Value} {r : LearningRecord}
    (h : behaviorRecord user action context = .ok r) :
    user.isWritable = true ∧ action.isWritable = true ∧
      ∃ es, context.toMapOrEmpty = .ok es ∧ r = {
        type := LearningType.behavioral.label
        input := .record [("action", .text action.display), ("context", .map es)]
        context := .known { userId := .text user.display } } := by
  obtain ⟨_, hactionText, h⟩ := Except.bind_eq_ok.1 h
  obtain ⟨es, hes, h⟩ := Except.bind_eq_ok.1 h
  obtain ⟨_, huserText, h⟩ := Except.bind_eq_ok.1 h
  obtain ⟨haction, rfl⟩ := Value.toText_eq_ok.1 hactionText
  obtain ⟨huser, rfl⟩ := Value.toText_eq_ok.1 huserText
  cases h
  exact ⟨huser, haction, es, hes, rfl⟩

theorem Slot.get_eq_ok {α : Type} {slot : Slot α} {a : α} : slot.get = .ok a ↔ slot = .known a := by
  cases slot with
  | known b => exact ⟨fun h => congrArg Slot.known (Except.ok.inj h), fun h => by cases h; rfl⟩
  | raw v => exact ⟨nofun, nofun⟩

/-- **Calls.** A call keeps what the operations that it is made of keep: learning a record, nudging
an adaptation, adapting, setting preferences, and creating and training a model, each with the
arguments of the call. The other calls only look at the learner. -/
theorem perform_keepsAll {I : Learner → Prop} {c : Command}
    (hcreate : ∀ type parameters, c = .createModel type parameters →
      Keeps I (createModel type parameters))
    (htrain : ∀ id data, c = .trainModel id data → Keeps I (trainModel id data))
    (hlearn : ∀ r, c.Learns r → Keeps I (learn r))
    (hnudge : ∀ verdict context f slot, c = .feedback verdict context →
      readContext context = .ok slot → Keeps I (nudge f slot))
    (hadapt : ∀ user domain data, c = .adapt user domain data → Keeps I (adapt user domain data))
    (hmerge : ∀ user given, c = .personalize user given → Keeps I (mergePreferences user given)) :
    Keeps I (perform c) := by
  cases c with
  | learn record => exact Keeps.bind (keeps_lift_bind hlearn) fun _ => keeps_lift _
  | feedback verdict context =>
    refine Keeps.bind ?_ fun _ => keeps_lift _
    refine keeps_lift_bind fun slot hslot => keeps_lift_bind fun found hfound => ?_
    refine keeps_lift_bind fun f hf => ?_
    rw [Slot.get_eq_ok.1 hf] at hslot
    refine Keeps.bind (hlearn _ ⟨f, found, hslot, hfound, rfl⟩) fun r => ?_
    exact (hnudge verdict context f found rfl hfound).bind fun _ => keeps_pure _
  | behavior user action context =>
    refine Keeps.bind (keeps_lift_bind fun r hr => ?_) fun _ => keeps_pure _
    exact Keeps.bind (hlearn r hr).discard fun _ => keeps_get.bind fun _ => keeps_lift _
  | adapt user domain data => exact (hadapt user domain data rfl).bind fun _ => keeps_pure _
  | personalize user given => exact (hmerge user given rfl).bind fun _ => keeps_pure _
  | createModel type parameters =>
    exact (hcreate type parameters rfl).bind fun _ => keeps_lift _
  | trainModel id data => exact (htrain id data rfl).bind fun _ => keeps_lift _
  | adaptation _ _ | behaviors _ | predict _ _ | personalization _ | weight _ _ =>
    exact keeps_get.bind fun _ => (keeps_lift _).bind fun _ => keeps_pure _
  | model id => exact keeps_get.bind fun _ => (keeps_lift _).bind fun _ => keeps_lift _
  | models | history => exact keeps_get.bind fun _ => keeps_lift _
  | stats | tables => exact keeps_get.bind fun _ => keeps_pure _

/-- Where models do not matter, a call keeps what its other operations keep. -/
theorem perform_keeps {I : Learner → Prop} {c : Command}
    (hmodels : ∀ l models count, I l → I { l with models, modelCount := count })
    (hlearn : ∀ r, c.Learns r → Keeps I (learn r))
    (hnudge : ∀ verdict context f slot, c = .feedback verdict context →
      readContext context = .ok slot → Keeps I (nudge f slot))
    (hadapt : ∀ user domain data, c = .adapt user domain data → Keeps I (adapt user domain data))
    (hmerge : ∀ user given, c = .personalize user given → Keeps I (mergePreferences user given)) :
    Keeps I (perform c) :=
  perform_keepsAll (fun type parameters _ => createModel_keeps hmodels type parameters)
    (fun id data _ => trainModel_keeps hmodels id data) hlearn hnudge hadapt hmerge

/-- A property of the core is kept by a call, also when it stops at a fault, if it is kept when the
records of the call are learned. -/
theorem perform_keepsOf {P : Core → Prop} {c : Command}
    (hlearn : ∀ r, c.Learns r → Keeps (fun l => P l.core) (learn r)) :
    Keeps (fun l => P l.core) (perform c) :=
  perform_keeps (fun _ _ _ hl => hl) hlearn (fun _ _ f slot _ _ => (nudge_keepsCore f slot).keeps P)
    (fun user domain data _ => (adapt_keepsCore user domain data).keeps P)
    fun user given _ => (mergePreferences_keepsCore user given).keeps P

theorem perform_keepsCore {c : Command} (hc : ∀ r, ¬ c.Learns r) : KeepsCore (perform c) :=
  fun core => perform_keepsOf (P := (· = core)) fun r hr => absurd hr (hc r)

theorem perform_keepsConfig (config : LearningConfig) (c : Command) :
    Keeps (fun l => l.config = config) (perform c) := by
  refine perform_keepsOf (P := fun core => core.config = config) fun r _ l hl => ?_
  exact (learn_history r l).1.trans hl

theorem after_config (config : LearningConfig) (calls : List (Nat × Command)) :
    (after config calls).config = config :=
  after_keeps (I := fun l => l.config = config) rfl (fun _ _ hl => hl)
    fun call _ => perform_keepsConfig config call.2

end KnowledgeGraph.Learner
