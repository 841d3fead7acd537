import KnowledgeGraph.Learning.Command
import KnowledgeGraph.Proofs.Attempt
import KnowledgeGraph.Proofs.Learning.History

/-!
# Calls of a learner

What holds of a learner at the start and is kept by each call holds after any calls (`after_keeps`).
A call is plain when the feedback and the contexts in it have their forms; the records of plain
calls are plain (`ofRecord_plain`, `readContext_plain`).
-/

namespace KnowledgeGraph.Learner

open Attempt

variable {config : LearningConfig} {r : LearningRecord}

/-! ## Runs -/

/-- The learner after some calls, each at a time of its own. A call that stops at a fault is
followed by the next one all the same. -/
def after (config : LearningConfig) (calls : List (Nat × Command)) : Learner :=
  calls.foldl (fun l call => ((perform call.2).runOn { l with now := call.1 }).2) (start config)

theorem after_concat (config : LearningConfig) (calls : List (Nat × Command))
    (call : Nat × Command) : after config (calls ++ [call]) =
      ((perform call.2).runOn { after config calls with now := call.1 }).2 := by
  unfold after
  rw [List.foldl_append]
  rfl

/-- **Runs.** What holds at the start, at any time of the clock, and is kept by each call holds after
all of them. -/
theorem after_keeps {I : Learner → Prop} {calls : List (Nat × Command)} (hstart : I (start config))
    (hclock : ∀ l now, I l → I { l with now }) (hcalls : ∀ call ∈ calls, Keeps I (perform call.2)) :
    I (after config calls) := by
  unfold after
  suffices hrun : ∀ l, I l →
      I (calls.foldl (fun l call => ((perform call.2).runOn { l with now := call.1 }).2) l) from
    hrun _ hstart
  induction calls with
  | nil => exact fun _ hl => hl
  | cons call rest ih =>
    intro l hl
    have hnext : I ((perform call.2).runOn { l with now := call.1 }).2 :=
      hcalls call List.mem_cons_self _ (hclock l call.1 hl)
    exact ih (fun c hc => hcalls c (List.mem_cons_of_mem _ hc)) _ hnext

/-! ## Records of calls -/

theorem readSlot_eq_known {α : Type} {reader : Value → Except Fault α} {v : Value} {a : α}
    (h : LearningRecord.readSlot reader v = .ok (.known a)) :
    ∃ es, v = .map es ∧ reader (.map es) = .ok a := by
  unfold LearningRecord.readSlot at h
  split at h
  · obtain ⟨a', ha, h⟩ := Except.bind_eq_ok.1 h
    cases h
    exact ⟨_, rfl, ha⟩
  · cases h

theorem readSlot_eq_raw {α : Type} {reader : Value → Except Fault α} {v w : Value}
    (h : LearningRecord.readSlot reader v = .ok (.raw w)) : w = v ∧ ∀ es, v ≠ .map es := by
  unfold LearningRecord.readSlot at h
  split at h
  · obtain ⟨a, -, h⟩ := Except.bind_eq_ok.1 h
    cases h
  · rename_i hnomap
    cases h
    exact ⟨rfl, hnomap⟩

theorem ofRecord_fields {es : Entries} {c : LearningContext}
    (h : LearningContext.ofRecord (.map es) = .ok c) :
    c.userId = Entries.either es "userId" "user_id" ∧
      c.currentTask = Entries.either es "currentTask" "current_task" := by
  unfold LearningContext.ofRecord at h
  obtain ⟨_, -, h⟩ := Except.bind_eq_ok.1 h
  obtain ⟨_, -, h⟩ := Except.bind_eq_ok.1 h
  cases h
  exact ⟨rfl, rfl⟩

/-- A record is read from a map, and its feedback and its context from the fields of their names. -/
theorem ofRecord_slots {record : Value} (h : LearningRecord.ofRecord record = .ok r) :
    ∃ es, record = .map es ∧
      LearningRecord.readSlot Feedback.ofRecord (Entries.field es "feedback") = .ok r.feedback ∧
      LearningRecord.readSlot LearningContext.ofRecord (Entries.field es "context") =
        .ok r.context := by
  unfold LearningRecord.ofRecord at h
  split at h
  · rename_i es
    obtain ⟨type, -, h⟩ := Except.bind_eq_ok.1 h
    obtain ⟨feedback, hfeedback, h⟩ := Except.bind_eq_ok.1 h
    obtain ⟨context, hcontext, h⟩ := Except.bind_eq_ok.1 h
    split at h
    · split at h
      · cases h
      · obtain ⟨priority, -, h⟩ := Except.bind_eq_ok.1 h
        cases h
        exact ⟨es, rfl, hfeedback, hcontext⟩
    · cases h
  · cases h

/-! ## Plain calls -/

/-- The user and the task that a context names are texts or null. -/
def IsPlainContext (es : Entries) : Prop :=
  (Entries.either es "userId" "user_id").IsTextOrNull ∧
    (Entries.either es "currentTask" "current_task").IsTextOrNull

/-- A call in which the feedback and the context of a record are null or maps, and users and tasks
are texts or null. Other calls may have any arguments. -/
def Command.IsPlain : Command → Prop
  | .learn record => ∀ es, record = .map es →
    (Entries.field es "feedback" = .null ∨ ∃ fs, Entries.field es "feedback" = .map fs) ∧
    (Entries.field es "context" = .null ∨
      ∃ cs, Entries.field es "context" = .map cs ∧ IsPlainContext cs)
  | .feedback _ context =>
    (∃ cs, context = .map cs ∧ IsPlainContext cs) ∨
      context.entries? = none ∧ context.isAbsent = true
  | _ => True

theorem context_plain {es : Entries} {c : LearningContext} (hes : IsPlainContext es)
    (h : LearningContext.ofRecord (.map es) = .ok c) :
    c.userId.IsTextOrNull ∧ c.currentTask.IsTextOrNull := by
  obtain ⟨huser, htask⟩ := ofRecord_fields h
  rw [huser, htask]
  exact hes

/-- A slot of a record is read as empty or as known, if the value is null or a map. -/
theorem readSlot_null_or_map {α : Type} {P : α → Prop} {reader : Value → Except Fault α} {v : Value}
    {slot : Slot α} (hv : v = .null ∨ ∃ es, v = .map es ∧ ∀ a, reader (.map es) = .ok a → P a)
    (h : LearningRecord.readSlot reader v = .ok slot) :
    slot = .empty ∨ ∃ a, slot = .known a ∧ P a := by
  unfold LearningRecord.readSlot at h
  obtain rfl | ⟨es, rfl, hreader⟩ := hv
  · cases h
    exact .inl rfl
  · obtain ⟨a, ha, h⟩ := Except.bind_eq_ok.1 h
    cases h
    exact .inr ⟨a, rfl, hreader a ha⟩

theorem ofRecord_plain {record : Value} (hplain : (Command.learn record).IsPlain)
    (h : LearningRecord.ofRecord record = .ok r) : r.IsPlain := by
  obtain ⟨es, rfl, hf, hc⟩ := ofRecord_slots h
  obtain ⟨hfeedback, hcontext⟩ := hplain es rfl
  have hfeedback : r.feedback = .empty ∨ ∃ f, r.feedback = .known f ∧ True := by
    refine readSlot_null_or_map ?_ hf
    obtain hnull | ⟨fs, hfs⟩ := hfeedback
    · exact .inl hnull
    · exact .inr ⟨fs, hfs, fun _ _ => trivial⟩
  have hcontext : r.context = .empty ∨ ∃ c, r.context = .known c ∧ c.userId.IsTextOrNull ∧
      c.currentTask.IsTextOrNull := by
    refine readSlot_null_or_map ?_ hc
    obtain hnull | ⟨cs, hcs, hplain⟩ := hcontext
    · exact .inl hnull
    · exact .inr ⟨cs, hcs, fun _ => context_plain hplain⟩
  exact ⟨by simpa only [and_true] using hfeedback, hcontext⟩

theorem readContext_plain {feedback context : Value} {slot : Slot LearningContext}
    (hplain : (Command.feedback feedback context).IsPlain) (h : readContext context = .ok slot) :
    ∃ c, slot = .known c ∧ c.userId.IsTextOrNull ∧ c.currentTask.IsTextOrNull := by
  unfold readContext at h
  split at h
  · rename_i cs
    obtain ⟨c, hc, h⟩ := Except.bind_eq_ok.1 h
    cases h
    obtain ⟨_, heq, hcs⟩ | ⟨hnone, -⟩ := hplain
    · cases heq
      exact ⟨c, rfl, context_plain hcs hc⟩
    · cases hnone
  · rename_i hnomap
    obtain ⟨cs, rfl, -⟩ | ⟨-, habsent⟩ := hplain
    · exact absurd rfl (hnomap cs)
    · rw [habsent] at h
      cases h
      exact ⟨{}, rfl, .inl rfl, .inl rfl⟩

end KnowledgeGraph.Learner
