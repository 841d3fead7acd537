import KnowledgeGraph.Proofs.Learning.Models
import KnowledgeGraph.Proofs.Learning.Replay
import KnowledgeGraph.Proofs.Learning.Weights

/-!
# Ranges of what is learned

By default everything that is learned stays in its range, whatever the calls (`after_inRange`): the
effectiveness of an adaptation and so every weight, how often a behaviour was seen and the confidence
in it (`Behavior.InRange`), and the accuracy of a model and the confidence in it
(`LearningModel.InRange`). Each operation keeps all of these, also when it stops at a fault. The
statistics of tasks and the values of actions are those of the history, which is taken into tables
without rounding for this (`Tables.replay`); for these the feedback must be null or a map.
-/

namespace KnowledgeGraph

/-- A behaviour was seen at least once, and the confidence in it is between a half and one. -/
structure Behavior.InRange (b : Behavior) : Prop where
  frequency : 1 ≤ b.frequency
  confidence : ∃ x, b.confidence = .float x ∧ 0.5 ≤ x ∧ x ≤ 1

/-- The accuracy of a model is missing or in the unit interval, and the confidence in it missing or
between a tenth and nine tenths. -/
structure LearningModel.InRange (m : LearningModel) : Prop where
  accuracy : ∀ x, m.accuracy = some x → InUnit x
  confidence : ∀ x, m.confidence = some x → 0.1 ≤ x ∧ x ≤ 0.9

namespace Learner

open Attempt

variable {l : Learner} {r : LearningRecord}

/-! ## Weights -/

theorem inUnit_of_half_le {x : Float} (h : 0.5 ≤ x) (h' : x ≤ 1) : InUnit x :=
  ⟨le_of_le_le inUnit_half.1 h, h'⟩

theorem IsBounded.weightIn_inRange (hl : l.IsBounded) (user domain : Scalar) :
    0.5 ≤ l.weightIn user domain ∧ l.weightIn user domain ≤ 1.5 := by
  unfold weightIn
  split
  · rename_i a ha
    have heffectiveness : InUnit a.effectiveness := hl a (Table.mem_values_of_lookup? ha)
    have hhigh : (0.5 + 1 : Float) ≤ 1.5 := by decide +kernel
    exact ⟨inUnit_half.isModest.le_add heffectiveness.isModest
        (inUnit_iff_value.1 heffectiveness).2.1,
      le_of_le_le (half_add_le heffectiveness inUnit_one heffectiveness.2) hhigh⟩
  · decide +kernel

theorem IsBounded.weight_inRange (hl : l.IsBounded) {user domain : Value} {w : Float}
    (h : l.weight user domain = .ok w) : 0.5 ≤ w ∧ w ≤ 1.5 := by
  unfold weight adaptation? at h
  obtain ⟨found, hfound, h⟩ := Except.bind_eq_ok.1 h
  obtain ⟨key, -, hfound⟩ := Except.bind_eq_ok.1 hfound
  cases hfound
  have hrange := hl.weightIn_inRange key.1 key.2
  unfold weightIn at hrange
  split at h
  · rename_i a ha
    cases h
    rwa [ha] at hrange
  · rename_i hnone
    cases h
    rwa [hnone] at hrange

/-! ## Behaviours -/

/-- A confidence between a half and one that is raised by a hundredth stays so. -/
theorem raise_inRange {x : Float} (h : 0.5 ≤ x) (h' : x ≤ 1) :
    ∃ y, Behavior.raise (.float x) (.float 0.01) = .ok (.float y) ∧ 0.5 ≤ y ∧ y ≤ 1 := by
  have hstep : InUnit 0.01 := by
    unfold InUnit
    decide +kernel
  have hraised : 0.5 ≤ x + 0.01 := le_of_le_le h
    ((inUnit_of_half_le h h').isModest.le_add hstep.isModest (inUnit_iff_value.1 hstep).2.1)
  have hraise : Behavior.raise (.float x) (.float 0.01) =
      .ok (.ofQuantity ((Quantity.float 1).least (.float (x + 0.01)))) := rfl
  rw [hraise]
  unfold Quantity.least
  by_cases hless : (Quantity.float (x + 0.01)).less (.float 1) = true
  · rw [if_pos hless]
    exact ⟨x + 0.01, rfl, hraised, le_of_less (Quantity.less_float.1 hless)⟩
  · rw [if_neg hless]
    exact ⟨1, rfl, by decide +kernel, by decide +kernel⟩

/-- By default all behaviours of a learner are in their range. -/
def HasBehaviorsInRange (l : Learner) : Prop :=
  l.config = {} ∧ ∀ t ∈ l.behaviors.values, ∀ b ∈ t.values, b.InRange

theorem storeBehavior_keepsInRange (key : Scalar) {b : Behavior} (hb : b.InRange) :
    Keeps HasBehaviorsInRange (storeBehavior key b) := by
  refine keeps_modify fun l hl => ⟨hl.1, ?_⟩
  have hput (t : Table String Behavior) (ht : ∀ b ∈ t.values, b.InRange) :
      ∀ b' ∈ (t.put b.action b).values, b'.InRange := by
    intro b' hb'
    obtain rfl | hb' := Table.mem_values_put hb'
    · exact hb
    · exact ht b' hb'
  show ∀ t ∈ (l.behaviors.alter key [] (Table.put · b.action b)).values, ∀ b ∈ t.values, b.InRange
  apply Table.forall_values_alter (P := fun t : Table String Behavior => ∀ b ∈ t.values, b.InRange)
  · exact List.forall_mem_nil _
  · exact hput
  · exact hl.2

theorem noteBehavior_keepsInRange (user : Value) (action : String) (context : Entries) :
    Keeps HasBehaviorsInRange (noteBehavior user action context) := by
  refine (keeps_lift _).bind fun key => keeps_get_bind fun l hl => ?_
  split
  · rename_i b hfound
    obtain ⟨t, ht, hb⟩ : ∃ t ∈ l.behaviors.values, b ∈ t.values := by
      cases hrow : l.behaviors.lookup? key with
      | none =>
        rw [hrow] at hfound
        cases hfound
      | some t =>
        rw [hrow] at hfound
        exact ⟨t, Table.mem_values_of_lookup? hrow, Table.mem_values_of_lookup? hfound⟩
    obtain ⟨hfrequency, x, hx, hlow, hhigh⟩ := hl.2 t ht b hb
    have hcount : b.count.InRange := ⟨Nat.le_add_left 1 b.frequency, x, hx, hlow, hhigh⟩
    obtain ⟨y, hy, hlow', hhigh'⟩ := raise_inRange hlow hhigh
    refine Keeps.bind (storeBehavior_keepsInRange key hcount) (fun _ => ?_) l hl
    refine keeps_get_bind fun l' hl' => ?_
    refine keeps_lift_bind (fun b' hb' => storeBehavior_keepsInRange key ?_) l' hl'
    have hagain : b.count.again l'.config.behaviorStep context l'.now =
        .ok { b.count with confidence := .float y, context, lastSeen := l'.now } := by
      have hstep : l'.config.behaviorStep = .float 0.01 := by rw [hl'.1]
      have hconfidence : b.count.confidence = .float x := hx
      unfold Behavior.again
      rw [hstep, hconfidence, hy]
      rfl
    rw [hagain] at hb'
    cases hb'
    exact ⟨hcount.frequency, y, rfl, hlow', hhigh'⟩
  · refine Keeps.bind (newId_keeps fun _ _ hl => hl) (fun id => ?_) l hl
    refine keeps_get_bind fun l' hl' => ?_
    refine storeBehavior_keepsInRange key ⟨Nat.le_refl 1, 0.5, ?_, ?_, ?_⟩ l' hl'
    · show l'.config.behaviorStart = .float 0.5
      rw [hl'.1]
    · decide +kernel
    · decide +kernel

theorem learn_keepsBehaviors (r : LearningRecord) : Keeps HasBehaviorsInRange (learn r) := by
  intro l hl
  rw [learn_runOn_snd]
  have hprocess : Keeps HasBehaviorsInRange (process (l.stamp r)) :=
    process_keeps (fun _ hl => hl)
      (fun user given _ => mergePreferences_keeps (fun _ _ hl => hl) user given)
      (fun user action context _ => noteBehavior_keepsInRange user action context)
      fun user domain data _ => (Stores.any (fun _ _ hl => hl) fun _ _ hl => hl).adapt user domain data
  exact hprocess (l.withRecord r) hl

/-- **Behaviours.** By default no call takes a behaviour out of its range. -/
theorem perform_keepsBehaviors (c : Command) : Keeps HasBehaviorsInRange (perform c) :=
  perform_keepsOf (P := fun core => core.config = {} ∧
    ∀ t ∈ core.behaviors.values, ∀ b ∈ t.values, b.InRange) fun r _ => learn_keepsBehaviors r

/-! ## Models -/

/-- A number of the unit interval and a tenth are at least a tenth. -/
theorem tenth_le_add {x : Float} (hx : InUnit x) : 0.1 ≤ x + 0.1 := by
  obtain ⟨hfinite, hvalue⟩ := hx.isModest.add inUnit_tenth.isModest
  rw [le_iff_value inUnit_tenth.isFinite hfinite, hvalue]
  calc value 0.1 = rounded (value 0.1) := (rounded_value inUnit_tenth.isFinite).symm
    _ ≤ rounded (value x + value 0.1) := rounded_mono (by linarith [(inUnit_iff_value.1 hx).2.1])

theorem rate_inRange (m : LearningModel) (accuracy : Float) (samples now : Nat) :
    (m.rate accuracy samples now).InRange := by
  have haccuracy := inUnit_clampUnit accuracy
  refine ⟨?_, ?_⟩
  · rintro x ⟨⟩
    exact haccuracy
  · rintro x ⟨⟩
    unfold least
    by_cases hless : clampUnit accuracy + 0.1 < 0.9
    · rw [if_pos hless]
      exact ⟨tenth_le_add haccuracy, le_of_less hless⟩
    · rw [if_neg hless]
      decide +kernel

/-- All models of a learner are in their range. -/
def HasModelsInRange (l : Learner) : Prop := ∀ m ∈ l.models.values, m.InRange

theorem storeModel_keepsInRange {m : LearningModel} (hm : m.InRange) :
    Keeps HasModelsInRange (storeModel m) := by
  refine keeps_modify fun l hl m' hm' => ?_
  obtain rfl | hm' := Table.mem_values_put hm'
  · exact hm
  · exact hl m' hm'

theorem createModel_keepsInRange (type parameters : Value) :
    Keeps HasModelsInRange (createModel type parameters) := by
  intro l hl
  rw [createModel_runOn]
  split
  · exact hl
  · intro m hm
    obtain rfl | hm := Table.mem_values_put hm
    · exact ⟨nofun, nofun⟩
    · exact hl m hm

theorem trainModel_keepsInRange (id data : Value) :
    Keeps HasModelsInRange (trainModel id data) := by
  refine (keeps_lift _).bind fun batch => keeps_get_bind fun l hl => ?_
  refine keeps_lift_bind (fun found hfound => ?_) l hl
  split
  · exact (keeps_lift _).bind fun _ => keeps_throw _
  · rename_i m
    obtain ⟨s, -, hlookup⟩ := model?_eq_ok.1 hfound
    obtain ⟨haccuracy, hconfidence⟩ := hl m (Table.mem_values_of_lookup? hlookup)
    have hextended : (m.extend batch).InRange := ⟨haccuracy, hconfidence⟩
    refine (storeModel_keepsInRange hextended).bind fun _ => (keeps_lift _).bind fun ratings => ?_
    refine keeps_get.bind fun l' => (keeps_lift _).bind fun accuracy => ?_
    exact (storeModel_keepsInRange (rate_inRange _ _ _ _)).bind fun _ => keeps_pure _

/-- **Models.** No call takes a model out of its range, also when it stops at a fault. -/
theorem perform_keepsModelsInRange (c : Command) : Keeps HasModelsInRange (perform c) :=
  perform_keepsModels (fun _ _ _ hmodels _ hl m hm => hl m (hmodels ▸ hm))
    (fun type parameters _ => createModel_keepsInRange type parameters)
    fun id data _ => trainModel_keepsInRange id data

/-! ## Records -/

/-- A call in which the feedback of a record is null or a map, and no task is a not-a-number without a
mark, which no value is that was read. Other calls may have any arguments. -/
def Command.IsRatable : Command → Prop
  | .learn record => ∀ es, record = .map es →
    (Entries.field es "feedback" = .null ∨ ∃ fs, Entries.field es "feedback" = .map fs) ∧
    ∀ cs, Entries.field es "context" = .map cs →
      (Entries.either cs "currentTask" "current_task").IsMarked
  | .feedback _ context => ∀ cs, context = .map cs →
    (Entries.either cs "currentTask" "current_task").IsMarked
  | _ => True

theorem rating_within {v : Value} {f : Feedback} (h : Feedback.ofRecord v = .ok f) :
    1 ≤ f.rating ∧ f.rating ≤ 5 := by
  unfold Feedback.ofRecord at h
  split at h
  · obtain ⟨rating, -, h⟩ := Except.bind_eq_ok.1 h
    obtain ⟨outcome, -, h⟩ := Except.bind_eq_ok.1 h
    cases h
    exact clamp_within (by decide +kernel) rating
  · cases h

theorem context_isMarked {cs : Entries} {c : LearningContext}
    (hmarked : (Entries.either cs "currentTask" "current_task").IsMarked)
    (h : LearningContext.ofRecord (.map cs) = .ok c) : c.currentTask.IsMarked := by
  rw [(ofRecord_fields h).2]
  exact hmarked

theorem Command.Learns.isRated {c : Command} (h : c.Learns r) (hc : c.IsRatable) : r.IsRated := by
  cases c with
  | learn record =>
    obtain ⟨es, rfl, hfeedback, hcontext⟩ := ofRecord_slots h
    obtain ⟨hf, hmarked⟩ := hc es rfl
    refine ⟨?_, fun c hslot => ?_⟩
    · refine readSlot_null_or_map ?_ hfeedback
      obtain hnull | ⟨fs, hfs⟩ := hf
      · exact .inl hnull
      · exact .inr ⟨fs, hfs, fun _ => rating_within⟩
    · rw [hslot] at hcontext
      obtain ⟨cs, hcs, hread⟩ := readSlot_eq_known hcontext
      exact context_isMarked (hmarked cs hcs) hread
  | feedback verdict context =>
    obtain ⟨f, slot, hf, hcontext, rfl⟩ := h
    obtain ⟨es, -, hread⟩ := readSlot_eq_known hf
    refine ⟨.inr ⟨f, rfl, rating_within hread⟩, fun c hslot => ?_⟩
    change slot = .known c at hslot
    rw [hslot] at hcontext
    unfold readContext at hcontext
    split at hcontext
    · rename_i cs
      obtain ⟨c', hread, hcontext⟩ := Except.bind_eq_ok.1 hcontext
      cases hcontext
      exact context_isMarked (hc cs rfl) hread
    · split at hcontext
      · cases hcontext
        rintro x ⟨⟩
      · cases hcontext
  | behavior user action context =>
    obtain ⟨-, -, _, -, rfl⟩ := behaviorRecord_eq_ok h
    refine ⟨.inl rfl, ?_⟩
    rintro c ⟨⟩ x ⟨⟩
  | _ => exact h.elim

/-- The records of ratable calls are rated, also those of calls that stop at a fault. -/
theorem after_isRated {config : LearningConfig} {calls : List (Nat × Command)}
    (hcalls : ∀ call ∈ calls, call.2.IsRatable) :
    ∀ r ∈ (after config calls).history, r.IsRated := by
  refine after_keeps (I := fun l => ∀ r ∈ l.history, r.IsRated) (List.forall_mem_nil _)
    (fun _ _ hl => hl) fun call hcall => ?_
  refine perform_keepsOf (P := fun core => ∀ r ∈ core.history, r.IsRated) fun r hr => ?_
  obtain ⟨hfeedback, htask⟩ := hr.isRated (hcalls call hcall)
  exact learn_keepsRecords fun _ => ⟨hfeedback, htask⟩

/-! ## Runs -/

/-- **Ranges.** By default, after any calls, failed ones included: every effectiveness is in the unit
interval and every weight between a half and one and a half; behaviours and models are in their
ranges; the tables are those of the history. Where the feedback of records is null or a map, the counts
of each task are in order, and without rounding, which does not change them, the ratings add up to
between one and five for each feedback. Where moreover the rewards that records name are between minus
one and one, so are the values of actions, with and without rounding. -/
theorem after_inRange {calls : List (Nat × Command)} (hcalls : ∀ call ∈ calls, call.2.IsRatable) :
    let l := after {} calls
    (∀ a ∈ l.adaptations.values, InUnit a.effectiveness) ∧
    (∀ user domain w, l.weight user domain = .ok w → 0.5 ≤ w ∧ w ≤ 1.5) ∧
    (∀ t ∈ l.behaviors.values, ∀ b ∈ t.values, b.InRange) ∧
    (∀ m ∈ l.models.values, m.InRange) ∧
    l.tables = Tables.replay (.float 0.1) l.history ∧
    (∀ s ∈ l.tables.tasks.values, s.IsCounted) ∧
    (Tables.replay (ν := ℚ) (.float 0.1) l.history).counts = l.tables.counts ∧
    (∀ s ∈ (Tables.replay (ν := ℚ) (.float 0.1) l.history).tasks.values, s.IsSound) ∧
    ((∀ r ∈ l.history, r.learningType = .reinforcement → r.IsFair) →
      (∀ v ∈ (Tables.replay (ν := ℚ) (.float 0.1) l.history).actions.values, |v| ≤ 1) ∧
      ∀ v ∈ l.tables.actions.values, IsSigned v) := by
  intro l
  have hbounded : l.IsBounded := after_isBounded {} calls
  have hbehaviors : l.HasBehaviorsInRange :=
    after_keeps ⟨rfl, List.forall_mem_nil _⟩ (fun _ _ hl => hl)
      fun call _ => perform_keepsBehaviors call.2
  have hmodels : l.HasModelsInRange := after_keeps (List.forall_mem_nil _) (fun _ _ hl => hl)
    fun call _ => perform_keepsModelsInRange call.2
  have htables : l.tables = Tables.replay (.float 0.1) l.history := after_tables {} calls
  have hrated : ∀ r ∈ l.history, r.IsRated := after_isRated hcalls
  refine ⟨hbounded, fun _ _ _ => hbounded.weight_inRange, hbehaviors.2, hmodels, htables, ?_, ?_,
    Tables.replay_isSound hrated, fun hfair => ⟨Tables.abs_replay_le hrated hfair, ?_⟩⟩
  · rw [htables]
    exact Tables.replay_isCounted hrated
  · rw [htables]
    exact Tables.counts_replay hrated
  · rw [htables]
    exact Tables.isSigned_replay hrated hfair

/-- Feedback, a reward and a training leave everything in its range. -/
theorem after_inRange_mixed :
    let praise := Value.record [("rating", .int 9), ("helpful", .bool true)]
    let reward : Command := .learn (.record [("type", .text "reinforcement"),
      ("input", .record [("action", .text "save"), ("reward", .float (-1))])])
    let calls := [(0, .feedback praise (.record [("currentTask", .text "edit")])),
      (1, reward), (2, .behavior (.text "ann") (.text "save") .null)]
    (after {} calls).tables.actions.keys = ["save"] ∧
      (∀ v ∈ (after {} calls).tables.actions.values, IsSigned v) ∧
      ∀ s ∈ (Tables.replay (ν := ℚ) (.float 0.1) (after {} calls).history).tasks.values,
        s.IsSound := by
  intro praise reward calls
  have hreward : reward.IsRatable := by
    rintro es ⟨⟩
    exact ⟨.inl rfl, nofun⟩
  have hcalls : ∀ call ∈ calls, call.2.IsRatable := by
    simp only [calls, List.forall_mem_cons]
    refine ⟨?_, hreward, trivial, List.forall_mem_nil _⟩
    rintro cs ⟨⟩ x ⟨⟩
  obtain ⟨-, -, -, -, -, -, -, hsound, hactions⟩ := after_inRange hcalls
  refine ⟨by decide +kernel, (hactions ?_).2, hsound⟩
  have hhistory : ∀ r ∈ (after {} calls).history, r.learningType = .reinforcement →
      Entries.get? r.payload "reward" = some (.float (-1)) := by
    decide +kernel
  intro r hr htype _ x hx
  rw [hhistory r hr htype] at hx
  cases hx
  unfold IsSigned
  decide +kernel

end Learner

end KnowledgeGraph
