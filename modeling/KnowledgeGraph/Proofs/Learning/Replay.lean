import KnowledgeGraph.Proofs.Learning.Mirror
import KnowledgeGraph.Proofs.Number.Bounds
import KnowledgeGraph.Proofs.Value.Same

/-!
# Tables without rounding

The tables of a learner are those that come out when the records of its history are taken into empty
tables one after the other (`after_tables`). The same can be done in any arithmetic
(`Tables.replay`), in the rational numbers without rounding. What each record keeps holds of the
result (`Tables.replay_keeps`): of the statistics of a task, the helpful feedback is no more than the
feedback, and the feedback no more than the records; without rounding the ratings add up to between
one and five times as many (`TaskStats.IsSound`); and where the rewards are between minus one and one,
the values of actions are so, too, with rounding and without.
-/

namespace KnowledgeGraph

open Attempt

/-- Rational numbers are computed with exactly, and a float stands for its value. -/
instance : Arithmetic ℚ where
  ofFloat := value

/-! ## Records -/

/-- A not-a-number carries the mark that it was read with. -/
def Value.IsMarked (v : Value) : Prop := ∀ x, v = .float x → x.isNaN = false

theorem Scalar.same_self {k : Scalar} (h : Value.IsMarked (.scalar k)) : Key.same k k = true := by
  obtain ⟨i, hi⟩ : ∃ i, k.identity? = some i := by
    cases k with
    | float x =>
      have hx : x.toModel.unpack.isNaN = false := h x rfl
      show ∃ i, (Quantity.pointOf? x.toModel.unpack).map Identity.point = some i
      generalize x.toModel.unpack = u at hx
      cases u with
      | notANumber => cases hx
      | infinity _ | zero _ | finite _ _ _ _ => exact ⟨_, rfl⟩
    | _ => exact ⟨_, rfl⟩
  exact Scalar.same_iff.2 ⟨i, hi, hi⟩

namespace LearningRecord

/-- The feedback of a record is missing or has a rating from one to five, and its task can be found
again. -/
structure IsRated (r : LearningRecord) : Prop where
  feedback : r.feedback = .empty ∨ ∃ f, r.feedback = .known f ∧ 1 ≤ f.rating ∧ f.rating ≤ 5
  task : ∀ c, r.context = .known c → c.currentTask.IsMarked

/-- A record without feedback names no reward, or one between minus one and one. -/
def IsFair (r : LearningRecord) : Prop :=
  r.feedback.isAbsent = true → ∀ x,
    ((Entries.get? r.payload "reward").getD (.float 0)).toFloat = .ok x → IsSigned x

end LearningRecord

def TaskStats.add {ν : Type} [Arithmetic ν] (s : TaskStats ν) (r : LearningRecord) : TaskStats ν :=
  match r.feedback with
  | .known f =>
    { records := s.records + 1
      feedback := s.feedback + 1
      helpful := s.helpful + (if f.helpful then 1 else 0)
      ratingTotal := s.ratingTotal + Arithmetic.ofFloat f.rating }
  | .raw _ => { s with records := s.records + 1 }

namespace Tables

variable {ν : Type} [Arithmetic ν] {rate : Value} {history : List LearningRecord}
  {r : LearningRecord}

/-! ## Replaying a history -/

/-- The tables after the records of a history, one after the other. -/
def replay (rate : Value) (history : List LearningRecord) : Tables ν :=
  history.foldl (fun t r => ((learn rate r).runOn t).2) {}

theorem replay_concat : replay (ν := ν) rate (history ++ [r]) =
    ((learn rate r).runOn (replay rate history)).2 := by
  unfold replay
  rw [List.foldl_append]
  rfl

/-- What holds of empty tables and is kept by each record holds after the whole history. -/
theorem replay_keeps {I : Tables ν → Prop} (hstart : I {})
    (hlearn : ∀ r ∈ history, Keeps I (learn rate r)) : I (replay rate history) := by
  induction history using List.reverseRecOn with
  | nil => exact hstart
  | append_singleton history r ih =>
    rw [replay_concat]
    apply hlearn r (by simp)
    exact ih fun r' hr' => hlearn r' (by simp [hr'])

/-! ## Tasks -/

theorem alterTask_alterTask {k : Scalar} (hk : Key.same k k = true) (f g : TaskStats ν → TaskStats ν)
    (t : Tables ν) : (t.alterTask k f).alterTask k g = t.alterTask k (g ∘ f) := by
  unfold alterTask
  dsimp only
  rw [Table.alter_alter hk]

theorem taskOf_isMarked (hr : r.IsRated) {v : Value} (h : taskOf r = .ok v) : v.IsMarked := by
  unfold taskOf at h
  obtain ⟨context, hcontext, h⟩ := Except.bind_eq_ok.1 h
  cases h
  unfold Value.orElse
  split
  · rintro x ⟨⟩
  · cases context with
    | none => rintro x ⟨⟩
    | some c =>
      apply hr.task c
      cases hslot : r.context with
      | known c' =>
        rw [hslot] at hcontext
        cases hcontext
        rfl
      | raw w =>
        rw [hslot] at hcontext
        unfold Slot.get? at hcontext
        dsimp only at hcontext
        split at hcontext <;> cases hcontext

/-- The key of the task that a record is counted for, none if its task cannot be a key. -/
def rowOf? (r : LearningRecord) : Option Scalar :=
  match taskOf r with
  | .ok (.scalar k) => some k
  | _ => none

/-- A record changes the statistics of one task at most, and those by one step. -/
theorem learnTask_alters (hr : r.IsRated) (t : Tables ν) :
    ((learnTask r).runOn t).2 = match rowOf? r with
      | some k => t.alterTask k fun s => s.add r
      | none => t := by
  unfold learnTask rowOf?
  rw [runOn_bind, runOn_lift]
  cases htask : taskOf r with
  | error e => rfl
  | ok v =>
    have hmarked := taskOf_isMarked hr htask
    dsimp only
    rw [runOn_bind, runOn_lift]
    cases v with
    | list items | map es => rfl
    | scalar k =>
      have hk := Scalar.same_self hmarked
      dsimp only [Value.toKey]
      rw [runOn_bind, runOn_modify]
      dsimp only
      obtain hempty | ⟨f, hknown, -, -⟩ := hr.feedback
      · have hadd : (fun s : TaskStats ν => s.add r) = fun s => { s with records := s.records + 1 } := by
          funext s
          unfold TaskStats.add
          rw [hempty]
          rfl
        rw [hempty, hadd]
        rfl
      · have hadd : (fun s : TaskStats ν => s.add r) = (fun s => { s with
              helpful := s.helpful + (if f.helpful then 1 else 0)
              ratingTotal := s.ratingTotal + Arithmetic.ofFloat f.rating }) ∘
            (fun s => { s with feedback := s.feedback + 1 }) ∘
            fun s => { s with records := s.records + 1 } := by
          funext s
          unfold TaskStats.add
          rw [hknown]
          rfl
        rw [hknown, hadd, ← alterTask_alterTask hk, ← alterTask_alterTask hk]
        rfl

theorem learnTask_keepsActions (r : LearningRecord) (actions : Table String ν) :
    Keeps (fun t => t.actions = actions) (learnTask r) := by
  refine (keeps_lift _).bind fun task => (keeps_lift _).bind fun key => ?_
  refine Keeps.bind (keeps_modify fun _ ht => ht) fun _ => ?_
  split
  · refine Keeps.bind (keeps_modify fun _ ht => ht) fun _ => ?_
    exact (keeps_lift _).bind fun f => keeps_modify fun _ ht => ht
  · exact keeps_pure _

omit [Arithmetic ν] in
theorem learnFeatures_keeps {I : Tables ν → Prop} (hI : ∀ t features, I t → I { t with features })
    (r : LearningRecord) : Keeps I (learnFeatures r) :=
  (keeps_lift _).bind fun _ => keeps_modify fun t ht => hI t _ ht

theorem learnAction_keeps {I : Tables ν → Prop} (hI : ∀ t actions, I t → I { t with actions })
    (rate : Value) (r : LearningRecord) : Keeps I (learnAction rate r) :=
  (keeps_lift _).bind fun _ => (keeps_lift _).bind fun _ => (keeps_lift _).bind fun _ =>
    keeps_modify fun t ht => hI t _ ht

/-- What holds of statistics without records and is kept by one more record holds of all tasks. -/
theorem learn_keepsTasks {P : TaskStats ν → Prop} (hr : r.IsRated) (hstart : P noRecords)
    (hadd : ∀ s, P s → P (s.add r)) :
    Keeps (fun t => ∀ s ∈ t.tasks.values, P s) (learn rate r) := by
  unfold learn
  split
  · intro t ht
    rw [learnTask_alters hr]
    split
    · exact Table.forall_values_alter hstart hadd ht
    · exact ht
  · exact learnFeatures_keeps (fun _ _ ht => ht) r
  · exact learnAction_keeps (fun _ _ ht => ht) rate r
  · exact keeps_pure _

/-! ## Counts -/

/-- The counts for each task: records, feedback, and feedback that says that it helped. -/
def counts (t : Tables ν) : Table Scalar (Nat × Nat × Nat) :=
  t.tasks.mapValues fun _ s => (s.records, s.feedback, s.helpful)

def addCounts (r : LearningRecord) (counts : Nat × Nat × Nat) : Nat × Nat × Nat :=
  match r.feedback with
  | .known f => (counts.1 + 1, counts.2.1 + 1, counts.2.2 + (if f.helpful then 1 else 0))
  | .raw _ => (counts.1 + 1, counts.2)

theorem counts_alterTask (k : Scalar) (r : LearningRecord) (t : Tables ν) :
    (t.alterTask k fun s => s.add r).counts = t.counts.alter k (0, 0, 0) (addCounts r) := by
  unfold counts alterTask Table.alter
  dsimp only
  rw [Table.mapValues_put fun _ _ => rfl, Table.lookup?_mapValues fun _ _ => rfl]
  unfold TaskStats.add addCounts
  congr 1
  cases r.feedback <;> cases t.tasks.lookup? k <;> rfl

theorem counts_learn (hr : r.IsRated) (t : Tables ν) : ((learn rate r).runOn t).2.counts =
    match r.learningType, rowOf? r with
    | .supervised, some k => t.counts.alter k (0, 0, 0) (addCounts r)
    | _, _ => t.counts := by
  unfold learn
  cases r.learningType with
  | supervised =>
    dsimp only
    rw [learnTask_alters hr]
    cases rowOf? r with
    | none => rfl
    | some k => exact counts_alterTask k r t
  | unsupervised =>
    exact learnFeatures_keeps (I := fun t' => t'.counts = t.counts) (fun _ _ ht => ht) r t rfl
  | reinforcement =>
    exact learnAction_keeps (I := fun t' => t'.counts = t.counts) (fun _ _ ht => ht) rate r t rfl
  | _ => rfl

theorem counts_replay {μ : Type} [Arithmetic μ] (h : ∀ r ∈ history, r.IsRated) :
    (replay (ν := ν) rate history).counts = (replay (ν := μ) rate history).counts := by
  induction history using List.reverseRecOn with
  | nil => rfl
  | append_singleton history r ih =>
    have hr : r.IsRated := h r (by simp)
    rw [replay_concat, replay_concat, counts_learn hr, counts_learn hr,
      ih fun r' hr' => h r' (by simp [hr'])]

/-! ## Actions -/

/-- What holds of zero and is kept by each move toward a reward holds of the values of all actions. -/
theorem learn_keepsActions {P : ν → Prop} (hstart : P (Arithmetic.ofFloat 0))
    (hmove : r.learningType = .reinforcement → ∀ reward x, rewardOf r = .ok reward →
      rate.operand = .ok x → ∀ v, P v → P (toward (Arithmetic.ofFloat x) v reward)) :
    Keeps (fun t => ∀ v ∈ t.actions.values, P v) (learn rate r) := by
  unfold learn
  split
  · intro t ht
    have hactions : ((learnTask r).runOn t).2.actions = t.actions :=
      learnTask_keepsActions r t.actions t rfl
    rw [hactions]
    exact ht
  · exact learnFeatures_keeps (fun _ _ ht => ht) r
  · rename_i htype
    refine (keeps_lift _).bind fun action => ?_
    refine keeps_lift_bind fun reward hreward => keeps_lift_bind fun x hx => ?_
    exact keeps_modify fun t ht =>
      Table.forall_values_alter hstart (hmove htype reward x hreward hx) ht
  · exact keeps_pure _

end Tables

/-! ## Ranges of tasks -/

/-- No more feedback helped than there is, and no more records have feedback than there are. -/
structure TaskStats.IsCounted {ν : Type} (s : TaskStats ν) : Prop where
  helpful : s.helpful ≤ s.feedback
  feedback : s.feedback ≤ s.records

theorem TaskStats.IsCounted.add {ν : Type} [Arithmetic ν] {s : TaskStats ν} (h : s.IsCounted)
    (r : LearningRecord) : (s.add r).IsCounted := by
  obtain ⟨hhelpful, hfeedback⟩ := h
  unfold TaskStats.add
  cases r.feedback with
  | known f =>
    refine ⟨?_, by dsimp only; omega⟩
    dsimp only
    split <;> omega
  | raw v => exact ⟨hhelpful, by dsimp only; omega⟩

/-- The counts are in order, and the ratings add up to between one and five for each feedback. -/
structure TaskStats.IsSound (s : TaskStats ℚ) : Prop extends s.IsCounted where
  low : (s.feedback : ℚ) ≤ s.ratingTotal
  high : s.ratingTotal ≤ 5 * s.feedback

theorem value_rating {x : Float} (h : 1 ≤ x ∧ x ≤ 5) : 1 ≤ value x ∧ value x ≤ 5 := by
  have hvalue := ((within_iff_value (by decide +kernel) (by decide +kernel)).1 h).2
  rwa [value_one, value_ofNat 5 (by norm_num)] at hvalue

theorem TaskStats.IsSound.add {s : TaskStats ℚ} (h : s.IsSound) {r : LearningRecord}
    (hr : r.IsRated) : (s.add r).IsSound := by
  refine ⟨h.toIsCounted.add r, ?_, ?_⟩
  all_goals
    obtain ⟨-, hlow, hhigh⟩ := h
    unfold TaskStats.add
    obtain hempty | ⟨f, hknown, hrating⟩ := hr.feedback
  · rw [hempty]
    exact hlow
  · have hvalue := (value_rating hrating).1
    rw [hknown]
    show ((s.feedback + 1 : ℕ) : ℚ) ≤ s.ratingTotal + value f.rating
    push_cast
    linarith
  · rw [hempty]
    exact hhigh
  · have hvalue := (value_rating hrating).2
    rw [hknown]
    show s.ratingTotal + value f.rating ≤ 5 * ((s.feedback + 1 : ℕ) : ℚ)
    push_cast
    linarith

theorem TaskStats.isSound_noRecords : (Tables.noRecords : TaskStats ℚ).IsSound :=
  ⟨⟨le_rfl, le_rfl⟩, le_of_eq value_zero.symm, by
    show value 0 ≤ 5 * ((0 : ℕ) : ℚ)
    rw [value_zero]
    norm_num⟩

namespace Tables

variable {rate : Value} {history : List LearningRecord} {r : LearningRecord}

theorem replay_isCounted {ν : Type} [Arithmetic ν] (h : ∀ r ∈ history, r.IsRated) :
    ∀ s ∈ (replay (ν := ν) rate history).tasks.values, s.IsCounted :=
  replay_keeps (List.forall_mem_nil _) fun r hr =>
    learn_keepsTasks (h r hr) ⟨le_rfl, le_rfl⟩ fun _ hs => hs.add r

/-- Without rounding the ratings of each task are in their range. -/
theorem replay_isSound (h : ∀ r ∈ history, r.IsRated) :
    ∀ s ∈ (replay (ν := ℚ) rate history).tasks.values, s.IsSound :=
  replay_keeps (List.forall_mem_nil _) fun r hr =>
    learn_keepsTasks (h r hr) TaskStats.isSound_noRecords fun _ hs => hs.add (h r hr)

/-! ## Values of actions -/

/-- Without rounding, a part of the way from one number to another stays between both. -/
theorem abs_toward_le {x v reward : ℚ} (hx : 0 ≤ x) (hx' : x ≤ 1) (hv : |v| ≤ 1)
    (hreward : |reward| ≤ 1) : |toward x v reward| ≤ 1 := by
  have hconvex : toward x v reward = (1 - x) * v + x * reward := by
    unfold toward
    ring
  rw [hconvex]
  calc |(1 - x) * v + x * reward| ≤ |(1 - x) * v| + |x * reward| := abs_add_le _ _
    _ = (1 - x) * |v| + x * |reward| := by
      rw [abs_mul, abs_mul, abs_of_nonneg hx, abs_of_nonneg (by linarith : 0 ≤ 1 - x)]
    _ ≤ (1 - x) * 1 + x * 1 :=
      add_le_add (mul_le_mul_of_nonneg_left hv (by linarith)) (mul_le_mul_of_nonneg_left hreward hx)
    _ = 1 := by ring

/-- A reward comes from a rating, or is named by a record without feedback. -/
theorem rewardOf_eq_ok {ν : Type} [Arithmetic ν] {reward : ν} (hr : r.IsRated)
    (h : rewardOf r = .ok reward) :
    (∃ f, r.feedback = .known f ∧
      reward = (Arithmetic.ofFloat f.rating - Arithmetic.ofFloat 3) / Arithmetic.ofFloat 2) ∨
    r.feedback.isAbsent = true ∧ ∃ x, reward = Arithmetic.ofFloat x ∧
      ((Entries.get? r.payload "reward").getD (.float 0)).toFloat = .ok x := by
  unfold rewardOf at h
  obtain hempty | ⟨f, hknown, -⟩ := hr.feedback
  · rw [hempty] at h ⊢
    obtain ⟨x, hx, h⟩ := Except.bind_eq_ok.1 h
    cases h
    exact .inr ⟨rfl, x, rfl, hx⟩
  · rw [hknown] at h
    cases h
    exact .inl ⟨f, hknown, rfl⟩

/-- Without rounding a reward is between minus one and one. -/
theorem abs_rewardOf_le {reward : ℚ} (hr : r.IsRated) (hfair : r.IsFair)
    (h : rewardOf r = .ok reward) : |reward| ≤ 1 := by
  obtain ⟨f, hknown, rfl⟩ | ⟨habsent, x, rfl, hx⟩ := rewardOf_eq_ok hr h
  · obtain hempty | ⟨f', hknown', hrating⟩ := hr.feedback
    · rw [hempty] at hknown
      cases hknown
    · rw [hknown] at hknown'
      cases hknown'
      obtain ⟨hlow, hhigh⟩ := value_rating hrating
      show |(value f.rating - value 3) / value 2| ≤ 1
      rw [value_ofNat 3 (by norm_num), value_ofNat 2 (by norm_num), abs_le]
      constructor <;> linarith
  · exact (isSigned_iff.1 (hfair habsent x hx)).2

theorem isSigned_rewardOf {reward : Float} (hr : r.IsRated) (hfair : r.IsFair)
    (h : rewardOf r = .ok reward) : IsSigned reward := by
  obtain ⟨f, hknown, hreward⟩ | ⟨habsent, x, hreward, hx⟩ := rewardOf_eq_ok hr h
  all_goals rw [hreward]
  · obtain hempty | ⟨f', hknown', hlow, hhigh⟩ := hr.feedback
    · rw [hempty] at hknown
      cases hknown
    · rw [hknown] at hknown'
      cases hknown'
      exact isSigned_rating hlow hhigh
  · exact hfair habsent x hx

section

variable (h : ∀ r ∈ history, r.IsRated)
  (hfair : ∀ r ∈ history, r.learningType = .reinforcement → r.IsFair)
include h hfair

/-- **Values of actions.** Without rounding they stay between minus one and one. -/
theorem abs_replay_le : ∀ v ∈ (replay (ν := ℚ) (.float 0.1) history).actions.values, |v| ≤ 1 := by
  refine replay_keeps (List.forall_mem_nil _) fun r hr => learn_keepsActions ?_ ?_
  · show |value 0| ≤ 1
    rw [value_zero]
    norm_num
  · rintro htype reward _ hreward ⟨⟩ v hv
    obtain ⟨hlow, hhigh⟩ := value_tenth
    have hone : value 0.1 ≤ 1 := by linarith
    exact abs_toward_le hlow hone hv (abs_rewardOf_le (h r hr) (hfair r hr htype) hreward)

theorem isSigned_replay :
    ∀ v ∈ (replay (ν := Float) (.float 0.1) history).actions.values, IsSigned v := by
  refine replay_keeps (List.forall_mem_nil _) fun r hr => learn_keepsActions ?_ ?_
  · show IsSigned 0
    unfold IsSigned
    decide +kernel
  · rintro htype reward _ hreward ⟨⟩ v hv
    exact hv.toward (isSigned_rewardOf (h r hr) (hfair r hr htype) hreward)

end

end Tables

/-! ## The tables of a learner -/

namespace Learner

variable {config : LearningConfig} {r : LearningRecord}

/-- Processing a record takes it into the tables and changes nothing else about them. -/
theorem process_takesIn (r : LearningRecord) (l : Learner) : ((process r).runOn l).2.tables =
    ((Tables.learn l.config.reinforcementRate r).runOn l.tables).2 := by
  have hother (hlearn : Tables.learn l.config.reinforcementRate r =
        (pure () : Attempt (Tables Float) Unit))
      (hkeeps : Keeps (fun l' => l'.tables = l.tables) (process r)) :
      ((process r).runOn l).2.tables =
        ((Tables.learn l.config.reinforcementRate r).runOn l.tables).2 := by
    rw [hlearn]
    exact hkeeps l rfl
  cases htype : r.learningType with
  | supervised | unsupervised | reinforcement =>
    rw [process_tables (by simp [htype]), learnTables_runOn]
  | behavioral =>
    refine hother (by unfold Tables.learn; rw [htype]) ?_
    unfold process
    rw [htype]
    refine (keeps_lift _).bind fun user => ?_
    split
    · exact keeps_pure _
    · exact keeps_pure _
    · exact (keeps_lift _).bind fun _ =>
        noteBehavior_keeps (fun _ _ hl => hl) (fun _ _ hl => hl) _ _ _
  | personalization | adaptive | custom =>
    exact hother (by unfold Tables.learn; rw [htype])
      ((process_keepsCore (by simp [htype])).keeps fun core => core.tables = l.tables)

theorem learn_keepsReplay (r : LearningRecord) : Keeps (fun l => l.config = config ∧
    l.tables = Tables.replay config.reinforcementRate l.history) (learn r) := by
  rintro l ⟨rfl, htables⟩
  obtain ⟨hconfig, hhistory⟩ := learn_history r l
  refine ⟨hconfig, ?_⟩
  rw [hhistory, Tables.replay_concat, ← htables, learn_runOn_snd]
  exact process_takesIn (l.stamp r) (l.withRecord r)

/-- **The tables of a run.** After any calls, failed ones included, the tables are those of the
history. -/
theorem after_tables (config : LearningConfig) (calls : List (Nat × Command)) :
    (after config calls).tables =
      Tables.replay config.reinforcementRate (after config calls).history := by
  have hkeeps (c : Command) : Keeps (fun l => l.config = config ∧
      l.tables = Tables.replay config.reinforcementRate l.history) (perform c) :=
    perform_keepsOf (P := fun core => core.config = config ∧
      core.tables = Tables.replay config.reinforcementRate core.history)
      fun r _ => learn_keepsReplay r
  exact (after_keeps (I := fun l => l.config = config ∧
    l.tables = Tables.replay config.reinforcementRate l.history) ⟨rfl, rfl⟩ (fun _ _ hl => hl)
    fun call _ => hkeeps call.2).2

end Learner

end KnowledgeGraph
