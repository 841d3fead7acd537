import KnowledgeGraph.Proofs.Learning.Calls
import KnowledgeGraph.Proofs.Learning.Steps

/-!
# The tables say what the history says

Whatever calls a learner is given, its statistics of tasks, its counts of features and its
behaviours are those that its history determines (`after_mirrors`). Each record brings them up to
date as it is learned (`process_mirrors`); the other operations leave history, tables and behaviours
alone.
-/

namespace KnowledgeGraph.Learner

open Attempt History

/-! ## Tables and histories -/

/-- The behaviour of a user with an action. -/
def behaviorIn (behaviors : Table Scalar (Table String Behavior)) (user action : String) :
    Option Behavior :=
  ((behaviors.lookup? (.text user)).getD []).lookup? action

/-- Tables and behaviours are those that a history determines. -/
structure Mirrored (config : LearningConfig) (history : List LearningRecord) (tables : Tables Float)
    (behaviors : Table Scalar (Table String Behavior)) : Prop where
  taskKeys : tables.tasks.TextKeys
  userKeys : behaviors.TextKeys
  tasks : ∀ task, tables.tasks.lookup? (.text task) = taskStats? history task
  features : ∀ feature, (tables.features.lookup? feature).getD 0 = featureCount history feature
  behaviors : ∀ user action, Repeated config (ofAction history user action) user action
    (behaviorIn behaviors user action)

/-- The tables and the behaviours of the learner are those that its history determines. -/
def Mirrors (config : LearningConfig) (l : Learner) : Prop :=
  l.config = config ∧ Mirrored config l.history l.tables l.behaviors

variable {config : LearningConfig} {history : List LearningRecord} {tables tables' : Tables Float}
  {behaviors behaviors' : Table Scalar (Table String Behavior)} {r : LearningRecord} {l : Learner}

theorem Mirrored.skip (h : Mirrored config history tables behaviors)
    (hsupervised : r.learningType ≠ .supervised) (hunsupervised : r.learningType ≠ .unsupervised)
    (hbehavioral : ∀ user action, ¬ (r.learningType = .behavioral ∧ r.user? = some user ∧
      r.action? = some action)) : Mirrored config (history ++ [r]) tables behaviors := by
  refine ⟨h.taskKeys, h.userKeys, fun task => ?_, fun feature => ?_, fun user action => ?_⟩
  · rw [taskStats?_concat_of_ne fun h => hsupervised h.1]
    exact h.tasks task
  · rw [featureCount_concat_of_ne hunsupervised]
    exact h.features feature
  · rw [ofAction_concat_of_ne (hbehavioral user action)]
    exact h.behaviors user action

/-! ## Tasks -/

/-- A supervised record brings the statistics of its task up to date. -/
theorem Mirrored.supervised (h : Mirrored config history tables behaviors)
    (htype : r.learningType = .supervised) (hfeatures : tables'.features = tables.features)
    (hkeys : tables'.tasks.TextKeys)
    (hself : tables'.tasks.lookup? (.text r.task) =
      some (addRecord ((tables.tasks.lookup? (.text r.task)).getD Tables.noRecords) r))
    (hother : ∀ task, task ≠ r.task →
      tables'.tasks.lookup? (.text task) = tables.tasks.lookup? (.text task)) :
    Mirrored config (history ++ [r]) tables' behaviors := by
  refine ⟨hkeys, h.userKeys, fun task => ?_, fun feature => ?_, fun user action => ?_⟩
  · by_cases heq : task = r.task
    · rw [heq, hself, taskStats?_concat htype, h.tasks]
    · rw [hother task heq, taskStats?_concat_of_ne fun h => heq h.2.symm, h.tasks]
  · rw [hfeatures, featureCount_concat_of_ne (by rw [htype]; decide), h.features]
  · rw [ofAction_concat_of_ne fun h => by rw [htype] at h; cases h.1]
    exact h.behaviors user action

/-! ## Features -/

theorem Mirrored.unsupervised (h : Mirrored config history tables behaviors)
    (htype : r.learningType = .unsupervised) :
    Mirrored config (history ++ [r])
      { tables with features := r.features.foldl Table.countOne tables.features } behaviors := by
  refine ⟨h.taskKeys, h.userKeys, fun task => ?_, fun feature => ?_, fun user action => ?_⟩
  · rw [taskStats?_concat_of_ne fun h => by rw [htype] at h; cases h.1]
    exact h.tasks task
  · rw [featureCount_concat htype, ← h.features]
    exact Table.lookup?_foldl_countOne Key.sharp_string feature _ _
  · rw [ofAction_concat_of_ne fun h => by rw [htype] at h; cases h.1]
    exact h.behaviors user action

/-! ## Behaviours -/

/-- A behavioral record brings the behaviour it is about up to date. -/
theorem Mirrored.behavioral (h : Mirrored config history tables behaviors) {user action : String}
    {b : Behavior} (htype : r.learningType = .behavioral) (huser : r.user? = some user)
    (haction : r.action? = some action) (hkeys : behaviors'.TextKeys)
    (hself : behaviorIn behaviors' user action = some b)
    (hb : Repeats config (ofAction history user action ++ [r]) user action b)
    (hother : ∀ user' action', ¬ (user' = user ∧ action' = action) →
      behaviorIn behaviors' user' action' = behaviorIn behaviors user' action') :
    Mirrored config (history ++ [r]) tables behaviors' := by
  refine ⟨h.taskKeys, hkeys, fun task => ?_, fun feature => ?_, fun user' action' => ?_⟩
  · rw [taskStats?_concat_of_ne fun h => by rw [htype] at h; cases h.1]
    exact h.tasks task
  · rw [featureCount_concat_of_ne (by rw [htype]; decide)]
    exact h.features feature
  · by_cases heq : user' = user ∧ action' = action
    · obtain ⟨rfl, rfl⟩ := heq
      rw [ofAction_concat htype huser haction, hself]
      exact hb
    · rw [hother _ _ heq, ofAction_concat_of_ne]
      · exact h.behaviors user' action'
      · rintro ⟨-, huser', haction'⟩
        rw [huser, Option.some.injEq] at huser'
        rw [haction, Option.some.injEq] at haction'
        exact heq ⟨huser'.symm, haction'.symm⟩

/-! ## Records -/

theorem userId_eq (hr : r.IsPlain) :
    r.userId = .ok (match r.user? with | some user => .text user | none => .null) := by
  unfold LearningRecord.userId LearningRecord.user?
  obtain hcontext | ⟨c, hcontext, huser, -⟩ := hr.context
  · rw [hcontext]
    rfl
  · rw [hcontext]
    obtain ⟨user, _, _, _, _, _, _⟩ := c
    obtain rfl | ⟨s, rfl⟩ := huser <;> rfl

theorem process_tables (htype : r.learningType = .supervised ∨ r.learningType = .unsupervised ∨
    r.learningType = .reinforcement) : process r = learnTables r := by
  unfold process
  obtain h | h | h := htype <;> rw [h]

theorem learnTables_runOn (r : LearningRecord) (l : Learner) :
    (learnTables r).runOn l =
      (((Tables.learn l.config.reinforcementRate r).runOn l.tables).1,
        { l with tables := ((Tables.learn l.config.reinforcementRate r).runOn l.tables).2 }) := rfl

/-- A behavioral record is about a behaviour if it has a user and an action that can be put into
text. -/
theorem process_behavioral (htype : r.learningType = .behavioral) {user : Value}
    (huser : r.userId = .ok user) (hnull : user ≠ .null) {action : String}
    (haction : r.action? = some action) (l : Learner) :
    (process r).runOn l = (noteBehavior user action r.circumstances).runOn l := by
  obtain ⟨hfield, htext⟩ := LearningRecord.action?_eq_some.1 haction
  unfold process
  rw [htype]
  dsimp only
  rw [runOn_bind, runOn_lift, huser]
  dsimp only
  split
  · exact absurd rfl hnull
  · rename_i hfield'
    exact absurd hfield' hfield
  · rw [runOn_bind, runOn_lift, htext]
    rfl

theorem process_behavioral_of_none (htype : r.learningType = .behavioral) {user : Value}
    (huser : r.userId = .ok user) (h : user = .null ∨ r.action? = none) (l : Learner) :
    ((process r).runOn l).2 = l := by
  unfold process
  rw [htype]
  dsimp only
  rw [runOn_bind, runOn_lift, huser]
  dsimp only
  split
  · rfl
  · rfl
  · rename_i hnull hfield
    rw [runOn_bind, runOn_lift]
    cases htext : (Entries.field r.payload "action").toText with
    | error f => rfl
    | ok action =>
      have haction := LearningRecord.action?_eq_some.2 ⟨hfield, htext⟩
      rw [haction] at h
      cases h with
      | inl h => exact absurd h hnull
      | inr h => cases h

theorem Command.Learns.isPlain {c : Command} (h : c.Learns r) (hc : c.IsPlain) : r.IsPlain := by
  cases c with
  | learn record => exact ofRecord_plain hc h
  | feedback feedback context =>
    obtain ⟨f, slot, -, hcontext, rfl⟩ := h
    exact ⟨.inr ⟨f, rfl⟩, .inr (readContext_plain hc hcontext)⟩
  | behavior user action context =>
    obtain ⟨-, -, _, -, rfl⟩ := behaviorRecord_eq_ok h
    exact ⟨.inl rfl, .inr ⟨_, rfl, .inr ⟨_, rfl⟩, .inl rfl⟩⟩
  | _ => exact h.elim

end KnowledgeGraph.Learner
