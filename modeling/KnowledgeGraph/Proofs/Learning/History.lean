import KnowledgeGraph.Learning.Learner
import KnowledgeGraph.Proofs.Table
import KnowledgeGraph.Proofs.Value.Writable

/-!
# What a history says

The history alone says what the tables of a learner should hold: the statistics of each task
(`taskStats?`), how often each feature occurred (`featureCount`), and which actions a user repeated
(`Repeated`). One more record changes each of these by one step (`taskStats?_concat` and its
companions).
-/

namespace KnowledgeGraph

/-! ## Single records -/

namespace LearningRecord

/-- The task of a record: the current one of its context, the general one if there is none. -/
def task (r : LearningRecord) : String :=
  match r.context with
  | .known { currentTask := .text s, .. } => if s = "" then Tables.generalTask else s
  | _ => Tables.generalTask

/-- The user of a record, if its context names one. -/
def user? (r : LearningRecord) : Option String :=
  match r.context with
  | .known { userId := .text s, .. } => some s
  | _ => none

theorem user?_known {r : LearningRecord} {c : LearningContext} (h : r.context = .known c) :
    r.user? = c.userId.text? := by
  unfold user?
  rw [h]
  obtain ⟨user, _, _, _, _, _, _⟩ := c
  cases user with
  | scalar k => cases k <;> rfl
  | list _ | map _ => rfl

theorem user?_raw {r : LearningRecord} {v : Value} (h : r.context = .raw v) : r.user? = none := by
  unfold user?
  rw [h]

theorem exists_context {r : LearningRecord} {u : String} (h : r.user? = some u) :
    ∃ c, r.context = .known c ∧ c.userId = .text u := by
  cases hcontext : r.context with
  | raw v =>
    rw [user?_raw hcontext] at h
    cases h
  | known c =>
    rw [user?_known hcontext] at h
    exact ⟨c, rfl, Value.text?_eq_some.1 h⟩

def isHelpful (r : LearningRecord) : Bool :=
  match r.feedback with
  | .known f => f.helpful
  | .raw _ => false

theorem isAbsent_of_isHelpful {r : LearningRecord} (h : r.isHelpful = true) :
    r.feedback.isAbsent = false := by
  unfold isHelpful at h
  cases hf : r.feedback with
  | known f => rfl
  | raw v =>
    rw [hf] at h
    cases h

/-- The values that are the features of an input: the keys of a map, the words of a text in lower
case, the items of a list. -/
def featureValues : Value → List Value
  | .map es => (Table.keys es).map .scalar
  | .text s => (Text.words s.toList).map fun w => .text (String.ofList (Text.lower w))
  | .list items => items
  | _ => []

/-- The features of a record as texts, none if one of them cannot be put into text. -/
def features (r : LearningRecord) : List String :=
  if (featureValues r.input).all Value.isWritable then (featureValues r.input).map Value.display
  else []

/-- The action of a record as a text, if its input names one that can be put into text. -/
def action? (r : LearningRecord) : Option String :=
  match Entries.field r.payload "action" with
  | .null => none
  | action => action.toText.toOption

theorem action?_eq_some {r : LearningRecord} {action : String} : r.action? = some action ↔
    Entries.field r.payload "action" ≠ .null ∧
      (Entries.field r.payload "action").toText = .ok action := by
  unfold action?
  split
  · rename_i hnull
    exact ⟨nofun, fun h => absurd hnull h.1⟩
  · rename_i hnull
    cases (Entries.field r.payload "action").toText with
    | error f => exact ⟨nofun, nofun⟩
    | ok text => exact ⟨fun h => ⟨hnull, congrArg Except.ok (Option.some.inj h)⟩,
        fun h => congrArg some (Except.ok.inj h.2)⟩

/-- The circumstances that a record names with its action, none if they are no map. -/
def circumstances (r : LearningRecord) : Entries :=
  (Entries.field r.payload "context").entries?.getD []

/-- The feedback and the context of a record are missing or have their types, and the user and the
task are texts or null. -/
structure IsPlain (r : LearningRecord) : Prop where
  feedback : r.feedback = .empty ∨ ∃ f, r.feedback = .known f
  context : r.context = .empty ∨ ∃ c, r.context = .known c ∧ c.userId.IsTextOrNull ∧
    c.currentTask.IsTextOrNull

end LearningRecord

namespace History

variable {config : LearningConfig} {history : List LearningRecord} {r : LearningRecord}

theorem filter_concat_of_pos {p : LearningRecord → Prop} [DecidablePred p] (h : p r) :
    (history ++ [r]).filter p = history.filter p ++ [r] := by
  rw [List.filter_append, List.filter_cons_of_pos (by simpa using h), List.filter_nil]

theorem filter_concat_of_neg {p : LearningRecord → Prop} [DecidablePred p] (h : ¬ p r) :
    (history ++ [r]).filter p = history.filter p := by
  rw [List.filter_append, List.filter_cons_of_neg (by simpa using h), List.filter_nil,
    List.append_nil]

/-! ## Tasks -/

def ofTask (history : List LearningRecord) (task : String) : List LearningRecord :=
  history.filter fun r => r.learningType = .supervised ∧ r.task = task

/-- What records say about their task: how many they are, how many have feedback, how much of the
feedback says that it helped, and the sum of the ratings. -/
def summary (rs : List LearningRecord) : TaskStats Float :=
  let feedback := Slot.knowns (rs.map (·.feedback))
  { records := rs.length
    feedback := feedback.length
    helpful := feedback.countP (·.helpful)
    ratingTotal := (feedback.map (·.rating)).foldl (· + ·) 0 }

/-- The statistics of a task, none if it has no records. -/
def taskStats? (history : List LearningRecord) (task : String) : Option (TaskStats Float) :=
  if (ofTask history task).isEmpty then none else some (summary (ofTask history task))

def addRecord (s : TaskStats Float) (r : LearningRecord) : TaskStats Float :=
  match r.feedback with
  | .known f =>
    { records := s.records + 1
      feedback := s.feedback + 1
      helpful := s.helpful + (if f.helpful then 1 else 0)
      ratingTotal := s.ratingTotal + f.rating }
  | .raw _ => { s with records := s.records + 1 }

theorem summary_concat (rs : List LearningRecord) (r : LearningRecord) :
    summary (rs ++ [r]) = addRecord (summary rs) r := by
  unfold summary addRecord Slot.knowns
  cases hf : r.feedback with
  | known f =>
    simp only [List.map_append, List.filterMap_append, List.map_cons, List.map_nil, hf,
      List.filterMap_cons, List.filterMap_nil, List.length_append, List.countP_append,
      List.countP_singleton, List.foldl_append, List.foldl_cons, List.foldl_nil, List.length_cons,
      List.length_nil]
  | raw v =>
    simp only [List.map_append, List.filterMap_append, List.map_cons, List.map_nil, hf,
      List.filterMap_cons, List.filterMap_nil, List.append_nil, List.length_append,
      List.length_cons, List.length_nil]

theorem taskStats?_getD (task : String) :
    (taskStats? history task).getD Tables.noRecords = summary (ofTask history task) := by
  unfold taskStats?
  split
  · rename_i hempty
    rw [List.isEmpty_iff.1 hempty]
    rfl
  · rfl

theorem taskStats?_concat (h : r.learningType = .supervised) :
    taskStats? (history ++ [r]) r.task =
      some (addRecord ((taskStats? history r.task).getD Tables.noRecords) r) := by
  have hrecords : ofTask (history ++ [r]) r.task = ofTask history r.task ++ [r] :=
    filter_concat_of_pos ⟨h, rfl⟩
  have hsome : ¬ (ofTask history r.task ++ [r]).isEmpty := by
    rw [List.isEmpty_iff]
    exact List.append_ne_nil_of_right_ne_nil _ (List.cons_ne_nil r [])
  rw [taskStats?_getD, ← summary_concat, taskStats?, hrecords, if_neg hsome]

theorem taskStats?_concat_of_ne {task : String}
    (h : ¬ (r.learningType = .supervised ∧ r.task = task)) :
    taskStats? (history ++ [r]) task = taskStats? history task := by
  have hrecords : ofTask (history ++ [r]) task = ofTask history task := filter_concat_of_neg h
  unfold taskStats?
  rw [hrecords]

/-! ## Features -/

/-- How often a feature occurs in the unsupervised records. -/
def featureCount (history : List LearningRecord) (feature : String) : Nat :=
  ((history.filter (·.learningType = .unsupervised)).flatMap
    (·.features)).count feature

theorem featureCount_concat (h : r.learningType = .unsupervised) (feature : String) :
    featureCount (history ++ [r]) feature =
      featureCount history feature + r.features.count feature := by
  unfold featureCount
  rw [filter_concat_of_pos h, List.flatMap_append, List.flatMap_singleton, List.count_append]

theorem featureCount_concat_of_ne (h : r.learningType ≠ .unsupervised) (feature : String) :
    featureCount (history ++ [r]) feature = featureCount history feature := by
  unfold featureCount
  rw [filter_concat_of_neg h]

/-! ## Behaviours -/

/-- The behavioral records of an action of a user. -/
def ofAction (history : List LearningRecord) (user action : String) : List LearningRecord :=
  history.filter fun r =>
    r.learningType = .behavioral ∧ r.user? = some user ∧ r.action? = some action

/-- A confidence raised by a step several times. -/
def raised (start step : Value) : Nat → Except Fault Value
  | 0 => .ok start
  | n + 1 => do Behavior.raise (← raised start step n) step

/-- The behaviour sums up the records of an action of a user: it counts them, has the circumstances
of the last one, and its confidence was raised by each record but the first. -/
structure Repeats (config : LearningConfig) (rs : List LearningRecord) (user action : String)
    (b : Behavior) : Prop where
  user : b.userId = .text user
  action : b.action = action
  frequency : b.frequency = rs.length
  context : ∃ last, rs.getLast? = some last ∧ b.context = last.circumstances
  confidence : raised config.behaviorStart config.behaviorStep (rs.length - 1) = .ok b.confidence

/-- There is a behaviour if there are records for it, and it sums them up. -/
def Repeated (config : LearningConfig) (rs : List LearningRecord) (user action : String) :
    Option Behavior → Prop
  | none => rs = []
  | some b => Repeats config rs user action b

theorem ofAction_concat {user action : String} (h : r.learningType = .behavioral)
    (huser : r.user? = some user) (haction : r.action? = some action) :
    ofAction (history ++ [r]) user action = ofAction history user action ++ [r] :=
  filter_concat_of_pos ⟨h, huser, haction⟩

theorem ofAction_concat_of_ne {user action : String}
    (h : ¬ (r.learningType = .behavioral ∧ r.user? = some user ∧ r.action? = some action)) :
    ofAction (history ++ [r]) user action = ofAction history user action :=
  filter_concat_of_neg h

end History

end KnowledgeGraph
