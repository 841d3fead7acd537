import KnowledgeGraph.Attempt
import KnowledgeGraph.Learning.Record
import KnowledgeGraph.Text.Name
import KnowledgeGraph.Value.Arithmetic

/-!
# Tables derived from records

Three tables sum up what was learned: statistics of feedback by task, how often features occur, and
estimates of the value of actions. Each record changes them by `Tables.learn`, according to its
type.

The numbers may be floats or of any other type with arithmetic (`Arithmetic`), so that the same
rules can be followed without rounding.
-/

namespace KnowledgeGraph

/-- Numbers to compute averages and estimates in. -/
class Arithmetic (ν : Type) extends Add ν, Sub ν, Mul ν, Div ν where
  /-- The number that a float stands for. -/
  ofFloat : Float → ν

instance : Arithmetic Float := ⟨id⟩

/-! ## The tables -/

/-- What is known about a task: its records, those with feedback, those whose feedback says that it
helped, and the sum of the ratings. -/
structure TaskStats (ν : Type) where
  records : Nat
  feedback : Nat
  helpful : Nat
  ratingTotal : ν

/-- The tables derived from records. -/
structure Tables (ν : Type) where
  tasks : Table Scalar (TaskStats ν) := []
  features : Table String Nat := []
  actions : Table String ν := []

namespace Tables

variable {ν : Type} [Arithmetic ν]

/-! ## Tasks -/

/-- The task of records that name none. -/
def generalTask : String := "general"

/-- Statistics without records. -/
def noRecords : TaskStats ν := ⟨0, 0, 0, Arithmetic.ofFloat 0⟩

def taskOf (r : LearningRecord) : Except Fault Value := do
  let task := ((← r.context.get?).map (·.currentTask)).getD .null
  return task.orElse (.text generalTask)

def alterTask (task : Scalar) (f : TaskStats ν → TaskStats ν) (t : Tables ν) : Tables ν :=
  { t with tasks := t.tasks.alter task noRecords f }

/-- Counts a record for its task, and its feedback if it has any. -/
def learnTask (r : LearningRecord) : Attempt (Tables ν) Unit := do
  let task ← (← taskOf r).toKey
  modify (alterTask task fun s => { s with records := s.records + 1 })
  if !r.feedback.isAbsent then
    modify (alterTask task fun s => { s with feedback := s.feedback + 1 })
    let f ← r.feedback.get
    modify (alterTask task fun s => { s with
      helpful := s.helpful + (if f.helpful then 1 else 0)
      ratingTotal := s.ratingTotal + Arithmetic.ofFloat f.rating })

/-! ## Features -/

/-- The features of an input: the keys of a map, the words of a text in lower case, the items of a
list. -/
def featuresOf : Value → Except Fault (List String)
  | .map es => (Table.keys es).mapM fun k => (Value.scalar k).toText
  | .text s => .ok ((Text.words s.toList).map fun w => String.ofList (Text.lower w))
  | .list items => items.mapM Value.toText
  | _ => .ok []

/-- Counts the features of a record, once all of them are there. -/
def learnFeatures (r : LearningRecord) : Attempt (Tables ν) Unit := do
  let features ← featuresOf r.input
  modify fun t => { t with features := features.foldl Table.countOne t.features }

/-! ## Actions -/

def actionOf (r : LearningRecord) : Except Fault String :=
  let action := match r.input with
    | .map es => Entries.field es "action"
    | v => v
  match action with
  | .null => .ok "default"
  | action => if action.isText "" then .ok "default" else action.toText

/-- The reward of a record: a rating from one to five as a number from minus one to one, or else the
reward that the input names. -/
def rewardOf (r : LearningRecord) : Except Fault ν := do
  if r.feedback.isAbsent then
    return Arithmetic.ofFloat (← ((Entries.get? r.payload "reward").getD (.float 0)).toFloat)
  else
    let f ← r.feedback.get
    return (Arithmetic.ofFloat f.rating - Arithmetic.ofFloat 3) / Arithmetic.ofFloat 2

/-- A value moved toward a reward by a rate. -/
def toward (rate value reward : ν) : ν := value + rate * (reward - value)

/-- Moves the value of an action, zero at first, toward a reward. -/
def alterAction (action : String) (rate reward : ν) (t : Tables ν) : Tables ν :=
  { t with actions := t.actions.alter action (Arithmetic.ofFloat 0) (toward rate · reward) }

/-- Moves the value of a record's action toward the reward. -/
def learnAction (rate : Value) (r : LearningRecord) : Attempt (Tables ν) Unit := do
  let action ← actionOf r
  let reward : ν ← rewardOf r
  let rate ← rate.operand
  modify (alterAction action (Arithmetic.ofFloat rate) reward)

def learn (rate : Value) (r : LearningRecord) : Attempt (Tables ν) Unit :=
  match r.learningType with
  | .supervised => learnTask r
  | .unsupervised => learnFeatures r
  | .reinforcement => learnAction rate r
  | _ => pure ()

/-! ## Writing -/

def writeStats (s : TaskStats Float) : Value :=
  .record [("records", .count s.records), ("feedback", .count s.feedback),
    ("helpful", .count s.helpful), ("ratingTotal", .float s.ratingTotal)]

def toValue (t : Tables Float) : Value :=
  .record [
    ("taskStats", .map (t.tasks.map fun (task, s) => (task, writeStats s))),
    ("featureCounts", .record (t.features.map fun (f, n) => (f, .count n))),
    ("actionValues", .record (t.actions.map fun (a, x) => (a, .float x)))]

end Tables

end KnowledgeGraph
