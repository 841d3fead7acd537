import KnowledgeGraph.Learning.Record
import KnowledgeGraph.Value.Arithmetic

/-!
# What is learned about users, and models

An adaptation holds the parameters of one user in one domain, and how effective they are. A
behaviour is an action that a user repeats, with the context of the last time. A model is trained on
records and knows how many of the latest of them helped.
-/

namespace KnowledgeGraph

/-! ## Configuration -/

/-- What learning can be tuned by. A setting may be any value; where it is put to use, one of the
wrong kind is a fault. -/
structure LearningConfig where
  /-- How many records of a user there must be before anything is recommended. -/
  minHistory : Value := .int 10
  /-- How far feedback moves the effectiveness of an adaptation. -/
  feedbackNudge : Value := .float 0.1
  /-- What each repetition adds to the confidence in a behaviour. -/
  behaviorStep : Value := .float 0.01
  behaviorStart : Value := .float 0.5
  /-- The similarity that a context must exceed for a prediction. -/
  predictionThreshold : Value := .float 0.5
  maxPredictions : Value := .int 5
  /-- How far a reward moves the value of an action. -/
  reinforcementRate : Value := .float 0.1
  /-- The accuracy of a model without rated records. -/
  defaultAccuracy : Value := .float 0.5
  defaultEffectiveness : Value := .float 0.5

namespace LearningConfig

/-- What feedback adds to the effectiveness of an adaptation. -/
def nudge (config : LearningConfig) (feedback : Feedback) : Except Fault Float := do
  let step ← config.feedbackNudge.quantity
  if feedback.helpful then step.real else step.negate.real

end LearningConfig

/-! ## Adaptations -/

/-- The parameters of a user in a domain. -/
structure Adaptation where
  id : String
  userId : Value
  domain : Value
  parameters : Entries := []
  effectiveness : Float
  lastUpdated : Nat

namespace Adaptation

/-- Moves the effectiveness, within the unit interval. -/
def nudge (a : Adaptation) (delta : Float) (now : Nat) : Adaptation :=
  { a with effectiveness := clampUnit (a.effectiveness + delta), lastUpdated := now }

/-- Sets the recommendations, and moves the effectiveness half way to a confidence. -/
def recommend (a : Adaptation) (recommendations : Entries) (confidence : Float) (now : Nat) :
    Adaptation :=
  { a with
    parameters := Entries.set a.parameters "recommendations" (.map recommendations)
    effectiveness := clampUnit ((a.effectiveness + confidence) / 2)
    lastUpdated := now }

/-- Writes given parameters into those of the adaptation, all but the domain. -/
def adopt (a : Adaptation) (given : Entries) : Adaptation :=
  { a with
    parameters := Table.merge a.parameters (given.filter fun e => !e.1.same (.text "domain")) }

def toValue (a : Adaptation) : Value :=
  .record [("id", .text a.id), ("userId", a.userId), ("domain", a.domain),
    ("strategy", .map a.parameters), ("effectiveness", .float a.effectiveness),
    ("lastUpdated", .count a.lastUpdated)]

end Adaptation

/-! ## Behaviours -/

/-- An action that a user repeats. -/
structure Behavior where
  id : String
  userId : Value
  action : String
  frequency : Nat := 1
  context : Entries
  confidence : Value
  discovered : Nat
  lastSeen : Nat

namespace Behavior

/-- A confidence raised by a step, up to one. -/
def raise (confidence step : Value) : Except Fault Value := do
  let raised ← (← confidence.quantity).plus (← step.quantity)
  return .ofQuantity ((Quantity.float 1).least raised)

/-- A behaviour that was counted once more. -/
def count (b : Behavior) : Behavior := { b with frequency := b.frequency + 1 }

/-- A behaviour with the confidence raised, and the context and the time of its last occurrence. -/
def again (b : Behavior) (step : Value) (context : Entries) (now : Nat) : Except Fault Behavior :=
  return { b with confidence := ← raise b.confidence step, context, lastSeen := now }

def toValue (b : Behavior) : Value :=
  .record [("id", .text b.id), ("userId", b.userId), ("pattern", .text b.action),
    ("frequency", .count b.frequency), ("context", .map b.context),
    ("confidence", b.confidence), ("discovered", .count b.discovered),
    ("lastSeen", .count b.lastSeen)]

/-- How many entries of a queried context the last context has, too. -/
def agreement (stored queried : Entries) : Nat :=
  queried.countP fun (k, v) => (Table.lookup? stored k).any (·.equals v)

/-- The share of a queried context that the last context has, too. -/
def similarity (stored queried : Entries) : Float :=
  if queried.isEmpty then 0
  else (agreement stored queried).toFloat / queried.length.toFloat

end Behavior

/-- An action that may come next. -/
structure Prediction where
  action : String
  confidence : Float
  similarity : Float

def Prediction.toValue (p : Prediction) : Value :=
  .record [("action", .text p.action), ("confidence", .float p.confidence),
    ("similarity", .float p.similarity)]

/-! ## Models -/

/-- A model that is trained on records. -/
structure LearningModel where
  id : String
  type : Value
  version : Nat := 1
  accuracy : Option Float := none
  confidence : Option Float := none
  trainingData : List (Slot LearningRecord) := []
  parameters : Entries
  createdAt : Nat
  updatedAt : Nat
  feedbackSamples : Nat := 0

namespace LearningModel

/-- A model with more records to train on, and a new version. -/
def extend (m : LearningModel) (batch : List (Slot LearningRecord)) : LearningModel :=
  { m with trainingData := m.trainingData ++ batch, version := m.version + 1 }

/-- The feedback on the records of a batch that have any. -/
def ratings (batch : List (Slot LearningRecord)) : Except Fault (List (Slot Feedback)) :=
  return (← batch.mapM fun slot => return (← slot.get).feedback).filter fun f => !f.isEmpty

/-- The share of feedback that says that it helped, the default if there is no feedback. -/
def helpfulShare (default : Value) (ratings : List (Slot Feedback)) : Except Fault Float := do
  if ratings.isEmpty then return (← default.quantity).toUnit
  let helpful := (← ratings.mapM Slot.get).countP (·.helpful)
  return helpful.toFloat / ratings.length.toFloat

/-- A model that was rated: its accuracy, and a little more confidence than that. -/
def rate (m : LearningModel) (accuracy : Float) (samples now : Nat) : LearningModel :=
  { m with
    accuracy := some (clampUnit accuracy)
    confidence := some (least 0.9 (clampUnit accuracy + 0.1))
    feedbackSamples := samples
    updatedAt := now }

/-- Writes the records that a model was trained on. -/
def writeTrainingData (data : List (Slot LearningRecord)) : Except Fault (List Value) :=
  data.mapM fun slot => do (← slot.get).toRecord

/-- Writes a number that may be missing. -/
def writeFloat? (x : Option Float) : Value := (x.map Value.float).getD .null

def toRecord (m : LearningModel) : Except Fault Value := do
  let data ← writeTrainingData m.trainingData
  return .record [
    ("id", .text m.id),
    ("type", m.type),
    ("version", .count m.version),
    ("accuracy", writeFloat? m.accuracy),
    ("confidence", writeFloat? m.confidence),
    ("trainingData", .list data),
    ("parameters", .map m.parameters),
    ("createdAt", .count m.createdAt),
    ("updatedAt", .count m.updatedAt),
    ("feedbackSamples", .count m.feedbackSamples)]

end LearningModel

end KnowledgeGraph
