import KnowledgeGraph.Learning.Learner

/-!
# Commands

A command is a call of the learner with all its arguments. `Learner.perform` carries one out and
writes down the answer.
-/

namespace KnowledgeGraph.Learner

/-- A call of the learner. -/
inductive Command where
  | learn (record : Value)
  | feedback (feedback context : Value)
  | adapt (user domain data : Value)
  | adaptation (user domain : Value)
  | behavior (user action context : Value)
  | behaviors (user : Value)
  | predict (user context : Value)
  | createModel (type parameters : Value)
  | trainModel (id data : Value)
  | model (id : Value)
  | models
  | personalize (user preferences : Value)
  | personalization (user : Value)
  | stats
  | weight (user domain : Value)
  | history
  | tables

def write? {α : Type} (write : α → Value) (a : Option α) : Value := (a.map write).getD .null

def writeHistory (l : Learner) : Except Fault Value :=
  return .list (← l.history.mapM LearningRecord.toRecord)

def writeModels (l : Learner) : Except Fault Value :=
  return .list (← l.models.values.mapM LearningModel.toRecord)

/-- Writes a model that may be missing. -/
def writeModel? : Option LearningModel → Except Fault Value
  | none => .ok .null
  | some m => m.toRecord

/-- Carries out a command and writes down its answer. -/
def perform : Command → Attempt Learner Value
  | .learn record => do (← learnRecord record).toRecord
  | .feedback feedback context => do (← learnFeedback feedback context).toRecord
  | .adapt user domain data => return (← adapt user domain data).toValue
  | .adaptation user domain => return write? Adaptation.toValue (← (← get).adaptation? user domain)
  | .behavior user action context =>
    return write? Behavior.toValue (← learnBehavior user action context)
  | .behaviors user => return .list ((← (← get).behaviorsOf user).map Behavior.toValue)
  | .predict user context => return .list ((← (← get).predict user context).map Prediction.toValue)
  | .createModel type parameters => do (← createModel type parameters).toRecord
  | .trainModel id data => do (← trainModel id data).toRecord
  | .model id => do writeModel? (← (← get).model? id)
  | .models => do (← get).writeModels
  | .personalize user preferences => return .map (← mergePreferences user preferences)
  | .personalization user => return write? Value.map (← (← get).preferences? user)
  | .stats => return (← get).stats
  | .weight user domain => return .float (← (← get).weight user domain)
  | .history => do (← get).writeHistory
  | .tables => return (← get).tables.toValue

end KnowledgeGraph.Learner
