import KnowledgeGraph.Learning.Command
import KnowledgeGraph.Reasoning.Reasoner
import KnowledgeGraph.Store.Command

/-!
# The engine

The engine joins the store, the learner, recognition and reasoning. What is learned weighs what is
recognized and concluded, and leaves traces in the store: an atom for each record, one more for
feedback that says that it helped, and one more for feedback on a personalization.
-/

namespace KnowledgeGraph

/-- What an engine can be tuned by. -/
structure EngineConfig where
  detection : DetectionConfig := {}
  reasoning : ReasoningConfig := {}
  learning : LearningConfig := {}

/-- A store and what was learned over it. -/
structure Engine where
  config : EngineConfig := {}
  store : Store := .empty
  learner : Learner := {}

namespace Engine

/-- An engine without atoms that knows nothing. -/
def start (config : EngineConfig) : Engine := { config, learner := .start config.learning }

/-! ## Parts -/

def onStore {α : Type} (x : Attempt Store α) : Attempt Engine α :=
  x.within (·.store) fun e s => { e with store := s }

def onLearner {α : Type} (x : Attempt Learner α) : Attempt Engine α :=
  x.within (·.learner) fun e l => { e with learner := l }

def weights (e : Engine) : WeightProvider := fun user domain =>
  return .float (← e.learner.weight user (.text domain))

def recognizer (e : Engine) : Recognizer := ⟨e.config.detection, some e.weights⟩

/-- Reasoning over the store with learned weights. -/
def reasoner (e : Engine) : Reasoner :=
  ⟨e.store, Reasoner.standard e.config.reasoning e.recognizer e.store, some e.weights⟩

/-! ## Traces -/

/-- The feedback and the context of a record as values. -/
def traceParts (r : LearningRecord) : Except Fault (Value × Value) := do
  let feedback ← Atom.writeSlot Feedback.toValue r.feedback
  return (feedback, ← Atom.writeSlot LearningContext.toValue r.context)

def recordAtom (r : LearningRecord) (time : String) (feedback context : Value) : Atom :=
  .make .learningRecord (.text s!"learning_{r.type}_{time}") (some (.of 0.8 0.6))
    (Entries.ofFields [
      ("learningType", .text r.type),
      ("timestamp", r.timestamp),
      ("sessionId", r.sessionId),
      ("feedback", feedback),
      ("context", context)]) []

/-- The atom that helpful feedback leaves. -/
def successAtom (r : LearningRecord) (time : String) (f : Feedback) (feedback context : Value) : Atom :=
  .make .successPattern (.text s!"success_{r.type}_{time}")
    (some (.of (f.rating / 5) 0.8))
    (Entries.ofFields [
      ("reasoningType", .text r.type),
      ("context", context),
      ("feedback", feedback)]) []

/-- The atom that feedback on a personalization leaves. -/
def personalizationAtom (r : LearningRecord) (time : String) (feedback : Value) : Atom :=
  .make .personalizationNode (.text s!"personalization_{time}")
    (some (.of 0.7 0.6))
    (Entries.ofFields [
      ("userPreferences", r.input),
      ("feedback", feedback),
      ("timestamp", r.timestamp)]) []

/-- The atoms that a record leaves, which are named by the text of its time. -/
def traceAtoms (r : LearningRecord) : Except Fault (List Atom) := do
  let (feedback, context) ← traceParts r
  let time ← r.timestamp.toText
  let given ← r.feedback.get?
  return recordAtom r time feedback context ::
    ((given.filter (·.helpful)).map fun f => successAtom r time f feedback context).toList ++
    (if given.isSome && r.learningType == .personalization then [personalizationAtom r time feedback]
      else [])

/-- Adds the atoms that a record leaves. -/
def leaveTrace (r : LearningRecord) : Attempt Engine Unit := do
  let atoms ← traceAtoms r
  atoms.forM fun a => discard (onStore (Store.add a))

/-- Learns, and leaves a trace of the record. -/
def learning (x : Attempt Learner LearningRecord) : Attempt Engine LearningRecord := do
  let r ← onLearner x
  leaveTrace r
  return r

/-- Records an action of a user, and leaves a trace; the behaviour it belongs to. -/
def learnBehavior (user action context : Value) : Attempt Engine (Option Behavior) := do
  discard (learning (do Learner.learn (← Learner.behaviorRecord user action context)))
  (← get).learner.behavior? user action

/-! ## Recognition and reasoning -/

/-- The patterns that a request asks for. -/
def recognize (e : Engine) (request : Value) : Except Fault (List Pattern) := do
  e.recognizer.recognize (← RecognitionRequest.ofValue request)

def reason (e : Engine) (question : Value) : Answer := e.reasoner.reason question

/-! ## Commands -/

/-- A call of the engine. -/
inductive Command where
  | store (command : Store.Command)
  | learner (command : Learner.Command)
  | recognize (request : Value)
  | reason (question : Value)

def writePatterns (ps : List Pattern) : Except Fault Value :=
  return .list (← ps.mapM Pattern.toRecord)

/-- Carries out a command of the learner. -/
def performLearner (command : Learner.Command) : Attempt Engine Value :=
  match command with
  | .learn record => do (← learning (Learner.learnRecord record)).toRecord
  | .feedback feedback context => do
    (← learning (Learner.learnFeedback feedback context)).toRecord
  | .behavior user action context => do
    return Learner.write? Behavior.toValue (← learnBehavior user action context)
  | command => onLearner (Learner.perform command)

/-- Carries out a command and writes down its answer. -/
def perform : Command → Attempt Engine Value
  | .store command => onStore (Store.perform command)
  | .learner command => performLearner command
  | .recognize request => do writePatterns (← (← get).recognize request)
  | .reason question => do ((← get).reason question).toRecord

end Engine

end KnowledgeGraph
