import KnowledgeGraph.Atom.Record
import KnowledgeGraph.Number.Statistics

/-!
# Learning records

A learning record is an event to learn from: its type, an input, and perhaps the feedback of a user
and the context in which it happened. Records come and go as maps; several fields may be named in
two spellings.
-/

namespace KnowledgeGraph

/-! ## Words -/

/-- What a record is learned as. -/
inductive LearningType where
  | supervised
  | unsupervised
  | reinforcement
  | personalization
  | behavioral
  | adaptive
  | custom
deriving DecidableEq, Repr

namespace LearningType

def label : LearningType → String
  | supervised => "supervised"
  | unsupervised => "unsupervised"
  | reinforcement => "reinforcement"
  | personalization => "personalization"
  | behavioral => "behavioral"
  | adaptive => "adaptive"
  | custom => "custom"

def all : List LearningType :=
  [supervised, unsupervised, reinforcement, personalization, behavioral, adaptive, custom]

/-- The type with a name; any other value stands for a custom type. -/
def ofValue (v : Value) : LearningType := (all.find? fun t => v.isText t.label).getD custom

end LearningType

/-- How urgent a record is. -/
inductive Priority where
  | low
  | medium
  | high
  | critical
deriving DecidableEq, Repr

namespace Priority

def label : Priority → String
  | low => "low"
  | medium => "medium"
  | high => "high"
  | critical => "critical"

def all : List Priority := [low, medium, high, critical]

/-- The priority with a name, none for null. -/
def ofValue? (v : Value) : Except Fault (Option Priority) :=
  match v with
  | .null => .ok none
  | v => match all.find? fun p => v.isText p.label with
    | some p => .ok (some p)
    | none => .error (.unknownPriority v)

end Priority

/-- What a user did with what was offered. -/
inductive Outcome where
  | accepted
  | rejected
  | modified
  | ignored
deriving DecidableEq, Repr

namespace Outcome

def label : Outcome → String
  | accepted => "accepted"
  | rejected => "rejected"
  | modified => "modified"
  | ignored => "ignored"

def all : List Outcome := [accepted, rejected, modified, ignored]

/-- The outcome with a name, none for null. -/
def ofValue? (v : Value) : Except Fault (Option Outcome) :=
  match v with
  | .null => .ok none
  | v => match all.find? fun o => v.isText o.label with
    | some o => .ok (some o)
    | none => .error (.unknownOutcome v)

end Outcome

/-- A field of a map, null if it is missing. -/
def Entries.field (es : Entries) (name : String) : Value := (Entries.get? es name).getD .null

/-! ## Feedback -/

/-- A user's verdict: a rating from one to five, and whether it helped. -/
structure Feedback where
  rating : Float
  helpful : Bool
  comment : Value
  actionTaken : Value
  timeSpent : Value
  outcome : Option Outcome

namespace Feedback

/-- Reads feedback. A missing rating is three; the rating is moved into its range. -/
def ofRecord : Value → Except Fault Feedback
  | .map es => do
    let rating ← ((Entries.get? es "rating").getD (.int 3)).toFloat
    let outcome ← Outcome.ofValue? (Entries.field es "outcome")
    return {
      rating := clamp 1 5 rating
      helpful := !(Entries.field es "helpful").isAbsent
      comment := Entries.field es "comment"
      actionTaken := Entries.either es "actionTaken" "action_taken"
      timeSpent := Entries.either es "timeSpent" "time_spent"
      outcome }
  | _ => .error .noSuchField

def toValue (f : Feedback) : Value :=
  .record [
    ("rating", .float f.rating),
    ("helpful", .bool f.helpful),
    ("comment", f.comment),
    ("actionTaken", f.actionTaken),
    ("timeSpent", f.timeSpent),
    ("outcome", (f.outcome.map fun o => Value.text o.label).getD .null)]

/-- Feedback that did not help or rates low is urgent; a middling rating is less so. -/
def priority (f : Feedback) : Priority :=
  if f.rating ≤ 2 || !f.helpful then .high
  else if f.rating == 3 then .medium
  else .low

end Feedback

/-! ## Context -/

/-- Who was doing what. -/
structure LearningContext where
  userId : Value := .null
  workspaceId : Value := .null
  projectType : Value := .null
  currentTask : Value := .null
  userExperience : Value := .null
  preferences : Entries := []
  environmentInfo : Entries := []

namespace LearningContext

def ofRecord : Value → Except Fault LearningContext
  | .map es => do
    let preferences ← (Entries.field es "preferences").toMapOrEmpty
    let environmentInfo ← (Entries.either es "environmentInfo" "environment_info").toMapOrEmpty
    return {
      userId := Entries.either es "userId" "user_id"
      workspaceId := Entries.either es "workspaceId" "workspace_id"
      projectType := Entries.either es "projectType" "project_type"
      currentTask := Entries.either es "currentTask" "current_task"
      userExperience := Entries.either es "userExperience" "user_experience"
      preferences, environmentInfo }
  | _ => .error .noSuchField

def toValue (c : LearningContext) : Value :=
  .record [
    ("userId", c.userId),
    ("workspaceId", c.workspaceId),
    ("projectType", c.projectType),
    ("currentTask", c.currentTask),
    ("userExperience", c.userExperience),
    ("preferences", .map c.preferences),
    ("environmentInfo", .map c.environmentInfo)]

end LearningContext

/-! ## Records -/

/-- An event to learn from. -/
structure LearningRecord where
  type : String
  input : Value := .null
  expectedOutput : Value := .null
  feedback : Slot Feedback := .empty
  context : Slot LearningContext := .empty
  timestamp : Value := .null
  priority : Option Priority := none
  sessionId : Value := .null

namespace LearningRecord

/-- Reads a slot: a map is read as a record, and other values are kept as they are. -/
def readSlot {α : Type} (reader : Value → Except Fault α) (v : Value) : Except Fault (Slot α) :=
  match v with
  | .map es => return .known (← reader (.map es))
  | v => .ok (.raw v)

def ofRecord : Value → Except Fault LearningRecord
  | .map es => do
    let type ← (Value.map es).index "type"
    let feedback ← readSlot Feedback.ofRecord (Entries.field es "feedback")
    let context ← readSlot LearningContext.ofRecord (Entries.field es "context")
    match type with
    | .text s =>
      if s.isEmpty then throw .recordTypeNotText
      let priority ← Priority.ofValue? (Entries.field es "priority")
      return {
        type := s
        input := Entries.field es "input"
        expectedOutput := Entries.either es "expectedOutput" "expected_output"
        feedback, context
        timestamp := Entries.field es "timestamp"
        priority
        sessionId := Entries.either es "sessionId" "session_id" }
    | _ => throw .recordTypeNotText
  | _ => .error .noSuchField

def toRecord (r : LearningRecord) : Except Fault Value := do
  let feedback ← Atom.writeSlot Feedback.toValue r.feedback
  let context ← Atom.writeSlot LearningContext.toValue r.context
  return .record [
    ("type", .text r.type),
    ("input", r.input),
    ("expectedOutput", r.expectedOutput),
    ("feedback", feedback),
    ("context", context),
    ("timestamp", r.timestamp),
    ("priority", (r.priority.map fun p => Value.text p.label).getD .null),
    ("sessionId", r.sessionId)]

def learningType (r : LearningRecord) : LearningType := .ofValue (.text r.type)

/-- The user of a record, null if it has no context. -/
def userId (r : LearningRecord) : Except Fault Value :=
  return ((← r.context.get?).map (·.userId)).getD .null

/-- The input, if it is a map, else an empty one. -/
def payload (r : LearningRecord) : Entries := r.input.entries?.getD []

end LearningRecord

end KnowledgeGraph
