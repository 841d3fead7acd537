import KnowledgeGraph.Learning.Profile
import KnowledgeGraph.Learning.Tables
import KnowledgeGraph.Selection
import KnowledgeGraph.Sorting

/-!
# The learner

The learner keeps the history of all records and what is derived from it: the tables, the
adaptations of users, their behaviours and preferences, and the models. A record goes into the
history first and is processed by its type then; a fault in between leaves it in the history.

The time is part of the state and is set from outside. Ids are handed out by a running number.
-/

namespace KnowledgeGraph

/-- Everything that was learned. -/
structure Learner where
  config : LearningConfig := {}
  /-- The time in milliseconds. -/
  now : Nat := 0
  /-- How many ids have been handed out. -/
  issued : Nat := 0
  history : List LearningRecord := []
  tables : Tables Float := {}
  adaptations : Table (Scalar × Scalar) Adaptation := []
  behaviors : Table Scalar (Table String Behavior) := []
  preferences : Table Scalar Entries := []
  models : Table String LearningModel := []
  modelCount : Nat := 0

namespace Learner

def start (config : LearningConfig) : Learner := { config }

/-- The user of calls that name none. -/
def anonymousUser : String := "anonymous"

/-! ## Ids -/

def newId : Attempt Learner String := do
  let l ← get
  set { l with issued := l.issued + 1 }
  return String.ofList (hex 16 l.issued)

/-- A new session id, which carries the time. -/
def newSession : Attempt Learner String := do
  let id ← newId
  return s!"session_{(← get).now}_{id}"

/-! ## Adaptations -/

def adaptationKey (user domain : Value) : Except Fault (Scalar × Scalar) :=
  return (← user.toKey, ← domain.toKey)

/-- The adaptation of a user in a domain. -/
def adaptation? (l : Learner) (user domain : Value) : Except Fault (Option Adaptation) :=
  return l.adaptations.lookup? (← adaptationKey user domain)

/-- The adaptation of a user in a domain, which is created if it is missing. It is stored before user
and domain are mentioned. -/
def obtainAdaptation (user domain : Value) : Attempt Learner Adaptation := do
  let key ← adaptationKey user domain
  match (← get).adaptations.lookup? key with
  | some a => return a
  | none =>
    let id ← newId
    let l ← get
    let effectiveness ← l.config.defaultEffectiveness.toFloat
    let a : Adaptation := {
      id, domain
      userId := user
      effectiveness := clampUnit effectiveness
      lastUpdated := l.now }
    set { l with adaptations := l.adaptations.put key a }
    Value.mention [user, domain]
    return a

def storeAdaptation (user domain : Value) (a : Adaptation) : Attempt Learner Unit := do
  let key ← adaptationKey user domain
  modify fun l => { l with adaptations := l.adaptations.put key a }

/-- The weight of a user in a domain: a half more than the effectiveness of the adaptation, one if
there is none. -/
def weight (l : Learner) (user domain : Value) : Except Fault Float := do
  match ← l.adaptation? (user.orElse (.text anonymousUser)) domain with
  | some a => return 0.5 + a.effectiveness
  | none => return 1

/-! ### Recommendations -/

def recordsOf (l : Learner) (user : Value) : Except Fault (List LearningRecord) :=
  filterE (fun r => return (← r.userId).equals user) l.history

/-- The task of a record as a key, none if it counts as absent. -/
def taskKey? (r : LearningRecord) : Except Fault (Option Scalar) := do
  let task := (← r.context.get).currentTask
  if task.isAbsent then return none else return some (← task.toKey)

/-- The first experience level in a list of records that does not count as absent. -/
def firstExperience : List LearningRecord → Except Fault Value
  | [] => .ok .null
  | r :: rest => do
    let experience := (← r.context.get).userExperience
    if experience.isAbsent then firstExperience rest else return experience

/-- What the records of a user recommend, with the confidence in it. -/
def summarize (records : List LearningRecord) : Except Fault (Entries × Float) := do
  let rated := records.filter fun r => !r.feedback.isAbsent
  let helpful ← filterE (fun r => return (← r.feedback.get).helpful) rated
  let tasks := Table.tally ((← helpful.mapM taskKey?).filterMap id)
  let feedback ← rated.mapM fun r => r.feedback.get
  let outcomes := Table.tally (feedback.filterMap fun f => f.outcome.map Outcome.label)
  let experience ← firstExperience records.reverse
  let helpfulRate := helpful.length.toFloat / rated.length.toFloat
  let ifRated (v : Value) : Value := if rated.isEmpty then .null else v
  return (Entries.ofFields [
    ("historySize", .count records.length),
    ("preferredTasks", .list ((tasks.byCount.take 3).map fun e => .scalar e.1)),
    ("preferredOutcome", ((Table.mostCounted? outcomes).map fun e => Value.text e.1).getD .null),
    ("averageRating", ifRated (.float (mean (feedback.map (·.rating))))),
    ("helpfulRate", ifRated (.float helpfulRate)),
    ("experienceLevel", experience)],
    if rated.isEmpty then 0.5 else helpfulRate)

/-- What the history of a user recommends, nothing if it is short. -/
def recommendations (l : Learner) (user : Value) : Except Fault (Entries × Float) := do
  let records ← l.recordsOf user
  if (Quantity.int records.length).less (← l.config.minHistory.quantity) then return ([], 0.5)
  summarize records

/-- Refreshes the adaptation of a user in a domain, with parameters to adopt. -/
def adapt (user domain data : Value) : Attempt Learner Adaptation := do
  let a ← obtainAdaptation user domain
  let a := match data with
    | .map es => a.adopt es
    | _ => a
  storeAdaptation user domain a
  let (recommended, confidence) ← (← get).recommendations user
  let a := a.recommend recommended confidence (← get).now
  storeAdaptation user domain a
  return a

/-! ## Behaviours -/

def storeBehavior (key : Scalar) (b : Behavior) : Attempt Learner Unit :=
  modify fun l => { l with behaviors := l.behaviors.alter key [] (Table.put · b.action b) }

/-- Notes an occurrence of an action of a user. It is counted before the confidence is raised. -/
def noteBehavior (user : Value) (action : String) (context : Entries) : Attempt Learner Unit := do
  let key ← user.toKey
  match (((← get).behaviors.lookup? key).getD []).lookup? action with
  | some b =>
    let b := b.count
    storeBehavior key b
    let l ← get
    storeBehavior key (← b.again l.config.behaviorStep context l.now)
  | none =>
    let id ← newId
    let l ← get
    storeBehavior key {
      id, action, context
      userId := user
      confidence := l.config.behaviorStart
      discovered := l.now
      lastSeen := l.now }

/-- The behaviours of a user, in the order of their first occurrences. -/
def behaviorsOf (l : Learner) (user : Value) : Except Fault (List Behavior) := do
  return ((l.behaviors.lookup? (← user.toKey)).getD []).values

/-- The behaviour of a user with an action, both found by their texts. -/
def behavior? (l : Learner) (user action : Value) : Except Fault (Option Behavior) := do
  let patterns := (l.behaviors.lookup? (.text (← user.toText))).getD []
  return patterns.lookup? (← action.toText)

/-- A behaviour as a prediction for a context, if the context is similar enough to the last one. -/
def prediction? (threshold : Value) (context : Entries) (b : Behavior) :
    Except Fault (Option Prediction) := do
  let similarity := Behavior.similarity b.context context
  if (← threshold.quantity).less (.float similarity) then
    return some ⟨b.action, similarity * (← b.confidence.operand), similarity⟩
  else return none

/-- Behaviours as predictions for a context, the most certain first. -/
def predictions (threshold : Value) (behaviors : List Behavior) (context : Entries) :
    Except Fault (List Prediction) := do
  let found ← behaviors.mapM (prediction? threshold context)
  return byFalling (·.confidence) (found.filterMap id)

/-- A value as a context to predict from. Where there is nothing to predict it may be anything. -/
def readQueried (behaviors : List Behavior) (context : Value) : Except Fault Entries :=
  match context.orElse (.map []) with
  | .map es => .ok es
  | _ => if behaviors.isEmpty then .ok [] else .error .noSuchField

/-- The actions of a user that are likely in a context. -/
def predict (l : Learner) (user context : Value) : Except Fault (List Prediction) := do
  let behaviors ← l.behaviorsOf user
  let queried ← readQueried behaviors context
  let found ← predictions l.config.predictionThreshold behaviors queried
  return takeUpTo (← l.config.maxPredictions.limit?) found

/-! ## Preferences -/

/-- Writes preferences into those of a user, with the time. Entries before a fault are kept. -/
def mergePreferences (user given : Value) : Attempt Learner Entries := do
  let key ← user.toKey
  let old := ((← get).preferences.lookup? key).getD []
  let (entries, fault) := given.toEntries
  let merged := Table.merge old entries
  let store (es : Entries) : Attempt Learner Unit :=
    modify fun l => { l with preferences := l.preferences.put key es }
  match fault with
  | some f =>
    store merged
    throw f
  | none =>
    let merged := Entries.set merged "lastUpdated" (.count (← get).now)
    store merged
    return merged

def preferences? (l : Learner) (user : Value) : Except Fault (Option Entries) :=
  return l.preferences.lookup? (← user.toKey)

/-! ## Learning -/

def learnTables (r : LearningRecord) : Attempt Learner Unit := do
  let rate := (← get).config.reinforcementRate
  Attempt.within (·.tables) (fun l t => { l with tables := t }) (Tables.learn rate r)

def process (r : LearningRecord) : Attempt Learner Unit := do
  match r.learningType with
  | .supervised | .unsupervised | .reinforcement => learnTables r
  | .personalization =>
    let user ← r.userId
    if !user.isAbsent && r.input.entries?.isSome then discard (mergePreferences user r.input)
  | .behavioral =>
    let user ← r.userId
    match user, Entries.field r.payload "action" with
    | .null, _ | _, .null => pure ()
    | user, action =>
      let context := (Entries.field r.payload "context").entries?.getD []
      noteBehavior user (← action.toText) context
  | .adaptive =>
    let user ← r.userId
    let domain := Entries.field r.payload "domain"
    if !user.isAbsent && !domain.isAbsent then
      discard (adapt user (.text (← domain.toText)) (.map r.payload))
  | .custom => pure ()

/-- Records an event and processes it, and mentions the session. A record without time or session is
given both. -/
def learn (r : LearningRecord) : Attempt Learner LearningRecord := do
  let timestamp := r.timestamp.orElse (.count (← get).now)
  let sessionId ← if r.sessionId.isAbsent then pure (.text (← newSession)) else pure r.sessionId
  let r := { r with timestamp, sessionId }
  modify fun l => { l with history := l.history ++ [r] }
  process r
  Value.mention [r.sessionId]
  return r

def learnRecord (record : Value) : Attempt Learner LearningRecord := do
  learn (← LearningRecord.ofRecord record)

/-- The record of feedback in a context. -/
def feedbackRecord (feedback : Feedback) (context : Slot LearningContext) : LearningRecord :=
  { type := LearningType.supervised.label
    input := feedback.toValue
    feedback := .known feedback
    context
    priority := some feedback.priority }

/-- Reads the context of feedback; one that counts as absent is a context without fields. -/
def readContext (v : Value) : Except Fault (Slot LearningContext) :=
  match v with
  | .map es => return .known (← LearningContext.ofRecord (.map es))
  | v => .ok (if v.isAbsent then .known {} else .raw v)

/-- Moves the effectiveness of the adaptation that feedback in a context is about, and mentions whose
it is. -/
def nudge (feedback : Feedback) (context : Slot LearningContext) : Attempt Learner Unit := do
  let context ← context.get
  let user := context.userId.orElse (.text anonymousUser)
  let domain := context.currentTask.orElse (.text Tables.generalTask)
  let a ← obtainAdaptation user domain
  let l ← get
  let delta ← l.config.nudge feedback
  storeAdaptation user domain (a.nudge delta l.now)
  Value.mention [a.userId, a.domain]

/-- Records feedback and moves the effectiveness of the adaptation it is about. -/
def learnFeedback (feedback context : Value) : Attempt Learner LearningRecord := do
  let feedback ← LearningRecord.readSlot Feedback.ofRecord feedback
  let context ← readContext context
  let feedback ← feedback.get
  let r ← learn (feedbackRecord feedback context)
  nudge feedback context
  return r

/-- The record of an action of a user, with both as texts. -/
def behaviorRecord (user action context : Value) : Except Fault LearningRecord := do
  let action ← action.toText
  let context ← context.toMapOrEmpty
  return {
    type := LearningType.behavioral.label
    input := .record [("action", .text action), ("context", .map context)]
    context := .known { userId := .text (← user.toText) } }

/-- Records an action of a user; the behaviour it belongs to. -/
def learnBehavior (user action context : Value) : Attempt Learner (Option Behavior) := do
  discard (learn (← behaviorRecord user action context))
  (← get).behavior? user action

/-! ## Models -/

/-- Creates a model, and mentions its type. The number of models counts up before the parameters are
read. -/
def createModel (type parameters : Value) : Attempt Learner LearningModel := do
  modify fun l => { l with modelCount := l.modelCount + 1 }
  let parameters ← parameters.toMapOrEmpty
  let l ← get
  let m : LearningModel := {
    id := s!"model_{l.modelCount}"
    type, parameters
    createdAt := l.now
    updatedAt := l.now }
  set { l with models := l.models.put m.id m }
  Value.mention [type]
  return m

def model? (l : Learner) (id : Value) : Except Fault (Option LearningModel) := do
  match ← id.toKey with
  | .text s => return l.models.lookup? s
  | _ => return none

def readBatch (data : Value) : Except Fault (List (Slot LearningRecord)) := do
  (← data.members).mapM (LearningRecord.readSlot LearningRecord.ofRecord)

def storeModel (m : LearningModel) : Attempt Learner Unit :=
  modify fun l => { l with models := l.models.put m.id m }

/-- Trains a model on a batch of records: it gets the records and a new version, and then is rated
by the batch. -/
def trainModel (id data : Value) : Attempt Learner LearningModel := do
  let batch ← readBatch data
  match ← (← get).model? id with
  | none =>
    Value.mention [id]
    throw (.modelNotFound id)
  | some m =>
    let m := m.extend batch
    storeModel m
    let ratings ← LearningModel.ratings batch
    let l ← get
    let accuracy ← LearningModel.helpfulShare l.config.defaultAccuracy ratings
    let m := m.rate accuracy ratings.length l.now
    storeModel m
    return m

/-! ## Statistics -/

def stats (l : Learner) : Value :=
  .record [
    ("totalLearningRecords", .count l.history.length),
    ("modelAccuracy",
      .record (l.models.map fun (id, m) => (id, LearningModel.writeFloat? m.accuracy))),
    ("userAdaptations", .count l.adaptations.length),
    ("behaviorPatterns", .count (Table.total (l.behaviors.values.map List.length)))]

end Learner

end KnowledgeGraph
