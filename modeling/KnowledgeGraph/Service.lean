import KnowledgeGraph.Atom.Attributes
import KnowledgeGraph.Engine
import KnowledgeGraph.Service.Body
import KnowledgeGraph.Service.Response
import KnowledgeGraph.Service.Route

/-!
# The service

The service answers requests to one engine. `Service.respond` finds what a request asks for, checks
its body and carries it out; what an action changed before it was refused stays changed.
-/

namespace KnowledgeGraph.Service

/-- A request; the body is an encoded text, without bytes if there is none. -/
structure Request where
  method : Method
  path : String
  body : ByteArray

/-- A step of answering a request, which may be refused. -/
abbrev Handler := ExceptT Refusal (StateM Engine)

instance : MonadLift (Attempt Engine) Handler where
  monadLift x := ExceptT.mk fun e =>
    let (outcome, e) := x.runOn e
    (outcome.mapError .failed, e)

instance : MonadLift (Except Fault) Handler where
  monadLift x := ExceptT.mk (pure (x.mapError .failed))

instance : MonadLift (Except Refusal) Handler where
  monadLift x := ExceptT.mk (pure x)

/-! ## What the service tells about itself -/

def version : String := "0.1.0"

/-- What the service tells about itself. -/
def about : Value := .record [
  ("service", .text "Atom Nexus API"),
  ("status", .text "operational"),
  ("version", .text version),
  ("capabilities", .texts ["atomspace", "pattern_recognition", "reasoning", "learning"]),
  ("endpoints", .record [
    ("atoms", .text "POST /v1/atoms"),
    ("query", .text "POST /v1/atoms/query"),
    ("reason", .text "POST /v1/reason"),
    ("patterns", .text "POST /v1/patterns/recognize"),
    ("learn", .text "POST /v1/learning/learn"),
    ("stats", .text "GET /v1/learning/stats")])]

/-! ## Parts of answers -/

/-- Carries out a command of the engine. -/
def run (command : Engine.Command) : Handler Value := Engine.perform command

/-- What was looked up, or a refusal if it is not there. -/
def obtain (detail : String) (v : Value) : Handler Value :=
  match v with
  | .null => throw (.notFound detail)
  | v => return v

/-- A list with its length, under a name. -/
def counted (name : String) (items : List Value) : Value :=
  .record [("count", .count items.length), (name, .list items)]

def ofUser (user : Value) (name : String) (v : Value) : Value :=
  .record [("userId", user), (name, v)]

/-- What is said of an atom that does not exist. -/
def noAtom (id : String) : String := "Atom not found: " ++ id

def findAtom (id : String) : Handler Value := do
  obtain (noAtom id) (← run (.store (.get (.text id))))

/-- Acts on the atom with an id, and refuses if there is none. -/
def onAtom (id : String) (act : Attempt Store Bool) : Handler Unit := do
  if !(← (Engine.onStore act : Handler Bool)) then throw (.notFound (noAtom id))

/-- Writes an element of a repetition: an atom is laid out by its attributes. -/
def writeElement : Item → Except Fault Value
  | .known a => .ok a.attributes
  | .raw v => .ok v

def writePatterns (ps : List Pattern) : Except Fault (List Value) :=
  ps.mapM (Pattern.toRecordWith writeElement)

def writeAtoms (atoms : List Atom) : Except Fault (List Value) := atoms.mapM Atom.toRecord

/-- A field of a body that was checked. -/
def field (body : Value) (name : String) : Value := Entries.field (body.entries?.getD []) name

/-! ## Actions -/

/-- Carries out an action on atoms, of recognition or of reasoning. -/
def handleGraph (body : ByteArray) : GraphAction → Handler Value
  | .add => do
    let record ← Body.read Body.atom body
    return .record [("id", ← run (.store (.add record)))]
  | .query => do
    let q ← Body.read Body.query body
    let atoms ← (← get).store.query q
    return counted "atoms" (← writeAtoms atoms)
  | .find id => findAtom id
  | .update id => do
    let updates ← Body.read Form.map body
    onAtom id (Store.update (.text id) (.map updates))
    findAtom id
  | .remove id => do
    onAtom id (Store.remove (.text id))
    return .record [("removed", .text id)]
  | .size => return .record [("size", ← run (.store .size))]
  | .clear => do
    discard (run (.store .clear))
    return .record [("size", ← run (.store .size))]
  | .exportText => return .record [("data", ← run (.store .exportText))]
  | .importText => do
    let data ← Body.read Body.importText body
    return .record [("imported", ← run (.store (.importText (.text data))))]
  | .recognize => do
    let request ← Body.read Body.recognition body
    let patterns ← (← get).recognize request
    return counted "patterns" (← writePatterns patterns)
  | .reason => do
    let question ← Body.read Body.question body
    run (.reason question)

/-- Carries out an action on what is learned. -/
def handleLearning (body : ByteArray) : LearningAction → Handler Value
  | .learn => do
    let record ← Body.read Body.learning body
    run (.learner (.learn record))
  | .feedback => do
    let given ← Body.read Body.feedbackInContext body
    run (.learner (.feedback (field given "feedback") (field given "context")))
  | .adapt => do
    let given ← Body.read Body.adaptation body
    run (.learner (.adapt (field given "userId") (field given "domain") (field given "data")))
  | .adaptation user domain => do
    obtain s!"No strategy for {user}/{domain}"
      (← run (.learner (.adaptation (.text user) (.text domain))))
  | .behavior => do
    let given ← Body.read Body.action body
    run (.learner (.behavior (field given "userId") (field given "action") (field given "context")))
  | .behaviors user =>
    return ofUser (.text user) "patterns" (← run (.learner (.behaviors (.text user))))
  | .predict => do
    let given ← Body.read Body.prediction body
    let user := field given "userId"
    return ofUser user "predictions" (← run (.learner (.predict user (field given "context"))))
  | .createModel => do
    let given ← Body.read Body.model body
    run (.learner (.createModel (field given "type") (field given "parameters")))
  | .models => return .record [("models", ← run (.learner .models))]
  | .model id => do
    obtain (Fault.modelNotFound (.text id)).wording (← run (.learner (.model (.text id))))
  | .trainModel id => do
    let batch ← Body.read Body.training body
    run (.learner (.trainModel (.text id) (.list batch)))
  | .personalize user => do
    let preferences ← Body.read Form.map body
    run (.learner (.personalize (.text user) (.map preferences)))
  | .personalization user => do
    obtain s!"No personalization for {user}" (← run (.learner (.personalization (.text user))))
  | .stats => run (.learner .stats)

def handle (body : ByteArray) : Action → Handler Value
  | .about => return about
  | .health => return .record [("status", .text "healthy"), ("atoms", ← run (.store .size))]
  | .graph a => handleGraph body a
  | .learning a => handleLearning body a

def respondInFull (r : Request) : StateM Engine Response := do
  match find r.method r.path with
  | .nothing => return .nothingHere
  | .otherMethods => return .wrongMethod
  | .elsewhere => return .elsewhere
  | .action a =>
    match ← (handle r.body a).run with
    | .ok v => return .ofBody v
    | .error refusal => return .ofRefusal refusal

/-- Answers a request; one for the head alone gets no body. -/
def respond (r : Request) : StateM Engine Response := do
  let response ← respondInFull r
  return if r.method == .head then response.headOnly else response

end KnowledgeGraph.Service
