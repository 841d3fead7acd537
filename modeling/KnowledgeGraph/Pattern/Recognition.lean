import KnowledgeGraph.Pattern.Behavior
import KnowledgeGraph.Pattern.Cluster
import KnowledgeGraph.Pattern.Ranking

/-!
# Recognition

`Recognizer.recognize` finds the patterns in an input of any kind: a text is searched for constructs
of source text, a list for progressions, repetition, nesting and clusters, an atom likewise in what
goes out from it, and any other map for behaviour. The patterns are ranked as the request asks, with
a weight for the user of the context.
-/

namespace KnowledgeGraph

/-- What is searched for patterns. -/
inductive Subject where
  | value (v : Value)
  | atom (a : Atom)
  | atoms (as : List Atom)

/-- A request for patterns. -/
structure RecognitionRequest where
  subject : Subject
  context : Value := .map []
  scope : Value := .null
  options : RankingOptions := {}

/-- Gives the weight of a user in a domain. -/
abbrev WeightProvider := Value → String → Except Fault Value

/-- The user that a context names, null if it names none. -/
def contextUser (context : Value) : Except Fault Value := do
  let user ← context.field "userId"
  if user.isAbsent then context.field "user_id" else return user

/-- The domain under which recognition is weighed. -/
def patternDomain : String := "pattern_recognition"

namespace RecognitionRequest

/-- Whether a map is a request: it has data, and no fields but those of requests. -/
def isRequest (es : Entries) : Bool :=
  (Entries.get? es "data").isSome &&
    (Table.keys es).all fun k => k.text?.any ["data", "context", "scope", "options"].contains

/-- Reads a request. A value that is none is itself what is searched. -/
def ofValue (v : Value) : Except Fault RecognitionRequest :=
  match v with
  | .map es =>
    if isRequest es then do
      let options ← RankingOptions.ofValue ((Entries.get? es "options").getD .null)
      return {
        subject := .value ((Entries.get? es "data").getD .null)
        context := ((Entries.get? es "context").getD .null).orElse (.map [])
        scope := (Entries.get? es "scope").getD .null
        options }
    else .ok { subject := .value v }
  | _ => .ok { subject := .value v }

end RecognitionRequest

/-- The patterns in what goes out from an atom. -/
def linkPatterns (config : DetectionConfig) (a : Atom) : Except Fault (List Pattern) :=
  sequencePatterns config a.outgoing

/-- The patterns in an input, as they are found. -/
def findPatterns (config : DetectionConfig) (subject : Subject) (context : Value) :
    Except Fault (List Pattern) :=
  match subject with
  | .atom a => linkPatterns config a
  | .atoms as => sequencePatterns config (as.map .known)
  | .value (.text s) => codePatterns config (context.orElse (.map [])) s.toList
  | .value (.list items) => sequencePatterns config (items.map .raw)
  | .value (.map es) => do
    match ← asAtom (.raw (.map es)) with
    | .known a => linkPatterns config a
    | .raw _ => behaviorPatterns config es
  | .value (.scalar _) => .ok []

/-- Finds and ranks patterns. -/
structure Recognizer where
  config : DetectionConfig := {}
  weight? : Option WeightProvider := none

namespace Recognizer

/-- The weight for the user of a context. -/
def weight (r : Recognizer) (context : Value) : Except Fault Value :=
  match r.weight? with
  | none => .ok (.float 1)
  | some provider => do provider (← contextUser context) patternDomain

/-- The patterns that a request asks for. -/
def recognize (r : Recognizer) (request : RecognitionRequest) : Except Fault (List Pattern) := do
  let context := request.context.orElse (.map [])
  let found ← findPatterns r.config request.subject context
  let weight ← r.weight context
  rankPatterns request.scope request.options weight found

end Recognizer

end KnowledgeGraph
