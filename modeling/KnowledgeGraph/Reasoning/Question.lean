import KnowledgeGraph.Atom.Record
import KnowledgeGraph.Value.Arithmetic

/-!
# Questions and answers

A question names a type of reasoning and may bring the atoms to reason over, a context and
parameters. An answer holds the atoms concluded, a confidence, an explanation and metadata; a failed
answer is marked in its metadata.
-/

namespace KnowledgeGraph

/-! ## Types of reasoning -/

/-- How to reason. -/
inductive ReasoningType where
  | deduction
  | induction
  | abduction
  | codeAnalysis
  | codeCompletion
  | patternMatching
  | hybrid
  | unknown
deriving DecidableEq, Repr

namespace ReasoningType

def label : ReasoningType → String
  | deduction => "deductive"
  | induction => "inductive"
  | abduction => "abductive"
  | codeAnalysis => "code-analysis"
  | codeCompletion => "code-completion"
  | patternMatching => "pattern-matching"
  | hybrid => "hybrid"
  | unknown => "unknown"

def all : List ReasoningType :=
  [deduction, induction, abduction, codeAnalysis, codeCompletion, patternMatching, hybrid, unknown]

/-- The type with a name. No type, an empty one and a mixed one ask for hybrid reasoning; any other
value is unknown. -/
def ofValue (v : Value) : ReasoningType :=
  match v with
  | .null => hybrid
  | v => if v.isText "" || v.isText "mixed" then hybrid
    else (all.find? fun t => v.isText t.label).getD unknown

end ReasoningType

/-! ## Configuration -/

/-- Confidence and limits of each way to reason. A setting may be any value; where it is put to use,
one of the wrong kind is a fault. -/
structure ReasoningConfig where
  deductiveCeiling : Value := .float 0.95
  /-- The confidence kept in each step of a deduction. -/
  deductiveDecay : Value := .float 0.95
  /-- How many rounds of deduction there are at most. -/
  maxDepth : Value := .int 3
  inductiveCeiling : Value := .float 0.75
  /-- What is added to the number of instances below the line. -/
  inductivePrior : Value := .int 2
  abductiveCeiling : Value := .float 0.5
  abductiveFactor : Value := .float 0.5
  /-- The complexity above which a function is reported. -/
  complexityThreshold : Value := .float 10
  /-- How many completions are returned at most. -/
  completionLimit : Value := .int 10
  completionCeiling : Value := .float 0.9

/-! ## Questions -/

/-- What to reason about. -/
structure Question where
  type : Value
  atoms : Option (List Atom)
  context : Entries
  parameters : Entries

namespace Question

/-- Reads the atoms of a question; null brings none. -/
def readAtoms (v : Value) : Except Fault (Option (List Atom)) :=
  match v with
  | .null => .ok none
  | v => do return some (← (← v.members).mapM Atom.ofRecord)

def ofRecord : Value → Except Fault Question
  | .map es => do
    let atoms ← readAtoms ((Entries.get? es "atoms").getD .null)
    let context ← ((Entries.get? es "context").getD .null).toMapOrEmpty
    let parameters ← ((Entries.get? es "parameters").getD .null).toMapOrEmpty
    return { type := (Entries.get? es "type").getD .null, atoms, context, parameters }
  | _ => .error .noSuchField

/-- The name by which a question's type is mentioned, if it can be written; one that counts as absent is
hybrid. -/
def label (q : Question) : String :=
  if q.type.isAbsent then ReasoningType.hybrid.label else q.type.display

/-- The type of reasoning that a question asks for. -/
def reasoningType (q : Question) : ReasoningType := .ofValue q.type

/-- A field of the context, null if it is missing. -/
def contextField (q : Question) (name : String) : Value := (Entries.get? q.context name).getD .null

end Question

/-! ## Answers -/

/-- What was concluded. -/
structure Answer where
  conclusion : List Atom := []
  confidence : Float := 0
  explanation : String := ""
  metadata : Entries := []

namespace Answer

/-- An answer with any number as its confidence. -/
def of (conclusion : List Atom) (confidence : Float) (explanation : String)
    (metadata : List (String × Value)) : Answer :=
  ⟨conclusion, confidenceOf confidence, explanation, Entries.ofFields metadata⟩

/-- The metadata field that names the type of reasoning. -/
def typeField (t : ReasoningType) : String × Value := ("reasoningType", .text t.label)

def failure (explanation label : String) : Answer :=
  of [] 0 explanation [("error", .bool true), ("reasoningType", .text label)]

/-- Whether an answer is marked as failed. -/
def isFailed (a : Answer) : Bool := !((Entries.get? a.metadata "error").getD .null).isAbsent

def toRecord (a : Answer) : Except Fault Value := do
  return .record [("conclusion", .list (← a.conclusion.mapM Atom.toRecord)),
    ("confidence", .float a.confidence), ("explanation", .text a.explanation),
    ("metadata", .map a.metadata)]

end Answer

end KnowledgeGraph
