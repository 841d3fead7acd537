import KnowledgeGraph.Reasoning.Question
import KnowledgeGraph.Pattern.Recognition

/-!
# The quality of code

Atoms for functions, classes, variables and files describe a code base. From them come metrics,
design patterns by the endings of class names, and suggestions; source text in the context of the
question is searched for patterns as well.
-/

namespace KnowledgeGraph

namespace Quality

/-! ## Code atoms -/

/-- The types of atoms that describe code. -/
def codeTypes : List AtomType := [.functionNode, .classNode, .variableNode, .fileNode]

/-- The complexity that a function's metadata give as a number. -/
def complexity? (a : Atom) : Except Fault (Option Float) :=
  match Entries.get? a.metadata "complexity" with
  | some (.int n) => return some (← floatOfInt n)
  | some (.float x) => .ok (some x)
  | some (.scalar (.nan _)) => .ok (some notANumber)
  | _ => .ok none

/-- A function with its complexity, if it has one. -/
def withComplexity (a : Atom) : Except Fault (Atom × Option Float) := return (a, ← complexity? a)

/-- Whether a complexity is above a threshold; a function without one counts as zero. -/
def isHigh (threshold : Quantity) (complexity : Option Float) : Bool :=
  threshold.less (.float (complexity.getD 0))

/-- A function above a threshold, to be reported with its complexity, which it must have. -/
def reported? (threshold : Value) (f : Atom × Option Float) :
    Except Fault (Option (Atom × Float)) := do
  if isHigh (← threshold.quantity) f.2 then
    match f.2 with
    | some x => return some (f.1, x)
    | none => throw .wrongKind
  else return none

/-- The text of a name, to be looked at as an identifier. -/
def identifierOf (name : Value) : Except Fault (List Char) :=
  match name with
  | .text s => .ok s.toList
  | _ => .error .noSuchField

/-! ## Naming -/

/-- The styles of the names of functions and variables, in order. -/
def stylesOf (atoms : List Atom) : Except Fault (List Text.NamingStyle) :=
  (atoms.filter fun a => a.isNamed && !a.hasTypeIn [.classNode, .fileNode]).mapM fun a =>
    return Text.namingStyle (← identifierOf a.name)

instance : Key Text.NamingStyle := ⟨fun a b => a == b⟩

/-- How often each style occurs that is not flat. -/
def styleCounts (styles : List Text.NamingStyle) : Table Text.NamingStyle Nat :=
  Table.erase (Table.tally styles) .flat

/-- The style that is used most, and the share of the names that follow it, all if there is none. -/
def consistency (counts : Table Text.NamingStyle Nat) : Float × Option Text.NamingStyle :=
  match Table.mostCounted? counts with
  | none => (1, none)
  | some (style, count) => (count.toFloat / (Table.total (Table.values counts)).toFloat, some style)

/-! ## Design patterns -/

/-- Endings of class names, with the design patterns they stand for. -/
def designEndings : List (String × String) := [
  ("Factory", "factory"),
  ("Service", "service"),
  ("Singleton", "singleton"),
  ("Builder", "builder"),
  ("Adapter", "adapter"),
  ("Observer", "observer"),
  ("Repository", "repository"),
  ("Strategy", "strategy")]

/-- The design pattern that the name of a class stands for. -/
def designPattern? (a : Atom) : Except Fault (Option Value) := do
  if !a.isNamed then return none
  let name ← identifierOf a.name
  return (designEndings.find? fun e => e.1.toList.isSuffixOf name).map fun e =>
    .record [("class", a.name), ("pattern", .text e.2)]

/-! ## Suggestions -/

/-- A suggestion: its kind, what it is about, its wording, and the atoms it lists. -/
structure Suggestion where
  kind : String
  target : Value
  message : String
  atoms : Option (List Value) := none

namespace Suggestion

def toValue (s : Suggestion) : Value :=
  .record ([("type", .text s.kind), ("target", s.target), ("message", .text s.message)] ++
    (match s.atoms with
      | some names => [("atoms", .list names)]
      | none => []))

def toAtom (s : Suggestion) : Atom :=
  .make .evaluationLink (.text s.kind) none (Entries.ofFields [("message", .text s.message)])
    [.make .predicateNode (.text s.kind) none [] [], .make .conceptNode s.target none [] []]

def reduceComplexity (f : Atom × Float) : Suggestion :=
  { kind := "reduce-complexity"
    target := f.1.name
    message := "Function " ++ f.1.name.display ++ " has complexity "
      ++ NumberStyle.compact.write f.2 ++ "; consider splitting it" }

def addTruthValues (names : List Value) : Suggestion :=
  { kind := "add-truth-values"
    target := .null
    message := s!"{names.length} code atom(s) carry no truth value"
    atoms := some names }

def consistentNaming (style : Option Text.NamingStyle) : Suggestion :=
  { kind := "consistent-naming"
    target := .null
    message := "Mixed naming styles; " ++ ((style.map (·.label)).getD "None") ++ " is used most" }

end Suggestion

/-! ## The assessment -/

/-- How well code can be maintained: less for functions above the threshold, and for names that do
not follow the most common style. -/
def maintainability (high total : Nat) (consistency : Float) : Float :=
  let afterComplexity := if total = 0 then 1 else 1 - 0.5 * (high.toFloat / total.toFloat)
  clampUnit (afterComplexity - 0.2 * (1 - consistency))

/-- What the atoms and the text of a question show. -/
structure Assessment where
  codeAtoms : List Atom
  functions : List (Atom × Option Float)
  classes : List Atom
  variableNodes : List Atom
  high : List (Atom × Float)
  consistency : Float
  style : Option Text.NamingStyle
  designPatterns : List Value
  textPatterns : List String

namespace Assessment

/-- The complexities of the functions that have one. -/
def complexities (a : Assessment) : List Float := a.functions.filterMap (·.2)

/-- How well the code can be maintained. -/
def score (a : Assessment) : Float :=
  maintainability a.high.length a.functions.length a.consistency

/-- The names of the atoms without a truth value. -/
def untrusted (a : Assessment) : List Value :=
  (a.codeAtoms.filter fun atom => atom.truth.isEmpty).map (·.name)

def suggestions (a : Assessment) : List Suggestion :=
  a.high.map Suggestion.reduceComplexity
    ++ (if a.untrusted.isEmpty then [] else [Suggestion.addTruthValues a.untrusted])
    ++ (if a.consistency < 1 then [Suggestion.consistentNaming a.style] else [])

def metrics (a : Assessment) : Value :=
  .record [
    ("functionCount", .count a.functions.length),
    ("classCount", .count a.classes.length),
    ("variableCount", .count a.variableNodes.length),
    ("averageComplexity", .float (if a.complexities.isEmpty then 0 else mean a.complexities)),
    ("maxComplexity", .float (greatest a.complexities)),
    ("highComplexityFunctions", .list (a.high.map (·.1.name))),
    ("namingConsistency", .float a.consistency),
    ("namingStyle", (a.style.map fun s => Value.text s.label).getD .null),
    ("designPatterns", .list a.designPatterns),
    ("codePatterns", .texts a.textPatterns),
    ("maintainability", .float a.score)]

/-- The answer that an assessment gives. -/
def answer (a : Assessment) : Answer :=
  let confidence :=
    least 0.9 (0.5 + 0.05 * (a.codeAtoms.length + a.textPatterns.length).toFloat)
  let quality : Atom := .make .conceptNode (.text "code-quality") (some (.of a.score confidence))
    (Entries.ofFields [("derivedBy", .text ReasoningType.codeAnalysis.label)]) []
  .of (quality :: a.suggestions.map Suggestion.toAtom) confidence
    (s!"Analyzed {a.functions.length} functions, {a.classes.length} classes and " ++
      s!"{a.variableNodes.length} variables; {a.suggestions.length} suggestion(s)")
    [Answer.typeField .codeAnalysis, ("qualityMetrics", a.metrics),
      ("suggestions", .list (a.suggestions.map Suggestion.toValue))]

end Assessment

/-- The answer when there is nothing to assess. -/
def nothing : Answer :=
  .of [] 0 "No code atoms or source text to analyze" [Answer.typeField .codeAnalysis,
    ("qualityMetrics", .map []), ("suggestions", .list [])]

/-- The patterns in the source text of a question's context. -/
def textPatterns (r : Recognizer) (q : Question) : Except Fault (List Pattern) :=
  match q.contextField "code" with
  | .text s =>
    if s.toList.all Text.isBlank then .ok []
    else r.recognize { subject := .value (.text s), context := .map q.context }
  | _ => .ok []

/-- Assesses the code that atoms and the context describe. -/
def assess (config : ReasoningConfig) (r : Recognizer) (atoms : List Atom) (q : Question) :
    Except Fault Answer := do
  let codeAtoms := atoms.filter (·.hasTypeIn codeTypes)
  let patterns ← textPatterns r q
  if codeAtoms.isEmpty && patterns.isEmpty then return nothing
  let functions ← (codeAtoms.filter (·.hasType .functionNode)).mapM withComplexity
  let classes := codeAtoms.filter (·.hasType .classNode)
  let (share, style) := consistency (styleCounts (← stylesOf codeAtoms))
  let designPatterns ← classes.mapM designPattern?
  let high ← functions.mapM (reported? config.complexityThreshold)
  let labels ← patterns.mapM Pattern.label
  let assessment : Assessment := {
    codeAtoms, functions, classes, style
    variableNodes := codeAtoms.filter (·.hasType .variableNode)
    high := high.filterMap id
    consistency := share
    designPatterns := designPatterns.filterMap id
    textPatterns := labels }
  Value.mention (assessment.high.map (·.1.name))
  return assessment.answer

end Quality

end KnowledgeGraph
