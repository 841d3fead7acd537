import KnowledgeGraph.Reasoning.Deduction
import KnowledgeGraph.Pattern.Recognition
import KnowledgeGraph.Store

/-!
# Completion

Candidates for a completion are the named atoms that take part in patterns among the symbols, and
the named conclusions of a deduction. Each is scored by its truth value and by how well it fits the
context; of candidates with the same name the best is kept, and the best come first.
-/

namespace KnowledgeGraph

namespace Completion

/-- The types of atoms that are symbols. -/
def symbolTypes : List AtomType := [.variableNode, .functionNode, .conceptNode]

/-! ## The surroundings -/

/-- The scope: the one that the context gives, or else the last function or class. -/
def scopeOf (atoms : List Atom) (q : Question) : Value :=
  match q.contextField "scope" with
  | .map es => .map es
  | _ =>
    match atoms.reverse.find? (·.hasTypeIn [.functionNode, .classNode]) with
    | some a =>
      .record [("type", .text (if a.hasType .functionNode then "function" else "class")),
        ("name", a.name)]
    | none => .record [("type", .text "global"), ("name", .null)]

/-- The surroundings of a completion: the language, the scope, the symbols, the latest patterns and
the first concepts in the store. -/
def summary (store : Store) (atoms : List Atom) (q : Question) : Value :=
  let patterns := store.all.filter (·.hasType .patternNode)
  let concepts := store.all.filter (·.hasType .conceptNode)
  .record [
    ("language", q.contextField "language"),
    ("scope", scopeOf atoms q),
    ("availableSymbols",
      .list ((atoms.filter fun a => a.hasTypeIn symbolTypes && a.isNamed).map (·.name))),
    ("recentPatterns", .list ((patterns.drop (patterns.length - 10)).map (·.name))),
    ("dominantConcepts", .list ((concepts.take 5).map (·.name)))]

/-! ## Candidates -/

/-- How a candidate was found, as its metadata have it. -/
def bySource (source : String) : String × Value := ("suggestionType", .text source)

/-- Candidates from a pattern: its atoms that have a name. -/
def patternCandidates (p : Pattern) : Except Fault (List Atom) := do
  let label ← p.label
  return ((Slot.knowns p.instances).filter Atom.isNamed).map fun a =>
    .make .completionSuggestion a.name (some (.of p.confidence 0.8))
      (Entries.ofFields [bySource "pattern-based", ("pattern", .text label),
        ("symbolType", a.type)]) []

/-- Candidates from the patterns among symbols. -/
def candidatesFromPatterns (r : Recognizer) (symbols : List Atom) (q : Question) :
    Except Fault (List Atom) := do
  if symbols.isEmpty then return []
  let patterns ← r.recognize
    { subject := .atoms symbols, context := .map q.context, scope := .text "local" }
  return (← patterns.mapM patternCandidates).flatten

/-- Candidates from the conclusions of a deduction. -/
def candidatesFromDeduction (config : ReasoningConfig) (atoms : List Atom) :
    Except Fault (List Atom) := do
  let deduction ← Deduction.ofAtoms config atoms
  let confidence := (← deduction.answer config).confidence
  return (deduction.derivations.filter fun d => !d.name.isAbsent).map fun d =>
    .make .completionSuggestion d.name (some (.of confidence 0.7))
      (Entries.ofFields [bySource "reasoning-based", ("rule", d.rule), ("symbolType", d.type)]) []

/-! ## Ranking -/

/-- Whether a name starts with a text, in any case. -/
def startsWith (start : String) (name : Value) : Except Fault Bool :=
  match name with
  | .text s => .ok ((Text.lower start.toList).isPrefixOf (Text.lower s.toList))
  | _ => .error .noSuchField

/-- How well a candidate fits the context: by the start of its name if the context gives one, or
else by how it was found. -/
def relevance (context : Value) (candidate : Atom) : Except Fault Float := do
  let source := (Entries.get? candidate.metadata "suggestionType").getD .null
  match ← context.field "prefix" with
  | .text s =>
    if !s.isEmpty then return if ← startsWith s candidate.name then 1 else 0
  | _ => pure ()
  if !(← context.field "preferPatterns").isAbsent && source.isText "pattern-based" then return 1
  if !(← context.field "preferReasoning").isAbsent && source.isText "reasoning-based" then return 1
  return 0.5

/-- A candidate with its score. -/
structure Scored where
  score : Float
  candidate : Atom

def score (context : Value) (candidate : Atom) : Except Fault Float := do
  let truth ← candidate.truth.get
  return truth.strength + 0.3 * truth.confidence + 0.2 * (← relevance context candidate)

/-- Keeps a candidate if none with its name has as high a score. -/
def keepBest (context : Value) (best : Table Scalar Scored) (candidate : Atom) :
    Except Fault (Table Scalar Scored) := do
  let s ← score context candidate
  let key ← candidate.name.toKey
  let scored : Scored :=
    ⟨s, { candidate with metadata := Entries.set candidate.metadata "score" (.float s) }⟩
  match best.lookup? key with
  | some known => return if known.score < s then best.put key scored else best
  | none => return best.put key scored

/-- The best candidate of each name, by falling scores. -/
def rank (context : Value) (candidates : List Atom) : Except Fault (List Atom) := do
  let best ← candidates.foldlM (keepBest context) []
  return ((Table.values best).mergeSort fun a b => !(a.score < b.score)).map (·.candidate)

/-! ## The answer -/

/-- The ways in which candidates were found, in alphabetical order. -/
def sources (ranked : List Atom) : List String :=
  (distinct (ranked.filterMap fun a => (Entries.get? a.metadata "suggestionType").bind Value.text?)
    ).mergeSort fun a b => !(b < a)

/-- The answer that ranked candidates give. -/
def answer (config : ReasoningConfig) (q : Question) (summary : Value) (ranked : List Atom) :
    Except Fault Answer := do
  let type := Answer.typeField .codeCompletion
  if ranked.isEmpty then
    return .of [] 0 "No completion candidates found"
      [type, ("suggestionCount", .count 0), ("context", summary)]
  let truths ← ranked.mapM fun a => a.truth.get
  let top := takeUpTo (← config.completionLimit.limit?) ranked
  let strategies := sources ranked
  return .of top (← config.completionCeiling.capped (mean (truths.map (·.confidence)) * 0.9))
    (s!"Generated {ranked.length} completion candidate(s) from " ++ ", ".intercalate strategies
      ++ s!"; returning top {top.length}")
    [type, ("contextType", q.contextField "language"), ("suggestionCount", .count ranked.length),
      ("completionStrategies", .texts strategies), ("context", summary)]

def complete (config : ReasoningConfig) (r : Recognizer) (store : Store) (atoms : List Atom)
    (q : Question) : Except Fault Answer := do
  let fromPatterns ← candidatesFromPatterns r (atoms.filter (·.hasTypeIn symbolTypes)) q
  let fromDeduction ← candidatesFromDeduction config atoms
  let ranked ← rank (.map q.context) (fromPatterns ++ fromDeduction)
  answer config q (summary store atoms q) ranked

end Completion

end KnowledgeGraph
