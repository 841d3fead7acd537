import KnowledgeGraph.Pattern
import KnowledgeGraph.Selection
import KnowledgeGraph.Value.Arithmetic

/-!
# Ranking patterns

`rankPatterns` adjusts the confidence of patterns to the scope, to the number of instances and to a
weight, keeps those that the options ask for, and lists them by falling confidence, where of equal
ones the first found comes first.
-/

namespace KnowledgeGraph

/-! ## Options -/

/-- What is wanted of a list of patterns, as it was asked for. -/
structure RankingOptions where
  maxResults : Value := .int 10
  minConfidence : Value := .float 0.1
  patternTypes : Value := .null
  includeLowConfidence : Value := .bool false

namespace RankingOptions

/-- The value under the first name, or else under the second, or else the default. -/
def option (es : Entries) (first second : String) (default : Value) : Value :=
  (Entries.get? es first).getD ((Entries.get? es second).getD default)

/-- Reads options; a value that counts as absent leaves all as they are by default. -/
def ofValue (v : Value) : Except Fault RankingOptions :=
  match v.orElse (.map []) with
  | .map es => .ok {
      maxResults := option es "maxResults" "max_results" (.int 10)
      minConfidence := option es "minConfidence" "min_confidence" (.float 0.1)
      patternTypes := option es "patternTypes" "pattern_types" .null
      includeLowConfidence := option es "includeLowConfidence" "include_low_confidence"
        (.bool false) }
  | _ => .error .noSuchField

end RankingOptions

/-! ## Confidence -/

/-- What a scope multiplies the confidence by. -/
def scopeFactor (scope : Value) : Except Fault Float := do
  let key ← scope.toKey
  return if key.same (.text "global") then 1.2 else if key.same (.text "local") then 0.9 else 1.0

/-- What the number of instances multiplies the confidence by, beyond five and below two. -/
def evidenceFactor (instances : Nat) : Float :=
  if 5 < instances then 1.1 else if instances < 2 then 0.8 else 1.0

/-- A pattern with its confidence adjusted. -/
def rescore (scope weight : Value) (p : Pattern) : Except Fault Pattern := do
  let factor ← scopeFactor scope
  let confidence := p.confidence * factor * evidenceFactor p.instances.length
  return { p with confidence := clampUnit (confidence * (← weight.operand)) }

/-! ## Selection -/

/-- The patterns that are certain enough, unless all are wanted. -/
def selectConfident (options : RankingOptions) (ps : List Pattern) : Except Fault (List Pattern) :=
  if options.includeLowConfidence.isAbsent then
    filterE (fun p =>
      return (Quantity.float p.confidence).atLeast (← options.minConfidence.quantity)) ps
  else .ok ps

/-- The patterns of the wanted types, if any types are named. -/
def selectTypes (options : RankingOptions) (ps : List Pattern) : Except Fault (List Pattern) := do
  if options.patternTypes.isAbsent then return ps
  let wanted ← (← options.patternTypes.members).mapM Value.toKey
  filterE (fun p => do
    let key ← (← p.shape.tag).toKey
    return wanted.any (·.same key)) ps

/-- How many results are wanted at most; below zero counts as zero. -/
def resultLimit (v : Value) : Except Fault Nat :=
  match v with
  | .int n => .ok n.toNat
  | .bool b => .ok (if b then 1 else 0)
  | .float x => if 0 < x then .error .wrongKind else .ok 0
  | .scalar (.nan _) => .ok 0
  | _ => .error .wrongKind

def byConfidence (ps : List Pattern) : List Pattern :=
  ps.mergeSort fun p q => !(p.confidence < q.confidence)

/-- Adjusts, selects and sorts patterns. -/
def rankPatterns (scope : Value) (options : RankingOptions) (weight : Value) (ps : List Pattern) :
    Except Fault (List Pattern) := do
  let rescored ← ps.mapM (rescore scope weight)
  let kept ← selectTypes options (← selectConfident options rescored)
  return (byConfidence kept).take (← resultLimit options.maxResults)

end KnowledgeGraph
