import KnowledgeGraph.Reasoning.Fact

/-!
# Deduction

Rules are applied in rounds. A rule concludes its consequent when its antecedent is established: by
the antecedent's own truth value, or by a known fact with its type and name. A conclusion is a fact
from then on. No consequent is concluded twice, and the rounds end when one adds nothing or at a
limit.
-/

namespace KnowledgeGraph

/-- A conclusion, with the rule and the premise it comes from and the round it was found in. -/
structure Derivation where
  type : Value
  name : Value
  truth : TruthValue
  rule : Value
  premise : Value
  depth : Nat

namespace Derivation

def toAtom (d : Derivation) : Atom :=
  { type := d.type, name := d.name, id := .null, truth := .known d.truth, attention := .empty,
    outgoing := [], incoming := [],
    metadata := Entries.ofFields [("derivedBy", .text ReasoningType.deduction.label),
      ("rule", d.rule), ("premise", d.premise), ("depth", .count d.depth)] }

end Derivation

namespace Deduction

/-- What is known so far: the facts, and the conclusions among them. -/
structure State where
  facts : Facts
  derived : Table FactKey Derivation

/-- What establishes an antecedent, if anything does: its own truth value, or else a fact. -/
def premise? (facts : Facts) (antecedent : Atom) : Except Fault (Option TruthValue) := do
  if antecedent.truth.isAbsent then
    match facts.lookup? (← antecedent.factKey) with
    | some t => return some (← t.get)
    | none => return none
  else return some (← antecedent.truth.get)

def conclude (config : ReasoningConfig) (rule premise : TruthValue) : Except Fault TruthValue :=
  return .of (rule.strength * premise.strength)
    (least rule.confidence premise.confidence * (← config.deductiveDecay.operand))

/-- Applies a rule in a round, unless its consequent is concluded already. -/
def applyRule (config : ReasoningConfig) (depth : Nat) (s : State) (rule : Atom) :
    Except Fault State := do
  let (antecedent, consequent) ← rule.ruleParts
  let consequent ← consequent.get
  let key ← consequent.factKey
  if s.derived.has key then return s
  let antecedent ← antecedent.get
  match ← premise? s.facts antecedent with
  | none => return s
  | some premise =>
    let truth ← conclude config (← rule.ruleTruth) premise
    let derivation : Derivation := {
      type := consequent.type
      name := consequent.name
      truth
      rule := rule.ruleLabel
      premise := antecedent.name
      depth }
    return {
      facts := s.facts.putNew key (.known truth)
      derived := s.derived ++ [(key, derivation)] }

def applyRules (config : ReasoningConfig) (depth : Nat) (s : State) (rules : List Atom) :
    Except Fault State :=
  rules.foldlM (applyRule config depth) s

/-- Applies the rules in rounds, from round `depth` on, until nothing is added. -/
def rounds (config : ReasoningConfig) (rules : List Atom) : Nat → Nat → State → Except Fault State
  | 0, _, s => .ok s
  | left + 1, depth, s => do
    let s' ← applyRules config depth s rules
    if s'.derived.length = s.derived.length then return s'
    rounds config rules left (depth + 1) s'

end Deduction

/-- The outcome of a deduction: how many rules there were, and what follows from them. -/
structure Deduction where
  ruleCount : Nat
  derivations : List Derivation

namespace Deduction

def ofAtoms (config : ReasoningConfig) (atoms : List Atom) : Except Fault Deduction := do
  let rules := atoms.filter Atom.isRule
  let facts ← knownFacts atoms
  let s ← rounds config rules (← config.maxDepth.whole).toNat 1 ⟨facts, []⟩
  return ⟨rules.length, s.derived.values⟩

/-- The mean confidence of the conclusions, up to the ceiling. -/
def confidence (config : ReasoningConfig) (d : Deduction) : Except Fault Float :=
  config.deductiveCeiling.capped (mean (d.derivations.map (·.truth.confidence)))

def answer (config : ReasoningConfig) (d : Deduction) : Except Fault Answer := do
  let rulesChecked := ("rulesChecked", Value.count d.ruleCount)
  if d.derivations.isEmpty then
    return .of [] 0
      s!"No implication rule had an established premise ({d.ruleCount} rules checked)"
      [Answer.typeField .deduction, rulesChecked]
  return .of (d.derivations.map Derivation.toAtom) (← d.confidence config)
    (s!"Deduced {d.derivations.length} conclusion(s) from {d.ruleCount} implication rule(s): "
      ++ ", ".intercalate (← d.derivations.mapM (·.name.toText)))
    [Answer.typeField .deduction, rulesChecked,
      ("inferenceDepth", .count ((d.derivations.map (·.depth)).foldl max 0))]

end Deduction

end KnowledgeGraph
