import KnowledgeGraph.Reasoning.Fact

/-!
# Abduction

A rule whose consequent is observed suggests its antecedent as an explanation. Observed are the
named atoms that are no links, and the names that the context lists. Of several rules that suggest
the same explanation the best counts, and of equally good ones the first.
-/

namespace KnowledgeGraph

/-- An explanation, with what it explains and by which rule. -/
structure Hypothesis where
  type : Value
  name : Value
  truth : TruthValue
  explains : Value
  rule : Value

namespace Hypothesis

def wording (h : Hypothesis) : Except Fault String :=
  return (← h.name.toText) ++ " explains " ++ (← h.explains.toText)

/-- The atom that states an explanation. -/
def toAtom (h : Hypothesis) : Atom :=
  { type := h.type, name := h.name, id := .null, truth := .known h.truth, attention := .empty,
    outgoing := [], incoming := [],
    metadata := Entries.ofFields [("derivedBy", .text ReasoningType.abduction.label),
      ("explains", h.explains), ("rule", h.rule)] }

end Hypothesis

namespace Abduction

/-- What is observed: keys of atoms, and names. -/
structure Observations where
  keys : List FactKey
  names : List String

def namesOf : Value → Except Fault (List String)
  | .text s => .ok [s]
  | .list items => items.mapM Value.toText
  | _ => .ok []

/-- What atoms and a question's context show. -/
def observe (atoms : List Atom) (q : Question) : Except Fault Observations := do
  let one ← namesOf (q.contextField "observation")
  let several ← namesOf (q.contextField "observations")
  let keys ← (atoms.filter fun a => !a.isLink && a.isNamed).mapM Atom.factKey
  return ⟨keys, one ++ several⟩

def isObserved (o : Observations) (a : Atom) : Except Fault Bool := do
  let key ← a.factKey
  return o.keys.any (Key.same · key) || a.name.text?.any o.names.contains

/-- Puts a rule's antecedent forward, if its consequent is observed and nothing as good is known. -/
def propose (config : ReasoningConfig) (o : Observations) (found : Table FactKey Hypothesis)
    (rule : Atom) : Except Fault (Table FactKey Hypothesis) := do
  let (antecedent, consequent) ← rule.ruleParts
  let consequent ← consequent.get
  if !(← isObserved o consequent) then return found
  let truth ← rule.ruleTruth
  let confidence ←
    config.abductiveCeiling.cap (truth.strength * (← config.abductiveFactor.operand))
  let antecedent ← antecedent.get
  let key ← antecedent.factKey
  match found.lookup? key with
  | some known => if (Quantity.float known.truth.confidence).atLeast confidence then return found
  | none => pure ()
  return found.put key {
    type := antecedent.type
    name := antecedent.name
    truth := .of truth.strength (← confidence.real)
    explains := consequent.name
    rule := rule.ruleLabel }

/-- The explanations of what is observed. -/
def ofAtoms (config : ReasoningConfig) (atoms : List Atom) (q : Question) :
    Except Fault (List Hypothesis) := do
  let o ← observe atoms q
  return ((← (atoms.filter Atom.isRule).foldlM (propose config o) []) : Table _ _).values

def answer (config : ReasoningConfig) (hs : List Hypothesis) : Except Fault Answer := do
  if hs.isEmpty then
    return .of [] 0 "No rule explains the observations" [Answer.typeField .abduction]
  return .of (hs.map Hypothesis.toAtom)
    (← config.abductiveCeiling.capped (mean (hs.map (·.truth.confidence))))
    (s!"Abduced {hs.length} hypothesis(es): "
      ++ ", ".intercalate (← hs.mapM Hypothesis.wording))
    [Answer.typeField .abduction]

end Abduction

end KnowledgeGraph
