import KnowledgeGraph.Reasoning.Question

/-!
# Induction

Atoms of one type that are no links support a generalization about the type, the more certain the
more there are, but never certain.
-/

namespace KnowledgeGraph

namespace Induction

/-- The atoms that are no links by their types, in the order of first occurrences. -/
def group : List Atom → Table Scalar (List Atom) → Except Fault (Table Scalar (List Atom))
  | [], groups => .ok groups
  | a :: rest, groups =>
    if a.isLink then group rest groups
    else do group rest (groups.addTo (← a.type.toKey) a)

def truths (atoms : List Atom) : Except Fault (List TruthValue) :=
  return (← atoms.mapM fun a => a.truth.get?).filterMap id

/-- A generalization about a type, and the atoms that support it. -/
structure Generalization where
  type : Scalar
  members : List Atom
  truth : TruthValue

/-- The share of the instances in all that is counted. -/
def support (config : ReasoningConfig) (n : Nat) : Except Fault Float := do
  (← (Quantity.int n).plus (← config.inductivePrior.quantity)).share n

/-- Generalizes over the atoms of a type. -/
def generalize (config : ReasoningConfig) (type : Scalar) (members : List Atom) :
    Except Fault Generalization := do
  let strengths := (← truths members).map (·.strength)
  let strength := if strengths.isEmpty then 0.5 else mean strengths
  let confidence ← config.inductiveCeiling.capped (← support config members.length)
  return ⟨type, members, .of strength confidence⟩

/-- The generalizations that atoms support. -/
def ofAtoms (config : ReasoningConfig) (atoms : List Atom) :
    Except Fault (List Generalization) := do
  let groups ← group atoms []
  (groups.filter fun g => 2 ≤ g.2.length).mapM fun (type, members) => generalize config type members

namespace Generalization

/-- How many atoms support a generalization. -/
def count (g : Generalization) : Nat := g.members.length

/-- The link that states a generalization. -/
def toAtom (g : Generalization) : Except Fault Atom := do
  return .make .inheritanceLink (.text ((← (Value.scalar g.type).toText) ++ "-generalization"))
    (some g.truth) (Entries.ofFields [("derivedBy", .text ReasoningType.induction.label),
      ("members", .list (g.members.map (·.name))), ("supportCount", .count g.count)])
    [.make .conceptNode (.scalar g.type) none [] []]

end Generalization

/-- The answer that generalizations give. -/
def answer (config : ReasoningConfig) (gs : List Generalization) : Except Fault Answer := do
  if gs.isEmpty then
    return .of [] 0 "Not enough instances of any type to generalize" [Answer.typeField .induction]
  return .of (← gs.mapM Generalization.toAtom)
    (← config.inductiveCeiling.capped (mean (gs.map (·.truth.confidence))))
    (s!"Induced {gs.length} generalization(s) from "
      ++ s!"{Table.total (gs.map Generalization.count)} instances")
    [Answer.typeField .induction]

end Induction

end KnowledgeGraph
