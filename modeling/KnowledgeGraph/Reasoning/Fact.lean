import KnowledgeGraph.Reasoning.Question

/-!
# Rules and facts

A rule is an implication link with two atoms going out from it, the antecedent and the consequent. A
fact is the truth value of a named atom that is no rule. Facts are known by the type and the name of
their atoms, and `knownFacts` collects them from atoms and from all that these hold.
-/

namespace KnowledgeGraph

/-- What a fact is known by: a type and a name. -/
abbrev FactKey := Scalar × Scalar

/-- Facts by their keys. -/
abbrev Facts := Table FactKey (Slot TruthValue)

namespace Atom

/-- What facts about an atom are known by. -/
def factKey (a : Atom) : Except Fault FactKey := return (← a.type.toKey, ← a.name.toKey)

def isRule (a : Atom) : Bool := a.hasType .implicationLink && 2 ≤ a.outgoing.length

/-- The antecedent and the consequent of a rule. -/
def ruleParts (a : Atom) : Except Fault (Slot Atom × Slot Atom) :=
  match a.outgoing with
  | antecedent :: consequent :: _ => .ok (antecedent, consequent)
  | _ => .error .emptyList

/-- What a rule is called: its id, or its name. -/
def ruleLabel (a : Atom) : Value := a.id.orElse (a.name.orElse (.text "implication"))

/-- The truth value of a rule; one without is true, but uncertain. -/
def ruleTruth (a : Atom) : Except Fault TruthValue := return (← a.truth.get?).getD ⟨1, 0.5⟩

mutual

/-- How many atoms an atom holds, itself included. -/
def population : Atom → Nat
  | ⟨_, _, _, _, _, outgoing, _, _⟩ => 1 + populationOf outgoing

/-- How many atoms a list of members holds; a value that is no atom counts as one. -/
def populationOf : List (Slot Atom) → Nat
  | [] => 0
  | .known a :: rest => population a + populationOf rest
  | .raw _ :: rest => 1 + populationOf rest

end

end Atom

namespace Facts

/-- Notes the fact that an atom states, unless one with its key is known. -/
def note (facts : Facts) (a : Atom) : Except Fault Facts :=
  if !a.truth.isEmpty && a.isNamed && !a.isRule then
    return facts.putNew (← a.factKey) a.truth
  else .ok facts

/-- Notes the facts of the members of a stack and of what goes out from them. What goes out from an
atom is put on top of the rest, the last on top. -/
def gather : Nat → List (Slot Atom) → Facts → Except Fault Facts
  | _, [], facts => .ok facts
  | 0, _ :: _, facts => .ok facts
  | fuel + 1, member :: rest, facts => do
    let a ← member.get
    gather fuel (a.outgoing.reverse ++ rest) (← note facts a)

end Facts

/-- The facts among atoms and all that goes out from them. Of several facts with the same key the
one counts that is met first, where later atoms come before earlier ones and each before what goes
out from it. -/
def knownFacts (atoms : List Atom) : Except Fault Facts :=
  let members : List (Slot Atom) := atoms.map .known
  Facts.gather (Atom.populationOf members) members.reverse []

end KnowledgeGraph
