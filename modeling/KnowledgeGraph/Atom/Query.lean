import KnowledgeGraph.Atom.Record

/-!
# Queries

A query describes the atoms it wants by type, by name, and by thresholds that their truth and
attention values have to reach. What a query leaves open fits every atom.
-/

namespace KnowledgeGraph

/-- A description of atoms; null and none leave a field open. -/
structure Query where
  type : Value
  name : Value
  truth : Option TruthValue
  attention : Option AttentionValue

namespace Query

def everything : Query := ⟨.null, .null, none, none⟩

/-- Reads a threshold, where a value that counts as absent sets none. -/
def readThreshold {α : Type} (reader : Value → Except Fault α) (v : Value) :
    Except Fault (Option α) :=
  if v.isAbsent then .ok none else return some (← reader v)

def ofRecord : Value → Except Fault Query
  | .map es => do
    let truth ← readThreshold TruthValue.ofValue
      (Entries.either es "truthValueThreshold" "truth_value_threshold")
    let attention ← readThreshold AttentionValue.ofValue
      (Entries.either es "attentionThreshold" "attention_threshold")
    return {
      truth, attention
      type := (Entries.get? es "type").getD .null
      name := (Entries.get? es "name").getD .null }
  | _ => .error .noSuchField

/-- Whether a field is as wanted, where null leaves it open. -/
def fits (wanted actual : Value) : Bool :=
  match wanted with
  | .null => true
  | _ => actual.equals wanted

/-- Whether a truth value reaches a threshold. -/
def reachesTruth (wanted actual : TruthValue) : Bool :=
  !(actual.strength < wanted.strength || actual.confidence < wanted.confidence)

/-- Whether an attention value reaches a threshold. -/
def reachesAttention (wanted actual : AttentionValue) : Bool :=
  !(actual.sti < wanted.sti || actual.lti < wanted.lti || actual.vlti < wanted.vlti)

/-- Whether what a slot holds reaches a threshold, if there is one. -/
def reaches {α : Type} (test : α → α → Bool) (wanted : Option α) (actual : Slot α) :
    Except Fault Bool :=
  match wanted with
  | none => .ok true
  | some wanted => if actual.isEmpty then .ok false else return test wanted (← actual.get)

/-- Whether an atom is as a query describes. -/
def accepts (q : Query) (a : Atom) : Except Fault Bool := do
  if !(fits q.type a.type && fits q.name a.name) then return false
  if !(← reaches reachesTruth q.truth a.truth) then return false
  reaches reachesAttention q.attention a.attention

end Query

end KnowledgeGraph
