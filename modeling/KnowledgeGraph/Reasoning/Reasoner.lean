import KnowledgeGraph.Reasoning.Abduction
import KnowledgeGraph.Reasoning.Completion
import KnowledgeGraph.Reasoning.Induction
import KnowledgeGraph.Reasoning.Quality
import KnowledgeGraph.Wording

/-!
# Reasoning

A reasoner has a strategy for each type of reasoning. `Reasoner.reason` runs the one that a question
asks for, on the atoms of the question or else on those of the store, and weighs the confidence for
the user. Hybrid reasoning runs the general strategies and joins what they conclude. Faults do not
escape: they become failed answers, and hybrid reasoning passes them over.
-/

namespace KnowledgeGraph

/-- A way to answer a question from atoms. -/
abbrev Strategy := List Atom → Question → Except Fault Answer

/-! ## Patterns as conclusions -/

namespace PatternMatching

def patternAtom (p : Pattern) : Except Fault Atom := do
  let tag ← p.shape.tag
  return .make .patternNode (.text (← p.label)) (some (.of p.confidence p.confidence))
    (Entries.ofFields [("derivedBy", .text ReasoningType.patternMatching.label),
      ("patternType", tag), ("instanceCount", .count p.instances.length)]) []

/-- Answers with the patterns among atoms. -/
def answer (r : Recognizer) (atoms : List Atom) (q : Question) : Except Fault Answer := do
  let patterns ← if atoms.isEmpty then pure []
    else r.recognize { subject := .atoms atoms, context := .map q.context }
  let type := Answer.typeField .patternMatching
  if patterns.isEmpty then return .of [] 0 "No patterns recognized" [type]
  let conclusion ← patterns.mapM patternAtom
  let labels ← patterns.mapM Pattern.label
  return .of conclusion (mean (patterns.map (·.confidence)))
    (s!"Matched {patterns.length} pattern(s): " ++ ", ".intercalate labels) [type]

end PatternMatching

/-! ## Hybrid reasoning -/

namespace Hybrid

/-- The general types of reasoning, in the order in which they are tried. -/
def types : List ReasoningType := [.deduction, .induction, .abduction, .patternMatching]

/-- The answer of a strategy, if there is one that does not fail. -/
def attempt (strategy : Option Strategy) (atoms : List Atom) (q : Question) : Option Answer := do
  let run ← strategy
  let answer ← (run atoms q).toOption
  if answer.isFailed then none else some answer

/-- The answers of the general strategies that do not fail. -/
def results (strategies : ReasoningType → Option Strategy) (atoms : List Atom) (q : Question) :
    List (ReasoningType × Answer) :=
  types.filterMap fun t => (attempt (strategies t) atoms q).map (t, ·)

def join (results : List (ReasoningType × Answer)) : Answer :=
  let strategies := ("strategies", Value.texts (results.map (·.1.label)))
  if results.isEmpty then
    .of [] 0 "No reasoning engines produced results" [Answer.typeField .hybrid, strategies]
  else
    .of (results.flatMap (·.2.conclusion)) (mean (results.map (·.2.confidence)))
      ("; ".intercalate ((results.map (·.2.explanation)).filter fun s => !s.isEmpty))
      [Answer.typeField .hybrid, strategies]

/-- Answers with all general strategies. -/
def answer (strategies : ReasoningType → Option Strategy) (atoms : List Atom) (q : Question) :
    Answer :=
  join (results strategies atoms q)

end Hybrid

/-! ## The reasoner -/

/-- Answers questions. -/
structure Reasoner where
  store : Store
  strategies : ReasoningType → Option Strategy
  weight? : Option WeightProvider := none

namespace Reasoner

/-- The strategies that come with the library. -/
def standard (config : ReasoningConfig) (r : Recognizer) (store : Store) :
    ReasoningType → Option Strategy
  | .deduction => some fun atoms _ => do (← Deduction.ofAtoms config atoms).answer config
  | .induction => some fun atoms _ => do Induction.answer config (← Induction.ofAtoms config atoms)
  | .abduction => some fun atoms q => do
    Abduction.answer config (← Abduction.ofAtoms config atoms q)
  | .codeAnalysis => some (Quality.assess config r)
  | .codeCompletion => some (Completion.complete config r store)
  | .patternMatching => some (PatternMatching.answer r)
  | .hybrid | .unknown => none

/-- A reasoner with other strategies for a type. -/
def install (r : Reasoner) (type : ReasoningType) (strategy : Option Strategy) : Reasoner :=
  { r with strategies := fun t => if t = type then strategy else r.strategies t }

/-- The atoms that a question is about. -/
def knowledge (r : Reasoner) (q : Question) : List Atom := q.atoms.getD r.store.all

/-- A confidence weighed for the user of the context. -/
def weighed (r : Reasoner) (q : Question) (confidence : Float) : Except Fault Float :=
  match r.weight? with
  | none => .ok confidence
  | some provider => do
    let weight ← provider (← contextUser (.map q.context)) q.label
    return clampUnit (confidence * (← weight.operand))

/-- An answer with its confidence weighed. -/
def weigh (r : Reasoner) (q : Question) (a : Answer) : Except Fault Answer :=
  return { a with confidence := ← r.weighed q a.confidence }

/-- Answers a question of a known type; faults are passed on. -/
def run (r : Reasoner) (q : Question) : Except Fault Answer := do
  match q.reasoningType with
  | .unknown => return .failure ("Unsupported reasoning type: " ++ q.type.display) q.label
  | .hybrid => r.weigh q (Hybrid.answer r.strategies (r.knowledge q) q)
  | t =>
    match r.strategies t with
    | none =>
      return .failure ("No strategy registered for reasoning type: " ++ q.label) q.label
    | some strategy => r.weigh q (← strategy (r.knowledge q) q)

def failed (f : Fault) (label : String) : Answer :=
  .failure ("Reasoning failed: " ++ f.wording) label

/-- Reads a question, and mentions its type. -/
def read (record : Value) : Except Fault Question := do
  let q ← Question.ofRecord record
  Value.mention [q.type]
  return q

/-- Answers a question given as a record. -/
def reason (r : Reasoner) (record : Value) : Answer :=
  match read record with
  | .error f => failed f ReasoningType.unknown.label
  | .ok q =>
    match r.run q with
    | .ok a => a
    | .error f => failed f q.label

end Reasoner

end KnowledgeGraph
