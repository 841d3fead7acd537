import KnowledgeGraph.Slot
import KnowledgeGraph.Number.Statistics

/-!
# Atoms

An atom is a typed node of the graph, or a link if other atoms go out from it. Its truth value says
how true it is and how certain that is, its attention value how important it is in the short, the
long and the very long term.

A reader of records fills the fields with things of their types. A later change may put any value
into a field, so the type and the name are values, and the others slots.
-/

namespace KnowledgeGraph

/-! ## The catalog of types -/

/-- The types of atoms that have a meaning to the library. -/
inductive AtomType where
  | conceptNode
  | predicateNode
  | variableNode
  | functionNode
  | classNode
  | fileNode
  | patternNode
  | completionSuggestion
  | learningRecord
  | successPattern
  | personalizationNode
  | inheritanceLink
  | implicationLink
  | evaluationLink
  | listLink
  | custom
deriving DecidableEq, Repr

namespace AtomType

def label : AtomType → String
  | conceptNode => "ConceptNode"
  | predicateNode => "PredicateNode"
  | variableNode => "VariableNode"
  | functionNode => "FunctionNode"
  | classNode => "ClassNode"
  | fileNode => "FileNode"
  | patternNode => "PatternNode"
  | completionSuggestion => "CompletionSuggestion"
  | learningRecord => "LearningRecord"
  | successPattern => "SuccessPattern"
  | personalizationNode => "PersonalizationNode"
  | inheritanceLink => "InheritanceLink"
  | implicationLink => "ImplicationLink"
  | evaluationLink => "EvaluationLink"
  | listLink => "ListLink"
  | custom => "custom"

def all : List AtomType :=
  [conceptNode, predicateNode, variableNode, functionNode, classNode, fileNode, patternNode,
    completionSuggestion, learningRecord, successPattern, personalizationNode, inheritanceLink,
    implicationLink, evaluationLink, listLink, custom]

/-- The type with a name; any other value stands for a custom type. -/
def ofValue (v : Value) : AtomType := (all.find? fun t => v.isText t.label).getD custom

end AtomType

/-! ## Truth and attention -/

/-- How true, and how certain. -/
structure TruthValue where
  strength : Float
  confidence : Float

/-- A truth value from any two numbers, each moved into the unit interval. -/
def TruthValue.of (strength confidence : Float) : TruthValue :=
  ⟨clampUnit strength, clampUnit confidence⟩

/-- Short, long and very long term importance. -/
structure AttentionValue where
  sti : Float
  lti : Float
  vlti : Float

/-! ## Atoms -/

/-- A typed node or link. -/
structure Atom where
  type : Value
  name : Value
  id : Value
  truth : Slot TruthValue
  attention : Slot AttentionValue
  outgoing : List (Slot Atom)
  incoming : List (Slot Atom)
  metadata : Entries

namespace Atom

/-- An atom of a catalogued type that the library makes, without an id. -/
def make (type : AtomType) (name : Value) (truth : Option TruthValue) (metadata : Entries)
    (outgoing : List Atom) : Atom :=
  { type := .text type.label, name, id := .null, truth := .ofOption truth, attention := .empty,
    outgoing := outgoing.map .known, incoming := [], metadata }

/-- A link is an atom that others go out from. -/
def isLink (a : Atom) : Bool := !a.outgoing.isEmpty

/-- Whether an atom has a catalogued type. -/
def hasType (a : Atom) (t : AtomType) : Bool := a.type.isText t.label

/-- Whether an atom has one of several catalogued types. -/
def hasTypeIn (a : Atom) (ts : List AtomType) : Bool := ts.any a.hasType

def isNamed (a : Atom) : Bool := !a.name.isAbsent

end Atom

end KnowledgeGraph
