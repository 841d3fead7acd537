import KnowledgeGraph.Atom.Record
import KnowledgeGraph.Text.Name

/-!
# Patterns

A pattern is a regularity found in an input. Its `Shape` says what was found and with which
parameters, its instances are the parts of the input that show it, and its confidence is a number
of the unit interval.

`Pattern.toRecord` writes a pattern as a description, the confidence, the instances, and metadata
with the pattern's type.
-/

namespace KnowledgeGraph

/-! ## Types of patterns -/

/-- What a pattern is about. -/
inductive PatternType where
  | code
  | structural
  | behavioral
  | syntactic
  | design
  | async
  | reactive
  | sequence
  | repetition
  | hierarchical
  | semantic
  | interactionRhythm
  | usageProfile
  | sequential
  | custom
deriving DecidableEq, Repr

namespace PatternType

def label : PatternType → String
  | code => "code"
  | structural => "structural"
  | behavioral => "behavioral"
  | syntactic => "syntax-pattern"
  | design => "design-pattern"
  | async => "async-pattern"
  | reactive => "reactive-pattern"
  | sequence => "sequence"
  | repetition => "repetition"
  | hierarchical => "hierarchical"
  | semantic => "semantic"
  | interactionRhythm => "interaction-rhythm"
  | usageProfile => "usage-profile"
  | sequential => "sequential"
  | custom => "custom"

def all : List PatternType :=
  [code, structural, behavioral, syntactic, design, async, reactive, sequence, repetition,
    hierarchical, semantic, interactionRhythm, usageProfile, sequential, custom]

/-- The pattern type with a name; any other value stands for a custom type. -/
def ofValue (v : Value) : PatternType := (all.find? fun t => v.isText t.label).getD custom

end PatternType

/-! ## Patterns -/

/-- A part of an input: an atom, or a value that is none. -/
abbrev Item := Slot Atom

/-- What was found. -/
inductive Shape where
  /-- Places of a text where a detector matches. -/
  | code (detector : String) (category : PatternType) (count : Nat) (density : Float)
      (language : Option Value)
  /-- Numbers with a constant difference. -/
  | arithmetic (difference start : Float) (length : Nat)
  /-- Numbers with a constant ratio. -/
  | geometric (ratio start : Float) (length : Nat)
  /-- Elements that occur more than once, and the share of their occurrences. -/
  | repetition (groups : List (Item × Nat)) (frequency : Float)
  /-- Nested containers. -/
  | hierarchy (depth : Nat)
  /-- Atoms of one type. -/
  | typeCluster (type : Value) (count : Nat)
  /-- Tokens that names share, the style of these names if they have one in common, and their
  share. -/
  | naming (tokens : List String) (style : Option Text.NamingStyle) (coverage : Float)
  /-- The pace of interactions, and how often each action occurs. -/
  | rhythm (interval consistency timespan variability : Float) (actions : Table String Nat)
  /-- An action that often follows another. -/
  | flow (source target : String) (count : Nat)
  /-- How something is used. -/
  | usage (frequency duration efficiency : Float) (features : List Value)
  /-- A pattern found elsewhere, described by records. -/
  | described (description metadata : Value)

/-- A regularity, how certain it is, and the parts of the input that show it. -/
structure Pattern where
  shape : Shape
  confidence : Float
  instances : List Item

namespace Pattern

/-- A pattern from any number as its confidence. -/
def of (shape : Shape) (confidence : Float) (instances : List Item) : Pattern :=
  ⟨shape, confidenceOf confidence, instances⟩

end Pattern

/-! ## Writing patterns -/

def Slot.plain : Item → Except Fault Value
  | .known a => a.toRecord
  | .raw v => .ok v

namespace Shape

/-- How involved a text is by the number of matches in it. -/
def complexity (count : Nat) : String :=
  if 10 < count then "complex" else if 3 < count then "moderate" else "simple"

/-- Writes the elements of a repetition. -/
def writeGroups (element : Item → Except Fault Value) :
    List (Item × Nat) → Except Fault (List Value)
  | [] => .ok []
  | (item, count) :: rest => do
    let v ← element item
    return .record [("element", v), ("count", .count count)] :: (← writeGroups element rest)

def kind : Shape → String
  | code .. => PatternType.code.label
  | arithmetic .. => "arithmetic-sequence"
  | geometric .. => "geometric-sequence"
  | repetition .. => "repetition"
  | hierarchy _ => "hierarchical"
  | typeCluster .. => "type-cluster"
  | naming .. => "naming-convention"
  | rhythm .. => "interaction-rhythm"
  | flow .. => "action-flow"
  | usage .. => "usage-profile"
  | described .. => "pattern"

/-- The pattern type of a shape that was found here. -/
def patternType : Shape → PatternType
  | code _ category .. => category
  | arithmetic .. | geometric .. => .sequence
  | repetition .. => .repetition
  | hierarchy _ => .hierarchical
  | typeCluster .. | naming .. => .semantic
  | rhythm .. => .interactionRhythm
  | flow .. => .sequential
  | usage .. => .usageProfile
  | described .. => .custom

/-- Writes what was found, with the given way of writing elements. -/
def description (element : Item → Except Fault Value) (shape : Shape) : Except Fault Value :=
  let kind := ("type", Value.text shape.kind)
  match shape with
  | code detector category count .. => .ok (.record [("name", .text detector), kind,
      ("category", .text category.label), ("matches", .count count)])
  | arithmetic difference start length => .ok (.record [kind,
      ("commonDifference", .float difference), ("start", .float start), ("length", .count length)])
  | geometric ratio start length => .ok (.record [kind, ("commonRatio", .float ratio),
      ("start", .float start), ("length", .count length)])
  | repetition groups frequency => return .record [kind,
      ("repetitions", .list (← writeGroups element groups)), ("frequency", .float frequency)]
  | hierarchy depth => .ok (.record [kind, ("depth", .count depth)])
  | typeCluster type count => .ok (.record [kind, ("atomType", type), ("count", .count count)])
  | naming tokens style _ => .ok (.record [kind, ("sharedTokens", .texts tokens),
      ("style", .text ((style.map (·.label)).getD "mixed"))])
  | rhythm interval consistency _ _ actions => .ok (.record [kind,
      ("averageInterval", .float interval), ("consistency", .float consistency),
      ("actions", .record (actions.map fun (action, n) => (action, .count n)))])
  | flow source target count => .ok (.record [kind, ("from", .text source), ("to", .text target),
      ("count", .count count)])
  | usage frequency duration efficiency features => .ok (.record [kind,
      ("frequency", .float frequency), ("duration", .float duration), ("features", .list features),
      ("efficiency", .float efficiency)])
  | described description _ => .ok description

/-- The metadata beside the pattern type. -/
def details : Shape → List (String × Value)
  | code _ _ count density language =>
    [("frequency", .count count), ("density", .float density),
      ("complexity", .text (complexity count))] ++
      (match language with
        | some v => [("language", v)]
        | none => [])
  | arithmetic .. | geometric .. => []
  | repetition _ frequency => [("frequency", .float frequency)]
  | hierarchy depth => [("depth", .count depth)]
  | typeCluster _ count => [("frequency", .count count)]
  | naming _ _ coverage => [("coverage", .float coverage)]
  | rhythm _ consistency timespan variability _ =>
    [("timespan", .float timespan), ("consistency", .float consistency),
      ("variability", .float variability)]
  | flow _ _ count => [("frequency", .count count)]
  | usage frequency _ efficiency _ =>
    [("efficiency", .float efficiency), ("frequency", .float frequency)]
  | described .. => []

def metadata (shape : Shape) : Value :=
  match shape with
  | described _ metadata => metadata
  | _ => .record (("patternType", .text shape.patternType.label) :: shape.details)

/-- What the metadata give as the pattern type, null if they give none. -/
def tag (shape : Shape) : Except Fault Value := shape.metadata.field "patternType"

/-- The name under which a shape is mentioned: a name it has, or else its kind. -/
def label : Shape → Except Fault String
  | code detector .. => .ok detector
  | described description _ => do
    let name ← description.field "name"
    let kind ← description.field "type"
    ((name.orElse kind).orElse (.text "pattern")).toText
  | shape => .ok shape.kind

end Shape

namespace Pattern

/-- The name under which a pattern is mentioned. -/
def label (p : Pattern) : Except Fault String := p.shape.label

/-- The pattern type that the metadata name. -/
def patternType (p : Pattern) : Except Fault PatternType := return .ofValue (← p.shape.tag)

/-- Writes a pattern, with the given way of writing elements. -/
def toRecordWith (element : Item → Except Fault Value) (p : Pattern) : Except Fault Value := do
  let description ← p.shape.description element
  let instances ← p.instances.mapM Slot.plain
  return .record [("pattern", description), ("confidence", .float p.confidence),
    ("instances", .list instances), ("metadata", p.shape.metadata)]

def toRecord (p : Pattern) : Except Fault Value := p.toRecordWith Slot.plain

end Pattern

end KnowledgeGraph
