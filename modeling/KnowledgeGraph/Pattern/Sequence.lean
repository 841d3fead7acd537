import KnowledgeGraph.Pattern.Code
import KnowledgeGraph.Selection
import KnowledgeGraph.Value.Canonical

/-!
# Patterns in sequences

Progressions of numbers, repeated elements and nesting. An element that has the form of an atom
record is taken as the atom (`asAtom`).
-/

namespace KnowledgeGraph

/-! ## Elements -/

/-- Whether a map has a text as its type and only fields of atom records. -/
def hasAtomForm (es : Entries) : Bool :=
  ((Entries.get? es "type").bind Value.text?).isSome &&
    (Table.keys es).all fun k =>
      k.text?.any (recordFields ++ ["truth_value", "attention_value"]).contains

/-- An element as an atom, if it has the form of an atom record and is not malformed. Faults that
are not expected of records are passed on. -/
def asAtom (item : Item) : Except Fault Item :=
  match item with
  | .raw (.map es) =>
    if hasAtomForm es then
      match Atom.ofRecord (.map es) with
      | .ok a => .ok (.known a)
      | .error f => if f.isMalformed then .ok item else .error f
    else .ok item
  | item => .ok item

/-! ## Numbers -/

/-- A finite number that is not a truth value. -/
def Value.finite? : Value → Option Float
  | .int n => (floatOfInt n).toOption
  | .float x => if x.isFinite then some x else none
  | _ => none

/-- The elements as numbers, if there are three or more and all are finite numbers. -/
def numbersOf? (items : List Item) : Option (List Float) :=
  if items.length < 3 then none
  else items.mapM fun
    | .raw v => v.finite?
    | .known _ => none

/-- Whether two numbers are within a billionth of each other, of the larger one or of one. -/
def isClose (a b : Float) : Bool :=
  if a == b then true
  else if a.isInf || b.isInf then false
  else
    let distance := (b - a).abs
    distance ≤ (1e-9 * b).abs || distance ≤ (1e-9 * a).abs || distance ≤ 1e-9

/-- Numbers whose differences are close to the first one. -/
def arithmetic? (config : DetectionConfig) (numbers : List Float) :
    Except Fault (Option Pattern) := do
  let window := takeUpTo (← config.sequenceWindow.limit?) numbers
  match window, neighbourPairs (fun a b => b - a) window with
  | start :: _, difference :: differences =>
    if difference.isFinite && (difference :: differences).all (isClose · difference) then
      return some (.of (.arithmetic difference start window.length)
        (← config.arithmeticConfidence.toFloat) (window.map fun x => .raw (.float x)))
    else return none
  | _, _ => throw .emptyList

/-- Numbers other than zero whose ratios are within the tolerance of the first one. -/
def geometric? (config : DetectionConfig) (numbers : List Float) :
    Except Fault (Option Pattern) := do
  let window := takeUpTo (← config.sequenceWindow.limit?) numbers
  if window.any (· == 0) then return none
  match window, neighbourPairs (fun a b => b / a) window with
  | start :: _, ratio :: ratios =>
    let tolerance ← config.ratioTolerance.quantity
    if (ratio :: ratios).all fun r => tolerance.atLeast (.float (r - ratio).abs) then
      return some (.of (.geometric ratio start window.length)
        (← config.geometricConfidence.toFloat) (window.map fun x => .raw (.float x)))
    else return none
  | _, _ => throw .emptyList

/-! ## Repetition -/

/-- What an element is compared by: the text of its canonical form, of the record for an atom. A value
that has no canonical form is compared by its text. -/
def elementKey : Item → Except Fault String
  | .known a => do return Json.writeLine (← (← a.toRecord).canonical)
  | .raw v => match v.canonical with
    | .ok c => .ok (Json.writeLine c)
    | .error _ => v.toQuoted

/-- Elements that occur more than once. -/
def repetition? (items : List Item) : Except Fault (Option Pattern) := do
  if items.length < 2 then return none
  let keys ← items.mapM elementKey
  let firsts := (keys.zip items).foldl (fun t e => Table.putNew t e.1 e.2) []
  let repeated := (Table.tally keys).byCount.filter fun e => 1 < e.2
  if repeated.isEmpty then return none
  let groups := repeated.filterMap fun e => (Table.lookup? firsts e.1).map (·, e.2)
  let occurrences := Table.total (repeated.map (·.2))
  let frequency := quotient occurrences items.length
  let instances := ((keys.zip items).filter fun e => Table.has repeated e.1).map (·.2)
  return some (.of (.repetition groups frequency) frequency instances)

/-! ## Nesting -/

mutual

/-- How deep containers are nested in a value; a scalar has depth zero. -/
def Value.depth : Value → Nat
  | .scalar _ => 0
  | .list items => 1 + depthOfItems items
  | .map entries => 1 + depthOfEntries entries

def Value.depthOfItems : List Value → Nat
  | [] => 0
  | v :: vs => max (Value.depth v) (Value.depthOfItems vs)

/-- The depth of the deepest value of a map. -/
def Value.depthOfEntries : List (Scalar × Value) → Nat
  | [] => 0
  | (_, v) :: es => max (Value.depth v) (Value.depthOfEntries es)

end

mutual

/-- How deep atoms are nested, going out from one. -/
def Atom.depth : Atom → Nat
  | ⟨_, _, _, _, _, outgoing, _, _⟩ => 1 + Atom.depthOfMembers outgoing

def Atom.depthOfMembers : List (Slot Atom) → Nat
  | [] => 0
  | .known a :: rest => max (Atom.depth a) (Atom.depthOfMembers rest)
  | .raw v :: rest => max v.depth (Atom.depthOfMembers rest)

end

def Slot.depth : Item → Nat
  | .known a => a.depth
  | .raw v => v.depth

/-- Elements that hold others, if the nesting is deep enough. -/
def hierarchy? (config : DetectionConfig) (items : List Item) : Except Fault (Option Pattern) := do
  let depth := 1 + Atom.depthOfMembers items
  if (Quantity.int depth).less (← config.hierarchyDepth.quantity) then return none
  return some (.of (.hierarchy depth) (least 1 (0.5 + 0.1 * depth.toFloat))
    (items.filter fun item => 2 ≤ item.depth))

end KnowledgeGraph
