import KnowledgeGraph.Pattern.Sequence

/-!
# Patterns among atoms

Atoms that share their type, and tokens that the names of several atoms share.
-/

namespace KnowledgeGraph

/-! ## Types -/

/-- The atoms by their types, in the order of first occurrences. -/
def groupByType : List Atom → Table Scalar (List Atom) → Except Fault (Table Scalar (List Atom))
  | [], groups => .ok groups
  | a :: rest, groups => do groupByType rest (groups.addTo (← a.type.toKey) a)

def typeClusters (atoms : List Atom) : Except Fault (List Pattern) := do
  let groups ← groupByType atoms []
  return (groups.filter fun g => 2 ≤ g.2.length).map fun (type, members) =>
    .of (.typeCluster (.scalar type) members.length)
      (least 1 (0.4 + 0.1 * members.length.toFloat)) (members.map .known)

/-! ## Names -/

/-- The text of a name, to be searched. -/
def Atom.nameText (a : Atom) : Except Fault (List Char) :=
  match a.name with
  | .text s => .ok s.toList
  | _ => .error .wrongKind

/-- The different tokens of a name, in lower case. -/
def tokenSet (name : List Char) : List String :=
  distinct ((Text.nameTokens name).map fun t => String.ofList (Text.lower t))

def commonStyle? (names : List (List Char)) : Option Text.NamingStyle :=
  match names.map Text.namingStyle with
  | [] => none
  | style :: styles => if styles.all (· == style) then some style else none

/-- A convention that names follow: tokens that at least two of them have. -/
def namingConvention? (atoms : List Atom) : Except Fault (Option Pattern) := do
  let named := atoms.filter Atom.isNamed
  if named.length < 2 then return none
  let names ← named.mapM Atom.nameText
  let tokenSets := names.map tokenSet
  let shared := Table.keys ((Table.tally tokenSets.flatten).byCount.filter fun e => 2 ≤ e.2)
  if shared.isEmpty then return none
  let showing := (named.zip (names.zip tokenSets)).filter fun e => e.2.2.any shared.contains
  let coverage := quotient showing.length named.length
  return some (.of (.naming shared (commonStyle? (showing.map (·.2.1))) coverage)
    (0.5 + 0.4 * coverage) (showing.map fun e => .known e.1))

def atomPatterns (atoms : List Atom) : Except Fault (List Pattern) := do
  let clusters ← typeClusters atoms
  let naming ← namingConvention? atoms
  return clusters ++ naming.toList

/-! ## Sequences with atoms -/

/-- The patterns in a sequence of elements. -/
def sequencePatterns (config : DetectionConfig) (items : List Item) :
    Except Fault (List Pattern) := do
  let items ← items.mapM asAtom
  if items.isEmpty then return []
  let progressions ← match numbersOf? items with
    | none => pure []
    | some numbers => do
      let arithmetic ← arithmetic? config numbers
      let geometric ← geometric? config numbers
      pure (arithmetic.toList ++ geometric.toList)
  let repetition ← repetition? items
  let hierarchy ← hierarchy? config items
  let atoms := Slot.knowns items
  let clusters ← if atoms.isEmpty then pure [] else atomPatterns atoms
  return progressions ++ repetition.toList ++ hierarchy.toList ++ clusters

end KnowledgeGraph
