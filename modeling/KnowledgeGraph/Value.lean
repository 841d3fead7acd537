import KnowledgeGraph.Number.Exact
import KnowledgeGraph.Table

/-!
# Dynamic values

Records come in as values whose shape nothing promises. A `Value` is a scalar, a list, or a map
from scalars to values that keeps its keys in the order of their first insertion.

Numbers of different kinds are the same when they are equal as numbers, with the truth values
counting as 0 and 1; `Scalar.same` and `Value.same` extend this to all values. Keys of a map are
told apart by `Scalar.same`.

A not-a-number that is read carries a mark. It is the same as any copy of it, so that it can be
found again as a key or as a member of a list, but as a number it equals nothing (`Value.equals`).
-/

namespace KnowledgeGraph

/-- What can be a key: everything but lists and maps. -/
inductive Scalar where
  | null
  | bool (b : Bool)
  | int (n : Int)
  | float (x : Float)
  /-- A not-a-number that was read; the mark tells it from others. -/
  | nan (mark : Nat)
  | text (s : String)
deriving Inhabited, DecidableEq

/-- A dynamic value. -/
inductive Value where
  | scalar (s : Scalar)
  | list (items : List Value)
  | map (entries : List (Scalar × Value))
deriving Inhabited

/-- The entries of a map, in order. -/
abbrev Entries := Table Scalar Value

/-! ## Numbers -/

/-- A number of either kind. -/
inductive Quantity where
  | int (n : Int)
  | float (x : Float)

namespace Quantity

/-- Compares two numbers by their exact values; none if one of them is not a number. -/
def compare? : Quantity → Quantity → Option Ordering
  | .int m, .int n => some (compare m n)
  | .float x, .float y =>
    if x < y then some .lt else if y < x then some .gt else if x == y then some .eq else none
  | .int m, .float y => ofMixed m y
  | .float x, .int n => (ofMixed n x).map Ordering.swap
where
  /-- Compares a whole number with a float. -/
  ofMixed (n : Int) (x : Float) : Option Ordering :=
    match Exact.ofFloat? x with
    | some e => some (e.compareInt n)
    | none => if x.isNaN then none else if x < 0 then some .gt else some .lt

/-- Equality of numbers; a not-a-number equals nothing. -/
def same (a b : Quantity) : Bool := compare? a b == some .eq

def less (a b : Quantity) : Bool := compare? a b == some .lt

def atLeast (a b : Quantity) : Bool := compare? a b == some .eq || compare? a b == some .gt

end Quantity

/-! ## Scalars -/

namespace Scalar

/-- The number that a scalar stands for in comparisons. -/
def quantity? : Scalar → Option Quantity
  | .bool b => some (.int (if b then 1 else 0))
  | .int n => some (.int n)
  | .float x => some (.float x)
  | .nan _ => some (.float notANumber)
  | .null | .text _ => none

/-- Equality of scalars: of numbers by value, of texts by their characters, and of what is read as
not-a-number by its mark. -/
def same (a b : Scalar) : Bool :=
  match a, b with
  | .null, .null => true
  | .text s, .text t => s == t
  | .nan i, .nan j => i == j
  | a, b => match a.quantity?, b.quantity? with
    | some m, some n => m.same n
    | _, _ => false

def text? : Scalar → Option String
  | .text s => some s
  | _ => none

/-- A scalar counts as absent when it is null, false, zero or empty. -/
def isAbsent : Scalar → Bool
  | .null => true
  | .bool b => !b
  | .int n => n == 0
  | .float x => x == 0
  | .nan _ => false
  | .text s => s == ""

end Scalar

instance : Key Scalar := ⟨Scalar.same⟩

/-! ## Maps -/

namespace Entries

def get? (es : Entries) (name : String) : Option Value := es.lookup? (.text name)

def set (es : Entries) (name : String) (v : Value) : Entries := es.put (.text name) v

def ofFields (fields : List (String × Value)) : Entries :=
  fields.map fun (name, v) => (.text name, v)

end Entries

/-! ## Values -/

namespace Value

@[match_pattern] abbrev null : Value := .scalar .null
@[match_pattern] abbrev bool (b : Bool) : Value := .scalar (.bool b)
@[match_pattern] abbrev int (n : Int) : Value := .scalar (.int n)
@[match_pattern] abbrev float (x : Float) : Value := .scalar (.float x)
@[match_pattern] abbrev text (s : String) : Value := .scalar (.text s)

def ofQuantity : Quantity → Value
  | .int n => int n
  | .float x => float x

/-- A count as a value. -/
abbrev count (n : Nat) : Value := .int n

def record (fields : List (String × Value)) : Value :=
  .map (Entries.ofFields fields)

def texts (ss : List String) : Value := .list (ss.map .text)

/-- A value counts as absent when it is null, false, zero or empty. -/
def isAbsent : Value → Bool
  | .scalar s => s.isAbsent
  | .list items => items.isEmpty
  | .map entries => entries.isEmpty

/-- The value unless it counts as absent, else the other one. -/
def orElse (v other : Value) : Value := if v.isAbsent then other else v

mutual

/-- Equality of values: scalars as `Scalar.same` has it, lists item by item, and maps by their keys
in any order. -/
def same : Value → Value → Bool
  | .scalar a, .scalar b => a.same b
  | .list xs, .list ys => sameItems xs ys
  | .map es, .map fs => es.length == fs.length && sameEntries es fs
  | _, _ => false

def sameItems : List Value → List Value → Bool
  | [], [] => true
  | x :: xs, y :: ys => same x y && sameItems xs ys
  | _, _ => false

/-- Whether each entry has its counterpart in the second map. -/
def sameEntries : List (Scalar × Value) → List (Scalar × Value) → Bool
  | [], _ => true
  | (k, v) :: es, fs =>
    (match Table.lookup? fs k with
      | some w => same v w
      | none => false) && sameEntries es fs

end

def text? : Value → Option String
  | .text s => some s
  | _ => none

/-- The entries of a value that is a map. -/
def entries? : Value → Option Entries
  | .map es => some es
  | _ => none

/-- Whether two values are equal, where a not-a-number is not even equal to itself. -/
def equals (v w : Value) : Bool :=
  match v with
  | .scalar (.nan _) => false
  | v => v.same w

def isText (v : Value) (s : String) : Bool := v.same (.text s)

end Value

end KnowledgeGraph
