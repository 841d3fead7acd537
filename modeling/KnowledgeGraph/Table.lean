/-!
# Tables

A table maps keys to values and lists its entries in the order in which their keys came in first.
Keys are told apart by `Key.same`. Beside the usual operations there are tallies: how often each
key occurs in a list.
-/

namespace KnowledgeGraph

/-- Types whose members can be keys. -/
class Key (κ : Type) where
  /-- Whether two keys are the same. -/
  same : κ → κ → Bool

instance : Key String := ⟨fun a b => a == b⟩

instance {κ μ : Type} [Key κ] [Key μ] : Key (κ × μ) :=
  ⟨fun a b => Key.same a.1 b.1 && Key.same a.2 b.2⟩

/-- The entries of a table, in order. -/
abbrev Table (κ ν : Type) := List (κ × ν)

namespace Table

variable {κ ν : Type} [Key κ]

def lookup? (t : Table κ ν) (k : κ) : Option ν :=
  (List.find? (fun e => Key.same e.1 k) t).map (·.2)

def has (t : Table κ ν) (k : κ) : Bool := t.any fun e => Key.same e.1 k

/-- Sets the value under a key: in place if the key is present, else at the end. -/
def put (t : Table κ ν) (k : κ) (v : ν) : Table κ ν :=
  match t with
  | [] => [(k, v)]
  | e :: rest => if Key.same e.1 k then (e.1, v) :: rest else e :: put rest k v

def erase (t : Table κ ν) (k : κ) : Table κ ν := t.filter fun e => !Key.same e.1 k

/-- Sets the value under a key unless the key has one. -/
def putNew (t : Table κ ν) (k : κ) (v : ν) : Table κ ν := if t.has k then t else t ++ [(k, v)]

/-- Changes the value under a key, which is `start` if the key has none. -/
def alter (t : Table κ ν) (k : κ) (start : ν) (f : ν → ν) : Table κ ν :=
  t.put k (f ((t.lookup? k).getD start))

/-- Writes all entries of the second table into the first. -/
def merge (t updates : Table κ ν) : Table κ ν := updates.foldl (fun t e => t.put e.1 e.2) t

def values (t : Table κ ν) : List ν := t.map (·.2)

def keys (t : Table κ ν) : List κ := t.map (·.1)

/-! ## Grouping and counting -/

/-- The sum of counts. -/
def total : List Nat → Nat
  | [] => 0
  | n :: ns => n + total ns

/-- Adds a value to the group of its key. -/
def addTo (t : Table κ (List ν)) (k : κ) (v : ν) : Table κ (List ν) := t.alter k [] (· ++ [v])

/-- Counts one more occurrence of a key. -/
def countOne (t : Table κ Nat) (k : κ) : Table κ Nat := t.alter k 0 (· + 1)

/-- How often each key occurs, in the order of first occurrences. -/
def tally (ks : List κ) : Table κ Nat := ks.foldl countOne []

omit [Key κ] in
/-- The entries by falling counts; of equal counts the first stays first. -/
def byCount (t : Table κ Nat) : Table κ Nat := t.mergeSort fun a b => b.2 ≤ a.2

omit [Key κ] in
/-- The first entry of the greatest count. -/
def mostCounted? : Table κ Nat → Option (κ × Nat)
  | [] => none
  | e :: rest => match mostCounted? rest with
    | some best => if e.2 < best.2 then some best else some e
    | none => some e

end Table

/-- The members of a list without those that occurred before. -/
def distinct {κ : Type} [Key κ] (ks : List κ) : List κ :=
  ks.foldl (fun seen k => if seen.any (Key.same · k) then seen else seen ++ [k]) []

end KnowledgeGraph
