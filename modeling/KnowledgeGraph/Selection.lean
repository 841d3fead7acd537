import KnowledgeGraph.Fault

/-!
# Selecting from lists
-/

namespace KnowledgeGraph

/-- The members of a list that pass a test, which may stop at a fault. -/
def filterE {α : Type} (test : α → Except Fault Bool) : List α → Except Fault (List α)
  | [] => .ok []
  | a :: rest => do
    let keep ← test a
    let kept ← filterE test rest
    return if keep then a :: kept else kept

/-- The first elements of a list: as many as a count says, all but some if it is below zero, and
all without a count. -/
def takeUpTo {α : Type} : Option Int → List α → List α
  | none, xs => xs
  | some count, xs => xs.take (if 0 ≤ count then count.toNat else xs.length - count.natAbs)

/-- Combines each element with the next one. -/
def neighbourPairs {α β : Type} (f : α → α → β) (xs : List α) : List β :=
  List.zipWith f xs (xs.drop 1)

end KnowledgeGraph
