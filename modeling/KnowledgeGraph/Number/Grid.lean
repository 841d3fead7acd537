import KnowledgeGraph.Number.Exact

/-!
# Grids

A grid holds the multiples of a power of a base. A number that lies between two of them is rounded
to the nearer one, or if they are equally near to the even one.
-/

namespace KnowledgeGraph

/-- Where a number lies on a grid: `below` steps of the power with the given exponent, and beyond
them the part `remainder / unit` of a step. -/
structure Grid where
  below : Nat
  remainder : Nat
  unit : Nat
  exponent : Int

namespace Grid

/-- The place of `num / den` on the grid of the numbers with as many places in a base. -/
def place (base num den : Nat) (places : Int) : Grid :=
  if 0 ≤ places then
    let scaled := num * Nat.pow base places.toNat
    ⟨scaled / den, scaled % den, den, -places⟩
  else
    let step := den * Nat.pow base (-places).toNat
    ⟨num / step, num % step, step, -places⟩

/-- Whether the step above is nearer, or as near and even. -/
def roundsUp (g : Grid) : Bool :=
  g.unit < 2 * g.remainder || (2 * g.remainder == g.unit && g.below % 2 == 1)

def nearest (g : Grid) : Nat := if g.roundsUp then g.below + 1 else g.below

/-- The neighbours on the grid, the nearer first. -/
def neighbours (g : Grid) : List Nat :=
  if g.remainder = 0 then [g.below]
  else if g.roundsUp then [g.below + 1, g.below] else [g.below, g.below + 1]

end Grid

end KnowledgeGraph
