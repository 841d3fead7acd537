import KnowledgeGraph.Number.Grid

/-!
# Decimal approximations

`Decimal.nearest` is the number of a given count of significant digits that is nearest to an exact
one, ties to the even digit. `Decimal.shortest` is the decimal with the fewest digits that reads
back as the same float, and among those the nearest. Both look at the two neighbours of the number
on the grid of the numbers with that many digits.
-/

namespace KnowledgeGraph

/-- The number `digits · 10 ^ exponent`. -/
structure Decimal where
  digits : Nat
  exponent : Int
deriving Repr, DecidableEq

/-- How many decimal digits a number has; zero has none. -/
def digitCount (n : Nat) : Nat := if n = 0 then 0 else (Nat.toDigits 10 n).length

/-- The `k` with `10 ^ (k - 1) ≤ num / den < 10 ^ k`, for positive `num` and `den`. -/
def magnitude (num den : Nat) : Int :=
  if den ≤ num then digitCount (num / den) else 1 - digitCount ((den - 1) / num)

/-- The place of `num / den` on the grid of the numbers with `count` significant digits. -/
def Grid.ofDigits (num den count : Nat) : Grid :=
  Grid.place 10 num den (count - magnitude num den)

namespace Decimal

/-- The nearest float. Exponents far out of range are settled without computing the power. -/
def toFloat (d : Decimal) : Float :=
  if d.digits = 0 then 0
  else
    let top := digitCount d.digits + d.exponent
    if 310 < top then infinity
    else if top < -330 then 0
    else Float.ofScientific d.digits (d.exponent < 0) d.exponent.natAbs

/-- The magnitude of an exact number, rounded to a count of significant digits. -/
def nearest (e : Exact) (count : Nat) : Decimal :=
  if e.mantissa = 0 then ⟨0, 0⟩
  else
    let g := Grid.ofDigits e.ratio.1 e.ratio.2 count
    ⟨g.nearest, g.exponent⟩

/-- The magnitude of an exact number with all its digits. -/
def exact (e : Exact) : Decimal :=
  if 0 ≤ e.exponent then ⟨e.mantissa * Nat.pow 2 e.exponent.toNat, 0⟩
  else ⟨e.mantissa * Nat.pow 5 (-e.exponent).toNat, e.exponent⟩

/-- The neighbour with `count` digits that reads back as `x`, if there is one. -/
def readsBack? (x : Float) (e : Exact) (count : Nat) : Option Decimal :=
  let g := Grid.ofDigits e.ratio.1 e.ratio.2 count
  (g.neighbours.map (Decimal.mk · g.exponent)).find? (·.toFloat == x)

/-- The fewest digits that read back as the magnitude of a finite float. -/
def shortest (e : Exact) (x : Float) : Decimal :=
  if e.mantissa = 0 then ⟨0, 0⟩
  else ((List.range 17).findSome? fun n => readsBack? x.abs e (n + 1)).getD (exact e)

end Decimal

end KnowledgeGraph
