import KnowledgeGraph.Number.Grid

/-!
# Quotients of whole numbers

`quotient` rounds a quotient once, however large the two numbers are. A float is a step on a grid of
base two: with 53 digits, but never with more than 1074 places.
-/

namespace KnowledgeGraph

/-- How many binary places leave 53 digits before the point. -/
def binaryPlaces (num den : Nat) : Int :=
  let places : Int := 52 + den.log2 - num.log2
  if (Grid.place 2 num den places).below < Nat.pow 2 52 then places + 1 else places

/-- The float nearest to `num / den` for a positive `den`; infinite beyond the range of floats. -/
def quotient (num den : Nat) : Float :=
  if num = 0 then 0
  else
    let g := Grid.place 2 num den (min 1074 (binaryPlaces num den))
    let bits := (g.exponent + 1074).toNat * Nat.pow 2 52 + g.nearest
    Float.ofBits (UInt64.ofNat (min bits 0x7ff0000000000000))

/-- The float nearest to the quotient of two whole numbers, the second not zero. -/
def quotientInt (num den : Int) : Float :=
  let x := quotient num.natAbs den.natAbs
  if (num < 0) != (den < 0) then -x else x

end KnowledgeGraph
