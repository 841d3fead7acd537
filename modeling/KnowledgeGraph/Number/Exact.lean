/-!
# Finite floats as exact numbers

A finite binary64 number is a whole number times a power of two. `Exact.ofFloat?` reads both off
its bits, so that whatever is decided from them is decided without rounding.
-/

namespace KnowledgeGraph

/-- The number `± mantissa · 2 ^ exponent`. -/
structure Exact where
  negative : Bool
  mantissa : Nat
  exponent : Int
deriving Repr, DecidableEq

namespace Exact

/-- The value of a finite float; none for the infinities and the not-a-number. -/
def ofFloat? (x : Float) : Option Exact :=
  let bits : Nat := x.toBits.toNat
  let field : Nat := bits / Nat.pow 2 52 % Nat.pow 2 11
  let fraction : Nat := bits % Nat.pow 2 52
  if field = 2047 then none
  else if field = 0 then some ⟨bits / Nat.pow 2 63 == 1, fraction, -1074⟩
  else some ⟨bits / Nat.pow 2 63 == 1, fraction + Nat.pow 2 52, field - 1075⟩

/-- The magnitude as a fraction: numerator and positive denominator. -/
def ratio (e : Exact) : Nat × Nat :=
  if 0 ≤ e.exponent then (e.mantissa * Nat.pow 2 e.exponent.toNat, 1)
  else (e.mantissa, Nat.pow 2 (-e.exponent).toNat)

def numerator (e : Exact) : Int := if e.negative then -(e.ratio.1 : Int) else e.ratio.1

/-- Compares a whole number with an exact one. -/
def compareInt (n : Int) (e : Exact) : Ordering := compare (n * e.ratio.2) e.numerator

end Exact

def infinity : Float := Float.ofBits 0x7ff0000000000000

def notANumber : Float := Float.ofBits 0x7ff8000000000000

end KnowledgeGraph
