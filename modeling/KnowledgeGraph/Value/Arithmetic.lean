import KnowledgeGraph.Number.Quotient
import KnowledgeGraph.Number.Statistics
import KnowledgeGraph.Value.Convert

/-!
# Arithmetic on values

Settings, weights and bounds may be given as any value, and are read as numbers where they are put
to use. Truth values count as 0 and 1; other values that are no numbers are a fault.

Whole numbers stay whole among themselves. Beside a float they become floats, of which those beyond
the range of floats are a fault. Comparisons are exact.
-/

namespace KnowledgeGraph

namespace Quantity

def real : Quantity → Except Fault Float
  | .int n => floatOfInt n
  | .float x => .ok x

/-- A number as a count or as a place in a list, which floats are not. -/
def whole : Quantity → Except Fault Int
  | .int n => .ok n
  | .float _ => .error .wrongKind

/-- The sum of two numbers, whole if both are. -/
def plus : Quantity → Quantity → Except Fault Quantity
  | .int m, .int n => .ok (.int (m + n))
  | a, b => return .float ((← a.real) + (← b.real))

def negate : Quantity → Quantity
  | .int n => .int (-n)
  | .float x => .float (-x)

/-- The smaller of two numbers, the first unless the second is less. -/
def least (a b : Quantity) : Quantity := if b.less a then b else a

/-- Moves a number into the unit interval; the not-a-number goes to the upper end. -/
def toUnit : Quantity → Float
  | .int n => if n < 1 then 0 else 1
  | .float x => clampUnit x

def share (count : Nat) : Quantity → Except Fault Float
  | .int total => if total = 0 then .error .divisionByZero else .ok (quotientInt count total)
  | .float total =>
    if total == 0 then .error .divisionByZero else .ok (count.toFloat / total)

end Quantity

namespace Value

def quantity : Value → Except Fault Quantity
  | .scalar s => match s.quantity? with
    | some q => .ok q
    | none => .error .wrongKind
  | _ => .error .wrongKind

/-- A value as a factor of a float, or as what is added to one. -/
def operand (v : Value) : Except Fault Float := do (← v.quantity).real

def whole (v : Value) : Except Fault Int := do (← v.quantity).whole

/-- A value as the number of results that are wanted at most; null wants all. -/
def limit? : Value → Except Fault (Option Int)
  | .null => .ok none
  | v => return some (← v.whole)

/-- A float, or the ceiling unless the float is below it. -/
def cap (ceiling : Value) (x : Float) : Except Fault Quantity :=
  return (← ceiling.quantity).least (.float x)

/-- A float up to a ceiling, as a float. -/
def capped (ceiling : Value) (x : Float) : Except Fault Float := do (← ceiling.cap x).real

end Value

end KnowledgeGraph
