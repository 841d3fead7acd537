/-!
# Sums, means and deviations

A short sum is taken from left to right. From eight numbers on, eight sums run in parallel over
blocks of eight and are then added up in pairs; a long list is summed in halves, of which the first
is a whole number of blocks.
-/

namespace KnowledgeGraph

/-- The whole blocks of eight, and what is left over. -/
def blocksOfEight : List Float → List (List Float) × List Float
  | a :: b :: c :: d :: e :: f :: g :: h :: rest =>
    let (blocks, left) := blocksOfEight rest
    ([a, b, c, d, e, f, g, h] :: blocks, left)
  | left => ([], left)

/-- Adds up in pairs. -/
def sumPairs : List Float → Float
  | [a, b, c, d, e, f, g, h] => ((a + b) + (c + d)) + ((e + f) + (g + h))
  | xs => xs.foldl (· + ·) 0

/-- The sum of a list that is not halved. -/
def sumBlocks (xs : List Float) : Float :=
  match blocksOfEight xs with
  | ([], left) => left.foldl (· + ·) 0
  | (block :: blocks, left) =>
    left.foldl (· + ·) (sumPairs (blocks.foldl (List.zipWith (· + ·)) block))

/-- The sum of a list, halved at most `depth` times. -/
def sumHalving : Nat → List Float → Float
  | 0, xs => sumBlocks xs
  | depth + 1, xs =>
    if xs.length ≤ 128 then sumBlocks xs
    else
      let half := xs.length / 2 / 8 * 8
      sumHalving depth (xs.take half) + sumHalving depth (xs.drop half)

def sum (xs : List Float) : Float := sumHalving xs.length xs

def mean (xs : List Float) : Float := sum xs / xs.length.toFloat

/-- The deviation of a whole population from its mean. -/
def deviation (xs : List Float) : Float :=
  let m := mean xs
  (mean (xs.map fun x => (x - m) * (x - m))).sqrt

/-- The greatest of a list, zero for none; the not-a-number if the list has one. -/
def greatest : List Float → Float
  | [] => 0
  | x :: xs => xs.foldl (fun m y => if m.isNaN then m else if y.isNaN || m < y then y else m) x

/-! ## Bounds -/

/-- The smaller of two numbers, the first unless the second is less. -/
def least (x y : Float) : Float := if y < x then y else x

/-- The larger of two numbers, the first unless the second is more. -/
def most (x y : Float) : Float := if x < y then y else x

/-- Moves a number into an interval; the not-a-number goes to the upper end. -/
def clamp (low high x : Float) : Float := most low (least high x)

/-- Moves a number into the unit interval. -/
def clampUnit (x : Float) : Float := clamp 0 1 x

/-- A confidence: a number moved into the unit interval, zero if it is not finite. -/
def confidenceOf (x : Float) : Float := if x.isFinite then clampUnit x else 0

end KnowledgeGraph
