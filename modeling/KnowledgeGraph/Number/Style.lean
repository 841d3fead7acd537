import KnowledgeGraph.Number.Decimal

/-!
# Writing numbers

A `NumberStyle` holds the decisions of a format: how many digits are written, which decimal
exponents are written out in place, whether a whole number keeps its point, and the words for what
is not finite. `NumberStyle.write` follows them. The styles in use are `plain`, `json` and
`compact`.
-/

namespace KnowledgeGraph

/-- The decisions of a number format. The exponent of a number is that of its first digit. -/
structure NumberStyle where
  /-- The significant digits written, or else as many as read back. -/
  digits : Option Nat
  /-- The least exponent that is written out in place. -/
  lowest : Int
  /-- The least exponent above those that are written out in place. -/
  limit : Int
  /-- Whether a whole number written in place ends in a point and a zero. -/
  keepsPoint : Bool
  /-- The word for the not-a-number. -/
  notANumber : String
  /-- The word for infinity. -/
  infinity : String

namespace NumberStyle

/-- Numbers in running text: the fewest digits that read back, in place from 0.0001 up to below
ten to the sixteenth. -/
def plain : NumberStyle := ⟨none, -4, 16, true, "nan", "inf"⟩

/-- Numbers in exchanged records: as in running text, with other words for what is not finite. -/
def json : NumberStyle := { plain with notANumber := "NaN", infinity := "Infinity" }

/-- Numbers in messages: six significant digits at most. -/
def compact : NumberStyle := ⟨some 6, -4, 6, false, "nan", "inf"⟩

/-- The digits without the zeros at their end; a lone zero stays. -/
def stripZeros (ds : List Char) : List Char :=
  match (ds.reverse.dropWhile (· == '0')).reverse with
  | [] => ['0']
  | kept => kept

/-- An exponent: its sign, and two digits at least. -/
def writeExponent (k : Int) : List Char :=
  let ds := Nat.toDigits 10 k.natAbs
  'e' :: (if k < 0 then '-' else '+') :: (if ds.length < 2 then '0' :: ds else ds)

/-- Writes significant digits of which the first stands for `10 ^ lead`. -/
def writeDigits (style : NumberStyle) (ds : List Char) (lead : Int) : List Char :=
  if style.lowest ≤ lead && lead < style.limit then
    if lead < 0 then '0' :: '.' :: (List.replicate (-lead - 1).toNat '0' ++ ds)
    else
      let whole := lead.toNat + 1
      if ds.length ≤ whole then
        ds ++ List.replicate (whole - ds.length) '0'
          ++ (if style.keepsPoint then ['.', '0'] else [])
      else ds.take whole ++ '.' :: ds.drop whole
  else match ds with
    | [] => []
    | [d] => d :: writeExponent lead
    | d :: more => d :: '.' :: more ++ writeExponent lead

def writeDecimal (style : NumberStyle) (d : Decimal) : List Char :=
  let ds := Nat.toDigits 10 d.digits
  if d.digits = 0 then style.writeDigits ['0'] 0
  else style.writeDigits (stripZeros ds) (ds.length - 1 + d.exponent)

def write (style : NumberStyle) (x : Float) : String :=
  match Exact.ofFloat? x with
  | none =>
    if x.isNaN then style.notANumber
    else if x < 0 then "-" ++ style.infinity else style.infinity
  | some e =>
    let d := match style.digits with
      | some count => Decimal.nearest e count
      | none => Decimal.shortest e x
    String.ofList (if e.negative then '-' :: style.writeDecimal d else style.writeDecimal d)

end NumberStyle

/-- The float of `count` significant digits that is nearest to `x`, for numbers that are to agree up to
so many digits; what is not finite stays. -/
def roundSignificant (count : Nat) (x : Float) : Float :=
  match Exact.ofFloat? x with
  | none => x
  | some e =>
    let r := (Decimal.nearest e count).toFloat
    if e.negative then -r else r

end KnowledgeGraph
