import KnowledgeGraph.Number.Decimal
import KnowledgeGraph.Text.Blank
import KnowledgeGraph.Text.Digit

/-!
# Reading numbers

`readDecimal?` reads an unsigned decimal numeral with optional fraction and exponent, and
`readSigned?` a sign before it, or a word for what is not finite. There are two readers for numbers
given as text. `readNumber?` takes blanks around the number, single underscores between digits, and
digits of any script; `readLoose?` takes spaces around the number, or else single underscores
between any two characters, and knows the digits of ASCII only.
-/

namespace KnowledgeGraph

open Text

/-- The most digits that a whole number is read or written with. -/
def digitLimit : Nat := 4300

/-- The least number with more digits than are written. -/
def numberLimit : Nat := Nat.pow 10 digitLimit

/-- The number that ASCII digits spell. -/
def naturalOf (ds : List Char) : Nat := ds.foldl (fun n c => 10 * n + (c.toNat - '0'.toNat)) 0

/-- Splits off a sign; whether it is a minus, and the rest. -/
def splitSign : List Char → Bool × List Char
  | '-' :: rest => (true, rest)
  | '+' :: rest => (false, rest)
  | rest => (false, rest)

/-- The exponent after a number: none if nothing is left, refused unless it is an `e`, an optional
sign, and digits to the end. -/
def readExponent? : List Char → Option Int
  | [] => some 0
  | c :: rest =>
    let (minus, ds) := splitSign rest
    if (c == 'e' || c == 'E') && !ds.isEmpty && ds.all Char.isDigit then
      some (if minus then -(naturalOf ds : Int) else naturalOf ds)
    else none

/-- A decimal numeral that fills the text: digits on at least one side of an optional point, and
an optional exponent. -/
def readDecimal? (cs : List Char) : Option Decimal :=
  let whole := cs.takeWhile Char.isDigit
  let rest := cs.dropWhile Char.isDigit
  let (fraction, tail) := match rest with
    | '.' :: more => (more.takeWhile Char.isDigit, more.dropWhile Char.isDigit)
    | _ => ([], rest)
  if whole.isEmpty && fraction.isEmpty then none
  else (readExponent? tail).map fun k =>
    ⟨naturalOf (whole ++ fraction), k - fraction.length⟩

/-- A number that fills the text: an optional sign, and a decimal numeral or a word in any case. -/
def readSigned? (cs : List Char) : Option Float :=
  let (minus, cs) := splitSign cs
  let word := String.ofList (cs.map Char.toLower)
  let x? := if word = "inf" || word = "infinity" then some infinity
    else if word = "nan" then some notANumber
    else (readDecimal? cs).map Decimal.toFloat
  x?.map fun x => if minus then -x else x

/-! ## Digits of any script -/

/-- Drops each underscore that stands between two digits, and refuses any other. The flag says
whether the character before was a digit. -/
def dropUnderscores? : Bool → List Char → Option (List Char)
  | _, [] => some []
  | afterDigit, '_' :: rest =>
    match rest with
    | d :: _ => if afterDigit && d.isDigit then dropUnderscores? false rest else none
    | [] => none
  | _, c :: rest => (dropUnderscores? c.isDigit rest).map (c :: ·)

/-- Digits and blanks of other scripts as those of ASCII; other such characters are no part of a
number and become question marks. -/
def asciiForm (c : Char) : Char :=
  if c.val < 127 then c
  else if isBlank c then ' '
  else match digit? c with
    | some d => Char.ofNat ('0'.toNat + d)
    | none => '?'

/-- Blanks that may stand around a number once it is in ASCII. -/
def isNumberBlank (c : Char) : Bool := c == ' ' || (9 ≤ c.val && c.val ≤ 13)

def readNumber? (s : String) : Option Float := do
  let cs := s.toList.map asciiForm
  let cs := ((cs.dropWhile isNumberBlank).reverse.dropWhile isNumberBlank).reverse
  readSigned? (← dropUnderscores? false cs)

/-! ## Digits of ASCII -/

/-- Whether two underscores stand side by side. -/
def hasDoubleUnderscore : List Char → Bool
  | '_' :: '_' :: _ => true
  | _ :: rest => hasDoubleUnderscore rest
  | [] => false

/-- The text without its underscores, if each stands alone between two other characters. -/
def joinGroups? (cs : List Char) : Option (List Char) :=
  if cs.head? == some '_' || cs.getLast? == some '_' || hasDoubleUnderscore cs then none
  else some (cs.filter (· != '_'))

/-- A number given as text, with spaces around it or underscores in it, but not both. -/
def readLoose? (s : String) : Option Float :=
  (readSigned? (trimSpaces s.toList)).or ((joinGroups? s.toList).bind readSigned?)

end KnowledgeGraph
