import KnowledgeGraph.Value
import KnowledgeGraph.Number.Reading
import KnowledgeGraph.Text.Surrogate

/-!
# Reading JSON

`Json.read` reads a text that holds one value and blanks around it. Beyond the standard it takes
`NaN`, `Infinity` and `-Infinity`, and a numeral too large for a float is infinite. A numeral
without point and exponent is a whole number, which may have as many digits as `digitLimit` says. Of
entries with the same key the last one counts, at the place of the first. An escape for one half of a
surrogate pair without the other half is replaced, not kept.

The readers take the characters left and give back what they have not used. Values nest; the depth
of what is read is bounded by a count, for which the length of the text suffices.
-/

namespace KnowledgeGraph.Json

open Text (hexDigit? charOfCode isHighSurrogate isLowSurrogate ofSurrogates)

/-- Why a text cannot be read. -/
inductive Flaw where
  /-- The text is no JSON. -/
  | malformed
  /-- A whole number has too many digits. -/
  | tooManyDigits
deriving DecidableEq, Repr

/-- What was read, if the text has the right form there. -/
def wellFormed {α : Type} : Option α → Except Flaw α
  | some a => .ok a
  | none => .error .malformed

def isSpace (c : Char) : Bool := c == ' ' || c == '\t' || c == '\n' || c == '\r'

def skipSpace (cs : List Char) : List Char := cs.dropWhile isSpace

/-- Drops a word that the characters have to start with. -/
def expect? (word : List Char) (cs : List Char) : Option (List Char) :=
  if word.isPrefixOf cs then some (cs.drop word.length) else none

/-- The number that four hexadecimal digits spell. -/
def hex4? (a b c d : Char) : Option Nat := do
  return (((← hexDigit? a) * 16 + (← hexDigit? b)) * 16 + (← hexDigit? c)) * 16 + (← hexDigit? d)

/-- Characters that are escaped by a letter. -/
def unescape? : Char → Option Char
  | '"' => some '"'
  | '\\' => some '\\'
  | '/' => some '/'
  | 'b' => some '\x08'
  | 'f' => some '\x0c'
  | 'n' => some '\n'
  | 'r' => some '\r'
  | 't' => some '\t'
  | _ => none

/-- The low half of a surrogate pair, if an escape for one is ahead. -/
def lowSurrogate? : List Char → Option Nat
  | '\\' :: 'u' :: a :: b :: c :: d :: _ =>
    (hex4? a b c d).filter isLowSurrogate
  | _ => none

/-- Reads the rest of a text, up to the closing quote. `high` is the high half of a surrogate pair
whose low half is known to come next. -/
def readTextAfter? (high : Option Nat) : List Char → Option (List Char × List Char)
  | [] => none
  | '"' :: rest => some ([], rest)
  | '\\' :: 'u' :: a :: b :: c :: d :: rest => do
    let code ← hex4? a b c d
    match high with
    | some h =>
      let (s, rest) ← readTextAfter? none rest
      return (ofSurrogates h code :: s, rest)
    | none =>
      if isHighSurrogate code && (lowSurrogate? rest).isSome then readTextAfter? (some code) rest
      else
        let (s, rest) ← readTextAfter? none rest
        return (charOfCode code :: s, rest)
  | '\\' :: c :: rest => do
    let c ← unescape? c
    let (s, rest) ← readTextAfter? none rest
    return (c :: s, rest)
  | c :: rest =>
    if c.val < 32 || c == '\\' then none
    else do
      let (s, rest) ← readTextAfter? none rest
      return (c :: s, rest)

/-- Reads the rest of a text, up to the closing quote. -/
def readText? (cs : List Char) : Option (List Char × List Char) := readTextAfter? none cs

/-- The digits ahead, and what follows them. -/
def spanDigits (cs : List Char) : List Char × List Char :=
  (cs.takeWhile Char.isDigit, cs.dropWhile Char.isDigit)

/-- The fraction ahead, if there is one: its digits. -/
def readFraction (cs : List Char) : List Char × List Char :=
  match cs with
  | '.' :: more => match spanDigits more with
    | ([], _) => ([], cs)
    | found => found
  | _ => ([], cs)

/-- The exponent ahead, if there is one. -/
def readPower (cs : List Char) : Option Int × List Char :=
  match cs with
  | e :: more =>
    if e == 'e' || e == 'E' then
      let (minus, more) := splitSign more
      match spanDigits more with
      | ([], _) => (none, cs)
      | (ds, rest) => (some (if minus then -(naturalOf ds : Int) else naturalOf ds), rest)
    else (none, cs)
  | [] => (none, cs)

/-- A whole number with the given digits. -/
def wholeNumber (minus : Bool) (ds : List Char) : Except Flaw Value :=
  if digitLimit < ds.length then .error .tooManyDigits
  else
    let n : Int := naturalOf ds
    .ok (.int (if minus then -n else n))

def readNumeral (minus : Bool) (cs : List Char) : Except Flaw (Value × List Char) :=
  let (whole, rest) := match cs with
    | '0' :: rest => (['0'], rest)
    | cs => spanDigits cs
  if whole.isEmpty then .error .malformed
  else
    let (fraction, rest) := readFraction rest
    let (power, rest) := readPower rest
    if fraction.isEmpty && power.isNone then (wholeNumber minus whole).map (·, rest)
    else
      let x := Decimal.toFloat ⟨naturalOf (whole ++ fraction), power.getD 0 - fraction.length⟩
      .ok (.float (if minus then -x else x), rest)

/-- What the word for not-a-number reads as. It is one and the same in all texts. -/
def nan : Value := .scalar (.nan 0)

def readWord (word : String) (v : Value) (cs : List Char) : Except Flaw (Value × List Char) :=
  wellFormed ((expect? word.toList cs).map (v, ·))

def readScalar (cs : List Char) : Except Flaw (Value × List Char) :=
  match cs with
  | 'n' :: _ => readWord "null" .null cs
  | 't' :: _ => readWord "true" (.bool true) cs
  | 'f' :: _ => readWord "false" (.bool false) cs
  | 'N' :: _ => readWord "NaN" nan cs
  | 'I' :: _ => readWord "Infinity" (.float infinity) cs
  | '-' :: 'I' :: _ => readWord "-Infinity" (.float (-infinity)) cs
  | '-' :: rest => readNumeral true rest
  | _ => readNumeral false cs

mutual

def readValue : Nat → List Char → Except Flaw (Value × List Char)
  | 0, _ => .error .malformed
  | fuel + 1, cs => match cs with
    | '"' :: rest =>
      (wellFormed (readText? rest)).map fun (s, rest) => (.text (String.ofList s), rest)
    | '[' :: rest => match skipSpace rest with
      | ']' :: rest => .ok (.list [], rest)
      | rest => (readItems fuel rest).map fun (items, rest) => (.list items, rest)
    | '\x7b' :: rest => match skipSpace rest with
      | '\x7d' :: rest => .ok (.map [], rest)
      | rest => (readEntries fuel rest).map fun (es, rest) => (.map (Table.merge [] es), rest)
    | cs => readScalar cs

/-- Reads the items of a list and its closing bracket. -/
def readItems : Nat → List Char → Except Flaw (List Value × List Char)
  | 0, _ => .error .malformed
  | fuel + 1, cs => do
    let (v, rest) ← readValue fuel cs
    match skipSpace rest with
    | ']' :: rest => return ([v], rest)
    | ',' :: rest =>
      let (vs, rest) ← readItems fuel (skipSpace rest)
      return (v :: vs, rest)
    | _ => throw .malformed

/-- Reads the entries of a map and its closing brace. -/
def readEntries : Nat → List Char → Except Flaw (Entries × List Char)
  | 0, _ => .error .malformed
  | fuel + 1, cs => do
    let rest ← wellFormed (expect? ['"'] cs)
    let (name, rest) ← wellFormed (readText? rest)
    let rest ← wellFormed (expect? [':'] (skipSpace rest))
    let (v, rest) ← readValue fuel (skipSpace rest)
    let entry := (Scalar.text (String.ofList name), v)
    match skipSpace rest with
    | '\x7d' :: rest => return ([entry], rest)
    | ',' :: rest =>
      let (es, rest) ← readEntries fuel (skipSpace rest)
      return (entry :: es, rest)
    | _ => throw .malformed

end

def read (s : String) : Except Flaw Value := do
  let cs := s.toList
  let (v, rest) ← readValue (cs.length + 1) (skipSpace cs)
  if (skipSpace rest).isEmpty then return v else throw .malformed

/-- The value that a text holds, if it holds one. -/
def read? (s : String) : Option Value := (read s).toOption

end KnowledgeGraph.Json
