import KnowledgeGraph.Text.Surrogate

/-!
# JSON as bytes

A JSON text starts with a character of ASCII, and so does what follows if the text is longer than a
number of one digit. The zeros among its first four bytes tell in units of how many bytes it is
written, and which byte of a unit comes first. `Json.decode?` finds the encoding of bytes and reads
them; a mark at the start of units of one byte is dropped.
-/

namespace KnowledgeGraph.Json

open Text

/-- Which byte of a unit comes first. -/
inductive ByteOrder where
  | highFirst
  | lowFirst
deriving DecidableEq, Repr

/-- An encoding of characters, in units of 8, 16 or 32 bits. -/
inductive Encoding where
  | units8
  | units16 (order : ByteOrder)
  | units32 (order : ByteOrder)
deriving DecidableEq, Repr

/-- The encoding that the first bytes of a JSON text tell. -/
def Encoding.detect : List UInt8 → Encoding
  | [a, b] =>
    if a == 0 then .units16 .highFirst
    else if b == 0 then .units16 .lowFirst
    else .units8
  | a :: b :: c :: d :: _ =>
    if a == 0 then if b == 0 then .units32 .highFirst else .units16 .highFirst
    else if b == 0 then if c == 0 && d == 0 then .units32 .lowFirst else .units16 .lowFirst
    else .units8
  | _ => .units8

/-- The number that the bytes of a unit stand for. -/
def ByteOrder.number (order : ByteOrder) (bytes : List UInt8) : Nat :=
  let highFirst := match order with
    | .highFirst => bytes
    | .lowFirst => bytes.reverse
  highFirst.foldl (fun n b => 0x100 * n + b.toNat) 0

/-- Reads units of two bytes; none if a byte is left over. -/
def units16? (order : ByteOrder) : List UInt8 → Option (List Nat)
  | [] => some []
  | a :: b :: rest => (units16? order rest).map (order.number [a, b] :: ·)
  | [_] => none

/-- The characters of units of 16 bits. -/
def ofUnits16 : List Nat → List Char
  | [] => []
  | [n] => [charOfCode n]
  | m :: n :: rest =>
    if isHighSurrogate m && isLowSurrogate n then ofSurrogates m n :: ofUnits16 rest
    else charOfCode m :: ofUnits16 (n :: rest)

/-- Reads characters of four bytes; none if bytes are left over, or stand for a number beyond the
last character. -/
def ofUnits32? (order : ByteOrder) : List UInt8 → Option (List Char)
  | [] => some []
  | a :: b :: c :: d :: rest =>
    let n := order.number [a, b, c, d]
    if n < 0x110000 then (ofUnits32? order rest).map (charOfCode n :: ·) else none
  | _ => none

/-- A text without the mark at its start. -/
def dropMark : List Char → List Char
  | '\ufeff' :: cs => cs
  | cs => cs

/-- The text that bytes stand for, if they are an encoded text. -/
def decode? (bytes : ByteArray) : Option String :=
  let bs := bytes.toList
  match Encoding.detect bs with
  | .units8 => (String.fromUTF8? bytes).map fun s => String.ofList (dropMark s.toList)
  | .units16 order => (units16? order bs).map fun ns => String.ofList (ofUnits16 ns)
  | .units32 order => (ofUnits32? order bs).map String.ofList

end KnowledgeGraph.Json
