/-!
# Bytes as text

`Utf8.decode` reads bytes as UTF-8, whatever they are. Bytes of which no character can begin, and
characters that break off, are replaced: a character that breaks off by one replacement for as many
of its bytes as are there.
-/

namespace KnowledgeGraph.Text.Utf8

/-- A character of which some bytes were read. -/
structure Begun where
  /-- How many bytes are to come after the next one. -/
  after : Nat
  /-- The least that the next byte may be. -/
  low : Nat
  /-- The greatest that the next byte may be. -/
  high : Nat
  /-- The bits of the bytes read so far. -/
  bits : Nat

/-- The character that a byte begins, if it is the first byte of several. The range of the second
byte leaves out encodings that are longer than they need to be, surrogates, and numbers beyond the
last character. -/
def lead? (b : Nat) : Option Begun :=
  if 0xc2 ≤ b && b ≤ 0xdf then some ⟨0, 0x80, 0xbf, b % 0x20⟩
  else if b == 0xe0 then some ⟨1, 0xa0, 0xbf, 0⟩
  else if b == 0xed then some ⟨1, 0x80, 0x9f, 0xd⟩
  else if 0xe1 ≤ b && b ≤ 0xef then some ⟨1, 0x80, 0xbf, b % 0x10⟩
  else if b == 0xf0 then some ⟨2, 0x90, 0xbf, 0⟩
  else if 0xf1 ≤ b && b ≤ 0xf3 then some ⟨2, 0x80, 0xbf, b % 8⟩
  else if b == 0xf4 then some ⟨2, 0x80, 0x8f, 4⟩
  else none

/-- What stands for bytes that are no text. -/
def replacement : Char := '\ufffd'

/-- Reads a byte at the start of a character: what it completes, and what it begins. -/
def first (b : Nat) : List Char × Option Begun :=
  if b < 0x80 then ([Char.ofNat b], none)
  else match lead? b with
    | some c => ([], some c)
    | none => ([replacement], none)

/-- Reads a byte after the start of a character. One that does not belong to it breaks it off. -/
def next (c : Begun) (b : Nat) : List Char × Option Begun :=
  if c.low ≤ b && b ≤ c.high then
    let bits := 0x40 * c.bits + b % 0x40
    match c.after with
    | 0 => ([Char.ofNat bits], none)
    | after + 1 => ([], some ⟨after, 0x80, 0xbf, bits⟩)
  else
    let (cs, begun) := first b
    (replacement :: cs, begun)

/-- Reads bytes, with the character that is begun before them if there is one. -/
def decodeFrom : Option Begun → List UInt8 → List Char
  | none, [] => []
  | some _, [] => [replacement]
  | begun, b :: bs =>
    let (cs, begun) := match begun with
      | none => first b.toNat
      | some c => next c b.toNat
    cs ++ decodeFrom begun bs

def decode (bs : List UInt8) : List Char := decodeFrom none bs

end KnowledgeGraph.Text.Utf8
