/-!
# Surrogates

Characters beyond the first 65536 are written in units of 16 bits as a pair of surrogates, a high
one and a low one. A surrogate that stands alone is no character. Texts hold characters only, so it is
replaced, although a text may also be read so that it keeps the surrogate. Texts that differ in such
surrogates are one text here.
-/

namespace KnowledgeGraph.Text

/-- Whether a code is the high half of a pair. -/
def isHighSurrogate (n : Nat) : Bool := 0xd800 ≤ n && n < 0xdc00

/-- Whether a code is the low half of a pair. -/
def isLowSurrogate (n : Nat) : Bool := 0xdc00 ≤ n && n < 0xe000

/-- The character that a pair stands for. -/
def ofSurrogates (high low : Nat) : Char :=
  Char.ofNat (0x10000 + (high - 0xd800) * 0x400 + (low - 0xdc00))

/-- The character with a code; a surrogate is replaced. -/
def charOfCode (n : Nat) : Char :=
  if isHighSurrogate n || isLowSurrogate n then '\ufffd' else Char.ofNat n

end KnowledgeGraph.Text
