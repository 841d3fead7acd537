import KnowledgeGraph.Text.Range

/-!
# Blank characters

Blanks separate words. They are the controls from tab to carriage return, the four separator
controls, the space, and the blanks of other scripts.
-/

namespace KnowledgeGraph.Text

/-- The blanks beyond ASCII. -/
def blankRanges : List (Nat × Nat) := [
    (0x85, 0x85), (0xa0, 0xa0), (0x1680, 0x1680), (0x2000, 0x200a), (0x2028, 0x2029),
    (0x202f, 0x202f), (0x205f, 0x205f), (0x3000, 0x3000)]

def isBlank (c : Char) : Bool :=
  if c.val < 128 then (9 ≤ c.val && c.val ≤ 13) || (28 ≤ c.val && c.val ≤ 32)
  else inRanges blankRanges c

/-- Blanks that are spaces: all but the separator controls. -/
def isSpace (c : Char) : Bool := isBlank c && !(28 ≤ c.val && c.val ≤ 31)

/-- The text without the spaces at either end. -/
def trimSpaces (cs : List Char) : List Char :=
  ((cs.dropWhile isSpace).reverse.dropWhile isSpace).reverse

/-- The text without the blanks at either end. -/
def trim (cs : List Char) : List Char :=
  ((cs.dropWhile isBlank).reverse.dropWhile isBlank).reverse

end KnowledgeGraph.Text
