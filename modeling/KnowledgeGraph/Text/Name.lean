import KnowledgeGraph.Text.Regex
import KnowledgeGraph.Text.Digit
import KnowledgeGraph.Text.Lower
import KnowledgeGraph.Text.Capital

/-!
# Identifiers

The naming style of an identifier, and the tokens that its capitals and underscores divide it into.
-/

namespace KnowledgeGraph.Text

def isSmall (c : Char) : Bool := c.isLower

def isLarge (c : Char) : Bool := c.isUpper

/-! ## Styles -/

/-- How an identifier joins its words. -/
inductive NamingStyle where
  | snake
  | camel
  | pascal
  | flat
deriving DecidableEq, Repr

/-- The name of a naming style, written in that style. -/
def NamingStyle.label : NamingStyle → String
  | .snake => "snake_case"
  | .camel => "camelCase"
  | .pascal => "PascalCase"
  | .flat => "flat"

/-- The characters without the underscores at either end. -/
def stripUnderscores (cs : List Char) : List Char :=
  ((cs.dropWhile (· == '_')).reverse.dropWhile (· == '_')).reverse

/-- Whether a small letter is followed by a capital somewhere. -/
def hasHump : List Char → Bool
  | c :: d :: rest => (isSmall c && isLarge d) || hasHump (d :: rest)
  | _ => false

/-- The style of an identifier: an underscore between other characters decides first, then a small
letter before a capital. -/
def namingStyle (cs : List Char) : NamingStyle :=
  if (stripUnderscores cs).contains '_' then .snake
  else if hasHump cs then if cs.head?.any isCapital then .pascal else .camel
  else .flat

/-! ## Tokens -/

/-- A token of an identifier: small letters with at most one capital before them, capitals up to
one that begins another token, or digits. -/
def nameToken : Regex :=
  .choice (.seq (.optional (.one isLarge)) (.atLeastOne isSmall))
    [.seq (.atLeastOne isLarge) (.notAhead isSmall), .atLeastOne isDecimal]

/-- The tokens of an identifier, in order. -/
def nameTokens (cs : List Char) : List (List Char) := (nameToken.findAll cs).map (·.text)

/-- The words of a text: its longest runs of word characters. -/
def words (cs : List Char) : List (List Char) := ((Regex.atLeastOne isWord).findAll cs).map (·.text)

end KnowledgeGraph.Text
