import KnowledgeGraph.Value.Display

/-!
# Writing JSON

`Json.write` lays a value out over lines, two blanks deeper at each level; `Json.writeLine` writes
it on one line. Texts are in ASCII: other characters are escaped, those beyond the basic plane as a
pair of surrogates. `Json.encode` is for values of any kind: it stops at a whole number with more
digits than are written.
-/

namespace KnowledgeGraph.Json

/-- One character of a text. -/
def escape (c : Char) : List Char :=
  if c == '"' || c == '\\' then ['\\', c]
  else if c == '\n' then ['\\', 'n']
  else if c == '\r' then ['\\', 'r']
  else if c == '\t' then ['\\', 't']
  else if c == '\x08' then ['\\', 'b']
  else if c == '\x0c' then ['\\', 'f']
  else if ' ' ≤ c && c ≤ '~' then [c]
  else if c.toNat < 0x10000 then '\\' :: 'u' :: hex 4 c.toNat
  else
    let n := c.toNat - 0x10000
    '\\' :: 'u' :: hex 4 (0xd800 + n / 0x400) ++ '\\' :: 'u' :: hex 4 (0xdc00 + n % 0x400)

def writeText (s : String) : String := String.ofList ('"' :: s.toList.flatMap escape ++ ['"'])

def writeScalar : Scalar → String
  | .null => "null"
  | .bool b => if b then "true" else "false"
  | .int n => toString n
  | .float x => NumberStyle.json.write x
  | .nan _ => NumberStyle.json.notANumber
  | .text s => writeText s

/-- The name that stands for a key. -/
def keyName : Scalar → String
  | .text s => s
  | k => writeScalar k

/-- The start of a line at a level. -/
def newLine (level : Nat) : String := String.ofList ('\n' :: List.replicate (2 * level) ' ')

mutual

/-- Writes a value that starts at a level. -/
def writeAt (level : Nat) : Value → String
  | .scalar s => writeScalar s
  | .list [] => "[]"
  | .list items =>
    "[" ++ ",".intercalate (writeItems (level + 1) items) ++ newLine level ++ "]"
  | .map [] => "\x7b\x7d"
  | .map entries =>
    "\x7b" ++ ",".intercalate (writeEntries (level + 1) entries) ++ newLine level ++ "\x7d"

/-- Writes the items of a list, each on a new line. -/
def writeItems (level : Nat) : List Value → List String
  | [] => []
  | v :: vs => (newLine level ++ writeAt level v) :: writeItems level vs

/-- Writes the entries of a map, each on a new line. -/
def writeEntries (level : Nat) : List (Scalar × Value) → List String
  | [] => []
  | (k, v) :: es =>
    (newLine level ++ writeText (keyName k) ++ ": " ++ writeAt level v) :: writeEntries level es

end

def write (v : Value) : String := writeAt 0 v

/-- Writes a value over lines, unless a number in it has too many digits. -/
def encode (v : Value) : Except Fault String := v.ifWritable (write v)

mutual

def writeLine : Value → String
  | .scalar s => writeScalar s
  | .list items => "[" ++ ", ".intercalate (lineItems items) ++ "]"
  | .map entries => "\x7b" ++ ", ".intercalate (lineEntries entries) ++ "\x7d"

/-- Writes the items of a list on one line each. -/
def lineItems : List Value → List String
  | [] => []
  | v :: vs => writeLine v :: lineItems vs

/-- Writes the entries of a map on one line each. -/
def lineEntries : List (Scalar × Value) → List String
  | [] => []
  | (k, v) :: es => (writeText (keyName k) ++ ": " ++ writeLine v) :: lineEntries es

end

end KnowledgeGraph.Json
