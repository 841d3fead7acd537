import KnowledgeGraph.Fault
import KnowledgeGraph.Number.Reading
import KnowledgeGraph.Number.Style
import KnowledgeGraph.Text.Printable

/-!
# Values in running text

`Value.display` is the text of a value: a text stands for itself, and inside lists and maps texts
are quoted. `quote` prefers single quotes, takes double ones for a text that has single quotes only,
and writes as escapes what is not shown as it is.

Whole numbers of more than `digitLimit` digits are not written. `Value.toText` and `Value.toQuoted`
are what a value is put into text by: they stop at a value with such a number in it, whereas
`Value.display` and `Value.quoted` spell out any number. `Value.mention` stands for messages.
-/

namespace KnowledgeGraph

open Text

/-- A number in base 16, filled up with zeros to a width. -/
def hex (width n : Nat) : List Char :=
  let ds := Nat.toDigits 16 n
  List.replicate (width - ds.length) '0' ++ ds

def quoteChar (mark c : Char) : List Char :=
  if c == mark || c == '\\' then ['\\', c]
  else if c == '\n' then ['\\', 'n']
  else if c == '\r' then ['\\', 'r']
  else if c == '\t' then ['\\', 't']
  else if isPrintable c then [c]
  else if c.toNat < 0x100 then '\\' :: 'x' :: hex 2 c.toNat
  else if c.toNat < 0x10000 then '\\' :: 'u' :: hex 4 c.toNat
  else '\\' :: 'U' :: hex 8 c.toNat

def quote (s : String) : String :=
  let cs := s.toList
  let mark := if cs.contains '\'' && !cs.contains '"' then '"' else '\''
  String.ofList (mark :: cs.flatMap (quoteChar mark) ++ [mark])

/-- The text of a scalar, with texts in quotes. -/
def Scalar.quoted : Scalar → String
  | .null => "None"
  | .bool b => if b then "True" else "False"
  | .int n => toString n
  | .float x => NumberStyle.plain.write x
  | .nan _ => NumberStyle.plain.notANumber
  | .text s => quote s

def Scalar.display : Scalar → String
  | .text s => s
  | s => s.quoted

def bracketed (parts : List String) : String := "[" ++ ", ".intercalate parts ++ "]"

namespace Value

mutual

/-- The text of a value, with texts in quotes. -/
def quoted : Value → String
  | .scalar s => s.quoted
  | .list items => bracketed (quotedItems items)
  | .map entries => "\x7b" ++ ", ".intercalate (quotedEntries entries) ++ "\x7d"

def quotedItems : List Value → List String
  | [] => []
  | v :: vs => quoted v :: quotedItems vs

def quotedEntries : List (Scalar × Value) → List String
  | [] => []
  | (k, v) :: es => (k.quoted ++ ": " ++ quoted v) :: quotedEntries es

end

def display : Value → String
  | .text s => s
  | v => v.quoted

/-! ### The limit on digits -/

end Value

/-- Whether a scalar has no more digits than are written. -/
def Scalar.isWritable : Scalar → Bool
  | .int n => n.natAbs < numberLimit
  | _ => true

namespace Value

mutual

/-- Whether no number in a value has more digits than are written. -/
def isWritable : Value → Bool
  | .scalar s => s.isWritable
  | .list items => areWritable items
  | .map entries => entriesWritable entries

/-- Whether no number in a list of values has more digits than are written. -/
def areWritable : List Value → Bool
  | [] => true
  | v :: vs => isWritable v && areWritable vs

/-- Whether no number among keys and values has more digits than are written. -/
def entriesWritable : List (Scalar × Value) → Bool
  | [] => true
  | (k, v) :: es => k.isWritable && isWritable v && entriesWritable es

end

/-- The text that is given for a value, unless a number in the value has too many digits. -/
def ifWritable (v : Value) (text : String) : Except Fault String :=
  if v.isWritable then .ok text else .error .tooManyDigits

def toText (v : Value) : Except Fault String := v.ifWritable v.display

/-- Puts a value into text, with quotes around texts. -/
def toQuoted (v : Value) : Except Fault String := v.ifWritable v.quoted

/-- Mentions values in a message that nothing depends on, but which stops where one of them cannot be
put into text. -/
def mention (vs : List Value) : Except Fault Unit :=
  if vs.all isWritable then .ok () else .error .tooManyDigits

/-! ### Kinds -/

def kind : Value → String
  | .scalar .null => "NoneType"
  | .scalar (.bool _) => "bool"
  | .scalar (.int _) => "int"
  | .scalar (.float _) | .scalar (.nan _) => "float"
  | .scalar (.text _) => "str"
  | .list _ => "list"
  | .map _ => "dict"

end Value

end KnowledgeGraph
