import KnowledgeGraph.Text.Word

/-!
# Regular expressions

Expressions over characters, with greedy repetition of a class, ordered choice, word boundaries and
a negative look-ahead. `Regex.rest?` gives what a match leaves of the text, where of several matches
at one place the one counts that tries the earlier choice and the longer repetition first.
`Regex.findAll` lists the matches from left to right, each beginning where the one before ended or
later.

A matcher looks at the character before the place it is tried at, and at nothing else there. So the
matches in a text depend on what precedes it only through the last character.
-/

namespace KnowledgeGraph.Text

/-- An expression. -/
inductive Regex where
  /-- Nothing at all. -/
  | empty
  /-- One character of a class. -/
  | one (p : Char → Bool)
  /-- Any number of characters of a class, as many as possible. -/
  | many (p : Char → Bool)
  | seq (first second : Regex)
  | alt (first second : Regex)
  /-- A place between a word character and something else. -/
  | boundary
  /-- A place where no character of a class follows. -/
  | notAhead (p : Char → Bool)

namespace Regex

/-! ## Writing expressions -/

/-- One or more characters of a class, as many as possible. -/
def atLeastOne (p : Char → Bool) : Regex := seq (one p) (many p)

def word (s : String) : Regex := s.toList.foldr (fun c r => seq (one (· == c)) r) empty

def sequence (rs : List Regex) : Regex := rs.foldr seq empty

/-- The first of several expressions that leads to a match. -/
def choice (r : Regex) (rs : List Regex) : Regex :=
  match rs with
  | [] => r
  | r' :: rs => alt r (choice r' rs)

def optional (r : Regex) : Regex := alt r empty

/-! ## Matching -/

/-- Whether the character at a place, if there is one, is a word character. -/
def wordAt (c : Option Char) : Bool := c.any isWord

/-- Takes characters of a class, then tries `k`; with one character less when `k` fails. -/
def manyThen {β : Type} (p : Char → Bool) (before : Option Char) (cs : List Char)
    (k : Option Char → List Char → Option β) : Option β :=
  match cs with
  | [] => k before []
  | c :: rest =>
    if p c then
      match manyThen p (some c) rest k with
      | some found => some found
      | none => k before cs
    else k before cs

/-- Matches at a place, given by the character before and those ahead, then tries `k` on the place
behind the match. -/
def matchThen {β : Type} (r : Regex) (before : Option Char) (cs : List Char)
    (k : Option Char → List Char → Option β) : Option β :=
  match r with
  | empty => k before cs
  | one p => match cs with
    | c :: rest => if p c then k (some c) rest else none
    | [] => none
  | many p => manyThen p before cs k
  | seq r s => matchThen r before cs fun before cs => matchThen s before cs k
  | alt r s => match matchThen r before cs k with
    | some found => some found
    | none => matchThen s before cs k
  | boundary => if wordAt before != wordAt cs.head? then k before cs else none
  | notAhead p => if cs.head?.any p then none else k before cs

/-- What the match at a place leaves of the text. -/
def rest? (r : Regex) (before : Option Char) (cs : List Char) : Option (List Char) :=
  r.matchThen before cs fun _ rest => some rest

/-! ## Searching -/

/-- A match: how many characters precede it, and its own. -/
structure Match where
  offset : Nat
  text : List Char

/-- The matches from a place on, leaving out the next `skip` characters. -/
def findFrom (r : Regex) (before : Option Char) (offset skip : Nat) : List Char → List Match
  | [] => []
  | c :: cs => match skip with
    | skip + 1 => findFrom r (some c) (offset + 1) skip cs
    | 0 => match r.rest? before (c :: cs) with
      | none => findFrom r (some c) (offset + 1) 0 cs
      | some rest =>
        let size := cs.length + 1 - rest.length
        if size = 0 then findFrom r (some c) (offset + 1) 0 cs
        else ⟨offset, (c :: cs).take size⟩ :: findFrom r (some c) (offset + 1) (size - 1) cs

/-- The matches that are not empty, from left to right and without overlap. -/
def findAll (r : Regex) (cs : List Char) : List Match := r.findFrom none 0 0 cs

end Regex

end KnowledgeGraph.Text
