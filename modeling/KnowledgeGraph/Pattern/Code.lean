import KnowledgeGraph.Pattern
import KnowledgeGraph.Text.Regex
import KnowledgeGraph.Value.Arithmetic

/-!
# Patterns in source text

Detectors are regular expressions for constructs of source text, each with a category that weighs
its matches. `Detector.matches` locates the matches of a detector in a text, and `codePatterns`
reports every detector that matches; the confidence grows with the matches per hundred characters.
-/

namespace KnowledgeGraph

open Text (Regex isBlank isWord trim)

/-! ## Configuration -/

/-- What the detection of patterns can be tuned by. A setting may be any value; where it is put to
use, one of the wrong kind is a fault. -/
structure DetectionConfig where
  /-- The confidence in a detector with few matches, before it is weighed. -/
  densityFloor : Value := .float 0.4
  /-- What each match per hundred characters adds. -/
  densitySlope : Value := .float 0.3
  /-- How many elements are looked at for progressions. -/
  sequenceWindow : Value := .int 10
  /-- How far the ratios of a geometric progression may be apart. -/
  ratioTolerance : Value := .float 0.01
  /-- The least depth of nesting that is reported. -/
  hierarchyDepth : Value := .int 3
  arithmeticConfidence : Value := .float 0.9
  geometricConfidence : Value := .float 0.85
  usageConfidence : Value := .float 0.6

/-! ## Detectors -/

/-- A detector of one construct. -/
structure Detector where
  name : String
  category : PatternType
  expression : Regex

/-- The weight of a category of detectors. -/
def categoryWeight : PatternType → Float
  | .design => 1.2
  | .async => 1.1
  | .reactive => 1.15
  | .syntactic => 0.8
  | _ => 1.0

namespace Detector

/-- The weight of a detector is that of its category. -/
def weight (d : Detector) : Float := categoryWeight d.category

/-! ### Parts of expressions -/

/-- A character that can start an identifier. -/
def isInitial (c : Char) : Bool := c.isAlpha || c == '_' || c == '$'

/-- A character of an identifier. -/
def isInner (c : Char) : Bool := isWord c || c == '$'

/-- Blanks, or none. -/
def gap : Regex := .many isBlank

/-- One blank or more. -/
def blanks : Regex := .atLeastOne isBlank

def identifier : Regex := .seq (.one isInitial) (.many isInner)

/-- Blanks or none, and an opening parenthesis. -/
def call : Regex := .seq gap (.word "(")

/-- A text, blanks or none, and an opening parenthesis. -/
def callOf (s : String) : Regex := .seq (.word s) call

/-- A text that starts at the boundary of a word. -/
def wordStart (s : String) : Regex := .seq .boundary (.word s)

/-- A text between boundaries of words. -/
def wholeWord (s : String) : Regex := .sequence [.boundary, .word s, .boundary]

/-! ### The detectors -/

/-- Declarations of functions: the word for one and a name, or `def` and a name. -/
def functionDeclaration : Detector := ⟨"function-declaration", .syntactic, .sequence [
  .boundary,
  .choice
    (.sequence [.word "function", gap, .optional (.word "*"), gap, identifier])
    [.sequence [.word "def", blanks, .one fun c => c.isAlpha || c == '_', .many isWord]],
  call]⟩

def arrowFunction : Detector := ⟨"arrow-function", .syntactic, .sequence [
  .choice
    (.sequence [.word "(", .many fun c => c != '(' && c != ')', .word ")"])
    [.seq .boundary identifier],
  gap, .word "=>"]⟩

def classDeclaration : Detector := ⟨"class-declaration", .structural,
  .sequence [wordStart "class", blanks, identifier]⟩

/-- Asynchronous functions, and waiting for a result. -/
def asyncAwait : Detector := ⟨"async-await", .async, .choice
  (.sequence [wordStart "async", blanks, .choice (.word "function") [.word "def"], .boundary])
  [.seq (wordStart "async") call, .seq (wordStart "await") blanks]⟩

def promiseChain : Detector := ⟨"promise-chain", .async, .choice
  (callOf ".then")
  [callOf ".catch", callOf ".finally",
    .sequence [wordStart "new", blanks, .word "Promise", call],
    .sequence [wordStart "Promise.",
      .choice (.word "all") [.word "allSettled", .word "any", .word "race"], call]]⟩

/-- Injected dependencies, and bindings to what is injected. -/
def dependencyInjection : Detector := ⟨"dependency-injection", .design, .choice
  (.sequence [.word "@", .one fun c => c == 'I' || c == 'i', .word "nject",
    .optional (.word "able"), call])
  [.sequence [wordStart "bind", call, gap, .atLeastOne fun c => isInner c || c == '.', gap,
    .word ")", gap, .word ".to"]]⟩

def singleton : Detector := ⟨"singleton-pattern", .design, .choice
  (callOf ".inSingletonScope")
  [.seq (wordStart "getInstance") call,
    .sequence [wordStart "static", blanks, .word "instance", .boundary],
    .sequence [wordStart "_instance", gap, .word "=", gap, .word "None", .boundary]]⟩

def observable : Detector := ⟨"observable-pattern", .reactive, .choice
  (wholeWord "Observable")
  [callOf ".subscribe", callOf ".pipe",
    .sequence [wordStart "new", blanks, .optional (.choice (.word "Behavior") [.word "Replay"]),
      .word "Subject", .boundary],
    wholeWord "EventEmitter"]⟩

/-- All detectors, in the order in which they report. -/
def all : List Detector :=
  [functionDeclaration, arrowFunction, classDeclaration, asyncAwait, promiseChain,
    dependencyInjection, singleton, observable]

end Detector

/-! ## Matches -/

/-- A match in a text: its characters without the blanks around them, the line it starts on, and
how many characters precede it. -/
structure CodeMatch where
  text : List Char
  line : Nat
  offset : Nat

def CodeMatch.toValue (m : CodeMatch) : Value :=
  .record [("match", .text (String.ofList m.text)), ("line", .count m.line),
    ("offset", .count m.offset)]

/-- The line of a place in a text, counted from one. -/
def lineAt (text : List Char) (offset : Nat) : Nat := (text.take offset).count '\n' + 1

/-- The matches of a detector in a text. -/
def Detector.matches (d : Detector) (text : List Char) : List CodeMatch :=
  (d.expression.findAll text).map fun m => ⟨trim m.text, lineAt text m.offset, m.offset⟩

/-! ## Patterns -/

/-- Matches per hundred characters. -/
def densityOf (hits characters : Nat) : Float := hits.toFloat / characters.toFloat * 100

/-- The language that a context names, if it does. -/
def languageOf (context : Value) : Except Fault (Option Value) := do
  let v ← context.field "language"
  return if v.isAbsent then none else some v

/-- How much of its weight a detector gets by the density of its matches. -/
def densityFactor (config : DetectionConfig) (density : Float) : Except Fault Float := do
  let rise := (← config.densitySlope.operand) * density
  return least 1 ((← config.densityFloor.operand) + rise)

/-- The pattern of a detector in a text, if it matches. -/
def codePattern? (config : DetectionConfig) (context : Value) (text : List Char) (d : Detector) :
    Except Fault (Option Pattern) := do
  let found := d.matches text
  if found.isEmpty then return none
  let density := densityOf found.length text.length
  let factor ← densityFactor config density
  let language ← languageOf context
  return some (.of (.code d.name d.category found.length density language)
    (least (factor * d.weight) 1) (found.map fun m => .raw m.toValue))

/-- The patterns in a text; none in one that holds only blanks. -/
def codePatterns (config : DetectionConfig) (context : Value) (text : List Char) :
    Except Fault (List Pattern) :=
  if text.all isBlank then .ok []
  else return (← Detector.all.mapM (codePattern? config context text)).filterMap id

end KnowledgeGraph
