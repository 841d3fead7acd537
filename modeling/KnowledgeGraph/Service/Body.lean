import KnowledgeGraph.Atom.Query
import KnowledgeGraph.Json.Encoding
import KnowledgeGraph.Json.Parser
import KnowledgeGraph.Service.Form
import KnowledgeGraph.Service.Response

/-!
# Bodies

The forms of the bodies that the service takes. Most bodies are passed on as records of their
fields, without those that are null.
-/

namespace KnowledgeGraph.Service.Body

open Form

/-! ## Reading a body -/

def noEntries : Value := .map []

/-- The result of a check, or a refusal for its problems. -/
def accept {α : Type} : Checked α → Except Refusal α
  | .fine a => .ok a
  | .faulty problems => .error (.invalid problems)

/-- Reads a body that has to be there and of some form. -/
def read {α : Type} (form : Form α) (body : ByteArray) : Except Refusal α :=
  if body.isEmpty then accept (.complain .missing .null)
  else match Json.decode? body with
    | none => .error .illegible
    | some text => match Json.read text with
      | .ok v => accept (form v)
      | .error .malformed => accept (.complain .unreadable noEntries)
      | .error .tooManyDigits => .error .illegible

/-! ## Parts of bodies -/

def textValue (limit : Nat) : Form Value := fun v => (textUpTo limit v).map .text

def anyText : Form Value := fun v => (text v).map .text

def mapValue : Form Value := fun v => (map v).map .map

def mapsValue : Form Value := fun v => (listOf mapValue v).map .list

/-- The longest texts that name something. -/
def nameLimit : Nat := 200

/-- The longest texts that tell something. -/
def proseLimit : Nat := 2000

def truthValue : Form TruthValue := record fun es =>
  TruthValue.of <$> required "strength" number es <*> required "confidence" number es

/-- An attention value, in which missing numbers are zero. -/
def attentionValue : Form AttentionValue := record fun es =>
  AttentionValue.mk <$> defaulted ["sti"] 0 number es <*> defaulted ["lti"] 0 number es <*>
    defaulted ["vlti"] 0 number es

/-! ## Atoms -/

def atom : Form Value := parts [
  requiredPart "type" (textValue nameLimit),
  optionalPart ["name"] (textValue proseLimit),
  optionalPart ["id"] (textValue nameLimit),
  optionalPart ["truthValue", "truth_value"] fun v => (truthValue v).map TruthValue.toValue,
  optionalPart ["attentionValue", "attention_value"] fun v =>
    (attentionValue v).map AttentionValue.toValue,
  defaultedPart "outgoing" (.list []) mapsValue,
  defaultedPart "incoming" (.list []) mapsValue,
  defaultedPart "metadata" noEntries mapValue]

/-- The text of a field that may be missing. -/
def givenText (s : Option String) : Value := (s.map Value.text).getD .null

/-- The query with given type, name and thresholds. -/
def queryOf (type name : Option String) (truth : Option TruthValue)
    (attention : Option AttentionValue) : Query :=
  ⟨givenText type, givenText name, truth, attention⟩

def query : Form Query := record fun es =>
  queryOf <$> optional ["type"] text es <*> optional ["name"] text es <*>
    optional ["truthValueThreshold", "truth_value_threshold"] truthValue es <*>
    optional ["attentionThreshold", "attention_threshold"] attentionValue es

def importText : Form String := record (required "data" text)

/-! ## Recognition and reasoning -/

def recognition : Form Value := parts [
  requiredPart "data" anything,
  defaultedPart "context" noEntries mapValue,
  optionalPart ["scope"] anyText,
  optionalPart ["options"] mapValue]

def question : Form Value := parts [
  optionalPart ["type"] anyText,
  optionalPart ["atoms"] mapsValue,
  defaultedPart "context" noEntries mapValue,
  defaultedPart "parameters" noEntries mapValue]

/-! ## Learning -/

def feedback : Form Value := parts [
  requiredPart "rating" fun v => (number v).map .float,
  requiredPart "helpful" fun v => (flag v).map .bool,
  optionalPart ["comment"] (textValue proseLimit),
  optionalPart ["actionTaken"] anyText,
  optionalPart ["timeSpent"] fun v => (number v).map .float,
  optionalPart ["outcome"] anyText]

def learning : Form Value := parts [
  requiredPart "type" fun v => (oneOf (LearningType.all.map (·.label)) v).map .text,
  optionalPart ["input"] anything,
  optionalPart ["expectedOutput"] anything,
  optionalPart ["feedback"] feedback,
  optionalPart ["context"] mapValue,
  optionalPart ["priority"] anyText]

def feedbackInContext : Form Value := parts [
  requiredPart "feedback" feedback,
  defaultedPart "context" noEntries mapValue]

def adaptation : Form Value := parts [
  requiredPart "userId" (textValue nameLimit),
  requiredPart "domain" (textValue nameLimit),
  optionalPart ["data"] mapValue]

def action : Form Value := parts [
  requiredPart "userId" (textValue nameLimit),
  requiredPart "action" (textValue nameLimit),
  defaultedPart "context" noEntries mapValue]

/-- A request for the likely actions of a user. -/
def prediction : Form Value := parts [
  requiredPart "userId" (textValue nameLimit),
  defaultedPart "context" noEntries mapValue]

def model : Form Value := parts [
  requiredPart "type" (textValue nameLimit),
  defaultedPart "parameters" noEntries mapValue]

def training : Form (List Value) := record (required "trainingData" (listOf learning))

end KnowledgeGraph.Service.Body
