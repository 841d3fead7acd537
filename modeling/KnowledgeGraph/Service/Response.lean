import KnowledgeGraph.Json.Printer
import KnowledgeGraph.Service.Checked
import KnowledgeGraph.Wording

/-!
# Responses

A response has a status and a body. A body goes out as JSON: keys become texts, keys that start with
`_sa` are internal and stay behind, and a body with a number that is not finite, or has too many
digits, cannot go out. The
answer to a request for the head alone has no body.
-/

namespace KnowledgeGraph.Service

/-- A status and a body. -/
structure Response where
  status : Nat
  body : Value

/-- Why a request is refused. -/
inductive Refusal where
  /-- The body is no encoded text, or has a number with too many digits. -/
  | illegible
  /-- The body is not as it has to be. -/
  | invalid (problems : List Problem)
  /-- What is asked for does not exist. -/
  | notFound (detail : String)
  | failed (fault : Fault)

/-! ## Bodies -/

/-- Whether a key is internal. -/
def isInternal : Scalar → Bool
  | .text s => "_sa".isPrefixOf s
  | _ => false

/-- Whether a scalar is anything but a float that is not finite or a number with too many digits. -/
def goesOut : Scalar → Bool
  | .float x => x.isFinite
  | .nan _ => false
  | s => s.isWritable

mutual

/-- A value as it goes out: `none` if it cannot. -/
def outward? : Value → Option Value
  | .scalar s => if goesOut s then some (.scalar s) else none
  | .list items => (outwardItems? items).map .list
  | .map entries => (outwardEntries? entries).map fun es => .map (Table.merge [] es)

/-- The items of a list as they go out. -/
def outwardItems? : List Value → Option (List Value)
  | [] => some []
  | v :: vs => do
    let w ← outward? v
    return w :: (← outwardItems? vs)

/-- The entries of a map as they go out. -/
def outwardEntries? : List (Scalar × Value) → Option Entries
  | [] => some []
  | (k, v) :: es =>
    if isInternal k then outwardEntries? es
    else do
      if !goesOut k then none
      let w ← outward? v
      return (.text (Json.keyName k), w) :: (← outwardEntries? es)

end

/-! ## Making responses -/

namespace Response

/-- A response that tells what is wrong. -/
def detail (status : Nat) (v : Value) : Response := ⟨status, .record [("detail", v)]⟩

/-- The response to a path at which nothing is. -/
def nothingHere : Response := detail 404 (.text "Not Found")

/-- The response to a method that a path is not for. -/
def wrongMethod : Response := detail 405 (.text "Method Not Allowed")

/-- The response to a path with slashes too many at its end. -/
def elsewhere : Response := ⟨307, .text ""⟩

/-- A response without its body. -/
def headOnly (r : Response) : Response := { r with body := .text "" }

/-- The response where something unexpected went wrong. -/
def broken : Response := ⟨500, .text "Internal Server Error"⟩

/-- The response after a fault. Values that are refused are the request's fault, and what else goes
wrong is not. -/
def ofFault (f : Fault) : Response :=
  match f with
  | .importRefused _ => detail 400 (.text f.wording)
  | .modelNotFound _ => detail 404 (.text f.wording)
  | .recordNotAMap _ | .typeNotText | .metadataNotAMap | .unknownFields _ | .recordTypeNotText
  | .unknownPriority _ | .unknownOutcome _ | .badForm | .tooManyDigits =>
    detail 422 (.text f.wording)
  | .missingKey _ | .strategyFailed _ | .wrongKind | .noSuchField | .outOfRange | .emptyList
  | .divisionByZero => broken

/-- The response to a request that is refused. What is wrong with a body is told together with the
values that are wrong, which may turn out to be such that cannot go out. -/
def ofRefusal : Refusal → Response
  | .illegible => detail 400 (.text "*")
  | .invalid problems =>
    if problems.all fun p => (outward? p.input).isSome then
      detail 422 (.list (problems.map Problem.toValue))
    else ofFault .badForm
  | .notFound text => detail 404 (.text text)
  | .failed f => ofFault f

/-- The response with a body, which may turn out to be one that cannot go out. -/
def ofBody (v : Value) : Response :=
  match outward? v with
  | some w => ⟨200, w⟩
  | none => ofFault .badForm

end Response

end KnowledgeGraph.Service
