import KnowledgeGraph.Text.Digit
import KnowledgeGraph.Text.Utf8

/-!
# Routes

A path is percent-encoded and may carry a query or a fragment, which do not count. `find` says what
a method finds at a path: an action, nothing, that the path is for other methods, or that there is
something at the path without the slashes at its end.
-/

namespace KnowledgeGraph.Service

/-- What a request wants to do at a path. -/
inductive Method where
  | get
  | post
  | patch
  | put
  | delete
  | head
  | other
deriving DecidableEq, Repr

namespace Method

def ofName : String → Method
  | "GET" => get
  | "POST" => post
  | "PATCH" => patch
  | "PUT" => put
  | "DELETE" => delete
  | "HEAD" => head
  | _ => other

def all : List Method := [get, post, patch, put, delete]

end Method

/-! ## Actions -/

/-- What can be asked of the atoms, of recognition and of reasoning. -/
inductive GraphAction where
  | add
  | query
  | find (id : String)
  | update (id : String)
  | remove (id : String)
  | size
  | clear
  | exportText
  | importText
  | recognize
  | reason
deriving DecidableEq, Repr

/-- What can be asked of what is learned. -/
inductive LearningAction where
  | learn
  | feedback
  | adapt
  | adaptation (user domain : String)
  | behavior
  | behaviors (user : String)
  | predict
  | createModel
  | models
  | model (id : String)
  | trainModel (id : String)
  | personalize (user : String)
  | personalization (user : String)
  | stats
deriving DecidableEq, Repr

/-- What the service can be asked to do. -/
inductive Action where
  | about
  | health
  | graph (a : GraphAction)
  | learning (a : LearningAction)
deriving DecidableEq, Repr

/-- What a method does at a path below the version of the service. -/
def GraphAction.find? : Method → List String → Option GraphAction
  | .post, ["atoms"] => some .add
  | .post, ["atoms", "query"] => some .query
  | .get, ["atoms", id] => some (.find id)
  | .patch, ["atoms", id] => some (.update id)
  | .delete, ["atoms", id] => some (.remove id)
  | .get, ["atomspace", "size"] => some .size
  | .post, ["atomspace", "clear"] => some .clear
  | .get, ["atomspace", "export"] => some .exportText
  | .post, ["atomspace", "import"] => some .importText
  | .post, ["patterns", "recognize"] => some .recognize
  | .post, ["reason"] => some .reason
  | _, _ => none

/-- What a method does at a path below learning. -/
def LearningAction.find? : Method → List String → Option LearningAction
  | .post, ["learn"] => some .learn
  | .post, ["feedback"] => some .feedback
  | .post, ["adapt"] => some .adapt
  | .get, ["strategies", user, domain] => some (.adaptation user domain)
  | .post, ["behavior"] => some .behavior
  | .get, ["behavior", user] => some (.behaviors user)
  | .post, ["predict"] => some .predict
  | .post, ["models"] => some .createModel
  | .get, ["models"] => some .models
  | .get, ["models", id] => some (.model id)
  | .post, ["models", id, "train"] => some (.trainModel id)
  | .put, ["personalization", user] => some (.personalize user)
  | .get, ["personalization", user] => some (.personalization user)
  | .get, ["stats"] => some .stats
  | _, _ => none

/-- What a method does at a path, which is given by its segments. No segment is empty but that of
the root. -/
def Action.find? (m : Method) (path : List String) : Option Action :=
  match m, path with
  | .get, [""] => some .about
  | .get, ["health"] => some .health
  | m, "v1" :: rest =>
    if rest.contains "" then none
    else match rest with
      | "learning" :: rest => (LearningAction.find? m rest).map .learning
      | rest => (GraphAction.find? m rest).map .graph
  | _, _ => none

/-! ## Paths -/

namespace Path

open Text (hexDigit?)

/-- The bytes that a text stands for: a percent sign and two digits for one byte, and any other
character for those of its encoding. -/
def bytes : List Char → List UInt8
  | [] => []
  | '%' :: a :: b :: rest => match hexDigit? a, hexDigit? b with
    | some m, some n => UInt8.ofNat (16 * m + n) :: bytes rest
    | _, _ => '%'.toUInt8 :: bytes (a :: b :: rest)
  | c :: rest => c.toString.toUTF8.toList ++ bytes rest

/-- Resolves the percent signs of a text. -/
def decode (s : String) : String := String.ofList (Text.Utf8.decode (bytes s.toList))

/-- A path without its query and its fragment. -/
def withoutQuery (path : String) : String :=
  String.ofList (path.toList.takeWhile fun c => c != '?' && c != '#')

/-- The segments of a path; no path is that of the root. -/
def segments (path : String) : List String :=
  match (decode (withoutQuery path)).splitOn "/" with
  | [""] => [""]
  | "" :: rest => rest
  | segments => segments

/-- A path without slashes at its end. -/
def trimmed (path : List String) : List String := (path.reverse.dropWhile (· == "")).reverse

/-- A path without the line end at its end, if it has one. -/
def withoutLineEnd (path : List String) : List String :=
  match path.reverse with
  | last :: others =>
    if last.toList.getLast? == some '\n' then
      (String.ofList last.toList.dropLast :: others).reverse
    else path
  | [] => path

/-- What a method does at a path. A line end at the end of a path belongs to what the path names, or
else does not count. -/
def action? (m : Method) (path : List String) : Option Action :=
  (Action.find? m path).or (Action.find? m (withoutLineEnd path))

/-- Whether any method does something at a path. -/
def isRoute (path : List String) : Bool := Method.all.any fun m => (action? m path).isSome

end Path

/-- What is found at a path. -/
inductive Found where
  | action (a : Action)
  /-- Nothing is at the path. -/
  | nothing
  /-- The path is for other methods. -/
  | otherMethods
  /-- Something is at the path without the slashes at its end. -/
  | elsewhere
deriving DecidableEq, Repr

def find (m : Method) (path : String) : Found :=
  let path := Path.segments path
  match Path.action? m path with
  | some a => .action a
  | none =>
    if Path.isRoute path then .otherMethods
    else if Path.isRoute (Path.trimmed path) then .elsewhere
    else .nothing

end KnowledgeGraph.Service
