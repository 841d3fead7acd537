import KnowledgeGraph.Fault

/-!
# The order of keys

Texts are ordered by their characters and numbers by their values. Keys of different kinds have no
order, and sorting them is a fault.
-/

namespace KnowledgeGraph

namespace Scalar

/-- Whether a text comes no later than another. -/
def textLE (a b : Scalar) : Bool :=
  match a, b with
  | .text s, .text t => !(t < s)
  | _, _ => true

/-- Whether a number is no greater than another. -/
def numberLE (a b : Scalar) : Bool :=
  match a.quantity?, b.quantity? with
  | some m, some n => !n.less m
  | _, _ => true

end Scalar

def sortByKey {α : Type} (key : α → Scalar) (xs : List α) : Except Fault (List α) :=
  if xs.length ≤ 1 then .ok xs
  else if xs.all fun x => (key x).text?.isSome then
    .ok (xs.mergeSort fun a b => (key a).textLE (key b))
  else if xs.all fun x => (key x).quantity?.isSome then
    .ok (xs.mergeSort fun a b => (key a).numberLE (key b))
  else .error .wrongKind

def sortKeys (ks : List Scalar) : Except Fault (List Scalar) := sortByKey id ks

end KnowledgeGraph
