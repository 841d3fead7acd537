/-!
# Sorting by a number

`byFalling` lists elements by falling numbers; of equal ones the first stays first. Beside the
not-a-number no number is less or more, so that there is no order to follow. Then the elements are
taken from the last to the first: as many as are in order already are kept (`startRun`), and each
further one is put where repeated halving of the list so far leads to (`insertHalving`).
-/

namespace KnowledgeGraph

variable {α : Type}

/-! ## Insertion -/

/-- The place that halving the places from `low` to `high` leads to: down where the test holds, and
up where it does not. -/
def halve (test : Nat → Bool) (low high : Nat) : Nat :=
  if low < high then
    let middle := low + (high - low) / 2
    if test middle then halve test low middle else halve test (middle + 1) high
  else low
termination_by high - low

/-- Puts an element into a list, found by halving, behind those that it is not less than. -/
def insertHalving (less : α → α → Bool) (sorted : List α) (a : α) : List α :=
  let place := halve (fun i => sorted[i]?.any (less a)) 0 sorted.length
  sorted.take place ++ a :: sorted.drop place

/-- Extends a run, listed with its end first, as long as each next element passes the test against
the one before it. -/
def extendRun (next : α → α → Bool) : List α → List α → List α × List α
  | b :: run, a :: rest =>
    if next b a then extendRun next (a :: b :: run) rest else (b :: run, a :: rest)
  | run, rest => (run, rest)

/-- The run at the start of a list, put in rising order, and what follows it: elements of which none
is less than the one before it, or else of which each is. -/
def startRun (less : α → α → Bool) : List α → List α × List α
  | a :: b :: rest =>
    if less b a then extendRun (fun x y => less y x) [b, a] rest
    else
      let (run, rest) := extendRun (fun x y => !less y x) [b, a] rest
      (run.reverse, rest)
  | as => (as, [])

/-- Sorts by insertion, from the run at the start on. -/
def sortHalving (less : α → α → Bool) (as : List α) : List α :=
  let (run, rest) := startRun less as
  rest.foldl (insertHalving less) run

/-! ## Falling numbers -/

def byFalling (number : α → Float) (as : List α) : List α :=
  if as.any fun a => (number a).isNaN then
    (sortHalving (fun a b => decide (number a < number b)) as.reverse).reverse
  else as.mergeSort fun a b => !(number a < number b)

end KnowledgeGraph
