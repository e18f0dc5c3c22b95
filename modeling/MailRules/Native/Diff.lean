import MailRules.Assignment
import MailRules.Native.Document
import MailRules.Native.Render
import MailRules.Text.UnifiedDiff

/-!
The difference between the filters that are there and those that should be.

Filters are compared by content. `changed` lists the contents on one side only, in the order of
their digests. For display the two lists are reordered so that similar filters stand at the same
place: each filter of one list is assigned to one of the other, at the least cost in dissimilar
lines, the pairs come first and the filters left over follow in their order (`reorder`).
-/

namespace MailRules.Native

/-- Filters to be added and filters to be removed. -/
structure Changes where
  added : List Filter
  removed : List Filter

/-- What is on one side only of two lists in strictly ascending order of their keys: first of the
second list, then of the first. -/
def mergeJoin {α : Type} : List (String × α) → List (String × α) → List α × List α
  | [], desired => (desired.map (·.2), [])
  | observed, [] => ([], observed.map (·.2))
  | (h, x) :: xs, (k, y) :: ys =>
    if h < k then
      let (added, removed) := mergeJoin xs ((k, y) :: ys)
      (added, x :: removed)
    else if k < h then
      let (added, removed) := mergeJoin ((h, x) :: xs) ys
      (y :: added, removed)
    else mergeJoin xs ys

def inHashOrder (fs : List (String × Filter)) : List (String × Filter) :=
  fs.mergeSort fun a b => decide (a.1 ≤ b.1)

/-- The filters whose contents are on one side only, in the order of their digests. -/
def changed (observed desired : List Filter) : Changes :=
  let (added, removed) :=
    mergeJoin (inHashOrder (distinct observed)) (inHashOrder (distinct desired))
  ⟨added, removed⟩

/-- How dissimilar the lines of two filters are, from 0 to 1. -/
def dissimilarity (f g : Filter) : Float := 1.0 - Text.similarity f.lines g.lines

/-- The cost of each filter of one list with each of another. -/
def costs {α : Type} (cost : Filter → Filter → α) (fs gs : List Filter) : List (List α) :=
  fs.map fun f => gs.map (cost f)

def costMatrix (fs gs : List Filter) : List (List Float) := costs dissimilarity fs gs

/-- An assignment that names an element which is not there. -/
inductive ReorderError where
  | outOfRange

/-- The pairs that an assignment of rows to columns makes of two lists. -/
def pairs {α β : Type} (bs : List β) :
    List α → List (Option Nat) → Except ReorderError (List (α × β))
  | _, [] => .ok []
  | [], none :: ms => pairs bs [] ms
  | _ :: as, none :: ms => pairs bs as ms
  | [], some _ :: _ => .error .outOfRange
  | a :: as, some j :: ms =>
    match bs[j]? with
    | none => .error .outOfRange
    | some b => (pairs bs as ms).map ((a, b) :: ·)

/-- The elements of the first list that an assignment leaves over. -/
def rowsLeft {α : Type} : List α → List (Option Nat) → List α
  | as, [] => as
  | [], _ => []
  | a :: as, none :: ms => a :: rowsLeft as ms
  | _ :: as, some _ :: ms => rowsLeft as ms

/-- The elements of the second list that an assignment leaves over. -/
def columnsLeft {β : Type} (bs : List β) (ms : List (Option Nat)) : List β :=
  (bs.zipIdx.filter fun (_, j) => !ms.contains (some j)).map (·.1)

/-- Two lists with the pairs of an assignment first, in the order of the first list, and then what
is left over of each. -/
def reorder {α β : Type} (as : List α) (bs : List β) (ms : List (Option Nat)) :
    Except ReorderError (List α × List β) :=
  (pairs bs as ms).map fun ps =>
    (ps.map (·.1) ++ rowsLeft as ms, ps.map (·.2) ++ columnsLeft bs ms)

/-- Two lists of filters with those at the same place that cost least together. -/
def reorderBy {α : Type} [Assignment.Cost α] (cost : Filter → Filter → α) (fs gs : List Filter) :
    Except ReorderError (List Filter × List Filter) :=
  reorder fs gs (Assignment.optimal (costs cost fs gs))

/-- The changes between two lists of filters, those at the same place being the ones that cost least
together. -/
def diffBy {α : Type} [Assignment.Cost α] (cost : Filter → Filter → α)
    (observed desired : List Filter) : Except ReorderError Changes :=
  let c := changed observed desired
  if c.added.isEmpty || c.removed.isEmpty then .ok c
  else (reorderBy cost c.added c.removed).map fun (added, removed) => ⟨added, removed⟩

/-- Two lists of filters with similar filters at the same place. -/
def reorderBySimilarity (fs gs : List Filter) : Except ReorderError (List Filter × List Filter) :=
  reorderBy dissimilarity fs gs

/-- The changes between two lists of filters, in the order in which they are shown. -/
def diff (observed desired : List Filter) : Except ReorderError Changes :=
  diffBy dissimilarity observed desired

def Changes.isEmpty (c : Changes) : Bool := c.added.isEmpty && c.removed.isEmpty

/-- The number of pairs that were compared to order the changes. -/
def Changes.cells (c : Changes) : Nat := c.added.length * c.removed.length

/-- The changes as a diff of the filters' texts, with searches and addresses if asked for. -/
def Changes.text (debug : Bool) (context : Int) (c : Changes) : String :=
  Text.stateDiff context (Text.lines (Filter.renderAll debug c.removed))
    (Text.lines (Filter.renderAll debug c.added))

end MailRules.Native
