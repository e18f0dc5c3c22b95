import MailRules.Condition

/-!
Cutting a condition into smaller ones that share their actions.

A filter that is too big is ignored by the mail service. Since all matching filters apply, a
disjunction may be cut into filters for its parts: the alternatives at the root are separated
(`alternatives`), one that reaches the limit is cut into chunks if it is a disjunction, and if it is
a conjunction its largest disjunctive child is cut, each chunk together with a copy of the siblings
(`splitConjunction`). Anything else stays whole.

Chunks are taken in steps of the limit. A step of zero is an error and a negative step takes no
chunk at all; both only arise from a limit below one.
-/

namespace MailRules

/-- Cuts a list into runs of `n` elements, the last one possibly shorter. -/
def runsOf {α : Type} (n : Nat) : List α → List (List α)
  | [] => []
  | x :: xs => (x :: xs.take (n - 1)) :: runsOf n (xs.drop (n - 1))
termination_by xs => xs.length
decreasing_by simp only [List.length_drop, List.length_cons]; omega

theorem runsOf_nil {α : Type} (n : Nat) : runsOf n ([] : List α) = [] := by rw [runsOf]

theorem runsOf_cons {α : Type} (n : Nat) (x : α) (xs : List α) :
    runsOf n (x :: xs) = (x :: xs.take (n - 1)) :: runsOf n (xs.drop (n - 1)) := by rw [runsOf]

theorem flatten_runsOf {α : Type} (n : Nat) (xs : List α) : (runsOf n xs).flatten = xs := by
  fun_induction runsOf n xs with
  | case1 => rfl
  | case2 x xs ih => simp [ih]

inductive LimitError where
  | zero

namespace Condition

/-- The chunks of a list in steps of `step`. -/
def stepsOf {α : Type} (step : Int) (xs : List α) : Except LimitError (List (List α)) :=
  if step = 0 then .error .zero
  else if step < 0 then .ok []
  else .ok (runsOf step.toNat xs)

/-- The pieces of a tree, a step's worth of operands or children each. -/
def chunks (step : Int) : Condition → Except LimitError (List Condition)
  | leaf l => (stepsOf step l.operands).map fun runs =>
      runs.map fun run => leaf (Leaf.over l.field run l.grouping l.raw)
  | node op cs => (stepsOf step cs).map fun runs => runs.map (node op)

/-- The alternatives of a tree: the children of a disjunction at the root, or else the tree. -/
def alternatives : Condition → List Condition
  | node .or cs => cs
  | t => [t]

/-- The largest tree rooted in a disjunction, the first one of several, and the other trees. Trees
of size zero do not count. -/
def largestDisjunction? : List Condition → Option (Condition × List Condition)
  | [] => none
  | c :: cs =>
    match largestDisjunction? cs with
    | some (d, rest) =>
      if c.rootConnective = .or ∧ d.size ≤ c.size then some (c, cs) else some (d, c :: rest)
    | none => if c.rootConnective = .or ∧ 0 < c.size then some (c, cs) else none

/-- The step for the largest disjunction of a tree, so that each chunk with its siblings is within
the limit if that can be. -/
def innerStep (limit : Int) (whole part : Condition) : Int :=
  max 1 (limit - ((whole.size : Int) - part.size))

/-- Cuts the largest disjunction below a node, with a copy of its siblings beside each chunk. -/
def splitConjunction (limit : Int) : Condition → Except LimitError (List Condition)
  | leaf l => .ok [leaf l]
  | node op cs =>
    match largestDisjunction? cs with
    | none => .ok [node op cs]
    | some (d, siblings) =>
      (d.chunks (innerStep limit (node op cs) d)).map fun pieces =>
        pieces.map fun piece => conj (piece :: siblings)

/-- Cuts a tree that reaches the limit, where its root allows it. -/
def splitBig (limit : Int) (t : Condition) : Except LimitError (List Condition) :=
  if (t.size : Int) < limit then .ok [t]
  else
    match t.rootConnective with
    | .or => t.chunks limit
    | .and => t.splitConjunction limit
    | _ => .ok [t]

/-- Cuts a condition into conditions within the limit, where that is possible. -/
def split (limit : Int) (t : Condition) : Except LimitError (List Condition) :=
  (t.alternatives.mapM (splitBig limit)).map List.flatten

end Condition

end MailRules
