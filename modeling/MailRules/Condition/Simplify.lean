import MailRules.Condition.Json

/-!
Simplification of conditions by three laws of logic, each applied from the leaves up:

* `flatten` splices a child into a parent with the same connective, `and(a, and(b, c))` into
  `and(a, b, c)`;
* `mergeFields` joins sibling leaves over one field, `and(from:a, from:b)` into `from:(a b)`;
* `collapse` drops a node around a lone child and a double negation.

One step can make room for another, so they are taken in rounds (`Condition.simplify`) until a
round changes nothing or the rounds allowed are used up. The result is put in canonical order, which
makes it independent of the order in which fields were met.
-/

namespace MailRules.Condition

/-- Children with those that have the connective `op` replaced by their own children. -/
def splice (op : Connective) : List Condition → List Condition
  | [] => []
  | leaf l :: cs => leaf l :: splice op cs
  | node op' gs :: cs => if op' = op then gs ++ splice op cs else node op' gs :: splice op cs

/-- Nested nodes with the same connective become one. A negation is never spliced. -/
def flatten (t : Condition) : Condition :=
  t.rebuild fun op cs => .node op (if op = .not then cs else splice op cs)

/-- The leaf itself, if its operands may be listed under a node with connective `op`. -/
def mergeable? (op : Connective) : Condition → Option Leaf
  | leaf l => if l.operands.length > 1 ∧ l.grouping ≠ op then none else some l
  | node _ _ => none

/-- The fields of leaves, each once, in order of first appearance. -/
def fieldsOf : List Leaf → List Field
  | [] => []
  | l :: ls => l.field :: (fieldsOf ls).filter (· ≠ l.field)

/-- One leaf for all the leaves over a field: their operands in order, raw if any of them is. -/
def joined (op : Connective) (ls : List Leaf) (field : Field) : Leaf :=
  let mine := ls.filter (·.field = field)
  Leaf.over field (mine.flatMap (·.operands)) op (mine.any (·.raw))

/-- The children under `op` with their mergeable leaves joined field by field, after the others. -/
def mergeLeaves (op : Connective) (cs : List Condition) : List Condition :=
  let ls := cs.filterMap (mergeable? op)
  cs.filter (fun c => (mergeable? op c).isNone) ++ (fieldsOf ls).map fun f => leaf (joined op ls f)

/-- Sibling leaves over one field become one leaf, under a conjunction or a disjunction. -/
def mergeFields (t : Condition) : Condition :=
  t.rebuild fun op cs =>
    if cs.length ≤ 1 ∨ (op ≠ .and ∧ op ≠ .or) then .node op cs else .node op (mergeLeaves op cs)

/-- A node without what is redundant at its root. -/
def collapseNode : Connective → List Condition → Condition
  | .not, [.node .not [c]] => c
  | .not, cs => .node .not cs
  | _, [c] => c
  | op, cs => .node op cs

/-- A node around a lone child becomes the child, and a double negation what it negates twice. -/
def collapse (t : Condition) : Condition := t.rebuild collapseNode

/-- One round of all the steps. -/
def simplifyOnce (t : Condition) : Condition := t.flatten.mergeFields.collapse

/-- At most the given number of rounds, stopping at a tree that a round leaves as it is. -/
def simplifyRounds : Nat → Condition → Condition
  | 0, t => t
  | n + 1, t =>
    let t' := t.simplifyOnce
    if t' = t then t else simplifyRounds n t'

/-- The condition after at most `passes` rounds, in canonical order. -/
def simplify (t : Condition) (passes : Int) : Condition :=
  (simplifyRounds passes.toNat t).sorted

/-- Stopping early changes nothing: a further round may as well be taken first. -/
theorem simplifyRounds_succ (n : Nat) (t : Condition) :
    simplifyRounds (n + 1) t = simplifyRounds n t.simplifyOnce := by
  have fixed : ∀ m (u : Condition), u.simplifyOnce = u → simplifyRounds m u = u := by
    intro m u hu
    cases m with
    | zero => rfl
    | succ m => simp [simplifyRounds, hu]
  by_cases h : t.simplifyOnce = t
  · simp only [simplifyRounds, h, if_true]
    exact (fixed n t h).symm
  · simp only [simplifyRounds, h, if_false]

end MailRules.Condition
