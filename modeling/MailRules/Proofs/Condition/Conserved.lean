import MailRules.Proofs.Condition.WithinLimit

/-!
What simplification keeps of a condition whatever its shape.

A condition asks for operands in fields. Simplification moves operands between leaves, joins leaves
and drops nodes, and it does so in conditions that no rule should have as well: nodes without
children, negations of several conditions, leaves without operands or with any grouping. In all of
them every operand stays in its field, as often as before, and the condition never gets bigger.

The size of leaves is the number of their operands, so joining leaves leaves the size as it is, and
what makes a condition smaller is only that nodes are spliced or dropped.

What is proved:
  1. `leafLaw_tests`: joined leaves ask for the operands of the leaves that they stand for.
  2. `simplifying_smaller`: no law of simplification makes a condition bigger.
  3. `simplify_conserves`: both together, for any number of rounds.
-/

namespace MailRules

/-- What a leaf asks for: each of its operands in its field. -/
def Leaf.tests (l : Leaf) : List (Field × String) := l.operands.map fun s => (l.field, s)

namespace Condition

/-- What the leaves of a condition ask for. -/
def tests (t : Condition) : List (Field × String) := t.leaves.flatMap Leaf.tests

/-! ## Operands -/

theorem tests_joined (op : Connective) (ls : List Leaf) (f : Field) :
    (joined op ls f).tests = (ls.filter (·.field = f)).flatMap Leaf.tests := by
  unfold Leaf.tests
  rw [joined, Leaf.over_operands, Leaf.over_field, List.map_flatMap]
  apply List.flatMap_congr
  intro l hl
  have here : l.field = f := of_decide_eq_true (List.mem_filter.mp hl).2
  rw [here]

/-- Leaves joined field by field ask for what they asked for one by one. -/
theorem tests_joined_perm (op : Connective) (ls : List Leaf) :
    (((fieldsOf ls).map (joined op ls)).flatMap Leaf.tests).Perm (ls.flatMap Leaf.tests) := by
  have byField : ((fieldsOf ls).map (joined op ls)).flatMap Leaf.tests =
      ((fieldsOf ls).flatMap fun f => ls.filter (·.field = f)).flatMap Leaf.tests := by
    calc ((fieldsOf ls).map (joined op ls)).flatMap Leaf.tests
        = (fieldsOf ls).flatMap fun f => (joined op ls f).tests := List.flatMap_map ..
      _ = (fieldsOf ls).flatMap fun f => (ls.filter (·.field = f)).flatMap Leaf.tests :=
          List.flatMap_congr fun f _ => tests_joined op ls f
      _ = _ := List.flatMap_assoc.symm
  rw [byField]
  exact (gather_perm ls).flatMap_right Leaf.tests

theorem leafLaw_tests :
    LeafLaw fun ks ls => (ls.flatMap Leaf.tests).Perm (ks.flatMap Leaf.tests) where
  perm h := h.symm.flatMap_right Leaf.tests
  trans h h' := h'.trans h
  append h h' := by
    rw [List.flatMap_append, List.flatMap_append]
    exact h.append h'
  join {op ls} _ _ := tests_joined_perm op ls

/-! ## Size -/

theorem size_leaf (l : Leaf) : (leaf l).size = l.tests.length := by
  unfold Leaf.tests
  rw [size, List.length_map]

theorem sizeAll_leaves (ls : List Leaf) :
    sizeAll (ls.map leaf) = (ls.flatMap Leaf.tests).length := by
  induction ls with
  | nil => rfl
  | cons l ls ih =>
    rw [List.map_cons, sizeAll, size_leaf, ih, List.flatMap_cons, List.length_append]

/-- A node that is spliced is dropped itself. -/
theorem sizeAll_splice_le (op : Connective) (cs : List Condition) :
    sizeAll (splice op cs) ≤ sizeAll cs := by
  induction cs with
  | nil => exact Nat.le_refl 0
  | cons c cs ih =>
    cases c with
    | leaf l =>
      simp only [splice, sizeAll]
      omega
    | node op' gs =>
      simp only [splice, sizeAll, size]
      split
      · rw [sizeAll_append]
        omega
      · simp only [sizeAll, size]
        omega

theorem sizeAll_mergeLeaves (op : Connective) (cs : List Condition) :
    sizeAll (mergeLeaves op cs) = sizeAll cs := by
  let ls := cs.filterMap (mergeable? op)
  let others := cs.filter fun c => (mergeable? op c).isNone
  have joint : sizeAll ((fieldsOf ls).map fun f => leaf (joined op ls f)) =
      sizeAll (ls.map leaf) := by
    calc sizeAll ((fieldsOf ls).map fun f => leaf (joined op ls f))
        = sizeAll (((fieldsOf ls).map (joined op ls)).map leaf) := by rw [List.map_map]; rfl
      _ = (((fieldsOf ls).map (joined op ls)).flatMap Leaf.tests).length := sizeAll_leaves _
      _ = (ls.flatMap Leaf.tests).length := (tests_joined_perm op ls).length_eq
      _ = sizeAll (ls.map leaf) := (sizeAll_leaves ls).symm
  calc sizeAll (mergeLeaves op cs)
      = sizeAll others + sizeAll ((fieldsOf ls).map fun f => leaf (joined op ls f)) :=
        sizeAll_append _ _
    _ = sizeAll others + sizeAll (ls.map leaf) := by rw [joint]
    _ = sizeAll (others ++ ls.map leaf) := (sizeAll_append _ _).symm
    _ = sizeAll cs := sizeAll_perm (mergeable_perm op cs)

theorem size_collapseNode_le (op : Connective) (cs : List Condition) :
    (collapseNode op cs).size ≤ (node op cs).size := by
  unfold collapseNode
  split
  · simp only [size, sizeAll]
    omega
  · exact Nat.le_refl _
  · simp only [size, sizeAll]
    omega
  · exact Nat.le_refl _

theorem simplifying_smaller : Simplifying fun t u => u.size ≤ t.size where
  refl t := Nat.le_refl t.size
  trans h h' := Nat.le_trans h' h
  node op cs ds h := by
    simp only [size]
    apply Nat.add_le_add_left
    induction h with
    | nil => exact Nat.le_refl 0
    | cons head _ ih => exact Nat.add_le_add head ih
  splice {op} cs _ := by
    simp only [size]
    exact Nat.add_le_add_left (sizeAll_splice_le op cs) 1
  merge {op} cs _ _ := by
    apply Nat.le_of_eq
    rw [size, size, sizeAll_mergeLeaves]
  collapse := size_collapseNode_le
  arrange op cs := by
    apply Nat.le_of_eq
    rw [size, size, sizeAll_perm (arrange_perm cs)]

/-- **Simplification loses and repeats no operand, and never makes a condition bigger.** This holds
of every condition, malformed ones included, and of every number of rounds. -/
theorem simplify_conserves (t : Condition) (n : Int) :
    (t.simplify n).tests.Perm t.tests ∧ (t.simplify n).size ≤ t.size :=
  ⟨leafLaw_tests.simplifying.simplify t n, simplifying_smaller.simplify t n⟩

/-- A negation of two leaves, one without operands, beside a node without children: only the nested
conjunction is dropped. -/
example :
    let t := conj [node .not [leaf ⟨.unset, [], .not, false⟩, leaf ⟨.cc, ["a"], .or, true⟩],
      node .or [], conj [leaf ⟨.cc, ["b"], .not, false⟩, leaf ⟨.cc, ["a", "b"], .and, false⟩]]
    (t.simplify 1).tests = [(.cc, "b"), (.cc, "a"), (.cc, "b"), (.cc, "a")] ∧
      t.size = 8 ∧ (t.simplify 1).size = 7 := by
  decide

end Condition

end MailRules
