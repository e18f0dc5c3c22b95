import MailRules.Proofs.Condition.CanonicalOrder
import MailRules.Proofs.Condition.Meaning
import MailRules.Proofs.Json.Canonical
import Mathlib.Data.Prod.Lex

/-!
What the canonical order forgets of a condition.

Siblings are told apart by a key: leaves come before nodes, leaves are compared by grouping and then
by field, nodes by connective (`Condition.key`). A condition is rearranged if siblings are moved
past siblings with another key, at any depth, while those with one key stay in their sequence. The
canonical order undoes exactly that: two conditions have one canonical form if and only if one of
them is the other one rearranged. So nothing is lost that could tell siblings with one key apart,
and no order of siblings with different keys is left.

What is defined and proved:
  1. `key_le_iff`: the key orders siblings as their rank does.
  2. `Moved`, `moved_iff_arrange`: siblings are moved past others exactly if they arrange alike.
  3. `SortedFrom`, `sortedFrom_iff`: sorting node by node has one result.
  4. `Rearranged`, `rearranged_iff`: what it is that conditions with one canonical form have in
     common. Neither the canonical text nor the matcher tells them apart.
  5. `sorted_forgets_order`: all of this together.
-/

namespace MailRules

namespace Condition

/-! ## Keys -/

/-- What siblings are sorted by: first whether it is a leaf or a node, then the grouping and the
field of a leaf, or the connective of a node. -/
def key : Condition → ℕ ×ₗ ℕ ×ₗ ℕ
  | leaf l => toLex (0, toLex (l.grouping.rank, l.field.rank))
  | node op _ => toLex (1, toLex (op.rank, 0))

theorem key_le_iff {c d : Condition} : c.key ≤ d.key ↔ c.rank ≤ d.rank := by
  have fields : Field.all.length = 10 := rfl
  have connectives : Connective.all.length = 4 := rfl
  cases c with
  | leaf l =>
    have hf := l.field.rank_lt
    have hg := l.grouping.rank_lt
    cases d with
    | leaf k =>
      have hf' := k.field.rank_lt
      simp only [key, rank, fields, Prod.Lex.toLex_le_toLex, Nat.lt_irrefl, true_and,
        false_or] at *
      omega
    | node op ds =>
      simp only [key, rank, fields, connectives, Prod.Lex.toLex_le_toLex] at *
      omega
  | node op cs =>
    cases d with
    | leaf k =>
      have hf := k.field.rank_lt
      have hg := k.grouping.rank_lt
      simp only [key, rank, fields, connectives, Prod.Lex.toLex_le_toLex] at *
      omega
    | node op' ds =>
      simp only [key, rank, Prod.Lex.toLex_le_toLex, Nat.lt_irrefl, true_and, false_or]
      omega

theorem key_eq_iff {c d : Condition} : c.key = d.key ↔ c.rank = d.rank := by
  rw [le_antisymm_iff, key_le_iff, key_le_iff, ← Nat.le_antisymm_iff]

theorem key_sorted (t : Condition) : t.sorted.key = t.key := key_eq_iff.mpr (rank_sorted t)

/-! ## Siblings that are moved -/

/-- The second list has the siblings of the first in another order, those with one key in the same
sequence. -/
structure Moved (cs ds : List Condition) : Prop where
  perm : ds.Perm cs
  sequence : ∀ k, ds.filter (·.key = k) = cs.filter (·.key = k)

/-- Two keys that tell the same elements apart pick the same sequences. -/
theorem filter_eq_of_keys {α κ ι : Type} [DecidableEq κ] [DecidableEq ι] {f : α → κ} {g : α → ι}
    (alike : ∀ x y, f x = f y ↔ g x = g y) {xs ys : List α}
    (same : ∀ k, xs.filter (f · = k) = ys.filter (f · = k)) (i : ι) :
    xs.filter (g · = i) = ys.filter (g · = i) := by
  by_cases found : ∃ x, g x = i
  · obtain ⟨x, rfl⟩ := found
    have picked (zs : List α) : zs.filter (g · = g x) = zs.filter (f · = f x) := by
      apply List.filter_congr
      intro z _
      simp only [alike]
    rw [picked, picked, same]
  · have none (zs : List α) : zs.filter (g · = i) = [] := by
      apply List.filter_eq_nil_iff.mpr
      intro z _ here
      exact found ⟨z, of_decide_eq_true here⟩
    rw [none, none]

theorem moved_iff_arrange {cs ds : List Condition} : Moved cs ds ↔ arrange cs = arrange ds := by
  constructor
  · intro moved
    apply arrange_eq_of_ranks
    intro r
    exact (filter_eq_of_keys (fun _ _ => key_eq_iff) moved.sequence r).symm
  · intro same
    refine ⟨(arrange_perm ds).symm.trans (same ▸ arrange_perm cs), ?_⟩
    apply filter_eq_of_keys fun _ _ => key_eq_iff.symm
    intro r
    rw [← filter_arrange r ds, ← filter_arrange r cs, same]

theorem moved_arrange (cs : List Condition) : Moved cs (arrange cs) :=
  moved_iff_arrange.mpr (arrange_eq_self_iff.mpr (inOrder_arrange cs)).symm

/-- Sorting a sibling itself leaves it in the sequence of its key. -/
theorem filter_key_map_sorted (k : ℕ ×ₗ ℕ ×ₗ ℕ) (cs : List Condition) :
    (cs.map sorted).filter (·.key = k) = (cs.filter (·.key = k)).map sorted := by
  rw [List.filter_map]
  simp only [Function.comp_def, key_sorted]

theorem Moved.map_sorted {cs ds : List Condition} (h : Moved cs ds) :
    Moved (cs.map sorted) (ds.map sorted) where
  perm := h.perm.map sorted
  sequence k := by rw [filter_key_map_sorted, filter_key_map_sorted, h.sequence]

/-! ## Sorting, node by node -/

/-- The second condition is the first one sorted: the children of each node are sorted themselves,
put in non-decreasing order of their keys, and those with one key are left in their sequence. -/
inductive SortedFrom : Condition → Condition → Prop
  | leaf (l : Leaf) : SortedFrom (leaf l) (leaf l)
  | node {op : Connective} {cs es ds : List Condition} :
      List.Forall₂ SortedFrom cs es → Moved es ds → ds.Pairwise (fun c d => c.key ≤ d.key) →
      SortedFrom (node op cs) (node op ds)

theorem eq_arrange_of_moved {es ds : List Condition} (moved : Moved es ds)
    (ascending : ds.Pairwise fun c d => c.key ≤ d.key) : ds = arrange es := by
  have inOrder : InOrder ds := ascending.imp key_le_iff.mp
  rw [moved_iff_arrange.mp moved, arrange_eq_self_iff.mpr inOrder]

theorem sortedFrom_sorted (t : Condition) : SortedFrom t t.sorted := by
  induction t using induct with
  | onLeaf l => exact .leaf l
  | onNode op cs ih =>
    rw [sorted_node]
    have children : List.Forall₂ SortedFrom cs (cs.map sorted) :=
      List.forall₂_map_right_iff.mpr (List.forall₂_same.mpr ih)
    exact .node children (moved_arrange _) ((inOrder_arrange _).imp key_le_iff.mpr)

/-- There is one way to sort a condition. -/
theorem sortedFrom_iff {t u : Condition} : SortedFrom t u ↔ u = t.sorted := by
  constructor
  · intro h
    induction t using induct generalizing u with
    | onLeaf l =>
      cases h
      rfl
    | onNode op cs ih =>
      cases h with
      | @node _ _ es ds children moved ascending =>
        have each : List.Forall₂ (fun c e => e = c.sorted) cs es :=
          forall₂_imp_of_mem children fun c hc e _ h => ih c hc h
        have same : es = cs.map sorted := by
          rw [← List.forall₂_eq_eq_eq, List.forall₂_map_right_iff]
          exact each.flip
        rw [sorted_node, eq_arrange_of_moved moved ascending, same]
  · intro h
    rw [h]
    exact sortedFrom_sorted t

/-! ## Rearranged conditions -/

/-- The second condition is the first one with siblings moved past siblings with other keys, at any
depth. -/
inductive Rearranged : Condition → Condition → Prop
  | leaf (l : Leaf) : Rearranged (leaf l) (leaf l)
  | node {op : Connective} {cs es ds : List Condition} :
      List.Forall₂ Rearranged cs es → Moved es ds → Rearranged (node op cs) (node op ds)

theorem Rearranged.key_eq {t u : Condition} (h : Rearranged t u) : t.key = u.key := by
  cases h <;> rfl

theorem sorted_of_rearranged {t u : Condition} (h : Rearranged t u) : t.sorted = u.sorted := by
  induction t using induct generalizing u with
  | onLeaf l =>
    cases h
    rfl
  | onNode op cs ih =>
    cases h with
    | @node _ _ es ds children moved =>
      have each : List.Forall₂ (fun c e => c.sorted = e.sorted) cs es :=
        forall₂_imp_of_mem children fun c hc e _ h => ih c hc h
      have same : cs.map sorted = es.map sorted := Json.map_eq_map_iff.mpr each
      rw [sorted_node, sorted_node, same, moved_iff_arrange.mp moved.map_sorted]

/-- Sequences that each pair up with those of a list, key by key, are the sequences of one list that
pairs up with it. -/
theorem exists_of_sequences {α κ : Type} [DecidableEq κ] {f : α → κ} {R : α → α → Prop}
    (kept : ∀ x y, R x y → f x = f y) : ∀ {xs : List α} {sequence : κ → List α},
      (∀ k, List.Forall₂ R (xs.filter (f · = k)) (sequence k)) →
        ∃ ys, List.Forall₂ R xs ys ∧ ∀ k, ys.filter (f · = k) = sequence k
  | [], sequence, pairs => by
    refine ⟨[], .nil, fun k => ?_⟩
    exact (List.forall₂_nil_left_iff.mp (pairs k)).symm
  | x :: xs, sequence, pairs => by
    -- The first element is paired with the first of the sequence of its key.
    have first := pairs (f x)
    rw [List.filter_cons_of_pos (by simp)] at first
    cases hs : sequence (f x) with
    | nil =>
      rw [hs] at first
      cases first
    | cons y rest =>
      rw [hs] at first
      cases first with
      | cons head tail =>
        have others : ∀ k, List.Forall₂ R (xs.filter (f · = k))
            (Function.update sequence (f x) rest k) := by
          intro k
          by_cases here : k = f x
          · subst here
            rw [Function.update_self]
            exact tail
          · have pair := pairs k
            rw [List.filter_cons_of_neg (by simpa using Ne.symm here)] at pair
            rw [Function.update_of_ne here]
            exact pair
        obtain ⟨ys, paired, picked⟩ := exists_of_sequences kept others
        refine ⟨y :: ys, .cons head paired, fun k => ?_⟩
        have key := kept x y head
        by_cases here : k = f x
        · subst here
          rw [List.filter_cons_of_pos (by simpa using key.symm), picked, Function.update_self, hs]
        · have apart : f y ≠ k := fun same => here (same.symm.trans key.symm)
          rw [List.filter_cons_of_neg (by simpa using apart), picked, Function.update_of_ne here]

/-- Conditions have one canonical form exactly if one of them is the other one rearranged. -/
theorem rearranged_iff {t u : Condition} : Rearranged t u ↔ t.sorted = u.sorted := by
  refine ⟨sorted_of_rearranged, fun same => ?_⟩
  induction t using induct generalizing u with
  | onLeaf l =>
    cases u with
    | leaf l' =>
      cases same
      exact .leaf l
    | node op ds =>
      rw [sorted_node] at same
      cases same
  | onNode op cs ih =>
    cases u with
    | leaf l =>
      rw [sorted_node] at same
      cases same
    | node op' ds =>
      rw [sorted_node, sorted_node] at same
      obtain ⟨rfl, arranged⟩ := node.inj same
      -- The children with one key are the same in sequence, once they are sorted.
      have sequences : ∀ k,
          List.Forall₂ Rearranged (cs.filter (·.key = k)) (ds.filter (·.key = k)) := by
        intro k
        have level := (moved_iff_arrange.mpr arranged).sequence k
        rw [filter_key_map_sorted, filter_key_map_sorted] at level
        refine forall₂_imp_of_mem (Json.map_eq_map_iff.mp level.symm) fun c hc d _ same => ?_
        exact ih c (List.mem_of_mem_filter hc) same
      obtain ⟨es, children, sequence⟩ :=
        exists_of_sequences (fun c d (h : Rearranged c d) => h.key_eq) sequences
      have moved : Moved es ds := by
        apply moved_iff_arrange.mpr
        apply arrange_eq_of_ranks
        exact filter_eq_of_keys (fun _ _ => key_eq_iff) sequence
      exact .node children moved

theorem canonicalText_eq_iff {t u : Condition} :
    t.canonicalText = u.canonicalText ↔ t.sorted = u.sorted := by
  constructor
  · intro same
    apply arranged_toJson_injective
    exact Json.arranged_eq_of_canonical_eq (exact_toJson _) (exact_toJson _) same
  · intro same
    rw [canonicalText, canonicalText, same]

/-! ## Matchers -/

theorem everywhere_sorted {L : Leaf → Prop} {N : Connective → Nat → Prop} (t : Condition) :
    t.sorted.Everywhere L (fun op cs => N op cs.length) ↔
      t.Everywhere L fun op cs => N op cs.length := by
  induction t using induct with
  | onLeaf l => rw [sorted_leaf]
  | onNode op cs ih =>
    have length : (arrange (cs.map sorted)).length = cs.length := by
      rw [(arrange_perm _).length_eq, List.length_map]
    rw [sorted_node, everywhere_node, everywhere_node, length]
    simp only [mem_arrange, List.forall_mem_map]
    exact and_congr_right fun _ => forall₂_congr ih

theorem holds_sorted (m : Message) (t : Condition) : t.sorted.holds m = t.holds m := by
  induction t using induct with
  | onLeaf l => rw [sorted_leaf]
  | onNode op cs ih =>
    calc (node op cs).sorted.holds m
        = op.combine ((arrange (cs.map sorted)).map (holds m)) := by rw [sorted_node, holds_node]
      _ = op.combine ((cs.map sorted).map (holds m)) :=
          Connective.combine_perm ((arrange_perm _).map _) op
      _ = op.combine (cs.map (holds m)) := by
          rw [List.map_map]
          exact congrArg op.combine (List.map_congr_left ih)
      _ = (node op cs).holds m := (holds_node m op cs).symm

theorem matcher_sorted (t : Condition) :
    (∃ e e', t.matcher = .error e ∧ t.sorted.matcher = .error e') ∨
      ∃ k k', t.matcher = .ok k ∧ t.sorted.matcher = .ok k' ∧ ∀ m, k'.accepts m = k.accepts m := by
  by_cases readable : t.Interpretable
  · obtain ⟨k, hk, accepts⟩ := matcher_of_interpretable readable
    obtain ⟨k', hk', accepts'⟩ := matcher_of_interpretable ((everywhere_sorted t).mpr readable)
    exact .inr ⟨k, k', hk, hk', fun m => by rw [accepts, accepts', holds_sorted]⟩
  · obtain ⟨e, he⟩ := matcher_eq_error_iff.mpr readable
    obtain ⟨e', he'⟩ := matcher_eq_error_iff.mpr (mt (everywhere_sorted t).mp readable)
    exact .inl ⟨e, e', he, he'⟩

/-- **The canonical order forgets exactly the order of siblings with different keys.** Sorting has
one result, which sorting again leaves as it is. Conditions have one canonical form, and one
canonical text, exactly if one of them is the other one rearranged; and the canonical form has a
matcher exactly if the condition has one, which accepts the same messages. -/
theorem sorted_forgets_order (t : Condition) :
    (∀ u, SortedFrom t u ↔ u = t.sorted) ∧ t.sorted.sorted = t.sorted ∧
    (∀ u, (Rearranged t u ↔ t.sorted = u.sorted) ∧
      (Rearranged t u ↔ t.canonicalText = u.canonicalText)) ∧
    ((∃ e e', t.matcher = .error e ∧ t.sorted.matcher = .error e') ∨
      ∃ k k', t.matcher = .ok k ∧ t.sorted.matcher = .ok k' ∧
        ∀ m, k'.accepts m = k.accepts m) := by
  refine ⟨fun u => sortedFrom_iff, sorted_sorted t, fun u => ⟨rearranged_iff, ?_⟩, matcher_sorted t⟩
  rw [rearranged_iff, canonicalText_eq_iff]

end Condition

end MailRules
