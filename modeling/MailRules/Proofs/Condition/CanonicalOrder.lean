import MailRules.Proofs.Condition.NormalForm
import MailRules.Proofs.Sorting

/-!
The canonical order is the stable order by rank.

Children are arranged rank after rank, so none comes after one of a higher rank (`inOrder_arrange`),
and those of one rank keep their sequence (`filter_arrange`). The two together leave one arrangement
only (`eq_of_filter_eq`).

What is proved:
  1. `kind_eq_of_rank_eq`: the rank tells all that a root says but for operands and children.
  2. `arrange_eq_self_iff`: children are arranged already exactly if they are in order.
  3. `sorted_eq_self_iff`: a condition is sorted already exactly if it is in order all over, and so
     sorting a sorted condition changes nothing (`sorted_sorted`).
-/

namespace MailRules.Condition

/-! ## Ranks -/

/-- What the root of a condition says but for its operands or children. -/
def kind : Condition → Connective × Option Field
  | leaf l => (l.grouping, some l.field)
  | node op _ => (op, none)

theorem kind_eq_of_rank_eq {c d : Condition} (h : c.rank = d.rank) : c.kind = d.kind := by
  have fields : Field.all.length = 10 := rfl
  have connectives : Connective.all.length = 4 := rfl
  have connective {op op' : Connective} (h : op.rank = op'.rank) : op = op' := by
    revert h
    cases op <;> cases op' <;> decide
  have field {f f' : Field} (h : f.rank = f'.rank) : f = f' := by
    revert h
    cases f <;> cases f' <;> decide
  cases c with
  | leaf l =>
    have hf := l.field.rank_lt
    have hg := l.grouping.rank_lt
    cases d with
    | leaf k =>
      have hf' := k.field.rank_lt
      simp only [rank, fields] at h hf hf'
      have groupings : l.grouping = k.grouping := connective (by omega)
      have named : l.field = k.field := field (by omega)
      rw [kind, kind, groupings, named]
    | node op ds =>
      simp only [rank, fields, connectives] at h hf hg
      omega
  | node op cs =>
    cases d with
    | leaf k =>
      have hf := k.field.rank_lt
      have hg := k.grouping.rank_lt
      simp only [rank, fields, connectives] at h hf hg
      omega
    | node op' ds =>
      simp only [rank, Nat.add_left_cancel_iff] at h
      rw [kind, kind, connective h]

/-! ## Children in order -/

/-- No child comes after one of a higher rank. -/
def InOrder (cs : List Condition) : Prop := cs.Pairwise fun c d => c.rank ≤ d.rank

instance (cs : List Condition) : Decidable (InOrder cs) := List.instDecidablePairwise cs

theorem inOrder_arrange (cs : List Condition) : InOrder (arrange cs) := by
  have picked {r : Nat} {c : Condition} (h : c ∈ cs.filter (·.rank = r)) : c.rank = r :=
    of_decide_eq_true (List.mem_filter.mp h).2
  rw [InOrder, arrange, List.pairwise_flatMap]
  constructor
  · intro r _
    refine List.pairwise_of_forall_mem_list fun c hc d hd => ?_
    exact Nat.le_of_eq ((picked hc).trans (picked hd).symm)
  · refine List.pairwise_lt_range.imp fun lower c hc d hd => ?_
    rw [picked hc, picked hd]
    exact Nat.le_of_lt lower

theorem arrange_eq_self_iff {cs : List Condition} : arrange cs = cs ↔ InOrder cs := by
  constructor
  · intro same
    rw [← same]
    exact inOrder_arrange cs
  · intro inOrder
    exact eq_of_filter_eq (inOrder_arrange cs) inOrder fun r => filter_arrange r cs

theorem rank_sorted (t : Condition) : t.sorted.rank = t.rank := by
  cases t with
  | leaf l => rfl
  | node op cs => rw [sorted_node]; rfl

/-- The children of a rank may be picked before or after they are sorted themselves. -/
theorem filter_map_sorted (r : Nat) (cs : List Condition) :
    (cs.map sorted).filter (·.rank = r) = (cs.filter (·.rank = r)).map sorted := by
  rw [List.filter_map]
  simp only [Function.comp_def, rank_sorted]

theorem sorted_eq_self_iff {t : Condition} : t.sorted = t ↔ t.Ordered := by
  constructor
  · intro same
    rw [← same]
    exact ordered_sorted t
  · intro ordered
    induction ordered with
    | leaf _ => rfl
    | @node op cs arranged _ ih =>
      rw [sorted_node, List.map_congr_left ih, List.map_id', arranged]

theorem sorted_sorted (t : Condition) : t.sorted.sorted = t.sorted :=
  sorted_eq_self_iff.mpr (ordered_sorted t)

end MailRules.Condition
