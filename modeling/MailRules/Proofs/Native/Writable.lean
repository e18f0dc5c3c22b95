import MailRules.Proofs.Condition.EveryLeaf
import MailRules.Proofs.Condition.Pieces
import MailRules.Proofs.Config.Expression
import MailRules.Proofs.Native.Refused

/-!
No condition of a rule is refused by the search language.

A condition is writable if it has the shape of a rule and each leaf has a field and operands that are
not empty. None of its parts is then one for which conditions are refused, and it asks for something.
What the resolved expressions stand for is writable, and neither simplifying nor splitting makes a
condition that is not.

What is proved:
  1. `criteria_eq_ok`: a writable condition has criteria.
  2. `writable_of_resolve`: what an expression stands for is writable, if the named filters are.
  3. `writable_simplify`, `writable_of_piece`: so it is simplified, and so are its pieces.
-/

namespace MailRules

/-- A leaf that can be written: it has the shape of one in a rule, a field, and operands that say
something. -/
structure Leaf.Writable (l : Leaf) : Prop where
  shaped : l.WellFormed
  named : l.field ≠ .unset
  told : ∀ s ∈ l.operands, s ≠ ""

/-- A condition that can be written. -/
def Condition.Writable : Condition → Prop :=
  Condition.Everywhere Leaf.Writable fun op cs => op.Takes cs.length

namespace Native

open Condition

theorem not_silent {t : Condition} (h : t.Writable) :
    ¬ t.Everywhere Leaf.Silent fun op cs => op = .and ∧ cs ≠ [] := by
  induction h with
  | @leaf l writable =>
    intro silent
    obtain ⟨none | empty, _⟩ := everywhere_leaf.mp silent
    · exact writable.shaped.operands none
    · exact writable.told "" (empty ▸ List.mem_cons_self) rfl
  | @node op cs _ _ ih =>
    intro silent
    obtain ⟨⟨_, filled⟩, children⟩ := everywhere_node.mp silent
    obtain ⟨c, hc⟩ := List.exists_mem_of_ne_nil cs filled
    exact ih c hc (children c hc)

theorem criteria_eq_ok {t : Condition} (h : t.Writable) : ∃ k, criteria t = .ok k := by
  have grouped : ¬ t.Anywhere Ungrouped := by
    apply h.not_somewhere
    · intro l writable ungrouped
      have groups := writable.shaped.several ungrouped.1
      exact (Connective.ne_of_groups groups).1 ungrouped.2
    · intro op cs takes ungrouped
      rcases ungrouped with rfl | rfl
      · exact takes
      · cases op <;> simp [Connective.Takes] at takes
  have formed : ¬ t.Conjoined Malformed :=
    h.not_somewhere (fun l writable => writable.named) fun op cs => not_not.mpr
  have accepted : ¬ ∃ e, parts t = .error e := by
    rw [parts_refuses]
    exact not_or.mpr ⟨grouped, formed⟩
  have told : parts t ≠ .ok {} := mt (parts_empty t).mp (not_silent h)
  cases asked : parts t with
  | error e => exact absurd ⟨e, asked⟩ accepted
  | ok k =>
    have some : k ≠ {} := fun none => told (none ▸ asked)
    exact ⟨k, by rw [criteria, asked]; exact if_neg (by simpa [Criteria.isEmpty] using some)⟩

end Native

/-! ## Stages -/

namespace Condition

theorem writable_iff {t : Condition} : t.Writable ↔
    t.WellFormed ∧ t.EveryLeaf fun l => l.field ≠ .unset ∧ ∀ s ∈ l.operands, s ≠ "" := by
  constructor
  · intro h
    obtain ⟨leaves, _⟩ := everywhere_iff_leaves.mp h
    exact ⟨h.imp (fun _ h => h.shaped) fun _ _ => id,
      fun l hl => ⟨(leaves l hl).named, (leaves l hl).told⟩⟩
  · intro ⟨wf, told⟩
    obtain ⟨shaped, nodes⟩ := everywhere_iff_leaves.mp wf
    exact everywhere_iff_leaves.mpr
      ⟨fun l hl => ⟨shaped l hl, (told l hl).1, (told l hl).2⟩, nodes⟩

theorem writable_simplify {t : Condition} (h : t.Writable) (n : Int) : (t.simplify n).Writable := by
  obtain ⟨wf, told⟩ := writable_iff.mp h
  refine writable_iff.mpr ⟨wellFormed_simplify wf n, everyLeaf_simplify ?_ told n⟩
  intro op ls f _ each hf
  obtain ⟨l, hl, rfl⟩ := mem_fieldsOf.mp hf
  rw [joined, Leaf.over_field, Leaf.over_operands]
  refine ⟨(each l hl).1, fun s hs => ?_⟩
  obtain ⟨l', hl', hs⟩ := List.mem_flatMap.mp hs
  exact (each l' (List.mem_of_mem_filter hl')).2 s hs

theorem Chunk.writable {step : Int} {t p : Condition} (h : Chunk step t p)
    (root : t.rootConnective = .or) (writable : t.Writable) : p.Writable := by
  cases h with
  | @leaf l run some among _ =>
    obtain ⟨_, named, told⟩ := everywhere_leaf.mp writable
    have groups : l.grouping = .or := root
    refine .leaf ⟨⟨by simpa using some, ?_, ?_⟩, by simpa using named, ?_⟩
    · rw [Leaf.over_operands, Leaf.over_grouping (by simp [groups])]
      exact fun one => if_pos (by omega)
    · rw [Leaf.over_operands, Leaf.over_grouping (by simp [groups])]
      exact fun several => .inr (by rw [if_neg (by omega), groups])
    · rw [Leaf.over_operands]
      exact fun s hs => told s (among.subset hs)
  | @node op cs run some among _ =>
    obtain rfl : op = .or := root
    have children := (everywhere_node.mp writable).2
    exact .node (List.length_pos_iff.mpr some) fun c hc => children c (among.subset hc)

theorem writable_of_piece {limit : Int} {t p : Condition} (h : Piece limit t p)
    (writable : t.Writable) : p.Writable := by
  cases h with
  | small _ => exact writable
  | whole _ _ => exact writable
  | chunk root chunk => exact chunk.writable root writable
  | @beside before after d p between chunk =>
    have children : ∀ c ∈ d :: (before ++ after), c.Writable :=
      fun c hc => (everywhere_node.mp writable).2 c (List.perm_middle.mem_iff.mpr hc)
    obtain ⟨disjunction, others⟩ := List.forall_mem_cons.mp children
    refine .node (Nat.succ_pos _) (List.forall_mem_cons.mpr ⟨?_, others⟩)
    exact chunk.writable between.root disjunction

theorem writable_alternatives {t : Condition} (h : t.Writable) :
    ∀ c ∈ t.alternatives, c.Writable := by
  unfold alternatives
  split
  · exact (everywhere_node.mp h).2
  · exact List.forall_mem_singleton.mpr h

end Condition

/-! ## Expressions -/

namespace FilterExpr

open Condition

theorem takes_children {path : String} {e : FilterExpr} {key : Key} (h : e.check path = .ok key)
    {op : Connective} (joins : key.connective? = some op) : op.Takes e.children.length := by
  rw [← map_snd_parts path]
  cases key with
  | conj =>
    obtain ⟨es, _, filled, parts⟩ := parts_of_conj h
    cases joins
    rw [parts, map_snd_located]
    exact List.length_pos_iff.mpr filled
  | disj =>
    obtain ⟨es, _, filled, parts⟩ := parts_of_disj h
    cases joins
    rw [parts, map_snd_located]
    exact List.length_pos_iff.mpr filled
  | neg =>
    obtain ⟨x, _, parts⟩ := parts_of_neg h
    cases joins
    rw [parts]
    rfl
  | field f => cases joins
  | name => cases joins

theorem writable_of_text {e : FilterExpr} {f : Field} {s : String} (set : e.text f = some s)
    (filled : s ≠ "") (raw : Bool) : (leaf ⟨f, [s], .unset, raw⟩).Writable := by
  refine .leaf ⟨⟨by simp, fun _ => rfl, by simp⟩, ?_, List.forall_mem_singleton.mpr filled⟩
  rintro rfl
  cases set

theorem writable_of_resolve {named : Named} {path : String} (hn : ∀ x ∈ named, x.2.Writable)
    {e : FilterExpr} {t : Condition} (h : e.resolve named path = .ok t) : t.Writable := by
  refine resolve_induct (P := fun _ t => t.Writable) ?_ ?_ ?_ e h
  · intro e path key op ts said joins children
    refine .node (children.length_eq ▸ takes_children said joins) fun t ht => ?_
    obtain ⟨x, _, writable⟩ := exists_left_of_mem children ht
    exact writable
  · intro e f s set filled
    exact writable_of_text set filled e.escaped
  · intro e n t _ _ found
    exact hn _ (Named.mem_of_find? found)

end FilterExpr

theorem Config.writable_of_resolve {passes : Int} {c : Config} {rs : List ResolvedRule}
    (h : c.resolve passes = .ok rs) : ∀ r ∈ rs, r.condition.Writable := by
  intro r hr
  obtain ⟨t, writable, same⟩ := Config.condition_of_resolve (P := Condition.Writable)
    (fun f _ _ _ _ hn => FilterExpr.writable_of_resolve hn)
    (fun r _ _ _ _ hn => FilterExpr.writable_of_resolve hn) h r hr
  rw [same]
  exact Condition.writable_simplify writable passes

end MailRules
