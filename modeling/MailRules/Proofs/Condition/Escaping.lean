import MailRules.Native.Search
import MailRules.Proofs.Condition.Shape
import MailRules.Proofs.Outcome
import Mathlib.Data.List.Perm.Basic

/-!
How operands are escaped, and what simplification does to that.

An operand is quoted in a search unless its leaf is raw or asks for a query. Simplification joins
leaves over one field, and a leaf that is joined from others is raw as soon as one of them is: its
operands are then all taken for searches, also those that were quoted on their own. This is the only
way in which an operand comes to be escaped in another way. The leaves of the simplified condition are
the leaves of the condition in groups, whatever the number of rounds, and a group without a raw leaf
is written as its leaves would be.

What is proved:
  1. `Joins.trans`: leaves joined from joined leaves are joined from all leaves of the groups.
  2. `leafLaw_grouped`: grouping is kept by all that simplification does.
  3. `escaped_grouped`: what becomes of the operands that are quoted.
  4. `simplify_escaping`: all of this together. `simplify_unescapes`: an operand does lose its quotes.
-/

namespace MailRules

open Native

namespace Leaf

/-- The operands of a leaf as they are written in a search. -/
def written (l : Leaf) : List String :=
  if l.field ≠ .query ∧ !l.raw then l.operands.map quote else l.operands

theorem operandText_eq (l : Leaf) : operandText l =
    if 1 < l.operands.length then group l.grouping (String.intercalate " " l.written)
    else .ok (String.intercalate " " l.written) := rfl

/-- A leaf is joined from a group of leaves over its field: it has their operands, in order, and is
raw if one of them is. None of them had several operands under another connective. -/
structure Joins (g : List Leaf) (l : Leaf) : Prop where
  some : g ≠ []
  field : ∀ k ∈ g, k.field = l.field
  operands : l.operands = g.flatMap (·.operands)
  grouping : ∀ k ∈ g, 1 < k.operands.length → k.grouping = l.grouping
  raw : l.raw = g.any (·.raw)

theorem joins_self (l : Leaf) : Joins [l] l where
  some := List.cons_ne_nil l []
  field := by simp
  operands := by simp
  grouping := by simp
  raw := by simp

theorem Joins.trans {gs : List (List Leaf)} {ls : List Leaf} {m : Leaf}
    (each : List.Forall₂ Joins gs ls) (h : Joins ls m) : Joins gs.flatten m where
  some := by
    obtain ⟨l, hl⟩ := List.exists_mem_of_ne_nil ls h.some
    obtain ⟨g, hg, joins⟩ := exists_left_of_mem each hl
    obtain ⟨k, hk⟩ := List.exists_mem_of_ne_nil g joins.some
    exact List.ne_nil_of_mem (List.mem_flatten_of_mem hg hk)
  field := by
    intro k hk
    obtain ⟨g, hg, hk⟩ := List.mem_flatten.mp hk
    obtain ⟨l, hl, joins⟩ := exists_right_of_mem each hg
    exact (joins.field k hk).trans (h.field l hl)
  operands := by
    rw [h.operands]
    clear h
    induction each with
    | nil => rfl
    | cons joins _ ih =>
      rw [List.flatMap_cons, List.flatten_cons, List.flatMap_append, joins.operands, ih]
  grouping := by
    intro k hk several
    obtain ⟨g, hg, hk⟩ := List.mem_flatten.mp hk
    obtain ⟨l, hl, joins⟩ := exists_right_of_mem each hg
    have more : k.operands.length ≤ l.operands.length := by
      rw [joins.operands]
      exact (List.sublist_flatten_of_mem (List.mem_map_of_mem hk)).length_le
    exact (joins.grouping k hk several).trans (h.grouping l hl (by omega))
  raw := by
    rw [h.raw]
    clear h
    induction each with
    | nil => rfl
    | cons joins _ ih => rw [List.any_cons, List.flatten_cons, List.any_append, joins.raw, ih]

theorem Joins.raw_eq_false {g : List Leaf} {l : Leaf} (h : Joins g l)
    (plain : ¬ g.any (·.raw) = true) : l.raw = false ∧ ∀ k ∈ g, k.raw = false := by
  rw [h.raw]
  exact ⟨by simpa using plain, by simpa using plain⟩

/-- Leaves are written as they would be on their own, unless one that they are joined with is raw. -/
theorem Joins.written {g : List Leaf} {l : Leaf} (h : Joins g l) : l.written =
    if g.any (·.raw) then g.flatMap (·.operands) else g.flatMap (·.written) := by
  rw [← h.operands]
  split
  · next raw => rw [Leaf.written, h.raw, raw]; simp
  · next plain =>
    obtain ⟨mine, others⟩ := h.raw_eq_false plain
    by_cases query : l.field = .query
    · have same : g.flatMap (·.written) = g.flatMap (·.operands) := by
        refine List.flatMap_congr fun k hk => ?_
        rw [Leaf.written, h.field k hk, query]
        simp
      rw [same, ← h.operands, Leaf.written, query]
      simp
    · have same : g.flatMap (·.written) = g.flatMap fun k => k.operands.map quote := by
        refine List.flatMap_congr fun k hk => ?_
        rw [Leaf.written, h.field k hk, others k hk]
        simp [query]
      rw [same, Leaf.written, mine, h.operands, List.map_flatMap]
      simp [query]

/-! ## Operands that are quoted -/

/-- The operands in leaves over a field that are not raw. -/
def escaped (f : Field) (ls : List Leaf) : List String :=
  (ls.filter fun l => l.field = f && !l.raw).flatMap (·.operands)

/-- The leaves in groups with a raw leaf. -/
def withRaw (gs : List (List Leaf)) : List Leaf := (gs.filter (·.any (·.raw))).flatten

theorem escaped_append (f : Field) (ks ls : List Leaf) :
    escaped f (ks ++ ls) = escaped f ks ++ escaped f ls := by
  rw [escaped, List.filter_append, List.flatMap_append]
  rfl

theorem escaped_perm (f : Field) {ks ls : List Leaf} (h : ks.Perm ls) :
    (escaped f ks).Perm (escaped f ls) :=
  (h.filter _).flatMap_right _

theorem Joins.escaped_of_raw {g : List Leaf} {l : Leaf} (h : Joins g l)
    (raw : g.any (·.raw) = true) (f : Field) : escaped f [l] = [] := by
  have mine : l.raw = true := h.raw.trans raw
  simp [escaped, mine]

theorem Joins.escaped_of_plain {g : List Leaf} {l : Leaf} (h : Joins g l)
    (plain : ¬ g.any (·.raw) = true) (f : Field) : escaped f [l] = escaped f g := by
  obtain ⟨mine, others⟩ := h.raw_eq_false plain
  by_cases here : l.field = f
  · have all : g.filter (fun k => k.field = f && !k.raw) = g := by
      apply List.filter_eq_self.mpr
      intro k hk
      simp [h.field k hk, here, others k hk]
    rw [escaped, escaped, all, ← h.operands]
    simp [here, mine]
  · have none : g.filter (fun k => k.field = f && !k.raw) = [] := by
      apply List.filter_eq_nil_iff.mpr
      intro k hk
      simp [h.field k hk, here]
    rw [escaped, escaped, none]
    simp [here]

/-- The operands that are quoted are still so, but for those joined with a raw leaf. -/
theorem escaped_grouped (f : Field) {gs : List (List Leaf)} {ls : List Leaf}
    (h : List.Forall₂ Joins gs ls) :
    (escaped f gs.flatten).Perm (escaped f ls ++ escaped f (withRaw gs)) := by
  induction h with
  | nil => exact .nil
  | @cons g l gs ls joins _ ih =>
    rw [List.flatten_cons, escaped_append, ← List.singleton_append, escaped_append]
    by_cases raw : g.any (·.raw) = true
    · have more : withRaw (g :: gs) = g ++ withRaw gs := by
        rw [withRaw, List.filter_cons_of_pos (by exact raw), List.flatten_cons]
        rfl
      rw [joins.escaped_of_raw raw, more, escaped_append, List.nil_append]
      exact (ih.append_left _).trans (List.perm_append_comm_assoc ..)
    · have same : withRaw (g :: gs) = withRaw gs := by
        rw [withRaw, List.filter_cons_of_neg (by exact raw)]
        rfl
      rw [joins.escaped_of_plain raw, same, List.append_assoc]
      exact ih.append_left _

/-- Where no leaf over a field is raw, none over it is joined with a raw leaf. -/
theorem escaped_withRaw {f : Field} {gs : List (List Leaf)} {ls : List Leaf}
    (h : List.Forall₂ Joins gs ls) (plain : ∀ k ∈ gs.flatten, k.field = f → k.raw = false) :
    escaped f (withRaw gs) = [] := by
  have none : (withRaw gs).filter (fun k => k.field = f && !k.raw) = [] := by
    apply List.filter_eq_nil_iff.mpr
    intro k hk
    obtain ⟨g, hg, hk⟩ := List.mem_flatten.mp hk
    obtain ⟨hg, raw⟩ := List.mem_filter.mp hg
    obtain ⟨k', hk', raw⟩ := List.any_eq_true.mp raw
    obtain ⟨l, _, joins⟩ := exists_right_of_mem h hg
    have field : k.field = k'.field := (joins.field k hk).trans (joins.field k' hk').symm
    have other : k'.field ≠ f := by
      intro here
      rw [plain k' (List.mem_flatten_of_mem hg hk') here] at raw
      cases raw
    simp [field, other]
  rw [escaped, none, List.flatMap_nil]

end Leaf

namespace Condition

open Leaf

/-- The one list of leaves is the other in groups, each of which is joined into one leaf. -/
def Grouped (ks ls : List Leaf) : Prop :=
  ∃ gs : List (List Leaf), gs.flatten.Perm ks ∧ List.Forall₂ Joins gs ls

theorem grouped_of_perm {ks ls : List Leaf} (h : ks.Perm ls) : Grouped ks ls := by
  refine ⟨ls.map fun l => [l], ?_, ?_⟩
  · rw [← List.flatMap_def, List.flatMap_singleton']
    exact h.symm
  · rw [List.forall₂_map_left_iff, List.forall₂_same]
    exact fun l _ => joins_self l

theorem Grouped.trans {ks ls ms : List Leaf} (first : Grouped ks ls) (second : Grouped ls ms) :
    Grouped ks ms := by
  obtain ⟨gs, from_, joins⟩ := first
  obtain ⟨hs, from', joins'⟩ := second
  -- The groups in the order in which the leaves joined from them are joined further.
  have reordered : (Relation.Comp (List.Forall₂ Joins) List.Perm) gs hs.flatten :=
    ⟨ls, joins, from'.symm⟩
  rw [List.forall₂_comp_perm_eq_perm_comp_forall₂] at reordered
  obtain ⟨gs', perm, joins⟩ := reordered
  obtain ⟨gss, rfl, pieces⟩ := exists_pieces joins
  refine ⟨gss.map List.flatten, ?_, ?_⟩
  · rw [← List.flatten_flatten]
    exact perm.symm.flatten.trans from_
  · rw [List.forall₂_map_left_iff]
    have further (h : List Leaf) (g : List (List Leaf)) (m : Leaf) (each : List.Forall₂ Joins g h)
        (joins : Joins h m) : Joins g.flatten m := Joins.trans each joins
    exact forall₂_of_common further pieces.flip joins'

theorem Grouped.append {ks ks' ls ls' : List Leaf} (first : Grouped ks ks')
    (second : Grouped ls ls') : Grouped (ks ++ ls) (ks' ++ ls') := by
  obtain ⟨gs, from_, joins⟩ := first
  obtain ⟨hs, from', joins'⟩ := second
  refine ⟨gs ++ hs, ?_, List.rel_append joins joins'⟩
  rw [List.flatten_append]
  exact from_.append from'

/-- Leaves joined field by field are joined in groups. -/
theorem grouped_joined {op : Connective} {ls : List Leaf} (hop : op = .and ∨ op = .or)
    (alike : ∀ l ∈ ls, 1 < l.operands.length → l.grouping = op) :
    Grouped ls ((fieldsOf ls).map (joined op ls)) := by
  refine ⟨(fieldsOf ls).map fun f => ls.filter (·.field = f), ?_, ?_⟩
  · rw [← List.flatMap_def]
    exact gather_perm ls
  · rw [List.forall₂_map_left_iff, List.forall₂_map_right_iff, List.forall₂_same]
    intro f hf
    have mine {k : Leaf} (hk : k ∈ ls.filter (·.field = f)) : k ∈ ls ∧ k.field = f := by
      simpa using hk
    constructor
    case some =>
      obtain ⟨l, hl, here⟩ := mem_fieldsOf.mp hf
      exact List.ne_nil_of_mem (List.mem_filter.mpr ⟨hl, by simpa using here⟩)
    case field =>
      intro k hk
      rw [joined, over_field]
      exact (mine hk).2
    case operands => rw [joined, over_operands]
    case grouping =>
      intro k hk several
      have more : k.operands.length ≤ (joined op ls f).operands.length := by
        rw [joined, over_operands]
        exact (List.sublist_flatten_of_mem (List.mem_map_of_mem hk)).length_le
      rw [joined_grouping (Connective.ne_of_groups hop).1, if_neg (by omega)]
      exact alike k (mine hk).1 several
    case raw => rw [joined, over_raw]

theorem leafLaw_grouped : LeafLaw Grouped where
  perm := grouped_of_perm
  trans := Grouped.trans
  append := Grouped.append
  join := grouped_joined

/-- **How simplification changes the escaping of operands.** The leaves of the simplified condition
are those of the condition in groups, each joined into one leaf, which is raw exactly if one of the
group is. A group without a raw leaf is written as its leaves are. So over each field the operands
that are quoted are as many as before, but for those joined with a raw leaf; and there are none of
these if no leaf over the field is raw. -/
theorem simplify_escaping (t : Condition) (n : Int) :
    ∃ gs : List (List Leaf), gs.flatten.Perm t.leaves ∧
      List.Forall₂ (fun g l => Joins g l ∧ l.written =
        if g.any (·.raw) then g.flatMap (·.operands) else g.flatMap (·.written))
        gs (t.simplify n).leaves ∧
      ∀ f, (∀ a, (escaped f t.leaves).count a =
          (escaped f (t.simplify n).leaves).count a + (escaped f (withRaw gs)).count a) ∧
        ((∀ l ∈ t.leaves, l.field = f → l.raw = false) → escaped f (withRaw gs) = []) := by
  obtain ⟨gs, from_, joins⟩ := leafLaw_grouped.simplifying.simplify t n
  refine ⟨gs, from_, joins.imp fun g l h => ⟨h, h.written⟩, fun f => ⟨fun a => ?_, fun plain => ?_⟩⟩
  · have parts := ((escaped_perm f from_).symm.trans (escaped_grouped f joins)).count_eq a
    rwa [List.count_append] at parts
  · exact escaped_withRaw joins fun k hk => plain k (from_.subset hk)

/-- An operand that is quoted loses its quotes beside one that is in the search language already. -/
theorem simplify_unescapes :
    let t := disj [leaf ⟨.subject, ["a b"], .unset, true⟩, leaf ⟨.subject, ["c d"], .unset, false⟩]
    t.WellFormed ∧ (escaped .subject t.leaves).count "c d" = 1 ∧
      (escaped .subject (t.simplify 1).leaves).count "c d" = 0 ∧
      t.leaves.flatMap (·.written) = ["a b", "\"c d\""] ∧
      (t.simplify 1).leaves.flatMap (·.written) = ["a b", "c d"] := by
  decide

end Condition

end MailRules
