import MailRules.Proofs.Native.Rendering
import MailRules.Proofs.Native.SameContents
import MailRules.Proofs.Text.UnifiedDiff
import Mathlib.Data.List.Sort

/-!
Which changes are shown as nothing.

Changes are told by content and shown as a diff of the filters' texts, those at the same place being
as similar as can be. The diff is empty exactly if the two texts are the same. With searches and
addresses the texts tell every content, so no change is lost. Without them they tell it up to the
blanks that the layout of a search passes over: filters that differ in these alone are replaced
without a word, if they come to stand at the same places.

What is proved:
  1. `diff_eq_ok`: the changes that are shown are those by content, in some order.
  2. `text_eq_empty_iff_renderAll`: the diff is empty exactly if the texts are the same.
  3. `isEmpty_of_sameContents`: what is removed and what is added have no content in common.
  4. `diff_text_eq_empty_iff`: when the changes between two lists are shown as nothing.
-/

namespace MailRules.Native

theorem diff_eq_ok (observed desired : List Filter) :
    ∃ d, diff observed desired = .ok d ∧ d.added.Perm (changed observed desired).added ∧
      d.removed.Perm (changed observed desired).removed := by
  by_cases none : ((changed observed desired).added.isEmpty ||
      (changed observed desired).removed.isEmpty) = true
  · exact ⟨_, if_pos none, .refl _, .refl _⟩
  · have some : (changed observed desired).added ≠ [] := fun h => none (by simp [h])
    obtain ⟨added, removed, made, order⟩ :=
      reorderBy_eq_ok dissimilarity (changed observed desired).removed some
    refine ⟨⟨added, removed⟩, ?_, order.rows, order.columns⟩
    rw [diff, diffBy, if_neg none, made]
    rfl

theorem text_eq_empty_iff_renderAll {context : Int} (hc : 0 ≤ context) (debug : Bool)
    (c : Changes) : c.text debug context = "" ↔
      Filter.renderAll debug c.removed = Filter.renderAll debug c.added := by
  rw [Changes.text, Text.stateDiff, Text.unifiedDiff_eq_empty_iff hc]
  exact ⟨Text.lines_injective, congrArg Text.lines⟩

theorem contentHash_congr {f g : Filter} (h : f.criteria = g.criteria ∧ f.action = g.action) :
    f.contentHash = g.contentHash := by
  rw [Filter.contentHash, Filter.content, h.1, h.2, Filter.contentHash, Filter.content]

/-- What is removed and what is added have no content in common, so they are not the same unless
there is nothing. -/
theorem isEmpty_of_sameContents {observed desired : List Filter} {d : Changes}
    (added : d.added.Perm (changed observed desired).added)
    (removed : d.removed.Perm (changed observed desired).removed)
    (same : List.Forall₂ (fun f g => f.criteria = g.criteria ∧ f.action = g.action)
      d.removed d.added) : d.isEmpty = true := by
  obtain ⟨addedTo, removedFrom⟩ := d
  cases same with
  | nil => rfl
  | @cons f g _ _ here _ =>
    have lacks := ((missing_removed observed desired).exact f.contentHash).mp
      (List.mem_map_of_mem (removed.subset List.mem_cons_self))
    have desires := ((missing_added observed desired).exact g.contentHash).mp
      (List.mem_map_of_mem (added.subset List.mem_cons_self))
    exact absurd (contentHash_congr here ▸ desires.1) lacks.2

theorem Changes.nil_of_isEmpty {d : Changes} (h : d.isEmpty = true) :
    d.removed = [] ∧ d.added = [] := by
  simpa [Changes.isEmpty, and_comm] using h

theorem forall₂_of_isEmpty {d : Changes} (h : d.isEmpty = true) (R : Filter → Filter → Prop) :
    List.Forall₂ R d.removed d.added := by
  rw [(Changes.nil_of_isEmpty h).1, (Changes.nil_of_isEmpty h).2]
  exact .nil

/-! ## Two filters that differ in a blank -/

theorem contentHash_archiving : (archiving "a b").contentHash ≠ (archiving " a b").contentHash :=
  List.pairwise_cons.mp nodup_contentHash_archiving |>.1 _ List.mem_cons_self

theorem diff_singletons {f g : Filter} (apart : f.contentHash ≠ g.contentHash) :
    diff [f] [g] = .ok ⟨[g], [f]⟩ := by
  have changes : changed [f] [g] = ⟨[g], [f]⟩ := by
    rw [changed_eq]
    simp [lacking, inHashOrder, distinct, distinctFrom, apart, apart.symm]
  obtain ⟨⟨added, removed⟩, made, addedPerm, removedPerm⟩ := diff_eq_ok [f] [g]
  rw [changes] at addedPerm removedPerm
  obtain rfl : added = [g] := List.perm_singleton.mp addedPerm
  obtain rfl : removed = [f] := List.perm_singleton.mp removedPerm
  exact made

/-! ## Changes shown as nothing -/

/-- **Which changes are shown as nothing.** If there are none the diff of two lists is the empty
text. Where no text in the filters that change has a line feed, it is so otherwise only without
searches, and if each filter that is removed has the same place as one that is added and is like it
up to the blanks that the layout of a search over several lines passes over. -/
theorem diff_text_eq_empty_iff (observed desired : List Filter) {context : Int}
    (hc : 0 ≤ context) (debug : Bool) :
    ∃ d, diff observed desired = .ok d ∧ (d.isEmpty = true → d.text debug context = "") ∧
      ((∀ f ∈ d.removed ++ d.added, f.OneLined) → (d.text debug context = "" ↔
        d.isEmpty = true ∨ debug = false ∧ List.Forall₂ Filter.Alike d.removed d.added)) := by
  obtain ⟨d, made, added, removed⟩ := diff_eq_ok observed desired
  refine ⟨d, made, fun empty => ?_, fun lined => ?_⟩
  · rw [text_eq_empty_iff_renderAll hc, (Changes.nil_of_isEmpty empty).1,
      (Changes.nil_of_isEmpty empty).2]
  obtain ⟨linedRemoved, linedAdded⟩ := List.forall_mem_append.mp lined
  rw [text_eq_empty_iff_renderAll hc]
  cases debug with
  | false =>
    rw [Filter.renderAll_false_eq_iff linedRemoved linedAdded, and_iff_right rfl]
    exact (or_iff_right_of_imp fun empty => forall₂_of_isEmpty empty _).symm
  | true =>
    rw [Filter.renderAll_true_eq_iff linedRemoved linedAdded]
    constructor
    · exact fun same => .inl (isEmpty_of_sameContents added removed same)
    · rintro (empty | ⟨off, -⟩)
      · exact forall₂_of_isEmpty empty _
      · cases off

/-- The condition on line feeds can be met, and then the change is told. -/
theorem diff_text_eq_empty_iff_blank : (0 : Int) ≤ 3 ∧
    ∃ d, diff [archiving "a b"] [archiving " a b"] = .ok d ∧
      (∀ f ∈ d.removed ++ d.added, f.OneLined) ∧ (d.text false 3 = "" ↔
        d.isEmpty = true ∨ false = false ∧ List.Forall₂ Filter.Alike d.removed d.added) := by
  refine ⟨by decide, ?_⟩
  obtain ⟨d, made, -, shown⟩ :=
    @diff_text_eq_empty_iff [archiving "a b"] [archiving " a b"] 3 (by decide) false
  obtain rfl := Except.ok.inj ((diff_singletons contentHash_archiving).symm.trans made)
  have lined : ∀ f ∈ [archiving "a b"] ++ [archiving " a b"], f.OneLined := by
    simp only [List.cons_append, List.nil_append, List.forall_mem_cons]
    exact ⟨⟨by decide, by decide, by decide, by decide, by decide, by decide⟩,
      ⟨by decide, by decide, by decide, by decide, by decide, by decide⟩, List.forall_mem_nil _⟩
  exact ⟨_, made, lined, shown lined⟩

theorem diff_blank_shown_as_nothing : ∃ d, diff [archiving "a b"] [archiving " a b"] = .ok d ∧
    d.isEmpty = false ∧ d.text false 3 = "" := by
  refine ⟨_, diff_singletons contentHash_archiving, rfl, ?_⟩
  rw [text_eq_empty_iff_renderAll (by decide)]
  decide +kernel

end MailRules.Native
