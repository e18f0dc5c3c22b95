import MailRules.Native.Diff
import MailRules.Proofs.Assignment.Matching
import MailRules.Proofs.Outcome

/-!
Reordering the changes between two lists of filters keeps all of them.

Two lists are put in order by a matching of the rows of one to the columns of the other. Each row
that has a column goes to the front with it, and the others follow on either side. Since no column
is given twice, what is at the front and what follows are together the list that was given, and what
follows stands in its order. The rows at the front do so as well.

What is proved:
  1. `reorder_eq_ok`: a matching reorders two lists, and how (`Reordered`).
  2. `reorder_map`: what is done to the elements may be done before or after that.
  3. `reorderBy_eq_ok`: the assignment by costs does so, whatever the costs are.
  4. `diffBy_reorders`: with exact costs as many filters are paired as can be, so the changes are
     those by content, in an order that differs from theirs only as described.
-/

namespace MailRules.Native

open Assignment (Matching)

/-! ## Lists put in order by a matching -/

section
variable {α β : Type} {as : List α} {bs : List β} {ms : List (Option Nat)}

theorem rowsLeft_sublist : ∀ (as : List α) (ms : List (Option Nat)), (rowsLeft as ms).Sublist as
  | [], [] => List.Sublist.refl _
  | [], _ :: _ => List.Sublist.refl _
  | _ :: _, [] => List.Sublist.refl _
  | a :: as, none :: ms => (rowsLeft_sublist as ms).cons_cons a
  | a :: as, some _ :: ms => (rowsLeft_sublist as ms).cons a

/-- The pairs of a matching: the rows that have a column, in their order, each with its column. -/
theorem pairs_eq_ok {bs : List β} : ∀ {as : List α} {ms : List (Option Nat)},
    ms.length ≤ as.length → (∀ j, some j ∈ ms → j < bs.length) →
      ∃ ps, pairs bs as ms = .ok ps ∧ (ps.map (·.1)).Sublist as ∧
        (ps.map (·.1) ++ rowsLeft as ms).Perm as ∧
        ps.map (·.2) = ms.reduceOption.filterMap (bs[·]?) ∧ ps.length = ms.reduceOption.length
  | as, [], _, _ => ⟨[], by simp [pairs], List.nil_sublist _, by simp [rowsLeft], rfl, rfl⟩
  | [], _ :: _, fits, _ => absurd fits (by simp)
  | a :: as, none :: ms, fits, inside => by
    obtain ⟨ps, made, sub, perm, columns, count⟩ := pairs_eq_ok
      (Nat.le_of_succ_le_succ fits) fun j hj => inside j (List.mem_cons_of_mem _ hj)
    refine ⟨ps, made, sub.cons a, ?_, columns, count⟩
    exact List.perm_middle.trans (perm.cons a)
  | a :: as, some j :: ms, fits, inside => by
    obtain ⟨ps, made, sub, perm, columns, count⟩ := pairs_eq_ok
      (Nat.le_of_succ_le_succ fits) fun j hj => inside j (List.mem_cons_of_mem _ hj)
    have hj : j < bs.length := inside j List.mem_cons_self
    have found : bs[j]? = some bs[j] := List.getElem?_eq_getElem hj
    refine ⟨(a, bs[j]) :: ps, ?_, sub.cons_cons a, perm.cons a, ?_, ?_⟩
    · rw [pairs, found, made]
      rfl
    · rw [List.reduceOption_cons_of_some, List.filterMap_cons, found, List.map_cons, columns]
    · rw [List.reduceOption_cons_of_some, List.length_cons, List.length_cons, count]

theorem zipIdx_filter (keep : Nat → Bool) (bs : List β) :
    (bs.zipIdx.filter fun (_, j) => keep j).map (·.1) =
      ((List.range bs.length).filter keep).filterMap (bs[·]?) := by
  induction bs using List.reverseRecOn with
  | nil => rfl
  | append_singleton bs b ih =>
    -- A place before the last one holds the same element without it.
    have before : ((List.range bs.length).filter keep).filterMap ((bs ++ [b])[·]?) =
        ((List.range bs.length).filter keep).filterMap (bs[·]?) := by
      apply List.filterMap_congr
      intro j hj
      exact List.getElem?_append_left (List.mem_range.mp (List.mem_filter.mp hj).1)
    rw [List.zipIdx_append, List.filter_append, List.map_append, ih, List.length_append,
      List.length_singleton, List.range_succ, List.filter_append, List.filterMap_append, before]
    by_cases last : keep bs.length <;> simp [last]

theorem columnsLeft_eq (bs : List β) (ms : List (Option Nat)) : columnsLeft bs ms =
    ((List.range bs.length).filter fun j => !ms.contains (some j)).filterMap (bs[·]?) :=
  zipIdx_filter (fun j => !ms.contains (some j)) bs

theorem filterMap_range (bs : List β) : (List.range bs.length).filterMap (bs[·]?) = bs := by
  simpa using (zipIdx_filter (fun _ => true) bs).symm

theorem columnsLeft_sublist (bs : List β) (ms : List (Option Nat)) :
    (columnsLeft bs ms).Sublist bs := by
  have sub := (List.filter_sublist (p := fun j => !ms.contains (some j))
    (l := List.range bs.length)).filterMap (bs[·]?)
  rwa [filterMap_range, ← columnsLeft_eq] at sub

theorem columns_perm (h : Matching bs.length ms) :
    (ms.reduceOption.filterMap (bs[·]?) ++ columnsLeft bs ms).Perm bs := by
  have places : (ms.reduceOption ++
      (List.range bs.length).filter fun j => !ms.contains (some j)).Perm
        (List.range bs.length) := by
    refine (List.perm_ext_iff_of_nodup ?_ List.nodup_range).mpr fun j => ?_
    · refine h.apart.append (List.nodup_range.filter _) fun j hj left => ?_
      rw [List.reduceOption_mem_iff] at hj
      simp [hj] at left
    · have inside := h.inside j
      simp only [List.mem_append, List.reduceOption_mem_iff, List.mem_filter, List.mem_range,
        Bool.not_eq_true', List.contains_eq_mem, decide_eq_false_iff_not]
      tauto
  have perm := places.filterMap (bs[·]?)
  rwa [List.filterMap_append, filterMap_range, ← columnsLeft_eq] at perm

/-- Two lists put in order: nothing is lost, the first `n` elements of the first list stand in their
order, and so do the elements that follow those in either list. -/
structure Reordered (n : Nat) (as as' : List α) (bs bs' : List β) : Prop where
  rows : as'.Perm as
  columns : bs'.Perm bs
  front : (as'.take n).Sublist as
  rowsAfter : (as'.drop n).Sublist as
  columnsAfter : (bs'.drop n).Sublist bs

theorem Reordered.rows_eq {n : Nat} {as' : List α} {bs' : List β}
    (h : Reordered n as as' bs bs') (short : as.length ≤ n) : as' = as := by
  have all : as'.take n = as' := List.take_of_length_le (h.rows.length_eq ▸ short)
  exact (all ▸ h.front).eq_of_length h.rows.length_eq

theorem reorder_eq_ok (fits : ms.length ≤ as.length) (h : Matching bs.length ms) :
    ∃ as' bs', reorder as bs ms = .ok (as', bs') ∧
      Reordered ms.reduceOption.length as as' bs bs' := by
  obtain ⟨ps, made, sub, perm, columns, count⟩ := pairs_eq_ok fits h.inside
  refine ⟨ps.map (·.1) ++ rowsLeft as ms, ps.map (·.2) ++ columnsLeft bs ms, ?_, ?_⟩
  · rw [reorder, made]
    rfl
  · rw [← count]
    refine ⟨perm, ?_, ?_, ?_, ?_⟩
    · rw [columns]
      exact columns_perm h
    · rw [List.take_left' (List.length_map _)]
      exact sub
    · rw [List.drop_left' (List.length_map _)]
      exact rowsLeft_sublist as ms
    · rw [List.drop_left' (List.length_map _)]
      exact columnsLeft_sublist bs ms

end

/-! ## Elements, which are not looked at -/

section
variable {α β γ δ : Type} (f : α → γ) (g : β → δ)

theorem pairs_map (bs : List β) : ∀ (as : List α) (ms : List (Option Nat)),
    pairs (bs.map g) (as.map f) ms = (pairs bs as ms).map (List.map (Prod.map f g))
  | [], [] => rfl
  | _ :: _, [] => rfl
  | [], none :: ms => pairs_map bs [] ms
  | _ :: as, none :: ms => pairs_map bs as ms
  | [], some _ :: _ => rfl
  | a :: as, some j :: ms => by
    rw [List.map_cons, pairs, pairs, List.getElem?_map, pairs_map bs as ms]
    cases bs[j]? with
    | none => rfl
    | some b => cases pairs bs as ms <;> rfl

theorem rowsLeft_map : ∀ (as : List α) (ms : List (Option Nat)),
    rowsLeft (as.map f) ms = (rowsLeft as ms).map f
  | [], [] => rfl
  | [], _ :: _ => rfl
  | _ :: _, [] => rfl
  | a :: as, none :: ms => congrArg (f a :: ·) (rowsLeft_map as ms)
  | _ :: as, some _ :: ms => rowsLeft_map as ms

theorem columnsLeft_map (bs : List β) (ms : List (Option Nat)) :
    columnsLeft (bs.map g) ms = (columnsLeft bs ms).map g := by
  rw [columnsLeft_eq, columnsLeft_eq, List.length_map, List.map_filterMap]
  simp

theorem reorder_map (as : List α) (bs : List β) (ms : List (Option Nat)) :
    reorder (as.map f) (bs.map g) ms =
      (reorder as bs ms).map (Prod.map (List.map f) (List.map g)) := by
  rw [reorder, reorder, pairs_map, rowsLeft_map, columnsLeft_map]
  cases pairs bs as ms with
  | error => rfl
  | ok ps => simp [Except.map]

end

/-! ## Filters put in order by costs -/

section
variable {α : Type} (cost : Filter → Filter → α) {fs gs : List Filter}

theorem width_costs (h : fs ≠ []) : Assignment.width (costs cost fs gs) = gs.length := by
  cases fs with
  | nil => exact absurd rfl h
  | cons f fs => simp [Assignment.width, costs]

variable [Assignment.Cost α]

theorem reorderBy_eq_ok (gs : List Filter) (h : fs ≠ []) :
    ∃ fs' gs', reorderBy cost fs gs = .ok (fs', gs') ∧
      Reordered (Assignment.optimal (costs cost fs gs)).reduceOption.length fs fs' gs gs' := by
  obtain ⟨size, matching⟩ := Assignment.matching_optimal (costs cost fs gs)
  rw [width_costs cost h] at matching
  exact reorder_eq_ok (by rw [size, costs, List.length_map]) matching

theorem pairs_costs {N : α → Prop} (hN : Assignment.Numbers N) (numbers : ∀ f g, N (cost f g))
    (h : fs ≠ []) : (Assignment.optimal (costs cost fs gs)).reduceOption.length =
      min fs.length gs.length := by
  rw [Assignment.pairs_optimal hN, width_costs cost h, costs, List.length_map]
  intro row hrow x hx
  obtain ⟨f, _, rfl⟩ := List.mem_map.mp hrow
  obtain ⟨g, _, rfl⟩ := List.mem_map.mp hx
  exact numbers f g

end

/-- The changes that are shown are those by content. With exact costs as many of them as possible
are paired; those that are paired stand in front, the added ones in their order, and the others
follow in their order. -/
theorem diffBy_reorders (cost : Filter → Filter → ℚ) (observed desired : List Filter) :
    let c := changed observed desired
    let k := min c.added.length c.removed.length
    ∃ d, diffBy (fun f g => (cost f g : WithTop ℚ)) observed desired = .ok d ∧
      d.added.Perm c.added ∧ d.removed.Perm c.removed ∧ (d.added.take k).Sublist c.added ∧
      (d.added.drop k).Sublist c.added ∧ (d.removed.drop k).Sublist c.removed ∧
      (c.added.length ≤ c.removed.length → d.added = c.added) := by
  intro c k
  by_cases none : (c.added.isEmpty || c.removed.isEmpty) = true
  · refine ⟨c, if_pos none, .refl _, .refl _, List.take_sublist .., List.drop_sublist ..,
      List.drop_sublist .., fun _ => rfl⟩
  · have some : c.added ≠ [] := fun h => none (by simp [h])
    obtain ⟨fs, gs, made, order⟩ :=
      reorderBy_eq_ok (fun f g => (cost f g : WithTop ℚ)) c.removed some
    rw [pairs_costs _ Assignment.numbers_exact (fun f g => WithTop.coe_ne_top) some] at order
    refine ⟨⟨fs, gs⟩, ?_, order.rows, order.columns, order.front, order.rowsAfter,
      order.columnsAfter, fun short => order.rows_eq (le_min le_rfl short)⟩
    rw [diffBy, if_neg none, made]
    rfl

end MailRules.Native
