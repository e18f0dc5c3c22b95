/-!
Sorted lists.

Several parts of the library put what they compare in the order of a text (a digest, a name, a
label) before they go through it once. What they need is that the order is ascending, and strictly
so if the text tells the elements apart. Where it does not, elements with one text keep their
sequence (`StableSort`), and that leaves one arrangement only (`StableSort.unique`).
-/

namespace MailRules

variable {α : Type}

/-- Lists in the order of a key are the same if they have the same elements of each key, in the same
sequence. -/
theorem eq_of_filter_eq {κ : Type} [LE κ] [Std.IsPartialOrder κ] [DecidableEq κ] {key : α → κ} :
    ∀ {xs ys : List α}, xs.Pairwise (fun x y => key x ≤ key y) →
      ys.Pairwise (fun x y => key x ≤ key y) →
      (∀ k, xs.filter (key · = k) = ys.filter (key · = k)) → xs = ys
  | [], [], _, _, _ => rfl
  | [], y :: ys, _, _, same => by simpa using same (key y)
  | x :: xs, [], _, _, same => by simpa using same (key x)
  | x :: xs, y :: ys, hx, hy, same => by
    obtain ⟨least, hxs⟩ := List.pairwise_cons.mp hx
    obtain ⟨least', hys⟩ := List.pairwise_cons.mp hy
    -- Each head is found in the other list, where nothing is before the head.
    have below : key y ≤ key x := by
      have found : x ∈ (y :: ys).filter (key · = key x) := by rw [← same]; simp
      rcases List.mem_cons.mp (List.mem_filter.mp found).1 with rfl | found
      · exact Std.le_refl _
      · exact least' x found
    have above : key x ≤ key y := by
      have found : y ∈ (x :: xs).filter (key · = key y) := by rw [same]; simp
      rcases List.mem_cons.mp (List.mem_filter.mp found).1 with rfl | found
      · exact Std.le_refl _
      · exact least y found
    have heads : key x = key y := Std.le_antisymm above below
    have first := same (key y)
    simp only [List.filter_cons, heads, decide_true, if_true, List.cons.injEq] at first
    obtain ⟨rfl, _⟩ := first
    have tails : ∀ k, xs.filter (key · = k) = ys.filter (key · = k) := by
      intro k
      have := same k
      simp only [List.filter_cons] at this
      split at this
      · exact (List.cons.inj this).2
      · exact this
    rw [eq_of_filter_eq hxs hys tails]

section
variable (key : α → String)

theorem le_trans_key (a b c : α) (ab : decide (key a ≤ key b) = true)
    (bc : decide (key b ≤ key c) = true) : decide (key a ≤ key c) = true :=
  decide_eq_true (String.le_trans (of_decide_eq_true ab) (of_decide_eq_true bc))

theorem le_total_key (a b : α) : (decide (key a ≤ key b) || decide (key b ≤ key a)) = true := by
  simpa using String.le_total (key a) (key b)

end

theorem sorted_mergeSort (key : α → String) (xs : List α) :
    (xs.mergeSort fun a b => decide (key a ≤ key b)).Pairwise fun a b => key a ≤ key b :=
  (List.pairwise_mergeSort (le_trans_key key) (le_total_key key) xs).imp of_decide_eq_true

/-- No text stands twice in a list sorted by it if none did before. -/
theorem ascending_mergeSort {key : α → String} {xs : List α} (distinct : (xs.map key).Nodup) :
    (xs.mergeSort fun a b => decide (key a ≤ key b)).Pairwise fun a b => key a < key b := by
  have apart : (xs.mergeSort fun a b => decide (key a ≤ key b)).Pairwise
      fun a b => key a ≠ key b :=
    List.pairwise_map.mp (((List.mergeSort_perm xs _).map key).nodup_iff.mpr distinct)
  exact ((sorted_mergeSort key xs).and apart).imp fun ⟨le, ne⟩ => Std.lt_of_le_of_ne le ne

/-- A list has one arrangement in ascending order of a text that tells its elements apart. -/
theorem mergeSort_eq_of_sorted {key : α → String} {xs ys : List α} (perm : ys.Perm xs)
    (distinct : (xs.map key).Nodup) (sorted : ys.Pairwise fun a b => key a ≤ key b) :
    (xs.mergeSort fun a b => decide (key a ≤ key b)) = ys := by
  have apart : ys.Pairwise fun a b => key a ≠ key b :=
    List.pairwise_map.mp ((perm.map key).nodup_iff.mpr distinct)
  have ascending : ys.Pairwise fun a b => key a < key b :=
    (sorted.and apart).imp fun ⟨le, ne⟩ => Std.lt_of_le_of_ne le ne
  refine ((List.mergeSort_perm xs _).trans perm.symm).eq_of_pairwise (fun a b _ _ ab ba => ?_)
    (ascending_mergeSort distinct) ascending
  exact absurd (String.lt_trans ab ba) (String.lt_irrefl _)

/-! ## Stable sorting -/

/-- The second list has just the elements of the first in ascending order of a text, and those with
one text in the same sequence. -/
structure StableSort (key : α → String) (xs ys : List α) : Prop where
  ascending : ys.Pairwise fun a b => key a ≤ key b
  sequence : ∀ k, ys.filter (key · = k) = xs.filter (key · = k)

theorem stableSort_mergeSort (key : α → String) (xs : List α) :
    StableSort key xs (xs.mergeSort fun a b => decide (key a ≤ key b)) where
  ascending := sorted_mergeSort key xs
  sequence k := by
    -- The elements with one text are in order as they stand, so sorting leaves their sequence.
    have level : (xs.filter (key · = k)).Pairwise fun a b => decide (key a ≤ key b) = true := by
      apply List.pairwise_of_forall_mem_list
      intro a ha b hb
      have first : key a = k := by simpa using (List.mem_filter.mp ha).2
      have second : key b = k := by simpa using (List.mem_filter.mp hb).2
      rw [first, second]
      exact decide_eq_true (String.le_refl k)
    have kept := List.sublist_mergeSort (le_trans_key key) (le_total_key key) level
      List.filter_sublist
    have count := ((List.mergeSort_perm xs fun a b => decide (key a ≤ key b)).filter
      (key · = k)).length_eq
    have picked := kept.filter (key · = k)
    simp only [List.filter_filter, Bool.and_self] at picked
    exact (picked.eq_of_length count.symm).symm

theorem StableSort.unique {key : α → String} {xs ys zs : List α} (hy : StableSort key xs ys)
    (hz : StableSort key xs zs) : ys = zs :=
  eq_of_filter_eq hy.ascending hz.ascending fun k => (hy.sequence k).trans (hz.sequence k).symm

theorem StableSort.filter {key : α → String} {xs ys : List α} (h : StableSort key xs ys)
    (p : α → Bool) : StableSort key (xs.filter p) (ys.filter p) where
  ascending := h.ascending.sublist List.filter_sublist
  sequence k := by
    have swap (zs : List α) :
        (zs.filter p).filter (key · = k) = (zs.filter (key · = k)).filter p := by
      simp only [List.filter_filter, Bool.and_comm]
    rw [swap, swap, h.sequence]

end MailRules
