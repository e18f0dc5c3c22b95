import MailRules.Proofs.Native.Reordering
import Mathlib.Data.List.FinRange
import Mathlib.Data.List.Sort

/-!
Reordering two lists by a matching permutes the places of both.

Elements are not looked at when two lists are put in order, so what happens to them is told by what
happens to their places: the places of two lists are put in order, and each element goes where its
place goes. Places differ where elements are equal, so a place says which of several equal elements
is meant.

What is proved:
  1. `mem_pairs`: two elements are paired exactly if they stand at a row and a column that belong
     together.
  2. `reorder_finRange`: a matching puts the places of two lists in order, its pairs first and then
     what it leaves over (`Parted`).
  3. `reorder_permutes`: the elements of any two lists go with their places, and none is lost.
-/

namespace MailRules.Native

open Assignment (Matching)

/-- The places of two lists, parted by an assignment: the pairs that it makes, in the order of their
rows, and the rows and the columns that it leaves over, each in their order. On either side every
place is there once. -/
structure Parted (ms : List (Option Nat)) {n m : Nat} (ps : List (Fin n × Fin m))
    (is : List (Fin n)) (js : List (Fin m)) : Prop where
  rows : (ps.map (·.1) ++ is).Perm (List.finRange n)
  columns : (ps.map (·.2) ++ js).Perm (List.finRange m)
  pairs : ∀ i j, (i, j) ∈ ps ↔ ms[i.val]? = some (some j.val)
  rowsLeft : ∀ i, i ∈ is ↔ ∀ j, ms[i.val]? ≠ some (some j)
  columnsLeft : ∀ j, j ∈ js ↔ some j.val ∉ ms
  pairsAscend : (ps.map (·.1)).SortedLT
  rowsAscend : is.SortedLT
  columnsAscend : js.SortedLT

/-! ## What is paired and what is left over -/

section
variable {α β : Type}

theorem mem_pairs {bs : List β} {a : α} {b : β} :
    ∀ {as : List α} {ms : List (Option Nat)} {ps : List (α × β)}, pairs bs as ms = .ok ps →
      ((a, b) ∈ ps ↔ ∃ i j : Nat, as[i]? = some a ∧ ms[i]? = some (some j) ∧ bs[j]? = some b)
  | _, [], ps, made => by
    obtain rfl : [] = ps := by simpa [pairs] using made
    simp
  | [], none :: ms, ps, made => by
    have tail : pairs bs [] ms = .ok ps := made
    rw [mem_pairs tail]
    simp
  | _ :: as, none :: ms, ps, made => by
    have tail : pairs bs as ms = .ok ps := made
    rw [mem_pairs tail]
    -- The first row has no column, so all rows in question come after it.
    conv_rhs => rw [← Nat.or_exists_add_one]
    simp
  | a' :: as, some j :: ms, ps, made => by
    cases found : bs[j]? with
    | none => simp [pairs, found] at made
    | some b' =>
      rw [pairs, found] at made
      obtain ⟨rest, tail, rfl⟩ := map_eq_ok.mp made
      rw [List.mem_cons, mem_pairs tail]
      conv_rhs => rw [← Nat.or_exists_add_one]
      simp [found, eq_comm]

theorem mem_right_iff {xs ys zs : List α} {z : α} (perm : (xs ++ ys).Perm zs) (once : zs.Nodup)
    (hz : z ∈ zs) : z ∈ ys ↔ z ∉ xs := by
  have apart := List.disjoint_of_nodup_append (perm.nodup_iff.mpr once)
  refine ⟨fun hy hx => apart hx hy, fun hx => ?_⟩
  exact (List.mem_append.mp (perm.mem_iff.mpr hz)).resolve_left hx

theorem sortedLT_of_sublist {n : Nat} {is : List (Fin n)} (h : is.Sublist (List.finRange n)) :
    is.SortedLT :=
  ((List.sortedLT_finRange n).pairwise.sublist h).sortedLT

end

/-! ## Places put in order -/

section
variable {n m : Nat} {ms : List (Option Nat)} {ps : List (Fin n × Fin m)}

theorem mem_pairs_places (made : pairs (List.finRange m) (List.finRange n) ms = .ok ps) (i : Fin n)
    (j : Fin m) : (i, j) ∈ ps ↔ ms[i.val]? = some (some j.val) := by
  rw [mem_pairs made]
  simp [List.getElem?_eq_some_iff, Fin.ext_iff]

theorem mem_paired_rows (made : pairs (List.finRange m) (List.finRange n) ms = .ok ps)
    (h : Matching m ms) (i : Fin n) : i ∈ ps.map (·.1) ↔ ∃ j, ms[i.val]? = some (some j) := by
  constructor
  · intro hi
    obtain ⟨⟨i, j⟩, hp, rfl⟩ := List.mem_map.mp hi
    exact ⟨j, (mem_pairs_places made i j).mp hp⟩
  · rintro ⟨j, hj⟩
    have inside : j < m := h.inside j (List.mem_of_getElem? hj)
    exact List.mem_map.mpr ⟨(i, ⟨j, inside⟩), (mem_pairs_places made i ⟨j, inside⟩).mpr hj, rfl⟩

theorem mem_paired_columns (made : pairs (List.finRange m) (List.finRange n) ms = .ok ps)
    (fits : ms.length ≤ n) (j : Fin m) : j ∈ ps.map (·.2) ↔ some j.val ∈ ms := by
  constructor
  · intro hj
    obtain ⟨⟨i, j⟩, hp, rfl⟩ := List.mem_map.mp hj
    exact List.mem_of_getElem? ((mem_pairs_places made i j).mp hp)
  · intro hj
    obtain ⟨i, hi⟩ := List.mem_iff_getElem?.mp hj
    have inside : i < n := (List.getElem?_eq_some_iff.mp hi).1.trans_le fits
    exact List.mem_map.mpr ⟨(⟨i, inside⟩, j), (mem_pairs_places made ⟨i, inside⟩ j).mpr hi, rfl⟩

theorem reorder_finRange (fits : ms.length ≤ n) (h : Matching m ms) :
    ∃ (ps : List (Fin n × Fin m)) (is : List (Fin n)) (js : List (Fin m)), Parted ms ps is js ∧
      reorder (List.finRange n) (List.finRange m) ms =
        .ok (ps.map (·.1) ++ is, ps.map (·.2) ++ js) := by
  have fits' : ms.length ≤ (List.finRange n).length := by rwa [List.length_finRange]
  have h' : Matching (List.finRange m).length ms := by rwa [List.length_finRange]
  obtain ⟨ps, made, sub, rows, given, -⟩ := pairs_eq_ok fits' h'.inside
  have columns := columns_perm h'
  rw [← given] at columns
  refine ⟨ps, rowsLeft (List.finRange n) ms, columnsLeft (List.finRange m) ms, ?_, ?_⟩
  · refine ⟨rows, columns, mem_pairs_places made, fun i => ?_, fun j => ?_,
      sortedLT_of_sublist sub, sortedLT_of_sublist (rowsLeft_sublist _ ms),
      sortedLT_of_sublist (columnsLeft_sublist _ ms)⟩
    · rw [mem_right_iff rows (List.nodup_finRange n) (List.mem_finRange i),
        mem_paired_rows made h]
      exact not_exists
    · rw [mem_right_iff columns (List.nodup_finRange m) (List.mem_finRange j),
        mem_paired_columns made fits]
  · rw [reorder, made]
    rfl

end

/-! ## Elements at their places -/

section
variable {α β : Type}

theorem reorder_of_places {as : List α} {bs : List β} {ms : List (Option Nat)}
    {is : List (Fin as.length)} {js : List (Fin bs.length)}
    (made : reorder (List.finRange as.length) (List.finRange bs.length) ms = .ok (is, js)) :
    reorder as bs ms = .ok (is.map as.get, js.map bs.get) := by
  have moved := reorder_map as.get bs.get (List.finRange as.length) (List.finRange bs.length) ms
  rwa [List.map_get_finRange, List.map_get_finRange, made] at moved

theorem perm_of_places {as : List α} {is : List (Fin as.length)}
    (h : is.Perm (List.finRange as.length)) : (is.map as.get).Perm as := by
  simpa using h.map as.get

/-- Two lists put in order by a matching: each is permuted, and in such a way that the elements of
the pairs stand first on both sides, in the order of their rows, and then the elements at the places
that are left over, in their order. -/
theorem reorder_permutes {as : List α} {bs : List β} {ms : List (Option Nat)}
    (fits : ms.length ≤ as.length) (h : Matching bs.length ms) :
    ∃ as' bs', reorder as bs ms = .ok (as', bs') ∧ as'.Perm as ∧ bs'.Perm bs ∧
      ∃ ps is js, Parted ms ps is js ∧
        as' = ps.map (fun p => as.get p.1) ++ is.map as.get ∧
        bs' = ps.map (fun p => bs.get p.2) ++ js.map bs.get := by
  obtain ⟨ps, is, js, parted, made⟩ := reorder_finRange fits h
  refine ⟨_, _, reorder_of_places made, perm_of_places parted.rows,
    perm_of_places parted.columns, ps, is, js, parted, ?_, ?_⟩
  · rw [List.map_append, List.map_map]
    rfl
  · rw [List.map_append, List.map_map]
    rfl

/-- Equal elements on both sides, a row without a column, a row past the end of the assignment and a
column that is left over. -/
theorem reorder_permutes_equal :
    let as := ["a", "b", "a", "c"]
    let bs := ["x", "y", "x"]
    let ms := [some 2, none, some 0]
    ms.length ≤ as.length ∧ Matching bs.length ms ∧
      reorder as bs ms = .ok (["a", "a", "b", "c"], ["x", "x", "y"]) ∧
      ∃ as' bs', reorder as bs ms = .ok (as', bs') ∧ as'.Perm as ∧ bs'.Perm bs ∧
        ∃ ps is js, Parted ms ps is js ∧
          as' = ps.map (fun p => as.get p.1) ++ is.map as.get ∧
          bs' = ps.map (fun p => bs.get p.2) ++ js.map bs.get := by
  intro as bs ms
  have fits : ms.length ≤ as.length := by decide
  have matching : Matching bs.length ms := ⟨by simp [ms, bs], by decide⟩
  exact ⟨fits, matching, rfl, reorder_permutes fits matching⟩

end

end MailRules.Native
