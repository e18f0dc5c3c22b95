import MailRules.Proofs.Assignment.Search
import Mathlib.Data.List.Nodup
import Mathlib.Data.List.ReduceOption

/-!
What the assignment solver returns is a matching.

A solver that went through all rows is asked for the first column of each row. A column is owned by
one row only, so whatever the costs no column is given to two rows. If the costs are numbers, each
row of a problem owns a column, and so a matrix with more rows than columns, which is solved with
its columns for rows, has a row for each of its columns.

What is proved:
  1. `matching_firstColumns`: asking which column belongs to a row gives a matching, if no column
     belongs to two rows.
  2. `matching_optimal`: an assignment has a place for each row and is a matching, for any costs.
  3. `pairs_optimal`: if the costs are numbers, there are as many pairs as rows or as columns,
     whichever are fewer.
-/

namespace MailRules.Assignment

/-- Places for columns, of which each is below a number and none is given twice. -/
structure Matching (columns : Nat) (ms : List (Option Nat)) : Prop where
  inside : ∀ j, some j ∈ ms → j < columns
  apart : ms.reduceOption.Nodup

/-- For each of `n` rows the first of `m` columns that belongs to it. -/
def firstColumns (R : Nat → Nat → Prop) [∀ j i, Decidable (R j i)] (n m : Nat) :
    List (Option Nat) :=
  (List.range n).map fun i => (List.range m).find? fun j => decide (R j i)

section
variable {R : Nat → Nat → Prop} [∀ j i, Decidable (R j i)] {n m : Nat}

theorem of_find {i j : Nat} (h : ((List.range m).find? fun j => decide (R j i)) = some j) :
    j < m ∧ R j i :=
  ⟨List.mem_range.mp (List.mem_of_find?_eq_some h), of_decide_eq_true (List.find?_some h :)⟩

theorem exists_find {i j : Nat} (hj : j < m) (h : R j i) :
    ∃ j', ((List.range m).find? fun j => decide (R j i)) = some j' := by
  apply Option.isSome_iff_exists.mp
  exact List.find?_isSome.mpr ⟨j, List.mem_range.mpr hj, decide_eq_true h⟩

theorem getElem?_firstColumns {i : Nat} (hi : i < n) : (firstColumns R n m)[i]? =
    some ((List.range m).find? fun j => decide (R j i)) := by
  simp [firstColumns, hi]

theorem of_getElem?_firstColumns {i j : Nat} (h : (firstColumns R n m)[i]? = some (some j)) :
    R j i := by
  by_cases hi : i < n
  · rw [getElem?_firstColumns hi] at h
    exact (of_find (Option.some.inj h)).2
  · simp [firstColumns, Nat.not_lt.mp hi] at h

theorem matching_firstColumns (one : ∀ j i i', R j i → R j i' → i = i') :
    Matching m (firstColumns R n m) where
  inside j hj := by
    obtain ⟨i, _, found⟩ := List.mem_map.mp hj
    exact (of_find found).1
  apart := by
    rw [firstColumns, List.reduceOption, List.filterMap_map]
    apply List.nodup_range.filterMap
    intro i i' j hi hi'
    exact one j i i' (of_find hi).2 (of_find hi').2

theorem pairs_of_rows (each : ∀ i < n, ∃ j < m, R j i) :
    (firstColumns R n m).reduceOption.length = n := by
  have found : ∀ x ∈ firstColumns R n m, x.isSome = true := by
    intro x hx
    obtain ⟨i, hi, rfl⟩ := List.mem_map.mp hx
    obtain ⟨j, hj, h⟩ := each i (List.mem_range.mp hi)
    exact Option.isSome_iff_exists.mpr (exists_find hj h)
  rw [List.reduceOption_length_eq_iff.mpr found, firstColumns, List.length_map, List.length_range]

/-- If each column has a row, and no row has two, there are as many pairs as columns. -/
theorem pairs_of_columns (one : ∀ j i i', R j i → R j i' → i = i')
    (alone : ∀ j j' i, R j i → R j' i → j = j') (each : ∀ j < m, ∃ i < n, R j i) :
    (firstColumns R n m).reduceOption.length = m := by
  have matching := matching_firstColumns (n := n) (m := m) one
  -- The columns in pairs are all the columns, each once.
  have all : (firstColumns R n m).reduceOption.Perm (List.range m) := by
    refine (List.perm_ext_iff_of_nodup matching.apart List.nodup_range).mpr fun j => ?_
    rw [List.reduceOption_mem_iff, List.mem_range]
    refine ⟨matching.inside j, fun hj => ?_⟩
    obtain ⟨i, hi, h⟩ := each j hj
    obtain ⟨j', found⟩ := exists_find hj h
    obtain rfl := alone j j' i h (of_find found).2
    exact List.mem_map.mpr ⟨i, List.mem_range.mpr hi, found⟩
  rw [all.length_eq, List.length_range]

end

/-! ## The solver -/

variable {α : Type} [Cost α]

/-- The state after all rows of a problem were assigned. -/
def Problem.final (p : Problem α) : State α :=
  (List.range p.rows).foldl (assign p)
    { rowPotential := tabulate p.rows fun _ => Cost.zero
      columnPotential := tabulate p.columns fun _ => Cost.zero
      owner := tabulate p.columns fun _ => none
      via := tabulate p.columns fun _ => none }

/-- The state after the first rows of a problem were assigned. -/
def Problem.after (p : Problem α) (r : Nat) : State α :=
  (List.range r).foldl (assign p)
    { rowPotential := tabulate p.rows fun _ => Cost.zero
      columnPotential := tabulate p.columns fun _ => Cost.zero
      owner := tabulate p.columns fun _ => none
      via := tabulate p.columns fun _ => none }

theorem Problem.after_succ (p : Problem α) (r : Nat) :
    p.after (r + 1) = assign p (p.after r) r := by
  rw [Problem.after, List.range_succ, List.foldl_append]
  rfl

theorem Problem.solve_eq (p : Problem α) :
    p.solve = firstColumns (fun j i => p.final.ownerOf j = some i) p.rows p.columns := rfl

theorem Problem.owner_unique (p : Problem α) (j i i' : Nat) (h : p.final.ownerOf j = some i)
    (h' : p.final.ownerOf j = some i') : i = i' :=
  Option.some.inj (h.symm.trans h')

theorem getD_zero {N : α → Prop} (hN : Numbers N) {xs : Array α} (h : ∀ x ∈ xs, N x) (j : Nat) :
    N (xs.getD j Cost.zero) := by
  by_cases hj : j < xs.size
  · simpa [hj] using h xs[j] (Array.getElem_mem hj)
  · simpa [Nat.not_lt.mp hj] using hN.zero

section
variable {N : α → Prop} (hN : Numbers N) {p : Problem α} (costs : ∀ i j, N (p.cost i j))
include hN costs

theorem after_sound (wide : p.rows ≤ p.columns) : ∀ r ≤ p.rows, (p.after r).Sound N p r := by
  intro r
  induction r with
  | zero =>
    intro _
    refine ⟨hN.getD_tabulate fun _ => hN.zero, hN.getD_tabulate fun _ => hN.zero, ?_, ?_, ?_⟩
    · exact Array.size_ofFn
    · exact fun i hi => absurd hi (Nat.not_lt_zero i)
    · rw [Finset.card_eq_zero, Finset.filter_eq_empty_iff]
      intro j hj owned
      exact owned (getD_tabulate _ _ (Finset.mem_range.mp hj))
  | succ r ih =>
    intro hr
    rw [Problem.after_succ]
    exact assign_sound hN costs (ih (by omega)) (by omega)

theorem final_sound (wide : p.rows ≤ p.columns) : p.final.Sound N p p.rows :=
  after_sound hN costs wide p.rows le_rfl

theorem owned_of_row (wide : p.rows ≤ p.columns) {i : Nat} (hi : i < p.rows) :
    ∃ j < p.columns, p.final.ownerOf j = some i := by
  have sound := final_sound hN costs wide
  obtain ⟨j, hj⟩ := sound.assigned i hi
  exact ⟨j, sound.inside hj, hj⟩

end

theorem solve_unique {p : Problem α} {i i' j : Nat} (h : p.solve[i]? = some (some j))
    (h' : p.solve[i']? = some (some j)) : i = i' := by
  rw [Problem.solve_eq] at h h'
  exact p.owner_unique j i i' (of_getElem?_firstColumns h) (of_getElem?_firstColumns h')

theorem exists_solve {N : α → Prop} (hN : Numbers N) {p : Problem α}
    (costs : ∀ i j, N (p.cost i j)) (wide : p.rows ≤ p.columns) {i : Nat} (hi : i < p.rows) :
    ∃ j < p.columns, p.solve[i]? = some (some j) := by
  obtain ⟨j, hj, owned⟩ := owned_of_row hN costs wide hi
  obtain ⟨j', found⟩ := exists_find (R := fun j i => p.final.ownerOf j = some i) hj owned
  refine ⟨j', (of_find (R := fun j i => p.final.ownerOf j = some i) found).1, ?_⟩
  rw [Problem.solve_eq, getElem?_firstColumns hi, found]

/-! ## Assignments -/

def width (costs : List (List α)) : Nat := (costs.head?.map List.length).getD 0

/-- The problem of a matrix with at least as many columns as rows. -/
def upright (costs : List (List α)) : Problem α where
  rows := costs.length
  columns := width costs
  costs := (costs.map List.toArray).toArray

def transposed (costs : List (List α)) : Problem α where
  rows := width costs
  columns := costs.length
  costs := tabulate (width costs) fun j => tabulate costs.length fun i => (upright costs).cost i j

/-- The cases of the solver: no columns, at least as many columns as rows, and more rows. -/
theorem optimal_eq (costs : List (List α)) : optimal costs =
    if width costs = 0 then costs.map fun _ => none
    else if costs.length ≤ width costs then (upright costs).solve
    else firstColumns (fun j i => (transposed costs).solve[j]? = some (some i)) costs.length
      (width costs) := rfl

theorem matching_optimal (costs : List (List α)) :
    (optimal costs).length = costs.length ∧ Matching (width costs) (optimal costs) := by
  rw [optimal_eq]
  split
  · have empty : (costs.map fun _ => (none : Option Nat)).reduceOption = [] := by simp
    exact ⟨List.length_map _, by simp, by rw [empty]; exact .nil⟩
  · split
    · rw [Problem.solve_eq]
      exact ⟨by simp [firstColumns, upright], matching_firstColumns (Problem.owner_unique _)⟩
    · refine ⟨by simp [firstColumns], matching_firstColumns fun j i i' h h' => ?_⟩
      exact Option.some.inj (Option.some.inj (h.symm.trans h'))

section
variable {N : α → Prop} (hN : Numbers N) {costs : List (List α)}
  (numbers : ∀ row ∈ costs, ∀ x ∈ row, N x)
include hN numbers

theorem numbers_upright (i j : Nat) : N ((upright costs).cost i j) := by
  apply getD_zero hN
  intro x hx
  by_cases hi : i < costs.length
  · have mem : x ∈ costs[i] := by simpa [upright, hi] using hx
    exact numbers _ (List.getElem_mem hi) x mem
  · simp [upright, Nat.not_lt.mp hi] at hx

theorem numbers_transposed (j i : Nat) : N ((transposed costs).cost j i) := by
  rw [Problem.cost, transposed]
  by_cases hj : j < width costs
  · rw [getD_tabulate _ _ hj]
    exact hN.getD_tabulate (fun i => numbers_upright hN numbers i j) i
  · rw [getD_tabulate_of_le _ _ (Nat.not_lt.mp hj)]
    exact getD_zero hN (by simp) i

theorem pairs_optimal : (optimal costs).reduceOption.length = min costs.length (width costs) := by
  rw [optimal_eq]
  split
  · next narrow => simp [narrow]
  · split
    · next wide =>
      have owned (i : Nat) := owned_of_row hN (numbers_upright hN numbers) wide (i := i)
      rw [Problem.solve_eq, pairs_of_rows owned]
      exact (Nat.min_eq_left wide).symm
    · next tall =>
      have tall' : width costs ≤ costs.length := by omega
      rw [pairs_of_columns]
      · exact (Nat.min_eq_right tall').symm
      · exact fun j i i' h h' => Option.some.inj (Option.some.inj (h.symm.trans h'))
      · exact fun j j' i h h' => solve_unique h h'
      · exact fun j hj => exists_solve hN (numbers_transposed hN numbers) tall' hj

end

end MailRules.Assignment
