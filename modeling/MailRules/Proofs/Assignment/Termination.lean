import MailRules.Proofs.Assignment.LeastCost

/-!
The assignment solver ends by itself.

Both loops of the solver are given a limit: the search for a free column a number of turns, and the
moving up along the way back a number of steps. What is shown here is that the limits are never what
ends them. A turn takes a column that was not taken before, so a search takes a free one after as
many turns as there are columns at most. And the way back passes no column twice, so it comes to the
column that was reached first. With other limits, as long as these leave room for that, the solver
does the same.

What is proved:
  1. `Route.augment_eq`: moving up goes to the end of the way back, whatever the limit.
  2. `exists_phase`: assigning a further row, with no limit to either loop.
  3. `optimal_ends`: every row is assigned in this way, and what results is a matching of as many rows
     and columns as there are of the fewer.
-/

namespace MailRules.Assignment

variable {α : Type} [Cost α]

theorem Route.augment_eq {via : Nat → Option Nat} {j : Nat} {ks : List Nat} (h : Route via j ks)
    (row : Nat) : ∀ {owner : Array (Option Nat)} {m n : Nat}, ks.length < m → ks.length < n →
      Assignment.augment via row m j owner = Assignment.augment via row n j owner := by
  induction h with
  | first end_ =>
    intro owner m n hm hn
    obtain ⟨m, rfl⟩ : ∃ k, m = k + 1 := ⟨m - 1, by omega⟩
    obtain ⟨n, rfl⟩ : ∃ k, n = k + 1 := ⟨n - 1, by omega⟩
    rw [Assignment.augment, Assignment.augment, end_]
  | back next _ ih =>
    intro owner m n hm hn
    rw [List.length_cons] at hm hn
    obtain ⟨m, rfl⟩ : ∃ k, m = k + 1 := ⟨m - 1, by omega⟩
    obtain ⟨n, rfl⟩ : ∃ k, n = k + 1 := ⟨n - 1, by omega⟩
    rw [Assignment.augment, Assignment.augment, next]
    exact ih (by omega) (by omega)

/-! ## A phase -/

/-- A row is assigned in turns that take the columns `js`, each for the first time, and by moving up
along the way back `ks` to the column that was reached first. No limit that leaves room for this
makes a difference. -/
structure Phase (p : Problem α) (s : State α) (row : Nat) (found : Search α × Nat)
    (js ks : List Nat) : Prop where
  turns : Search.Turns p s.ownerOf (Search.start p s) row none js found
  fresh : js.Nodup
  inside : ∀ j ∈ js, j < p.columns
  few : js.length ≤ p.columns
  way : Route (fun j => found.1.via.getD j none) found.2 ks
  once : (found.2 :: ks).Nodup
  run : ∀ n, js.length ≤ n → (Search.start p s).run p s.ownerOf n row none = found
  moved : ∀ n, ks.length < n →
    augment (fun j => found.1.via.getD j none) row n found.2 s.owner = (assign p s row).owner

theorem exists_phase {N : α → Prop} (hN : Numbers N) {p : Problem α}
    (costs : ∀ i j, N (p.cost i j)) {s : State α} {r : Nat} (h : s.Sound N p r)
    (hr : r < p.columns) : ∃ found js ks, Phase p s r found js ks := by
  obtain ⟨js, found, turns, ended, apart, inside⟩ :=
    Search.exists_turns hN costs (h.free hr) p.columns r (Search.start_sound h.rows h.columns)
      (List.forall_mem_nil _) (by simp)
  obtain ⟨path, _, sound⟩ := ended.path
  obtain ⟨ks, way, _, once, _, short⟩ := sound.way
  rw [List.append_nil] at apart
  have few : js.length ≤ p.columns := length_le_of_apart apart inside
  refine ⟨found, js, ks, turns, apart, inside, few, way, once, fun n enough => turns.run enough, ?_⟩
  intro n enough
  have ends : (Search.start p s).run p s.ownerOf (p.columns + 2) r none = found :=
    turns.run (by omega)
  rw [assign, ends]
  exact way.augment_eq r enough (by omega)

/-! ## All phases -/

/-- The problem that is solved for a matrix, which has at least as many columns as rows. -/
def problem (costs : List (List α)) : Problem α :=
  if costs.length ≤ width costs then upright costs else transposed costs

theorem wide_problem (costs : List (List α)) : (problem costs).rows ≤ (problem costs).columns := by
  rw [problem]
  split
  · next wide => exact wide
  · next tall => exact Nat.le_of_not_le tall

theorem numbers_problem {N : α → Prop} (hN : Numbers N) {costs : List (List α)}
    (numbers : ∀ row ∈ costs, ∀ x ∈ row, N x) (i j : Nat) : N ((problem costs).cost i j) := by
  rw [problem]
  split
  · exact numbers_upright hN numbers i j
  · exact numbers_transposed hN numbers i j

/-- **The solver ends with a matching.** For each row of the problem, the search goes on until it
takes a free column, takes none twice and so ends after as many turns as there are columns at most,
and the way back leads to the column that was reached first. The assignment has a place for each row
of the matrix, gives no column to two rows, and pairs as many rows and columns as there are of the
fewer. -/
theorem optimal_ends (costs : List (List ℚ)) :
    let p := problem (exactCosts costs)
    let assignment := optimal (exactCosts costs)
    (∀ r < p.rows, ∃ found js ks, Phase p (p.after r) r found js ks) ∧
      assignment.length = costs.length ∧ Matching (width costs) assignment ∧
      assignment.reduceOption.length = min costs.length (width costs) := by
  intro p assignment
  have numbers := finite_exactCosts costs
  have rows : (exactCosts costs).length = costs.length := List.length_map _
  have columns := width_exactCosts costs
  obtain ⟨places, matching⟩ := matching_optimal (exactCosts costs)
  have pairs := pairs_optimal numbers_exact numbers
  refine ⟨?_, places.trans rows, columns ▸ matching, by rw [pairs, rows, columns]⟩
  intro r hr
  have wide : p.rows ≤ p.columns := wide_problem _
  have finite : ∀ i j, p.cost i j ≠ ⊤ := numbers_problem numbers_exact numbers
  have sound := after_sound numbers_exact finite wide r hr.le
  exact exists_phase numbers_exact finite sound (by omega)

end MailRules.Assignment
