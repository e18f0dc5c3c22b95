import MailRules.Proofs.Assignment.Matching
import MailRules.Proofs.Assignment.Potentials
import Mathlib.Algebra.BigOperators.Group.Finset.Basic
import Mathlib.Algebra.Order.BigOperators.Group.Finset

/-!
What the assignment solver returns costs least.

A pairing takes rows and columns of a matrix together, none of them twice. If no slack is negative and
no column has a positive potential, then a pairing of all rows costs at least the sum of all potentials
(`Pairing.bound`). It costs exactly that if its pairs have no slack and the columns left over have no
potential (`Pairing.exact`). The potentials at the end of the solver bear out both.

With more rows than columns the solver takes the columns for rows. A pairing of the one matrix is one
of the other, with its pairs turned round.

What is proved:
  1. `Pairing.bound`, `Pairing.exact`: what a pairing of all rows costs.
  2. `least_solve`: the pairs of a problem with at least as many columns as rows cost least.
  3. `optimal_least`: so do those of any matrix, among all pairings with as many pairs.
-/

namespace MailRules.Assignment

/-! ## Pairings -/

/-- Pairs of a row and a column of a matrix, with no row and no column twice. -/
structure Pairing (rows columns : Nat) (s : Finset (Nat × Nat)) : Prop where
  inside : ∀ q ∈ s, q.1 < rows ∧ q.2 < columns
  rowsApart : Set.InjOn Prod.fst (s : Set (Nat × Nat))
  columnsApart : Set.InjOn Prod.snd (s : Set (Nat × Nat))

namespace Pairing

variable {n m : Nat} {s : Finset (Nat × Nat)} (cost : Nat → Nat → ℚ) (u v : Nat → ℚ)

theorem rows_eq (h : Pairing n m s) (full : s.card = n) : s.image Prod.fst = Finset.range n := by
  apply Finset.eq_of_subset_of_card_le
  · intro i mem
    obtain ⟨q, hq, rfl⟩ := Finset.mem_image.mp mem
    exact Finset.mem_range.mpr (h.inside q hq).1
  · rw [Finset.card_range, Finset.card_image_of_injOn h.rowsApart, full]

theorem columns_subset (h : Pairing n m s) : s.image Prod.snd ⊆ Finset.range m := by
  intro j mem
  obtain ⟨q, hq, rfl⟩ := Finset.mem_image.mp mem
  exact Finset.mem_range.mpr (h.inside q hq).2

/-- The potentials of the pairs are those of all rows and of the columns in pairs. -/
theorem sum_potentials (h : Pairing n m s) (full : s.card = n) :
    ∑ q ∈ s, (u q.1 + v q.2) = ∑ i ∈ Finset.range n, u i + ∑ j ∈ s.image Prod.snd, v j := by
  calc ∑ q ∈ s, (u q.1 + v q.2) = ∑ q ∈ s, u q.1 + ∑ q ∈ s, v q.2 := Finset.sum_add_distrib
    _ = ∑ i ∈ s.image Prod.fst, u i + ∑ j ∈ s.image Prod.snd, v j := by
      rw [Finset.sum_image h.rowsApart, Finset.sum_image h.columnsApart]
    _ = ∑ i ∈ Finset.range n, u i + ∑ j ∈ s.image Prod.snd, v j := by rw [h.rows_eq full]

theorem bound (h : Pairing n m s) (full : s.card = n)
    (fair : ∀ i < n, ∀ j < m, u i + v j ≤ cost i j) (price : ∀ j < m, v j ≤ 0) :
    ∑ i ∈ Finset.range n, u i + ∑ j ∈ Finset.range m, v j ≤ ∑ q ∈ s, cost q.1 q.2 := by
  have left : ∑ j ∈ Finset.range m \ s.image Prod.snd, v j ≤ 0 := by
    apply Finset.sum_nonpos
    intro j mem
    exact price j (Finset.mem_range.mp (Finset.mem_sdiff.mp mem).1)
  have columns := Finset.sum_sdiff (f := v) h.columns_subset
  calc ∑ i ∈ Finset.range n, u i + ∑ j ∈ Finset.range m, v j
      ≤ ∑ i ∈ Finset.range n, u i + ∑ j ∈ s.image Prod.snd, v j := by linarith
    _ = ∑ q ∈ s, (u q.1 + v q.2) := (h.sum_potentials u v full).symm
    _ ≤ ∑ q ∈ s, cost q.1 q.2 := by
      apply Finset.sum_le_sum
      intro q hq
      exact fair q.1 (h.inside q hq).1 q.2 (h.inside q hq).2

theorem exact (h : Pairing n m s) (full : s.card = n)
    (tight : ∀ q ∈ s, cost q.1 q.2 = u q.1 + v q.2)
    (free : ∀ j < m, j ∉ s.image Prod.snd → v j = 0) :
    ∑ q ∈ s, cost q.1 q.2 = ∑ i ∈ Finset.range n, u i + ∑ j ∈ Finset.range m, v j := by
  have left : ∑ j ∈ Finset.range m \ s.image Prod.snd, v j = 0 := by
    apply Finset.sum_eq_zero
    intro j mem
    obtain ⟨hj, unpaired⟩ := Finset.mem_sdiff.mp mem
    exact free j (Finset.mem_range.mp hj) unpaired
  have columns := Finset.sum_sdiff (f := v) h.columns_subset
  calc ∑ q ∈ s, cost q.1 q.2 = ∑ q ∈ s, (u q.1 + v q.2) := Finset.sum_congr rfl tight
    _ = ∑ i ∈ Finset.range n, u i + ∑ j ∈ s.image Prod.snd, v j := h.sum_potentials u v full
    _ = ∑ i ∈ Finset.range n, u i + ∑ j ∈ Finset.range m, v j := by linarith

theorem swap (h : Pairing n m s) : Pairing m n (s.image Prod.swap) where
  inside q mem := by
    obtain ⟨q', hq', rfl⟩ := Finset.mem_image.mp mem
    exact (h.inside q' hq').symm
  rowsApart := by
    intro q hq q' hq' same
    obtain ⟨p, hp, rfl⟩ := Finset.mem_image.mp (Finset.mem_coe.mp hq)
    obtain ⟨p', hp', rfl⟩ := Finset.mem_image.mp (Finset.mem_coe.mp hq')
    rw [h.columnsApart hp hp' same]
  columnsApart := by
    intro q hq q' hq' same
    obtain ⟨p, hp, rfl⟩ := Finset.mem_image.mp (Finset.mem_coe.mp hq)
    obtain ⟨p', hp', rfl⟩ := Finset.mem_image.mp (Finset.mem_coe.mp hq')
    rw [h.rowsApart hp hp' same]

end Pairing

/-- A pairing of as many rows and columns as there are of the fewer that costs no more than any other
pairing of as many. -/
structure Least (cost : Nat → Nat → ℚ) (n m : Nat) (s : Finset (Nat × Nat)) : Prop where
  pairing : Pairing n m s
  size : s.card = min n m
  least : ∀ s', Pairing n m s' → s'.card = min n m →
    ∑ q ∈ s, cost q.1 q.2 ≤ ∑ q ∈ s', cost q.1 q.2

namespace Least

variable {n m : Nat} {s : Finset (Nat × Nat)} {cost : Nat → Nat → ℚ}

theorem congr {cost' : Nat → Nat → ℚ} (h : Least cost n m s)
    (same : ∀ i < n, ∀ j < m, cost i j = cost' i j) : Least cost' n m s where
  pairing := h.pairing
  size := h.size
  least s' h' size := by
    have sum {s : Finset (Nat × Nat)} (h : Pairing n m s) :
        ∑ q ∈ s, cost q.1 q.2 = ∑ q ∈ s, cost' q.1 q.2 :=
      Finset.sum_congr rfl fun q hq => same q.1 (h.inside q hq).1 q.2 (h.inside q hq).2
    rw [← sum h.pairing, ← sum h']
    exact h.least s' h' size

theorem swap (h : Least cost n m s) : Least (fun j i => cost i j) m n (s.image Prod.swap) where
  pairing := h.pairing.swap
  size := by rw [Finset.card_image_of_injective s Prod.swap_injective, h.size, Nat.min_comm]
  least s' h' size := by
    rw [Finset.sum_image Prod.swap_injective.injOn]
    have back := h.least (s'.image Prod.swap) h'.swap (by
      rw [Finset.card_image_of_injective s' Prod.swap_injective, size, Nat.min_comm])
    rwa [Finset.sum_image Prod.swap_injective.injOn] at back

theorem empty (cost : Nat → Nat → ℚ) (n : Nat) : Least cost n 0 ∅ where
  pairing := ⟨by simp, by simp, by simp⟩
  size := (Nat.min_zero n).symm
  least s' _ size := by
    rw [Nat.min_zero] at size
    rw [Finset.card_eq_zero.mp size]

end Least

/-- The pairs of each row with the column given to it. -/
def chosen (ms : List (Option Nat)) : Finset (Nat × Nat) :=
  (ms.zipIdx.filterMap fun (column, i) => column.map fun j => (i, j)).toFinset

theorem mem_chosen {ms : List (Option Nat)} {i j : Nat} :
    (i, j) ∈ chosen ms ↔ ms[i]? = some (some j) := by
  unfold chosen
  rw [List.mem_toFinset, List.mem_filterMap]
  constructor
  · intro ⟨⟨column, k⟩, mem, here⟩
    obtain ⟨j', rfl, same⟩ := Option.map_eq_some_iff.mp here
    cases same
    exact List.mk_mem_zipIdx_iff_getElem?.mp mem
  · intro here
    exact ⟨(some j, i), List.mk_mem_zipIdx_iff_getElem?.mpr here, rfl⟩

theorem mem_chosen_iff_find {R : Nat → Nat → Prop} [∀ j i, Decidable (R j i)] {n m i j : Nat} :
    (i, j) ∈ chosen (firstColumns R n m) ↔
      i < n ∧ ((List.range m).find? fun j => decide (R j i)) = some j := by
  rw [mem_chosen]
  by_cases hi : i < n
  · rw [getElem?_firstColumns hi, Option.some.injEq]
    exact (and_iff_right hi).symm
  · refine iff_of_false (fun here => ?_) fun h => hi h.1
    simp [firstColumns, Nat.not_lt.mp hi] at here

/-- The pairs of the first columns of rows, where no row has two. -/
theorem mem_chosen_firstColumns {R : Nat → Nat → Prop} [∀ j i, Decidable (R j i)] {n m : Nat}
    (alone : ∀ j < m, ∀ j' < m, ∀ i, R j i → R j' i → j = j') {i j : Nat} :
    (i, j) ∈ chosen (firstColumns R n m) ↔ i < n ∧ j < m ∧ R j i := by
  rw [mem_chosen_iff_find]
  refine and_congr_right fun hi => ⟨of_find, fun ⟨hj, own⟩ => ?_⟩
  obtain ⟨j', found⟩ := exists_find hj own
  obtain ⟨hj', own'⟩ := of_find found
  rw [found, alone j hj j' hj' i own own']

/-! ## Problems -/

section
variable {p : Problem (WithTop ℚ)} (costs : ∀ i j, p.cost i j ≠ ⊤) (wide : p.rows ≤ p.columns)
include costs wide

theorem after_fair : ∀ r ≤ p.rows, (p.after r).Fair p r := by
  intro r
  induction r with
  | zero =>
    intro _
    have unowned {j : Nat} (hj : j < p.columns) : (p.after 0).ownerOf j = none := getD_tabulate _ _ hj
    have zero {j : Nat} (hj : j < p.columns) :
        value ((p.after 0).columnPotential.getD j Cost.zero) = 0 :=
      congrArg value (getD_tabulate _ _ hj)
    constructor
    case fair => exact fun k hk => absurd hk (Nat.not_lt_zero k)
    case tight => exact fun j hj k own => nomatch (unowned hj).symm.trans own
    case price => exact fun j hj => le_of_eq (zero hj)
    case free => exact fun j hj _ => zero hj
    case below => exact fun j hj k own => nomatch (unowned hj).symm.trans own
  | succ r ih =>
    intro hr
    rw [Problem.after_succ]
    exact assign_fair costs (after_sound numbers_exact costs wide r (by omega)) (ih (by omega))
      (by omega) wide

theorem final_fair : p.final.Fair p p.rows :=
  after_fair costs wide p.rows le_rfl

theorem mem_chosen_solve {i j : Nat} :
    (i, j) ∈ chosen p.solve ↔ j < p.columns ∧ p.final.ownerOf j = some i := by
  have fair := final_fair costs wide
  have owners := (final_sound numbers_exact costs wide).owners fair.below
  rw [Problem.solve_eq, mem_chosen_firstColumns owners.alone]
  exact ⟨fun ⟨_, hj, own⟩ => ⟨hj, own⟩, fun ⟨hj, own⟩ => ⟨fair.below j hj i own, hj, own⟩⟩

theorem pairing_solve : Pairing p.rows p.columns (chosen p.solve) ∧
    (chosen p.solve).card = p.rows := by
  have fair := final_fair costs wide
  have sound := final_sound numbers_exact costs wide
  have alone := (sound.owners fair.below).alone
  have pairing : Pairing p.rows p.columns (chosen p.solve) := by
    constructor
    case inside =>
      intro ⟨i, j⟩ mem
      obtain ⟨hj, own⟩ := (mem_chosen_solve costs wide).mp mem
      exact ⟨fair.below j hj i own, hj⟩
    case rowsApart =>
      intro ⟨i, j⟩ mem ⟨i', j'⟩ mem' (same : i = i')
      obtain ⟨hj, own⟩ := (mem_chosen_solve costs wide).mp mem
      obtain ⟨hj', own'⟩ := (mem_chosen_solve costs wide).mp mem'
      subst same
      rw [alone j hj j' hj' i own own']
    case columnsApart =>
      intro ⟨i, j⟩ mem ⟨i', j'⟩ mem' (same : j = j')
      obtain ⟨_, own⟩ := (mem_chosen_solve costs wide).mp mem
      obtain ⟨_, own'⟩ := (mem_chosen_solve costs wide).mp mem'
      subst same
      rw [p.owner_unique j i i' own own']
  have rows : (chosen p.solve).image Prod.fst = Finset.range p.rows := by
    ext i
    rw [Finset.mem_image, Finset.mem_range]
    constructor
    · intro ⟨q, mem, same⟩
      rw [← same]
      exact (pairing.inside q mem).1
    · intro hi
      obtain ⟨j, own⟩ := sound.assigned i hi
      exact ⟨(i, j), (mem_chosen_solve costs wide).mpr ⟨sound.inside own, own⟩, rfl⟩
  refine ⟨pairing, ?_⟩
  rw [← Finset.card_image_of_injOn pairing.rowsApart, rows, Finset.card_range]

theorem least_solve : Least (fun i j => value (p.cost i j)) p.rows p.columns (chosen p.solve) := by
  have fair := final_fair costs wide
  obtain ⟨pairing, all⟩ := pairing_solve costs wide
  let cost (i j : Nat) : ℚ := value (p.cost i j)
  let u (i : Nat) : ℚ := value (p.final.rowPotential.getD i Cost.zero)
  let v (j : Nat) : ℚ := value (p.final.columnPotential.getD j Cost.zero)
  have size := Nat.min_eq_left wide
  refine ⟨pairing, by rw [size]; exact all, fun s h full => ?_⟩
  calc ∑ q ∈ chosen p.solve, cost q.1 q.2
      = ∑ i ∈ Finset.range p.rows, u i + ∑ j ∈ Finset.range p.columns, v j := by
        apply pairing.exact cost u v all
        · intro ⟨i, j⟩ mem
          obtain ⟨hj, own⟩ := (mem_chosen_solve costs wide).mp mem
          have none := fair.tight j hj i own
          unfold slack at none
          show value (p.cost i j) = u i + v j
          linarith
        · intro j hj unpaired
          apply fair.free j hj
          apply Option.eq_none_iff_forall_ne_some.mpr
          intro i own
          exact unpaired (Finset.mem_image.mpr
            ⟨(i, j), (mem_chosen_solve costs wide).mpr ⟨hj, own⟩, rfl⟩)
    _ ≤ ∑ q ∈ s, cost q.1 q.2 := by
        apply h.bound cost u v (full.trans size)
        · intro i hi j hj
          have least := fair.fair i hi j hj
          unfold slack at least
          show u i + v j ≤ value (p.cost i j)
          linarith
        · exact fair.price

end

/-! ## Matrices -/

/-- A matrix of numbers as costs for the solver. -/
def exactCosts (costs : List (List ℚ)) : List (List (WithTop ℚ)) :=
  costs.map (List.map WithTop.some)

def entry (costs : List (List ℚ)) (i j : Nat) : ℚ := (costs.getD i []).getD j 0

theorem width_exactCosts (costs : List (List ℚ)) : width (exactCosts costs) = width costs := by
  cases costs with
  | nil => rfl
  | cons row rows => simp [width, exactCosts]

theorem getD_map_coe (row : List ℚ) (j : Nat) :
    (row.map WithTop.some).toArray.getD j Cost.zero = (row.getD j 0 : ℚ) := by
  by_cases hj : j < row.length
  · simp [hj]
  · simp [Nat.not_lt.mp hj, Cost.zero]

theorem cost_upright (costs : List (List ℚ)) (i j : Nat) :
    (upright (exactCosts costs)).cost i j = entry costs i j := by
  unfold Problem.cost upright exactCosts entry
  by_cases hi : i < costs.length
  · simpa [hi] using getD_map_coe costs[i] j
  · simpa [Nat.not_lt.mp hi] using getD_map_coe [] j

theorem cost_transposed (costs : List (List ℚ)) {i j : Nat} (hi : i < costs.length)
    (hj : j < width costs) : (transposed (exactCosts costs)).cost j i = entry costs i j := by
  have hi' : i < (exactCosts costs).length := by simpa [exactCosts] using hi
  have hj' : j < width (exactCosts costs) := by rwa [width_exactCosts]
  unfold Problem.cost transposed
  rw [getD_tabulate _ _ hj', getD_tabulate _ _ hi']
  exact cost_upright costs i j

theorem finite_exactCosts (costs : List (List ℚ)) :
    ∀ row ∈ exactCosts costs, ∀ x ∈ row, x ≠ ⊤ := by
  intro row hrow x hx
  obtain ⟨xs, _, rfl⟩ := List.mem_map.mp hrow
  obtain ⟨y, _, rfl⟩ := List.mem_map.mp hx
  exact WithTop.coe_ne_top

theorem chosen_transposed {costs : List (List (WithTop ℚ))} :
    chosen (firstColumns (fun j i => (transposed costs).solve[j]? = some (some i)) costs.length
      (width costs)) = (chosen (transposed costs).solve).image Prod.swap := by
  have bounds {i j : Nat} (here : (transposed costs).solve[j]? = some (some i)) :
      i < costs.length ∧ j < width costs := by
    have inside := mem_chosen.mpr here
    rw [Problem.solve_eq, mem_chosen_iff_find] at inside
    exact ⟨(of_find (R := fun i j => (transposed costs).final.ownerOf i = some j) inside.2).1,
      inside.1⟩
  have alone : ∀ j < width costs, ∀ j' < width costs, ∀ i,
      (transposed costs).solve[j]? = some (some i) →
        (transposed costs).solve[j']? = some (some i) → j = j' :=
    fun j _ j' _ i here here' => solve_unique here here'
  ext ⟨i, j⟩
  rw [mem_chosen_firstColumns alone, Finset.mem_image]
  constructor
  · intro ⟨_, _, here⟩
    exact ⟨(j, i), mem_chosen.mpr here, rfl⟩
  · intro ⟨q, mem, same⟩
    obtain rfl : q = (j, i) := Prod.swap_injective same
    have here := mem_chosen.mp mem
    exact ⟨(bounds here).1, (bounds here).2, here⟩

/-- **The assignment that the solver returns costs least** among all ways to take rows and columns of a
matrix together, as many of them as there are of the fewer, and none of them twice. -/
theorem optimal_least (costs : List (List ℚ)) :
    Least (entry costs) costs.length (width costs) (chosen (optimal (exactCosts costs))) := by
  have rows : (exactCosts costs).length = costs.length := List.length_map _
  have columns := width_exactCosts costs
  have numbers := finite_exactCosts costs
  rw [optimal_eq, ← rows, ← columns]
  split
  · next narrow =>
    have nothing : chosen ((exactCosts costs).map fun _ => none) = ∅ := by
      apply Finset.eq_empty_of_forall_notMem
      intro q mem
      rw [← Prod.mk.eta (p := q), mem_chosen, List.getElem?_map] at mem
      obtain ⟨_, _, none⟩ := Option.map_eq_some_iff.mp mem
      cases none
    rw [nothing, narrow]
    exact Least.empty _ _
  · split
    · next wide =>
      apply (least_solve (numbers_upright numbers_exact numbers) wide).congr
      intro i hi j hj
      rw [cost_upright]
      rfl
    · next tall =>
      rw [chosen_transposed]
      have tall' : width (exactCosts costs) ≤ (exactCosts costs).length := by omega
      apply (least_solve (numbers_transposed numbers_exact numbers) tall').swap.congr
      intro i hi j hj
      rw [cost_transposed costs (rows ▸ hi) (columns ▸ hj)]
      rfl

end MailRules.Assignment
