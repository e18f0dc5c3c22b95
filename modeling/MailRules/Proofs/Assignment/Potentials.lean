import MailRules.Proofs.Assignment.Search
import Mathlib.Tactic.Linarith

/-!
The potentials of the assignment solver bound the cost of every assignment from below.

Costs are exact here. The slack of a row in a column is its cost less the potentials of both. Between
two searches no slack of an assigned row is negative, the slack of a row in its own column is zero, no
column has a positive potential, and a column that is free has none (`State.Fair`).

A turn of a search raises the rows it has seen by the cost of the column it takes and lowers the
columns it has taken by as much (`Search.Sound.slack_turn`). That cost is the least slack of a row seen in a
column left, which is known since each column left remembers the least slack met and the row it was met
in (`Search.Fair`, field `reached`). So no slack falls below zero, and the slack at which the next
column was reached becomes zero. The first turn may go below zero, but it has taken no column yet.

What is proved:
  1. `choose_le`: no column costs less than the one chosen.
  2. `Search.Fair.lowered`: what a column that is left costs, the new row taken into account.
  3. `Search.Fair.slack_turn`, `Search.Fair.reachedFrom_turn`, `Search.Fair.reached_turn`: what a
     turn leaves of the slacks, of the columns taken and of those left.
  4. `Search.turn_fair`: so a turn keeps the invariant, and `Search.run_fair`: a search ends with it.
  5. `Route.owner_augment`: each column on the way back gets the row that it was reached from.
  6. `assign_fair`: the potentials are fair after each further row.
-/

namespace MailRules.Assignment

/-! ## Exact costs -/

def value (x : WithTop ℚ) : ℚ := x.untopD 0

theorem coe_value {x : WithTop ℚ} (h : x ≠ ⊤) : (value x : WithTop ℚ) = x := by
  lift x to ℚ using h
  rfl

theorem value_add {x y : WithTop ℚ} (hx : x ≠ ⊤) (hy : y ≠ ⊤) :
    value (Cost.add x y) = value x + value y := by
  lift x to ℚ using hx
  lift y to ℚ using hy
  rfl

theorem value_sub {x y : WithTop ℚ} (hx : x ≠ ⊤) (hy : y ≠ ⊤) :
    value (Cost.sub x y) = value x - value y := by
  lift x to ℚ using hx
  lift y to ℚ using hy
  rfl

theorem choose_le {cost : Nat → WithTop ℚ} {n best i : Nat} :
    cost (choose cost n best i) ≤ cost best ∧
      ∀ j, i ≤ j → j < n → cost (choose cost n best i) ≤ cost j := by
  fun_induction choose cost n best i with
  | case1 best i hi ih =>
    obtain ⟨chosen, later⟩ := ih
    have both : cost (if Cost.preferred (cost i) (cost best) then i else best) ≤ cost best ∧
        cost (if Cost.preferred (cost i) (cost best) then i else best) ≤ cost i := by
      by_cases lower : cost i < cost best
      · have preferred : Cost.preferred (cost i) (cost best) = true := decide_eq_true lower
        rw [if_pos preferred]
        exact ⟨le_of_lt lower, le_refl _⟩
      · have kept : ¬ Cost.preferred (cost i) (cost best) = true := fun h => lower (of_decide_eq_true h)
        rw [if_neg kept]
        exact ⟨le_refl _, not_lt.mp lower⟩
    refine ⟨le_trans chosen both.1, fun j hij hj => ?_⟩
    by_cases here : j = i
    · subst here
      exact le_trans chosen both.2
    · exact later j (by omega) hj
  | case2 best i hi =>
    exact ⟨le_refl _, fun j hij hj => by omega⟩

/-! ## Slack -/

/-- The cost of a row in a column, less the potentials of both. -/
def slack (p : Problem (WithTop ℚ)) (rows columns : Array (WithTop ℚ)) (k j : Nat) : ℚ :=
  value (p.cost k j) - value (rows.getD k Cost.zero) - value (columns.getD j Cost.zero)

/-- The row that a column was reached from, if it was reached over the given column: the row of that
column, or the new row if it was reached first. -/
def rowBefore (owner : Nat → Option Nat) (row : Nat) : Option Nat → Option Nat
  | none => some row
  | some j => owner j

namespace Search

variable {p : Problem (WithTop ℚ)} {s : Search (WithTop ℚ)} {i r : Nat} {origin : Option Nat}
  {path : List Nat} {owner : Nat → Option Nat}

/-- The slack of a row in a column during a search. -/
def slack (p : Problem (WithTop ℚ)) (s : Search (WithTop ℚ)) (k j : Nat) : ℚ :=
  Assignment.slack p s.rowPotential s.columnPotential k j

/-- Whether the search went through a row. -/
def Seen (s : Search (WithTop ℚ)) (k : Nat) : Prop := s.rowsSeen.getD k false = true

instance (k : Nat) : Decidable (s.Seen k) := inferInstanceAs (Decidable (_ = true))

/-- Columns that are owned by the rows before `r`, each row having one column at most. -/
structure Owners (p : Problem (WithTop ℚ)) (owner : Nat → Option Nat) (r : Nat) : Prop where
  below : ∀ j < p.columns, ∀ k, owner j = some k → k < r
  alone : ∀ j < p.columns, ∀ j' < p.columns, ∀ k, owner j = some k → owner j' = some k → j = j'

/-- The potentials of a search for a column for the row `r`, when the rows before it are assigned. -/
structure Fair (p : Problem (WithTop ℚ)) (owner : Nat → Option Nat) (r : Nat)
    (s : Search (WithTop ℚ)) (origin : Option Nat) (path : List Nat) : Prop where
  /-- No slack of an assigned row is negative, nor of the new row once it was seen. -/
  fair : ∀ k < p.rows, k < r ∨ s.Seen k → ∀ j < p.columns, 0 ≤ s.slack p k j
  tight : ∀ j < p.columns, ∀ k, owner j = some k → s.slack p k j = 0
  price : ∀ j < p.columns, value (s.columnPotential.getD j Cost.zero) ≤ 0
  free : ∀ j < p.columns, owner j = none → value (s.columnPotential.getD j Cost.zero) = 0
  first : origin = none → path = [] ∧ ∀ k, ¬ s.Seen k
  begun : origin ≠ none → s.Seen r
  /-- The rows seen, with the one to go on from, are those of the columns taken. -/
  seen : ∀ j < p.columns, ∀ k, owner j = some k →
    (s.Seen k ∨ rowBefore owner r origin = some k ↔ j ∈ path)
  /-- A column that was taken has no slack in the row it was reached from. -/
  reachedFrom : ∀ j ∈ path, ∃ k < p.rows, rowBefore owner r (s.via.getD j none) = some k ∧
    s.Seen k ∧ s.slack p k j = 0
  /-- A column that is left knows the least slack met, and the row it was met in. -/
  reached : ∀ j < p.columns, j ∉ path →
    (s.least.getD j Cost.unreached = ⊤ ∧ ∀ k, ¬ s.Seen k) ∨
    ∃ x : ℚ, s.least.getD j Cost.unreached = x ∧ (∀ k < p.rows, s.Seen k → x ≤ s.slack p k j) ∧
      ∃ k < p.rows, rowBefore owner r (s.via.getD j none) = some k ∧ s.Seen k ∧ s.slack p k j = x

theorem turn_rowsSeen {k : Nat} (hk : k < p.rows) :
    (s.turn p i origin).1.Seen k ↔ k = i ∨ s.Seen k := by
  unfold Seen
  show (tabulate p.rows _).getD k false = true ↔ _
  rw [getD_tabulate _ _ hk]
  simp

theorem turn_rowPotential (rows : ∀ k, s.rowPotential.getD k Cost.zero ≠ ⊤) {δ : ℚ}
    (next : candidate p s i origin (s.turn p i origin).2 = δ) {k : Nat} (hk : k < p.rows) :
    value ((s.turn p i origin).1.rowPotential.getD k Cost.zero) =
      value (s.rowPotential.getD k Cost.zero) + if (s.turn p i origin).1.Seen k then δ else 0 := by
  have read : (s.turn p i origin).1.rowPotential.getD k Cost.zero =
      if k = i || s.rowsSeen.getD k false then
        Cost.add (s.rowPotential.getD k Cost.zero) (candidate p s i origin (s.turn p i origin).2)
      else s.rowPotential.getD k Cost.zero := getD_tabulate _ _ hk
  rw [read, next, if_congr (turn_rowsSeen hk) rfl rfl]
  by_cases seen : k = i ∨ s.Seen k
  · rw [if_pos seen, if_pos (by simpa [Seen] using seen), value_add (rows k) WithTop.coe_ne_top]
    rfl
  · rw [if_neg seen, if_neg (by simpa [Seen] using seen), add_zero]

theorem turn_columnPotential (columns : ∀ j, s.columnPotential.getD j Cost.zero ≠ ⊤) {δ : ℚ}
    (next : candidate p s i origin (s.turn p i origin).2 = δ) {j : Nat} (hj : j < p.columns) :
    value ((s.turn p i origin).1.columnPotential.getD j Cost.zero) =
      value (s.columnPotential.getD j Cost.zero) - if s.taken origin j = true then δ else 0 := by
  have read : (s.turn p i origin).1.columnPotential.getD j Cost.zero =
      if s.taken origin j then
        Cost.sub (s.columnPotential.getD j Cost.zero) (candidate p s i origin (s.turn p i origin).2)
      else s.columnPotential.getD j Cost.zero := getD_tabulate _ _ hj
  rw [read, next]
  by_cases taken : s.taken origin j = true
  · rw [if_pos taken, if_pos taken, value_sub (columns j) WithTop.coe_ne_top]
    rfl
  · rw [if_neg taken, if_neg taken, sub_zero]

section
variable (costs : ∀ i j, p.cost i j ≠ ⊤) (h : s.Sound (· ≠ ⊤) p origin path)
include costs h

theorem Sound.coe_slack (k j : Nat) : (s.slack p k j : WithTop ℚ) = Search.reduced p s k j := by
  have inner := numbers_exact.sub (costs k j) (h.rows k)
  have number := h.reduced numbers_exact costs (i := k) j
  calc (s.slack p k j : WithTop ℚ)
      = (value (Search.reduced p s k j) : WithTop ℚ) := by
        rw [Search.reduced, value_sub inner (h.columns j), value_sub (costs k j) (h.rows k)]
        rfl
    _ = Search.reduced p s k j := coe_value number

end

/-- A turn raises the rows seen, and lowers the columns taken, by the cost of the next column. -/
theorem Sound.slack_turn (h : s.Sound (· ≠ ⊤) p origin path) {δ : ℚ}
    (next : candidate p s i origin (s.turn p i origin).2 = δ) {k j : Nat} (hk : k < p.rows)
    (hj : j < p.columns) : (s.turn p i origin).1.slack p k j =
      s.slack p k j - (if (s.turn p i origin).1.Seen k then δ else 0) + if j ∈ path then δ else 0 := by
  unfold slack Assignment.slack
  rw [turn_rowPotential h.rows next hk, turn_columnPotential h.columns next hj,
    if_congr (h.taken j hj) rfl rfl]
  linarith

section
variable (costs : ∀ i j, p.cost i j ≠ ⊤) (h : s.Sound (· ≠ ⊤) p origin path)
  (fair : s.Fair p owner r origin path) (current : rowBefore owner r origin = some i)
  (hi : i < p.rows)
include costs h fair current hi

/-- What a column that is left costs is the least slack of a row seen, the row to go on from among
them. -/
theorem Fair.lowered {j : Nat} (hj : j < p.columns) (left : j ∉ path) :
    ∃ x : ℚ, (Search.lowered p s i origin).getD j Cost.unreached = x ∧
      (∀ k < p.rows, (s.turn p i origin).1.Seen k → x ≤ s.slack p k j) ∧
      ∃ k < p.rows, rowBefore owner r ((s.turn p i origin).1.via.getD j none) = some k ∧
        (s.turn p i origin).1.Seen k ∧ s.slack p k j = x := by
  have here := h.coe_slack costs i j
  rw [getD_lowered hj, turn_via hj]
  by_cases better : improves p s i origin j = true
  · rw [if_pos better, if_pos better]
    refine ⟨s.slack p i j, here.symm, fun k hk seen => ?_, i, hi, current,
      (turn_rowsSeen hi).mpr (.inl rfl), rfl⟩
    rcases (turn_rowsSeen hk).mp seen with same | old
    · rw [same]
    · rcases fair.reached j hj left with ⟨_, none⟩ | ⟨x, least, lowest, _⟩
      · exact absurd old (none k)
      · have lower : Search.reduced p s i j < s.least.getD j Cost.unreached :=
          of_decide_eq_true (Bool.and_eq_true_iff.mp better).2
        rw [least, ← here, WithTop.coe_lt_coe] at lower
        exact le_trans (le_of_lt lower) (lowest k hk old)
  · rw [if_neg better, if_neg better]
    have notLower : ¬ Search.reduced p s i j < s.least.getD j Cost.unreached := by
      intro lower
      apply better
      rw [improves, h.untaken hj left]
      exact decide_eq_true lower
    rcases fair.reached j hj left with ⟨least, _⟩ | ⟨x, least, lowest, k, hk, before, old, exact_⟩
    · rw [least, ← here] at notLower
      exact absurd (WithTop.coe_lt_top _) notLower
    · rw [least, ← here, WithTop.coe_lt_coe] at notLower
      refine ⟨x, least, fun k' hk' seen => ?_, k, hk, before,
        (turn_rowsSeen hk).mpr (.inr old), exact_⟩
      rcases (turn_rowsSeen hk').mp seen with same | old'
      · rw [same]
        exact not_lt.mp notLower
      · exact lowest k' hk' old'

/-- The column that is taken next costs the least slack of a row seen in a column left. -/
theorem Fair.cost_next (room : ∃ j < p.columns, j ∉ path) :
    ∃ δ : ℚ, candidate p s i origin (s.turn p i origin).2 = δ ∧
      (∀ j < p.columns, j ∉ path → ∀ k < p.rows, (s.turn p i origin).1.Seen k →
        δ ≤ s.slack p k j) ∧
      ∃ k < p.rows, rowBefore owner r ((s.turn p i origin).1.via.getD (s.turn p i origin).2 none) =
        some k ∧ (s.turn p i origin).1.Seen k ∧ s.slack p k (s.turn p i origin).2 = δ := by
  obtain ⟨inside, new, _⟩ := h.next numbers_exact costs (i := i) room
  have left {j : Nat} (hj : j < p.columns) (fresh : j ∉ path) : candidate p s i origin j =
      (Search.lowered p s i origin).getD j Cost.unreached := by
    rw [candidate, h.untaken hj fresh]
    rfl
  obtain ⟨δ, cost, _, reached⟩ := fair.lowered costs h current hi inside new
  refine ⟨δ, (left inside new).trans cost, fun j hj fresh k hk seen => ?_, reached⟩
  obtain ⟨x, cost', lowest, _⟩ := fair.lowered costs h current hi hj fresh
  have least : candidate p s i origin (s.turn p i origin).2 ≤ candidate p s i origin j := by
    rw [turn_next]
    by_cases first : j = 0
    · rw [first]
      exact choose_le.1
    · exact choose_le.2 j (by omega) hj
  rw [left inside new, left hj fresh, cost, cost', WithTop.coe_le_coe] at least
  exact le_trans least (lowest k hk seen)

end

section
variable (owners : Owners p owner r) (h : s.Sound (· ≠ ⊤) p origin path)
  (fair : s.Fair p owner r origin path) (current : rowBefore owner r origin = some i)
include owners h current

/-- The row to go on from is the new one in the first turn, and an assigned one later. -/
theorem Owners.row_cases : origin = none ∧ i = r ∨ origin ≠ none ∧ i < r := by
  cases origin with
  | none => exact .inl ⟨rfl, (Option.some.inj current).symm⟩
  | some c =>
    exact .inr ⟨Option.some_ne_none c, owners.below c (h.inside c (h.origin c rfl)) i current⟩

/-- From the second turn on, all rows seen were assigned or seen before. -/
theorem Owners.seen_before {k : Nat} (hk : k < p.rows) (later : origin ≠ none)
    (seen : k < r ∨ (s.turn p i origin).1.Seen k) : k < r ∨ s.Seen k := by
  rcases seen with old | seen
  · exact .inl old
  · rcases (turn_rowsSeen hk).mp seen with same | old
    · have row := (owners.row_cases h current).resolve_left fun first => later first.1
      exact .inl (same ▸ row.2)
    · exact .inr old

include fair

omit owners h current in
theorem Fair.later {j : Nat} (taken : j ∈ path) : origin ≠ none := by
  intro first
  rw [(fair.first first).1] at taken
  exact absurd taken List.not_mem_nil

omit h in
/-- The rows seen after the turn are those of the columns taken before it. -/
theorem Fair.seen_turn (hr : r < p.rows) {j k : Nat} (hj : j < p.columns) (own : owner j = some k) :
    (s.turn p i origin).1.Seen k ↔ j ∈ path := by
  have hk : k < p.rows := lt_trans (owners.below j hj k own) hr
  rw [turn_rowsSeen hk, ← fair.seen j hj k own, current, Option.some.injEq, or_comm, eq_comm]

variable {δ : ℚ} (cost : candidate p s i origin (s.turn p i origin).2 = δ)
include cost

/-- No slack turns negative: where a row is raised, the slack in a column left is no less than what
it is raised by, and a column that was taken is lowered by as much, which is not negative. -/
theorem Fair.slack_turn
    (least : ∀ j < p.columns, j ∉ path → ∀ k < p.rows, (s.turn p i origin).1.Seen k →
      δ ≤ s.slack p k j) (nonneg : origin ≠ none → 0 ≤ δ) {k j : Nat} (hk : k < p.rows)
    (seen : k < r ∨ (s.turn p i origin).1.Seen k) (hj : j < p.columns) :
    0 ≤ (s.turn p i origin).1.slack p k j := by
  rw [h.slack_turn cost hk hj]
  by_cases taken : j ∈ path
  · have later : origin ≠ none := fair.later taken
    have old := fair.fair k hk (owners.seen_before h current hk later seen) j hj
    have positive := nonneg later
    rw [if_pos taken]
    split <;> linarith
  · rw [if_neg taken]
    by_cases raised : (s.turn p i origin).1.Seen k
    · have lowest := least j hj taken k hk raised
      rw [if_pos raised]
      linarith
    · have old := fair.fair k hk (.inl (seen.resolve_right raised)) j hj
      rw [if_neg raised]
      linarith

end

/-- A column that was taken keeps the row it was reached from, and has no slack in it. -/
theorem Fair.reachedFrom_turn (h : s.Sound (· ≠ ⊤) p origin path)
    (fair : s.Fair p owner r origin path) {δ : ℚ}
    (cost : candidate p s i origin (s.turn p i origin).2 = δ) {j : Nat} (old : j ∈ path) :
    ∃ k < p.rows, rowBefore owner r ((s.turn p i origin).1.via.getD j none) = some k ∧
      (s.turn p i origin).1.Seen k ∧ (s.turn p i origin).1.slack p k j = 0 := by
  obtain ⟨k, hk, before, seen, none⟩ := fair.reachedFrom j old
  have hj := h.inside j old
  have kept : ¬ improves p s i origin j = true := by
    rw [improves, (h.taken j hj).mpr old]
    exact Bool.false_ne_true
  have raised : (s.turn p i origin).1.Seen k := (turn_rowsSeen hk).mpr (.inr seen)
  refine ⟨k, hk, ?_, raised, ?_⟩
  · rw [turn_via hj, if_neg kept]
    exact before
  · rw [h.slack_turn cost hk hj, none, if_pos raised, if_pos old]
    linarith

section
variable (costs : ∀ i j, p.cost i j ≠ ⊤) (h : s.Sound (· ≠ ⊤) p origin path)
  (fair : s.Fair p owner r origin path) (current : rowBefore owner r origin = some i)
include costs h fair current

/-- A column that is left still knows the least slack, which sank with the slacks of the rows. -/
theorem Fair.reached_turn (hi : i < p.rows) {δ : ℚ}
    (cost : candidate p s i origin (s.turn p i origin).2 = δ) {j : Nat} (hj : j < p.columns)
    (left : j ∉ path) :
    ∃ x : ℚ, (s.turn p i origin).1.least.getD j Cost.unreached = x ∧
      (∀ k < p.rows, (s.turn p i origin).1.Seen k → x ≤ (s.turn p i origin).1.slack p k j) ∧
      ∃ k < p.rows, rowBefore owner r ((s.turn p i origin).1.via.getD j none) = some k ∧
        (s.turn p i origin).1.Seen k ∧ (s.turn p i origin).1.slack p k j = x := by
  obtain ⟨x, low, lowest, k, hk, before, seen, same⟩ := fair.lowered costs h current hi hj left
  refine ⟨x - δ, ?_, fun k' hk' seen' => ?_, k, hk, before, seen, ?_⟩
  · rw [turn_least hj (h.untaken hj left), low, cost]
    rfl
  · have old := lowest k' hk' seen'
    rw [h.slack_turn cost hk' hj, if_pos seen', if_neg left]
    linarith
  · rw [h.slack_turn cost hk hj, same, if_pos seen, if_neg left]
    linarith

theorem turn_fair (owners : Owners p owner r) (hr : r < p.rows)
    (owned : ∀ j ∈ path, owner j ≠ none) (room : ∃ j < p.columns, j ∉ path) :
    (s.turn p i origin).1.Fair p owner r (some (s.turn p i origin).2)
      ((s.turn p i origin).2 :: path) := by
  obtain ⟨inside, new, _⟩ := h.next numbers_exact costs (i := i) room
  have row := owners.row_cases h current
  have hi : i < p.rows := by omega
  obtain ⟨δ, cost, least, k₀, hk₀, before, seen₀, exact₀⟩ := fair.cost_next costs h current hi room
  -- From the second turn on all rows seen are fair, so that the cost is not negative.
  have nonneg (later : origin ≠ none) : 0 ≤ δ := by
    rw [← exact₀]
    exact fair.fair k₀ hk₀ (owners.seen_before h current hk₀ later (.inr seen₀)) _ inside
  have seen' {j k : Nat} (hj : j < p.columns) (own : owner j = some k) :=
    fair.seen_turn owners current hr hj own
  constructor
  case fair => exact fun k hk seen j => fair.slack_turn owners h current cost least nonneg hk seen
  case tight =>
    intro j hj k own
    have hk : k < p.rows := lt_trans (owners.below j hj k own) hr
    rw [h.slack_turn cost hk hj, fair.tight j hj k own, if_congr (seen' hj own) rfl rfl]
    linarith
  case price =>
    intro j hj
    have old := fair.price j hj
    rw [turn_columnPotential h.columns cost hj]
    by_cases taken : s.taken origin j = true
    · have positive := nonneg (fair.later ((h.taken j hj).mp taken))
      rw [if_pos taken]
      linarith
    · rw [if_neg taken]
      linarith
  case free =>
    intro j hj unowned
    have left : ¬ s.taken origin j = true := fun taken => owned j ((h.taken j hj).mp taken) unowned
    rw [turn_columnPotential h.columns cost hj, fair.free j hj unowned, if_neg left, sub_zero]
  case first => exact fun none => nomatch none
  case begun =>
    intro _
    rw [turn_rowsSeen hr]
    by_cases first : origin = none
    · exact .inl (by have := row.resolve_right fun later => later.1 first; exact this.2.symm)
    · exact .inr (fair.begun first)
  case seen =>
    intro j hj k own
    rw [seen' hj own, List.mem_cons, or_comm]
    refine or_congr_left ⟨fun next => ?_, fun same => ?_⟩
    · exact owners.alone j hj _ inside k own next
    · rw [← same]
      exact own
  case reachedFrom =>
    intro j mem
    rcases List.mem_cons.mp mem with rfl | old
    · refine ⟨k₀, hk₀, before, seen₀, ?_⟩
      rw [h.slack_turn cost hk₀ inside, exact₀, if_pos seen₀, if_neg new]
      linarith
    · exact fair.reachedFrom_turn h cost old
  case reached =>
    intro j hj mem
    rw [List.mem_cons, not_or] at mem
    exact .inr (fair.reached_turn costs h current hi cost hj mem.2)

end

theorem start_fair {t : State (WithTop ℚ)}
    (fair : ∀ k < r, ∀ j < p.columns,
      0 ≤ Assignment.slack p t.rowPotential t.columnPotential k j)
    (tight : ∀ j < p.columns, ∀ k, owner j = some k →
      Assignment.slack p t.rowPotential t.columnPotential k j = 0)
    (price : ∀ j < p.columns, value (t.columnPotential.getD j Cost.zero) ≤ 0)
    (free : ∀ j < p.columns, owner j = none → value (t.columnPotential.getD j Cost.zero) = 0)
    (below : ∀ j < p.columns, ∀ k, owner j = some k → k < r) :
    (Search.start p t).Fair p owner r none [] := by
  have unseen (k : Nat) : ¬ (Search.start p t).Seen k := by
    unfold Seen Search.start
    by_cases hk : k < p.rows
    · rw [getD_tabulate _ _ hk]
      exact Bool.false_ne_true
    · rw [getD_tabulate_of_le _ _ (not_lt.mp hk)]
      exact Bool.false_ne_true
  constructor
  case fair => exact fun k _ seen j hj => fair k (seen.resolve_right (unseen k)) j hj
  case tight => exact tight
  case price => exact price
  case free => exact free
  case first => exact fun _ => ⟨rfl, unseen⟩
  case begun => exact fun later => absurd rfl later
  case seen =>
    intro j hj k own
    have old := below j hj k own
    refine iff_of_false (fun seen => ?_) List.not_mem_nil
    rcases seen with seen | new
    · exact unseen k seen
    · obtain rfl : r = k := Option.some.inj new
      omega
  case reachedFrom => exact List.forall_mem_nil _
  case reached => exact fun j hj _ => .inl ⟨getD_tabulate _ _ hj, unseen⟩

theorem run_fair (costs : ∀ i j, p.cost i j ≠ ⊤) (owners : Owners p owner r) (hr : r < p.rows)
    (free : ∃ f < p.columns, owner f = none) :
    ∀ (turns i : Nat) {s : Search (WithTop ℚ)} {origin : Option Nat} {path : List Nat},
      s.Sound (· ≠ ⊤) p origin path → (∀ j ∈ path, owner j ≠ none) → s.Fair p owner r origin path →
        rowBefore owner r origin = some i → p.columns < path.length + turns →
        ∃ path', (∀ j ∈ path', owner j ≠ none) ∧ owner (s.run p owner turns i origin).2 = none ∧
          (s.run p owner turns i origin).1.Sound (· ≠ ⊤) p (some (s.run p owner turns i origin).2)
            ((s.run p owner turns i origin).2 :: path') ∧
          (s.run p owner turns i origin).1.Fair p owner r (some (s.run p owner turns i origin).2)
            ((s.run p owner turns i origin).2 :: path')
  | 0, i, s, origin, path, h, _, _, _, enough => by
    have short := (h.apart.subperm fun j hj => List.mem_range.mpr (h.inside j hj)).length_le
    rw [List.length_range] at short
    omega
  | turns + 1, i, s, origin, path, h, owned, fair, current, enough => by
    obtain ⟨f, hf, unowned⟩ := free
    have room : ∃ j < p.columns, j ∉ path := ⟨f, hf, fun old => owned f old unowned⟩
    obtain ⟨_, _, sound⟩ := turn_sound numbers_exact costs (i := i) h room
    have fair' := turn_fair costs h fair current owners hr owned room
    rw [run_succ]
    cases e : owner (s.turn p i origin).2 with
    | none => exact ⟨path, owned, e, sound, fair'⟩
    | some k =>
      apply run_fair costs owners hr ⟨f, hf, unowned⟩ turns k sound _ fair' e
      · rw [List.length_cons]; omega
      · exact List.forall_mem_cons.mpr ⟨by rw [e]; exact Option.some_ne_none k, owned⟩

end Search

/-! ## Moving up along a path -/

theorem Route.mem_of_via {via : Nat → Option Nat} {j : Nat} {ks : List Nat} (h : Route via j ks) :
    ∀ c ∈ j :: ks, ∀ d, via c = some d → d ∈ ks := by
  induction h with
  | first last =>
    intro c hc d hd
    rw [List.mem_singleton.mp hc, last] at hd
    cases hd
  | @back j k ks next _ ih =>
    intro c hc d hd
    rcases List.mem_cons.mp hc with rfl | hc
    · rw [next] at hd
      cases hd
      exact List.mem_cons_self
    · exact List.mem_cons_of_mem k (ih c hc d hd)

/-- On the way back each column gets the row that it was reached from; the others keep theirs. -/
theorem Route.owner_augment {via : Nat → Option Nat} {j : Nat} {ks : List Nat}
    (h : Route via j ks) (row : Nat) :
    ∀ (owner : Array (Option Nat)) (steps : Nat), ks.length < steps → (j :: ks).Nodup →
      (∀ k ∈ j :: ks, k < owner.size) → ∀ c,
      (Assignment.augment via row steps j owner).getD c none =
        if c ∈ j :: ks then rowBefore (owner.getD · none) row (via c) else owner.getD c none := by
  induction h with
  | @first j last =>
    intro owner steps long _ inside c
    obtain ⟨steps, rfl⟩ : ∃ n, steps = n + 1 := ⟨steps - 1, by simp at long; omega⟩
    rw [Assignment.augment, last]
    show (owner.setIfInBounds j (some row)).getD c none = _
    rw [getD_set (inside j List.mem_cons_self)]
    by_cases same : c = j
    · subst same
      rw [if_pos rfl, if_pos List.mem_cons_self, last]
      rfl
    · rw [if_neg same, if_neg (by simpa using same)]
  | @back j k ks next rest ih =>
    intro owner steps long apart inside c
    obtain ⟨steps, rfl⟩ : ∃ n, steps = n + 1 := ⟨steps - 1, by simp at long; omega⟩
    obtain ⟨fresh, apart⟩ := List.nodup_cons.mp apart
    have here := inside j List.mem_cons_self
    have read := getD_set here (owner.getD k none)
    rw [Assignment.augment, next]
    show (Assignment.augment via row steps k (owner.setIfInBounds j (owner.getD k none))).getD c none = _
    rw [ih _ steps (by simp at long; omega) apart
      (fun d hd => by simpa using inside d (List.mem_cons_of_mem j hd))]
    by_cases further : c ∈ k :: ks
    · -- The rows of the columns further back are where they were when these columns take them.
      rw [if_pos further, if_pos (List.mem_cons_of_mem j further)]
      cases e : via c with
      | none => rfl
      | some d =>
        have mem := rest.mem_of_via c further d e
        have other : d ≠ j := fun same => fresh (same ▸ List.mem_cons_of_mem k mem)
        show (owner.setIfInBounds j (owner.getD k none)).getD d none = owner.getD d none
        rw [read, if_neg other]
    · rw [if_neg further, read]
      by_cases same : c = j
      · subst same
        rw [if_pos rfl, if_pos List.mem_cons_self, next]
        rfl
      · have notMem : c ∉ j :: k :: ks := fun mem => further ((List.mem_cons.mp mem).resolve_left same)
        rw [if_neg same, if_neg notMem]

/-! ## Assigning rows -/

/-- A state in which the potentials are fair to the first `r` rows. -/
structure State.Fair (p : Problem (WithTop ℚ)) (s : State (WithTop ℚ)) (r : Nat) : Prop where
  fair : ∀ k < r, ∀ j < p.columns, 0 ≤ slack p s.rowPotential s.columnPotential k j
  tight : ∀ j < p.columns, ∀ k, s.ownerOf j = some k →
    slack p s.rowPotential s.columnPotential k j = 0
  price : ∀ j < p.columns, value (s.columnPotential.getD j Cost.zero) ≤ 0
  free : ∀ j < p.columns, s.ownerOf j = none → value (s.columnPotential.getD j Cost.zero) = 0
  below : ∀ j < p.columns, ∀ k, s.ownerOf j = some k → k < r

/-- As many columns are owned as rows are assigned, so that no row has two columns. -/
theorem State.Sound.owners {p : Problem (WithTop ℚ)} {s : State (WithTop ℚ)} {r : Nat}
    (h : s.Sound (· ≠ ⊤) p r) (below : ∀ j < p.columns, ∀ k, s.ownerOf j = some k → k < r) :
    Search.Owners p s.ownerOf r where
  below := below
  alone := by
    have ownedBy {j : Nat} : j ∈ (Finset.range p.columns).filter (s.ownerOf · ≠ none) ↔
        j < p.columns ∧ ∃ k, s.ownerOf j = some k := by
      rw [Finset.mem_filter, Finset.mem_range, Option.ne_none_iff_exists']
    have apart : Set.InjOn (fun j => (s.ownerOf j).getD 0)
        ((Finset.range p.columns).filter (s.ownerOf · ≠ none) : Finset Nat) := by
      apply Finset.injOn_of_surjOn_of_card_le (t := Finset.range r)
      · intro j mem
        obtain ⟨hj, k, own⟩ := ownedBy.mp (Finset.mem_coe.mp mem)
        rw [Finset.mem_coe, Finset.mem_range]
        show (s.ownerOf j).getD 0 < r
        rw [own]
        exact below j hj k own
      · intro k hk
        obtain ⟨j, own⟩ := h.assigned k (Finset.mem_range.mp hk)
        refine ⟨j, Finset.mem_coe.mpr (ownedBy.mpr ⟨h.inside own, k, own⟩), ?_⟩
        show (s.ownerOf j).getD 0 = k
        rw [own]
        rfl
      · rw [Finset.card_range]
        exact le_of_eq h.owned
    intro j hj j' hj' k own own'
    apply apart (Finset.mem_coe.mpr (ownedBy.mpr ⟨hj, k, own⟩))
      (Finset.mem_coe.mpr (ownedBy.mpr ⟨hj', k, own'⟩))
    show (s.ownerOf j).getD 0 = (s.ownerOf j').getD 0
    rw [own, own']

theorem assign_fair {p : Problem (WithTop ℚ)} (costs : ∀ i j, p.cost i j ≠ ⊤)
    {s : State (WithTop ℚ)} {r : Nat} (sound : s.Sound (· ≠ ⊤) p r) (fair : s.Fair p r)
    (hr : r < p.rows) (wide : p.rows ≤ p.columns) : (assign p s r).Fair p (r + 1) := by
  obtain ⟨path, owned, free, found_, fair_⟩ :=
    Search.run_fair costs (sound.owners fair.below) hr (sound.free (by omega)) (p.columns + 2) r
      (Search.start_sound sound.rows sound.columns) (List.forall_mem_nil _)
      (Search.start_fair fair.fair fair.tight fair.price fair.free fair.below) rfl
      (by rw [List.length_nil]; omega)
  rw [assign]
  generalize (Search.start p s).run p s.ownerOf (p.columns + 2) r none = found
    at free found_ fair_ ⊢
  obtain ⟨ks, route, behind, apart, within, short⟩ := found_.way
  have moved := route.owner_augment r s.owner (p.columns + 1) (by omega) apart
    (fun k hk => sound.size ▸ within k hk)
  -- A column is owned by the row it was reached from, or by the row it had.
  have cases_ {j k : Nat} (own : (augment (fun j => found.1.via.getD j none) r (p.columns + 1)
      found.2 s.owner).getD j none = some k) :
      j ∈ found.2 :: ks ∧ rowBefore s.ownerOf r (found.1.via.getD j none) = some k ∨
        s.ownerOf j = some k := by
    rw [moved] at own
    by_cases mem : j ∈ found.2 :: ks
    · rw [if_pos mem] at own
      exact .inl ⟨mem, own⟩
    · rw [if_neg mem] at own
      exact .inr own
  constructor
  case fair =>
    intro k hk j hj
    apply fair_.fair k (by omega) _ j hj
    rcases Nat.lt_succ_iff_lt_or_eq.mp hk with old | rfl
    · exact .inl old
    · exact .inr (fair_.begun (Option.some_ne_none _))
  case tight =>
    intro j hj k own
    rcases cases_ own with ⟨mem, before⟩ | old
    · obtain ⟨k', _, before', _, none⟩ := fair_.reachedFrom j ((behind.cons_cons found.2).subset mem)
      obtain rfl : k' = k := Option.some.inj (before'.symm.trans before)
      exact none
    · exact fair_.tight j hj k old
  case price => exact fair_.price
  case free =>
    intro j hj unowned
    apply fair_.free j hj
    have still := (route.augment r s.owner (p.columns + 1) (by omega) apart
      (fun k hk => sound.size ▸ within k hk) (fun k hk => owned k (behind.subset hk))).owned j
    by_contra old
    exact still.mpr (.inl old) unowned
  case below =>
    intro j hj k own
    rcases cases_ own with ⟨mem, before⟩ | old
    · cases e : found.1.via.getD j none with
      | none =>
        rw [e] at before
        obtain rfl : r = k := Option.some.inj before
        omega
      | some d =>
        rw [e] at before
        have := fair.below d (within d (List.mem_cons_of_mem _ (route.mem_of_via j mem d e))) k before
        omega
    · have := fair.below j hj k old
      omega

end MailRules.Assignment
