import MailRules.Assignment
import Mathlib.Algebra.Order.AddGroupWithTop
import Mathlib.Algebra.Order.Ring.Rat
import Mathlib.Data.Finset.Card
import Mathlib.Data.Finset.Filter
import Mathlib.Data.Finset.Range
import Mathlib.Data.List.Nodup

/-!
The search of the assignment solver finds a free column, and no row loses its column over it.

A search takes one column after another. Those taken so far form a path, the last one first: each is
owned by a row, and each was reached over a column before it, or as the first (`Linked`). Nothing
else is needed of the costs than that they are numbers (`Numbers`): then in each turn the columns
that are left have been reached, one of them is taken, and since a free column is among them the
search ends at a free column before it runs out of turns.

From the free column the ways back lead through columns of the path to one that was reached first
(`Route`), and along these the rows move up by one. So each row that had a column has one
afterwards, the new row has one, and the columns that are owned are those before and the free one.

What is proved:
  1. `Search.turn_sound`: a turn takes a column that was not taken before (`Search.Sound.next`), and
     keeps the invariant.
  2. `Search.exists_turns`: a search that goes on until it takes a free column does take one, and
     no column twice, so a search with turns for all columns is one (`Search.run_sound`).
  3. `Route.augment`: what moving up does to the rows and to the columns.
  4. `assign_sound`: each further row is assigned and no other row is left without a column.
-/

namespace MailRules.Assignment

/-! ## Costs -/

/-- Costs in exact arithmetic, with an infinite one for columns that are not reached. -/
instance : Cost (WithTop ℚ) where
  zero := 0
  add := (· + ·)
  sub := (· - ·)
  unreached := ⊤
  below x y := x < y
  preferred x y := x < y

variable {α : Type} [Cost α]

/-- Costs that are numbers: they are closed under sums and differences, and each is chosen over that
of a column that is not reached. -/
structure Numbers (N : α → Prop) : Prop where
  zero : N Cost.zero
  add : ∀ {x y}, N x → N y → N (Cost.add x y)
  sub : ∀ {x y}, N x → N y → N (Cost.sub x y)
  below : ∀ {x}, N x → Cost.below x Cost.unreached = true
  preferred : ∀ {x}, N x → Cost.preferred x Cost.unreached = true
  kept : ∀ {x}, N x → Cost.preferred Cost.unreached x = false

theorem numbers_exact : Numbers fun x : WithTop ℚ => x ≠ ⊤ where
  zero := WithTop.zero_ne_top
  add hx hy := WithTop.add_ne_top.mpr ⟨hx, hy⟩
  sub {x y} hx hy := by
    lift x to ℚ using hx
    lift y to ℚ using hy
    exact WithTop.coe_ne_top
  below hx := decide_eq_true (lt_top_iff_ne_top.mpr hx)
  preferred hx := decide_eq_true (lt_top_iff_ne_top.mpr hx)
  kept _ := decide_eq_false not_top_lt

theorem getD_tabulate {β : Type} {n j : Nat} (f : Nat → β) (d : β) (hj : j < n) :
    (tabulate n f).getD j d = f j := by
  simp [tabulate, hj]

theorem getD_tabulate_of_le {β : Type} {n j : Nat} (f : Nat → β) (d : β) (hj : n ≤ j) :
    (tabulate n f).getD j d = d := by
  simp [tabulate, Nat.not_lt.mpr hj]

/-- A table of numbers holds numbers only, also beyond its end. -/
theorem Numbers.getD_tabulate {N : α → Prop} (hN : Numbers N) {n : Nat} {f : Nat → α}
    (hf : ∀ j, N (f j)) (j : Nat) : N ((tabulate n f).getD j Cost.zero) := by
  by_cases hj : j < n
  · rw [Assignment.getD_tabulate f _ hj]; exact hf j
  · rw [getD_tabulate_of_le f _ (Nat.not_lt.mp hj)]; exact hN.zero

/-! ## Choosing a column -/

theorem choose_lt {cost : Nat → α} {n best i : Nat} (h : best < n) : choose cost n best i < n := by
  fun_induction choose cost n best i with
  | case1 best i hi ih => apply ih; split <;> assumption
  | case2 best i _ => exact h

theorem Numbers.choose {N : α → Prop} (hN : Numbers N) {cost : Nat → α} {n best i : Nat}
    (hb : best < n) (each : ∀ j < n, N (cost j) ∨ cost j = Cost.unreached)
    (reached : N (cost best) ∨ ∃ j, i ≤ j ∧ j < n ∧ N (cost j)) :
    N (cost (Assignment.choose cost n best i)) := by
  fun_induction Assignment.choose cost n best i with
  | case1 best i hi ih =>
    apply ih
    · split <;> assumption
    · by_cases found : N (cost best)
      · left
        split
        · next chosen =>
          refine (each i hi).resolve_right fun unreached => ?_
          rw [unreached, hN.kept found] at chosen
          exact Bool.false_ne_true chosen
        · exact found
      · obtain ⟨j, hij, hj, number⟩ := reached.resolve_left found
        have unreached := (each best hb).resolve_left found
        by_cases here : j = i
        · subst here
          left
          simpa [unreached, hN.preferred number] using number
        · exact .inr ⟨j, by omega, hj, number⟩
  | case2 best i hi =>
    refine reached.resolve_right fun ⟨j, hij, hj, _⟩ => ?_
    omega

theorem Numbers.not_unreached {N : α → Prop} (hN : Numbers N) : ¬ N Cost.unreached := by
  intro number
  have chosen := hN.preferred number
  rw [hN.kept number] at chosen
  exact Bool.false_ne_true chosen

/-! ## Paths -/

/-- Each column was reached over a column behind it in the list, or as the first. -/
def Linked (via : Nat → Option Nat) : List Nat → Prop
  | [] => True
  | j :: js => (∀ k, via j = some k → k ∈ js) ∧ Linked via js

theorem Linked.congr {via via' : Nat → Option Nat} : ∀ {js : List Nat},
    (∀ j ∈ js, via' j = via j) → Linked via js → Linked via' js
  | [], _, _ => trivial
  | j :: js, same, h => by
    obtain ⟨head, tail⟩ := List.forall_mem_cons.mp same
    refine ⟨fun k hk => h.1 k ?_, h.2.congr tail⟩
    rw [← head, hk]

/-- The way back from a column to the one that was reached first. -/
inductive Route (via : Nat → Option Nat) : Nat → List Nat → Prop
  | first {j : Nat} : via j = none → Route via j []
  | back {j k : Nat} {ks : List Nat} : via j = some k → Route via k ks → Route via j (k :: ks)

/-- From a linked column there is a way back, through columns behind it. -/
theorem Linked.route {via : Nat → Option Nat} {path : List Nat} {j : Nat}
    (h : Linked via (j :: path)) : ∃ ks, Route via j ks ∧ ks.Sublist path := by
  induction path generalizing j with
  | nil =>
    cases e : via j with
    | none => exact ⟨[], .first e, .slnil⟩
    | some k => exact absurd (h.1 k e) List.not_mem_nil
  | cons p ps ih =>
    cases e : via j with
    | none => exact ⟨[], .first e, List.nil_sublist _⟩
    | some k =>
      by_cases here : k = p
      · subst here
        obtain ⟨ks, route, behind⟩ := ih h.2
        exact ⟨k :: ks, .back e route, behind.cons_cons k⟩
      · -- The next column is not the one behind, so that is passed over.
        have further : Linked via (j :: ps) := by
          refine ⟨fun k' hk' => ?_, h.2.2⟩
          have mem := h.1 k' hk'
          obtain rfl : k = k' := Option.some.inj (e.symm.trans hk')
          exact (List.mem_cons.mp mem).resolve_left here
        obtain ⟨ks, route, behind⟩ := ih further
        exact ⟨ks, route, behind.cons p⟩

theorem length_le_of_apart {n : Nat} {js : List Nat} (apart : js.Nodup)
    (inside : ∀ j ∈ js, j < n) : js.length ≤ n := by
  have short := (apart.subperm fun j hj => List.mem_range.mpr (inside j hj)).length_le
  rwa [List.length_range] at short

/-! ## A turn of the search -/

namespace Search

variable {p : Problem α} {s : Search α} {i : Nat} {origin : Option Nat}

/-- The columns taken so far, with the one that the search goes on from. -/
def taken (s : Search α) (origin : Option Nat) (j : Nat) : Bool :=
  some j = origin || s.columnsSeen.getD j false

def reduced (p : Problem α) (s : Search α) (i j : Nat) : α :=
  Cost.sub (Cost.sub (p.cost i j) (s.rowPotential.getD i Cost.zero))
    (s.columnPotential.getD j Cost.zero)

/-- Whether a column is reached from the row at a lower cost than before. -/
def improves (p : Problem α) (s : Search α) (i : Nat) (origin : Option Nat) (j : Nat) : Bool :=
  !s.taken origin j && Cost.below (reduced p s i j) (s.least.getD j Cost.unreached)

/-- The least costs at which the columns were reached, the row taken into account. -/
def lowered (p : Problem α) (s : Search α) (i : Nat) (origin : Option Nat) : Array α :=
  tabulate p.columns fun j =>
    if (tabulate p.columns (improves p s i origin)).getD j false then reduced p s i j
    else s.least.getD j Cost.unreached

/-- The cost by which the next column is chosen. -/
def candidate (p : Problem α) (s : Search α) (i : Nat) (origin : Option Nat) (j : Nat) : α :=
  if s.taken origin j then Cost.unreached
  else (lowered p s i origin).getD j Cost.unreached

theorem turn_next : (s.turn p i origin).2 = choose (candidate p s i origin) p.columns 0 1 := rfl

theorem turn_columnsSeen {j : Nat} (hj : j < p.columns) :
    (s.turn p i origin).1.columnsSeen.getD j false = s.taken origin j :=
  getD_tabulate _ _ hj

theorem turn_least {j : Nat} (hj : j < p.columns) (left : s.taken origin j = false) :
    (s.turn p i origin).1.least.getD j Cost.unreached =
      Cost.sub ((lowered p s i origin).getD j Cost.unreached)
        (candidate p s i origin (s.turn p i origin).2) := by
  refine (getD_tabulate _ _ hj).trans ?_
  show (if s.taken origin j = true then _ else _) = _
  rw [left]
  rfl

theorem getD_lowered {j : Nat} (hj : j < p.columns) :
    (lowered p s i origin).getD j Cost.unreached =
      if improves p s i origin j then reduced p s i j else s.least.getD j Cost.unreached := by
  rw [lowered, getD_tabulate _ _ hj, getD_tabulate _ _ hj]

theorem turn_via {j : Nat} (hj : j < p.columns) : (s.turn p i origin).1.via.getD j none =
    if improves p s i origin j then origin else s.via.getD j none := by
  show (tabulate p.columns _).getD j none = _
  rw [getD_tabulate _ _ hj, getD_tabulate _ _ hj]
  rfl

/-- A search whose columns were taken along a path, the last one first. A column that is left was
reached over the path, or not at all. -/
structure Sound (N : α → Prop) (p : Problem α) (s : Search α) (origin : Option Nat)
    (path : List Nat) : Prop where
  rows : ∀ k, N (s.rowPotential.getD k Cost.zero)
  columns : ∀ j, N (s.columnPotential.getD j Cost.zero)
  inside : ∀ j ∈ path, j < p.columns
  apart : path.Nodup
  taken : ∀ j < p.columns, s.taken origin j = true ↔ j ∈ path
  origin : ∀ k, origin = some k → k ∈ path
  linked : Linked (fun j => s.via.getD j none) path
  left : ∀ j < p.columns, j ∉ path → s.least.getD j Cost.unreached = Cost.unreached ∨
    N (s.least.getD j Cost.unreached) ∧ ∀ k, s.via.getD j none = some k → k ∈ path

theorem Sound.untaken {N : α → Prop} {path : List Nat} (h : s.Sound N p origin path) {j : Nat}
    (hj : j < p.columns) (fresh : j ∉ path) : s.taken origin j = false :=
  Bool.eq_false_iff.mpr fun t => fresh ((h.taken j hj).mp t)

section
variable {N : α → Prop} (hN : Numbers N) (costs : ∀ i j, N (p.cost i j)) {path : List Nat}
  (h : s.Sound N p origin path)
include hN costs h

theorem Sound.reduced (j : Nat) : N (reduced p s i j) :=
  hN.sub (hN.sub (costs i j) (h.rows i)) (h.columns j)

/-- After a turn every column that is left has been reached over the path. -/
theorem Sound.reached {j : Nat} (hj : j < p.columns) (fresh : j ∉ path) :
    N ((lowered p s i origin).getD j Cost.unreached) ∧
      ∀ k, (s.turn p i origin).1.via.getD j none = some k → k ∈ path := by
  have number := h.reduced hN costs (i := i) j
  rw [getD_lowered hj, turn_via hj]
  by_cases better : improves p s i origin j = true
  · simp only [better, if_true]
    exact ⟨number, h.origin⟩
  · simp only [better]
    refine (h.left j hj fresh).resolve_left fun unreached => better ?_
    rw [improves, h.untaken hj fresh, unreached, hN.below number]
    rfl

/-- A turn takes a column that was not taken before and has been reached. -/
theorem Sound.next (room : ∃ j < p.columns, j ∉ path) :
    (s.turn p i origin).2 < p.columns ∧ (s.turn p i origin).2 ∉ path ∧
      N (candidate p s i origin (s.turn p i origin).2) := by
  obtain ⟨f, hf, fresh⟩ := room
  have number {j : Nat} (hj : j < p.columns) (new : j ∉ path) :
      N (candidate p s i origin j) := by
    rw [candidate, h.untaken hj new]
    exact (h.reached hN costs hj new).1
  have blocked {j : Nat} (hj : j < p.columns) (old : j ∈ path) :
      candidate p s i origin j = Cost.unreached := by
    rw [candidate, (h.taken j hj).mpr old]
    rfl
  have inside : (s.turn p i origin).2 < p.columns := choose_lt (by omega)
  have chosen : N (candidate p s i origin (s.turn p i origin).2) := by
    rw [turn_next]
    apply hN.choose (by omega)
    · intro j hj
      by_cases old : j ∈ path
      · exact .inr (blocked hj old)
      · exact .inl (number hj old)
    · by_cases first : f = 0
      · exact .inl (first ▸ number hf fresh)
      · exact .inr ⟨f, by omega, hf, number hf fresh⟩
  refine ⟨inside, fun old => ?_, chosen⟩
  rw [blocked inside old] at chosen
  exact hN.not_unreached chosen

theorem turn_sound (room : ∃ j < p.columns, j ∉ path) :
    (s.turn p i origin).2 < p.columns ∧ (s.turn p i origin).2 ∉ path ∧
      (s.turn p i origin).1.Sound N p (some (s.turn p i origin).2)
        ((s.turn p i origin).2 :: path) := by
  obtain ⟨inside, new, chosen⟩ := h.next hN costs (i := i) room
  -- The search is as it was on the path, and on each column that is left it is as just reached.
  have kept (j : Nat) (hj : j ∈ path) :
      (s.turn p i origin).1.via.getD j none = s.via.getD j none := by
    have old := (h.taken j (h.inside j hj)).mpr hj
    rw [turn_via (h.inside j hj), improves, old]
    rfl
  refine ⟨inside, new, ?_⟩
  constructor
  case rows =>
    refine hN.getD_tabulate fun k => ?_
    show N (if _ then _ else _)
    split
    · exact hN.add (h.rows k) chosen
    · exact h.rows k
  case columns =>
    refine hN.getD_tabulate fun j => ?_
    show N (if _ then _ else _)
    split
    · exact hN.sub (h.columns j) chosen
    · exact h.columns j
  case inside => exact List.forall_mem_cons.mpr ⟨inside, h.inside⟩
  case apart => exact List.nodup_cons.mpr ⟨new, h.apart⟩
  case taken =>
    intro j hj
    rw [Search.taken, turn_columnsSeen hj, Bool.or_eq_true, h.taken j hj, List.mem_cons]
    simp
  case origin =>
    rintro k ⟨⟩
    exact List.mem_cons_self
  case linked => exact ⟨(h.reached hN costs inside new).2, h.linked.congr kept⟩
  case left =>
    intro j hj fresh'
    have fresh := fun old => fresh' (List.mem_cons_of_mem _ old)
    obtain ⟨lowest, passed⟩ := h.reached hN costs (i := i) hj fresh
    refine .inr ⟨?_, fun k hk => List.mem_cons_of_mem _ (passed k hk)⟩
    rw [turn_least hj (h.untaken hj fresh)]
    exact hN.sub lowest chosen

end

theorem start_sound {N : α → Prop} {t : State α}
    (rows : ∀ k, N (t.rowPotential.getD k Cost.zero))
    (columns : ∀ j, N (t.columnPotential.getD j Cost.zero)) :
    (Search.start p t).Sound N p none [] where
  rows := rows
  columns := columns
  inside := List.forall_mem_nil _
  apart := .nil
  taken j hj := by simp [Search.taken, Search.start, getD_tabulate _ _ hj]
  origin k hk := nomatch hk
  linked := trivial
  left j hj _ := .inl (getD_tabulate _ _ hj)

/-- A search that ended at a free column, over a path of columns that are owned. -/
structure Ended (N : α → Prop) (p : Problem α) (owner : Nat → Option Nat)
    (found : Search α × Nat) : Prop where
  inside : found.2 < p.columns
  free : owner found.2 = none
  path : ∃ path, (∀ j ∈ path, owner j ≠ none) ∧
    found.1.Sound N p (some found.2) (found.2 :: path)

theorem run_succ {owner : Nat → Option Nat} {turns : Nat} :
    s.run p owner (turns + 1) i origin = match owner (s.turn p i origin).2 with
      | none => s.turn p i origin
      | some k => (s.turn p i origin).1.run p owner turns k (some (s.turn p i origin).2) := rfl

/-- The turns of a search that goes on until it takes a free column, and the columns that they
take. -/
inductive Turns (p : Problem α) (owner : Nat → Option Nat) :
    Search α → (row : Nat) → (origin : Option Nat) → List Nat → Search α × Nat → Prop
  | last {s : Search α} {i : Nat} {origin : Option Nat} :
      owner (s.turn p i origin).2 = none →
        Turns p owner s i origin [(s.turn p i origin).2] (s.turn p i origin)
  | further {s : Search α} {i k : Nat} {origin : Option Nat} {js : List Nat}
      {found : Search α × Nat} :
      owner (s.turn p i origin).2 = some k →
        Turns p owner (s.turn p i origin).1 k (some (s.turn p i origin).2) js found →
          Turns p owner s i origin ((s.turn p i origin).2 :: js) found

/-- A search with enough turns is one without a limit. -/
theorem Turns.run {owner : Nat → Option Nat} {js : List Nat} {found : Search α × Nat}
    (h : Turns p owner s i origin js found) :
    ∀ {turns : Nat}, js.length ≤ turns → s.run p owner turns i origin = found := by
  induction h with
  | last free =>
    intro turns enough
    obtain ⟨turns, rfl⟩ : ∃ n, turns = n + 1 := ⟨turns - 1, by simp at enough; omega⟩
    rw [run_succ, free]
  | further owned _ ih =>
    intro turns enough
    rw [List.length_cons] at enough
    obtain ⟨turns, rfl⟩ : ∃ n, turns = n + 1 := ⟨turns - 1, by omega⟩
    rw [run_succ, owned]
    exact ih (by omega)

/-- Among columns of which one is free a search takes one column after another, none of them twice,
and ends at a free one. -/
theorem exists_turns {N : α → Prop} (hN : Numbers N) (costs : ∀ i j, N (p.cost i j))
    {owner : Nat → Option Nat} (free : ∃ f < p.columns, owner f = none) :
    ∀ (left i : Nat) {s : Search α} {origin : Option Nat} {path : List Nat},
      s.Sound N p origin path → (∀ j ∈ path, owner j ≠ none) → p.columns ≤ path.length + left →
        ∃ js found, Turns p owner s i origin js found ∧ Ended N p owner found ∧
          (js ++ path).Nodup ∧ ∀ j ∈ js, j < p.columns
  | 0, i, s, origin, path, h, owned, enough => by
    -- The path would have all columns, and so the free one.
    obtain ⟨f, hf, unowned⟩ := free
    have fresh : f ∉ path := fun old => owned f old unowned
    have short := length_le_of_apart (List.nodup_cons.mpr ⟨fresh, h.apart⟩)
      (List.forall_mem_cons.mpr ⟨hf, h.inside⟩)
    rw [List.length_cons] at short
    omega
  | left + 1, i, s, origin, path, h, owned, enough => by
    obtain ⟨f, hf, unowned⟩ := free
    have room : ∃ j < p.columns, j ∉ path := ⟨f, hf, fun old => owned f old unowned⟩
    obtain ⟨inside, new, sound⟩ := turn_sound hN costs (i := i) h room
    cases e : owner (s.turn p i origin).2 with
    | none =>
      refine ⟨_, _, .last e, ⟨inside, e, path, owned, sound⟩, sound.apart, ?_⟩
      exact List.forall_mem_singleton.mpr inside
    | some k =>
      have owned' : ∀ j ∈ (s.turn p i origin).2 :: path, owner j ≠ none :=
        List.forall_mem_cons.mpr ⟨by rw [e]; exact Option.some_ne_none k, owned⟩
      obtain ⟨js, found, turns, ended, apart, within⟩ :=
        exists_turns hN costs ⟨f, hf, unowned⟩ left k sound owned' (by rw [List.length_cons]; omega)
      refine ⟨_, found, .further e turns, ended, ?_, List.forall_mem_cons.mpr ⟨inside, within⟩⟩
      exact List.perm_middle.nodup_iff.mp apart

theorem run_sound {N : α → Prop} (hN : Numbers N) (costs : ∀ i j, N (p.cost i j))
    {owner : Nat → Option Nat} (free : ∃ f < p.columns, owner f = none) (turns i : Nat)
    {s : Search α} {origin : Option Nat} {path : List Nat} (h : s.Sound N p origin path)
    (owned : ∀ j ∈ path, owner j ≠ none) (enough : p.columns < path.length + turns) :
    Ended N p owner (s.run p owner turns i origin) := by
  obtain ⟨js, found, taken, ended, apart, within⟩ :=
    exists_turns hN costs free turns i h owned (by omega)
  have short := length_le_of_apart apart (List.forall_mem_append.mpr ⟨within, h.inside⟩)
  rw [List.length_append] at short
  rw [taken.run (by omega)]
  exact ended

/-- The way back from the column that was taken last leads through columns of the path, and to none
of them twice. -/
theorem Sound.way {N : α → Prop} {j : Nat} {path : List Nat} (h : s.Sound N p origin (j :: path)) :
    ∃ ks, Route (fun j => s.via.getD j none) j ks ∧ ks.Sublist path ∧ (j :: ks).Nodup ∧
      (∀ k ∈ j :: ks, k < p.columns) ∧ ks.length < p.columns := by
  obtain ⟨ks, route, behind⟩ := h.linked.route
  have back := behind.cons_cons j
  have apart := h.apart.sublist back
  have within : ∀ k ∈ j :: ks, k < p.columns := fun k hk => h.inside k (back.subset hk)
  exact ⟨ks, route, behind, apart, within, length_le_of_apart apart within⟩

end Search

/-! ## Moving up along a path -/

/-- The owners after the rows on the way back from a free column have moved up, and a new row has
taken the column that is left. -/
structure Advanced (owner after : Array (Option Nat)) (free row : Nat) : Prop where
  size : after.size = owner.size
  assigned : ∃ k, after.getD k none = some row
  kept : ∀ {k i}, k ≠ free → owner.getD k none = some i → ∃ k', after.getD k' none = some i
  owned : ∀ k, after.getD k none ≠ none ↔ owner.getD k none ≠ none ∨ k = free

theorem getD_set {owner : Array (Option Nat)} {j : Nat} (hj : j < owner.size) (x : Option Nat)
    (k : Nat) : (owner.setIfInBounds j x).getD k none = if k = j then x else owner.getD k none := by
  by_cases same : k = j
  · subst same; simp [hj]
  · simp [same, Ne.symm same]

theorem Route.augment {via : Nat → Option Nat} {j : Nat} {ks : List Nat} (h : Route via j ks)
    (row : Nat) :
    ∀ (owner : Array (Option Nat)) (steps : Nat), ks.length < steps → (j :: ks).Nodup →
      (∀ k ∈ j :: ks, k < owner.size) → (∀ k ∈ ks, owner.getD k none ≠ none) →
      Advanced owner (Assignment.augment via row steps j owner) j row := by
  induction h with
  | @first j end_ =>
    intro owner steps long _ inside _
    obtain ⟨steps, rfl⟩ : ∃ n, steps = n + 1 := ⟨steps - 1, by simp at long; omega⟩
    have read := getD_set (inside j List.mem_cons_self) (some row)
    rw [Assignment.augment, end_]
    refine ⟨Array.size_setIfInBounds, ⟨j, by rw [read, if_pos rfl]⟩, fun {k i} ne hk => ?_,
      fun k => ?_⟩
    · exact ⟨k, by rw [read, if_neg ne, hk]⟩
    · rw [read]
      split <;> simp [*]
  | @back j k ks next _ ih =>
    intro owner steps long apart inside owned
    obtain ⟨steps, rfl⟩ : ∃ n, steps = n + 1 := ⟨steps - 1, by simp at long; omega⟩
    obtain ⟨fresh, apart⟩ := List.nodup_cons.mp apart
    obtain ⟨here, inside⟩ := List.forall_mem_cons.mp inside
    obtain ⟨ownedHere, owned⟩ := List.forall_mem_cons.mp owned
    have read := getD_set here (owner.getD k none)
    have ne : k ≠ j := fun e => fresh (e ▸ List.mem_cons_self)
    rw [Assignment.augment, next]
    have rest := ih (owner.setIfInBounds j (owner.getD k none)) steps
      (by simp at long; omega) apart (by simpa using inside) fun k' hk' => by
        have ne' : k' ≠ j := by rintro rfl; exact fresh (List.mem_cons_of_mem k hk')
        rw [read, if_neg ne']
        exact owned k' hk'
    refine ⟨rest.size.trans Array.size_setIfInBounds, rest.assigned, fun {k' i} ne' hk' => ?_,
      fun k' => ?_⟩
    · -- The row of the next column has moved up, and the others are where they were.
      by_cases e : k' = k
      · subst e
        exact rest.kept (Ne.symm ne) (by rw [read, if_pos rfl, hk'])
      · exact rest.kept e (by rw [read, if_neg ne', hk'])
    · rw [rest.owned, read]
      by_cases e : k' = j
      · rw [if_pos e]
        exact ⟨fun _ => .inr e, fun _ => .inl ownedHere⟩
      · rw [if_neg e]
        by_cases e' : k' = k
        · subst e'
          exact ⟨fun _ => .inl ownedHere, fun _ => .inr rfl⟩
        · exact or_congr_right ⟨fun same => absurd same e', fun same => absurd same e⟩

/-- Moving up from a free column, one column more is owned. -/
theorem Advanced.card {owner after : Array (Option Nat)} {free row n : Nat}
    (h : Advanced owner after free row) (inside : free < n)
    (unowned : owner.getD free none = none) :
    {j ∈ Finset.range n | after.getD j none ≠ none}.card =
      {j ∈ Finset.range n | owner.getD j none ≠ none}.card + 1 := by
  have columns : {j ∈ Finset.range n | after.getD j none ≠ none} =
      insert free {j ∈ Finset.range n | owner.getD j none ≠ none} := by
    ext j
    simp only [Finset.mem_filter, Finset.mem_range, Finset.mem_insert]
    constructor
    · intro ⟨hj, now⟩
      exact ((h.owned j).mp now).symm.imp_right fun old => ⟨hj, old⟩
    · rintro (rfl | ⟨hj, old⟩)
      · exact ⟨inside, (h.owned j).mpr (.inr rfl)⟩
      · exact ⟨hj, (h.owned j).mpr (.inl old)⟩
  have fresh : free ∉ {j ∈ Finset.range n | owner.getD j none ≠ none} :=
    fun old => (Finset.mem_filter.mp old).2 unowned
  rw [columns, Finset.card_insert_of_notMem fresh]

/-! ## Assigning rows -/

/-- A state in which the first `r` rows are assigned, and no more columns are owned than that. -/
structure State.Sound (N : α → Prop) (p : Problem α) (s : State α) (r : Nat) : Prop where
  rows : ∀ k, N (s.rowPotential.getD k Cost.zero)
  columns : ∀ j, N (s.columnPotential.getD j Cost.zero)
  size : s.owner.size = p.columns
  assigned : ∀ i < r, ∃ j, s.ownerOf j = some i
  owned : {j ∈ Finset.range p.columns | s.ownerOf j ≠ none}.card = r

theorem State.Sound.inside {N : α → Prop} {p : Problem α} {s : State α} {r : Nat}
    (h : s.Sound N p r) {j i : Nat} (own : s.ownerOf j = some i) : j < p.columns := by
  by_contra outside
  rw [State.ownerOf] at own
  simp [h.size, Nat.not_lt.mp outside] at own

theorem State.Sound.free {N : α → Prop} {p : Problem α} {s : State α} {r : Nat}
    (h : s.Sound N p r) (hr : r < p.columns) : ∃ f < p.columns, s.ownerOf f = none := by
  by_contra! owned
  have all : {j ∈ Finset.range p.columns | s.ownerOf j ≠ none} = Finset.range p.columns :=
    Finset.filter_true_of_mem fun j hj => owned j (Finset.mem_range.mp hj)
  have count := h.owned
  rw [all, Finset.card_range] at count
  omega

theorem assign_sound {N : α → Prop} (hN : Numbers N) {p : Problem α}
    (costs : ∀ i j, N (p.cost i j)) {s : State α} {r : Nat} (h : s.Sound N p r)
    (hr : r < p.columns) : (assign p s r).Sound N p (r + 1) := by
  obtain ⟨inside, free, path, owned, sound⟩ :=
    Search.run_sound hN costs (h.free hr) (p.columns + 2) r (Search.start_sound h.rows h.columns)
      (List.forall_mem_nil _) (by rw [List.length_nil]; omega)
  rw [assign]
  generalize (Search.start p s).run p s.ownerOf (p.columns + 2) r none = found
    at inside free owned sound ⊢
  obtain ⟨ks, route, behind, apart, within, short⟩ := sound.way
  have moved := route.augment r s.owner (p.columns + 1) (by omega) apart
    (fun k hk => h.size ▸ within k hk) (fun k hk => owned k (behind.subset hk))
  refine ⟨sound.rows, sound.columns, moved.size.trans h.size, fun i hi => ?_, ?_⟩
  · rcases Nat.lt_succ_iff_lt_or_eq.mp hi with old | rfl
    · obtain ⟨j, hj⟩ := h.assigned i old
      refine moved.kept (fun e => ?_) hj
      rw [e, free] at hj
      cases hj
    · exact moved.assigned
  · exact (moved.card inside free).trans (congrArg (· + 1) h.owned)

end MailRules.Assignment
