/-!
Minimum-cost assignment of rows to columns.

Rows are assigned one after another. To make room for a row, the columns are searched in the order
of their reduced cost, the cost less a potential of the row and of the column, which are kept such
that no reduced cost is negative and those of assigned pairs are zero. The search goes on from a
column to the row it is assigned to, until it meets a column that is free; then the assignments
along the path to it are shifted by one (`augment`).

The solver works for any costs that can be added, subtracted and compared (`Cost`), doubles among
them. Each turn of a search takes a column that was not taken before, so the number of columns
bounds the turns, and also the length of the path. Infinite costs add a turn at most: where no other
column is reached, the first one is taken again, and after that the costs of all others are no
numbers. A column that is taken without having been reached is assigned along the path on which an
earlier search reached it, and so the state keeps these paths.
-/

namespace MailRules.Assignment

class Cost (α : Type) where
  zero : α
  add : α → α → α
  sub : α → α → α
  /-- A cost that no column has. -/
  unreached : α
  /-- Whether the first cost is below the second. -/
  below : α → α → Bool
  /-- Whether the first cost is chosen over the second, which stands before it. -/
  preferred : α → α → Bool

/-- Doubles as costs. A cost that is no number is chosen over any that is one. -/
instance : Cost Float where
  zero := 0
  add := (· + ·)
  sub := (· - ·)
  unreached := 1 / 0
  below x y := x < y
  preferred x y := !y.isNaN && !(x ≥ y)

variable {α : Type} [Cost α]

def tabulate {β : Type} (n : Nat) (f : Nat → β) : Array β := Array.ofFn fun i : Fin n => f i

/-- A matrix of costs with at least as many columns as rows. -/
structure Problem (α : Type) where
  rows : Nat
  columns : Nat
  costs : Array (Array α)

def Problem.cost (p : Problem α) (i j : Nat) : α := (p.costs.getD i #[]).getD j Cost.zero

/-- What is known between two searches: the potentials, the row that each column is assigned to,
and the column that each column was reached from last. -/
structure State (α : Type) where
  rowPotential : Array α
  columnPotential : Array α
  owner : Array (Option Nat)
  via : Array (Option Nat)

def State.ownerOf (s : State α) (j : Nat) : Option Nat := s.owner.getD j none

/-- A search under way: the potentials, the rows and columns it went through, and for each other
column the least reduced cost met and the column it was last met from, none for the row to be
assigned. -/
structure Search (α : Type) where
  rowPotential : Array α
  columnPotential : Array α
  rowsSeen : Array Bool
  columnsSeen : Array Bool
  least : Array α
  via : Array (Option Nat)

def Search.start (p : Problem α) (s : State α) : Search α where
  rowPotential := s.rowPotential
  columnPotential := s.columnPotential
  rowsSeen := tabulate p.rows fun _ => false
  columnsSeen := tabulate p.columns fun _ => false
  least := tabulate p.columns fun _ => Cost.unreached
  via := s.via

/-- The first index below `n`, from `i` on, with the preferred cost, where `best` is the one so
far. -/
def choose (cost : Nat → α) (n best i : Nat) : Nat :=
  if i < n then choose cost n (if Cost.preferred (cost i) (cost best) then i else best) (i + 1)
  else best
termination_by n - i

/-- Goes on from a row, which was reached over the given column, and names the column to go to. -/
def Search.turn (p : Problem α) (s : Search α) (i : Nat) (origin : Option Nat) :
    Search α × Nat :=
  let rowSeen (k : Nat) : Bool := k = i || s.rowsSeen.getD k false
  let columnSeen (j : Nat) : Bool := some j = origin || s.columnsSeen.getD j false
  let u := s.rowPotential.getD i Cost.zero
  let v (j : Nat) : α := s.columnPotential.getD j Cost.zero
  let reduced (j : Nat) : α := Cost.sub (Cost.sub (p.cost i j) u) (v j)
  let before (j : Nat) : α := s.least.getD j Cost.unreached
  let improved := tabulate p.columns fun j => !columnSeen j && Cost.below (reduced j) (before j)
  let least := tabulate p.columns fun j =>
    if improved.getD j false then reduced j else before j
  let candidate (j : Nat) : α :=
    if columnSeen j then Cost.unreached else least.getD j Cost.unreached
  let next := choose candidate p.columns 0 1
  let delta := candidate next
  ({ rowPotential := tabulate p.rows fun k =>
      let x := s.rowPotential.getD k Cost.zero
      if rowSeen k then Cost.add x delta else x
     columnPotential := tabulate p.columns fun j =>
      if columnSeen j then Cost.sub (v j) delta else v j
     rowsSeen := tabulate p.rows rowSeen
     columnsSeen := tabulate p.columns columnSeen
     least := tabulate p.columns fun j =>
      let x := least.getD j Cost.unreached
      if columnSeen j then x else Cost.sub x delta
     via := tabulate p.columns fun j =>
      if improved.getD j false then origin else s.via.getD j none }, next)

/-- Searches from a row for a free column, in at most the given number of turns. -/
def Search.run (p : Problem α) (owner : Nat → Option Nat) :
    (turns : Nat) → Search α → (row : Nat) → (origin : Option Nat) → Search α × Nat
  | 0, s, _, origin => (s, origin.getD 0)
  | turns + 1, s, i, origin =>
    let (s, j) := s.turn p i origin
    match owner j with
    | none => (s, j)
    | some k => Search.run p owner turns s k (some j)

/-- Gives each column on the path to a column the row of the column before it, and the first column
the new row. -/
def augment (via : Nat → Option Nat) (row : Nat) :
    (steps : Nat) → (column : Nat) → Array (Option Nat) → Array (Option Nat)
  | 0, _, owner => owner
  | steps + 1, j, owner =>
    match via j with
    | none => owner.setIfInBounds j (some row)
    | some k => augment via row steps k (owner.setIfInBounds j (owner.getD k none))

/-- The state after a further row was assigned. -/
def assign (p : Problem α) (s : State α) (row : Nat) : State α :=
  let (found, column) := (Search.start p s).run p s.ownerOf (p.columns + 2) row none
  { rowPotential := found.rowPotential
    columnPotential := found.columnPotential
    via := found.via
    owner := augment (fun j => found.via.getD j none) row (p.columns + 1) column s.owner }

def columnOf (s : State α) (columns row : Nat) : Option Nat :=
  (List.range columns).find? fun j => s.ownerOf j = some row

/-- The columns of the rows of a problem. -/
def Problem.solve (p : Problem α) : List (Option Nat) :=
  let start : State α :=
    { rowPotential := tabulate p.rows fun _ => Cost.zero
      columnPotential := tabulate p.columns fun _ => Cost.zero
      owner := tabulate p.columns fun _ => none
      via := tabulate p.columns fun _ => none }
  let final := (List.range p.rows).foldl (assign p) start
  (List.range p.rows).map (columnOf final p.columns)

/-- The column assigned to each row, or none for rows left over, with the least cost in total. The
matrix has rows of equal length; with more rows than columns, the columns are assigned to rows. -/
def optimal (costs : List (List α)) : List (Option Nat) :=
  let n := costs.length
  let m := (costs.head?.map List.length).getD 0
  let table := (costs.map List.toArray).toArray
  if m = 0 then costs.map fun _ => none
  else if n ≤ m then (Problem.mk n m table).solve
  else
    let transposed := tabulate m fun j => tabulate n fun i => (table.getD i #[]).getD j Cost.zero
    let rowOf := (Problem.mk m n transposed).solve
    (List.range n).map fun i => (List.range m).find? fun j => rowOf[j]? = some (some i)

end MailRules.Assignment
