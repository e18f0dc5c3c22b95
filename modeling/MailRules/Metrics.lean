import MailRules.Compile
import MailRules.Json
import MailRules.Native.Diff
import MailRules.Text.Digits

/-!
Metrics on compilations and diffs, and their text for a metrics server.

A counter counts the compilations by their outcome; histograms hold how many filters a compilation
made and how many pairs a diff compared. How long either took is counted but not kept, so the
histograms of durations show the number of observations only.

`Meter.compile` and `Meter.diff` are `Config.compile` and `Native.diff` under observation. A diff that
fails is not counted, a compilation that fails is.
-/

namespace MailRules.Metrics

/-- How a compilation ended. -/
inductive Outcome where
  | success
  | error
  deriving DecidableEq

def Outcome.name : Outcome → String
  | success => "success"
  | error => "error"

/-- What was observed. Outcomes are counted in the order in which they first occurred. -/
structure Registry where
  outcomes : List (Outcome × Nat) := []
  filterCounts : List Nat := []
  diffCells : List Nat := []

def sum : List Nat → Nat
  | [] => 0
  | n :: ns => n + sum ns

def count (o : Outcome) : List (Outcome × Nat) → List (Outcome × Nat)
  | [] => [(o, 1)]
  | (p, n) :: rest => if p = o then (p, n + 1) :: rest else (p, n) :: count o rest

namespace Registry

/-- A compilation that made a number of filters. -/
def compiled (filters : Nat) (r : Registry) : Registry :=
  { r with outcomes := count .success r.outcomes, filterCounts := filters :: r.filterCounts }

/-- A compilation that failed. -/
def failed (r : Registry) : Registry := { r with outcomes := count .error r.outcomes }

/-- A diff that compared a number of pairs. -/
def diffed (cells : Nat) (r : Registry) : Registry := { r with diffCells := cells :: r.diffCells }

/-- The number of compilations with an outcome, once there was one. -/
def outcome? (r : Registry) (o : Outcome) : Option Nat := r.outcomes.lookup o

def compilations (r : Registry) : Nat := sum (r.outcomes.map (·.2))

end Registry

/-- A number in the text of metrics: with a point and a zero, from seven digits on with an
exponent. -/
def numberText (n : Nat) : String :=
  let digits := Nat.toDigits 10 n
  if digits.length ≤ 6 then Text.ofNat n ++ ".0"
  else
    let rest := (digits.tail.reverse.dropWhile (· = '0')).reverse
    String.ofList (digits.take 1 ++ (if rest.isEmpty then [] else '.' :: rest)) ++ "e+0"
      ++ Text.ofNat (digits.length - 1)

def heading (name help kind : String) : List String :=
  ["# HELP " ++ name ++ " " ++ help, "# TYPE " ++ name ++ " " ++ kind]

def sample (name label value : String) (n : Nat) : String :=
  name ++ "\x7b" ++ label ++ "=\"" ++ value ++ "\"\x7d " ++ numberText n

/-- The lines of a histogram with the given bounds: for each bound how many observations do not
exceed it, the number of observations, and their sum. -/
def histogram (name help : String) (bounds observed : List Nat) : List String :=
  let total := observed.length
  heading name help "histogram"
    ++ bounds.map (fun b =>
      sample (name ++ "_bucket") "le" (numberText b) (observed.filter (· ≤ b)).length)
    ++ [sample (name ++ "_bucket") "le" "+Inf" total, name ++ "_count " ++ numberText total,
      name ++ "_sum " ++ numberText (sum observed)]

/-- The lines of a histogram of durations, of which only the number is known. -/
def durations (name help : String) (total : Nat) : List String :=
  heading name help "histogram"
    ++ [sample (name ++ "_bucket") "le" "+Inf" total, name ++ "_count " ++ numberText total]

namespace Registry

def lines (r : Registry) : List String :=
  heading "filterctl_compilations_total" "Total rule set compilations" "counter"
    ++ r.outcomes.map (fun (o, n) => sample "filterctl_compilations_total" "status" o.name n)
    ++ durations "filterctl_compiler_duration_seconds" "Rule set compilation duration in seconds"
      r.compilations
    ++ histogram "filterctl_compiler_filters_count"
      "Number of native filters produced by a compilation" [1, 5, 10, 25, 50, 100, 250, 500, 1000]
      r.filterCounts
    ++ durations "filterctl_diff_duration_seconds" "Filter diff duration in seconds"
      r.diffCells.length
    ++ histogram "filterctl_diff_assignment_cells"
      "Number of cells in the cost matrix solved by the diff reordering"
      [1, 10, 100, 1000, 10000, 100000, 1000000] r.diffCells

def values (r : Registry) : Json :=
  let outcome (o : Outcome) : Json := match r.outcome? o with
    | none => .null
    | some n => .ofNat n
  .obj [("compilations_success", outcome .success), ("compilations_error", outcome .error),
    ("filterctl_compiler_duration_seconds_count", .ofNat r.compilations),
    ("filterctl_compiler_filters_count_count", .ofNat r.filterCounts.length),
    ("filterctl_compiler_filters_count_sum", .ofNat (sum r.filterCounts)),
    ("filterctl_diff_duration_seconds_count", .ofNat r.diffCells.length),
    ("filterctl_diff_assignment_cells_count", .ofNat r.diffCells.length),
    ("filterctl_diff_assignment_cells_sum", .ofNat (sum r.diffCells))]

end Registry

/-! ## Observed runs -/

/-- What was observed, and whether observations are made at all. -/
structure Meter where
  enabled : Bool
  registry : Registry := {}

namespace Meter

/-- An observation, made if observations are. -/
def observe (f : Registry → Registry) (m : Meter) : Meter :=
  if m.enabled then { m with registry := f m.registry } else m

/-- A compilation, and what it leaves behind. -/
def compile (b : Bounds) (c : Config) (m : Meter) : Except BuildFailure Compiled × Meter :=
  match c.compile b with
  | .ok compiled => (.ok compiled, m.observe (·.compiled compiled.filters.length))
  | .error failure => (.error failure, m.observe (·.failed))

/-- A diff, and what it leaves behind. -/
def diff (observed desired : List Native.Filter) (m : Meter) :
    Except Native.ReorderError Native.Changes × Meter :=
  match Native.diff observed desired with
  | .ok changes => (.ok changes, m.observe (·.diffed changes.cells))
  | .error e => (.error e, m)

end Meter

end MailRules.Metrics
