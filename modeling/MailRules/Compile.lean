import MailRules.Condition.Split
import MailRules.Config.Resolve
import MailRules.Label
import MailRules.Native.Effect
import MailRules.Native.Search

/-!
Compiling rules into native filters.

A rule becomes a filter for each pair of a piece of its condition and a native action of its
actions, piece by piece. A configuration is compiled as a whole: its labels are checked, its rules
resolved, and each rule compiled, where a stage with errors tells all of them and ends the
compilation.
-/

namespace MailRules

open Native

inductive CompileFailure where
  /-- The size limit allows no step through a list. -/
  | limit (cause : LimitError)
  | rules (failure : Failure CompileError)

inductive BuildFailure where
  | config (failure : Failure ConfigError)
  | compile (failure : CompileFailure)

/-- The native filters for each piece and each action, piece by piece. -/
def product (criteria : List Criteria) (actions : List Action) : List Filter :=
  criteria.flatMap fun c => actions.map fun a => { criteria := c, action := a }

/-- The native filters for a rule whose condition was cut into the given pieces. -/
def ResolvedRule.filtersOf (r : ResolvedRule) (pieces : List Condition) :
    Except CompileError (List Filter) :=
  if pieces.isEmpty then .error (.noPieces r.condition.rootConnective)
  else do
    let cs ← pieces.mapM criteria
    let actions ← r.actions.native
    return product cs actions

/-- The native filters for a rule, or its error. The limit is the size at which conditions are
cut. -/
def ResolvedRule.compile (limit : Int) (r : ResolvedRule) :
    Except LimitError (Except CompileError (List Filter)) :=
  (r.condition.split limit).map r.filtersOf

/-- The native filters for all rules and the errors in them, each under the index of its rule. -/
def compileFrom (limit : Int) :
    (index : Nat) → List ResolvedRule → Except LimitError (List Filter × List CompileError)
  | _, [] => .ok ([], [])
  | i, r :: rs => do
    let here ← r.compile limit
    let (filters, errors) ← compileFrom limit (i + 1) rs
    return match here with
      | .ok fs => (fs ++ filters, errors)
      | .error e => (filters, .inRule i e :: errors)

/-- The native filters for all rules, or all the errors in them. -/
def compileRules (limit : Int) (rs : List ResolvedRule) : Except CompileFailure (List Filter) :=
  match compileFrom limit 0 rs with
  | .error e => .error (.limit e)
  | .ok (filters, errors) =>
    match Failure.ofErrors errors with
    | some failure => .error (.rules failure)
    | none => .ok filters

structure Compiled where
  rules : List ResolvedRule
  filters : List Filter
  labels : List Label

/-- The sizes that compilation goes by. -/
structure Bounds where
  /-- The size at which conditions are cut. -/
  limit : Int
  /-- The number of rounds of simplification. -/
  passes : Int

/-- A configuration compiled within the given bounds. -/
def Config.compile (b : Bounds) (c : Config) : Except BuildFailure Compiled :=
  let labels := c.labels.map Label.ofDeclared
  match Label.validate labels with
  | some failure => .error (.config failure)
  | none =>
    match c.resolve b.passes with
    | .error failure => .error (.config failure)
    | .ok rules =>
      match compileRules b.limit rules with
      | .error failure => .error (.compile failure)
      | .ok filters => .ok ⟨rules, filters, labels⟩

end MailRules
