import MailRules.Condition.Simplify
import MailRules.Config.Error

/-!
Rules with their conditions: what the filters of a configuration say, with named filters in place of
references to them.

`FilterExpr.check` admits an expression that says exactly one thing, and `FilterExpr.resolve` turns
an admitted expression into a condition, refusing the first expression in document order that is not
admitted or refers to no known filter. A named filter may refer to those declared before it. Errors
are told with the path of the expression, for all named filters and rules together.
-/

namespace MailRules

/-- The keys that may be combined with text already written in the search language. -/
def Key.escapable : Key → Bool
  | .field .sender => true
  | .field .recipient => true
  | .field .subject => true
  | _ => false

/-- Conditions by name, in order of declaration. -/
abbrev Named := List (String × Condition)

def Named.find? : Named → String → Option Condition
  | [], _ => none
  | (n, c) :: rest, name => if n = name then some c else Named.find? rest name

namespace FilterExpr

/-- The one key under which an expression says something. -/
def check (path : String) (e : FilterExpr) : Except ConfigError Key :=
  match e.given with
  | [] => .error (.emptyExpr path)
  | [key] => if e.escaped && !key.escapable then .error (.misplacedEscape path key) else .ok key
  | keys => .error (.severalKeys path keys)

/-- The path of a child of the expression at a path. -/
def childPath (path : String) (key : Key) (index : Nat) : String :=
  path ++ "." ++ key.word ++ "[" ++ Text.ofNat index ++ "]"

mutual
/-- The condition that an expression stands for. -/
def resolve (named : Named) (path : String) : FilterExpr → Except ConfigError Condition
  | ⟨conj, disj, neg, sender, recipient, cc, bcc, replyTo, subject, list, has, query, name,
      escaped⟩ =>
    let e : FilterExpr :=
      ⟨conj, disj, neg, sender, recipient, cc, bcc, replyTo, subject, list, has, query, name,
        escaped⟩
    match check path e with
    | .error err => .error err
    | .ok .conj => (resolveList named path .conj conj).map Condition.conj
    | .ok .disj => (resolveList named path .disj disj).map Condition.disj
    | .ok .neg => (resolveOption named (path ++ ".not") neg).map Condition.neg
    | .ok (.field f) => .ok (.leaf (.over f [(e.text f).getD ""] .unset escaped))
    | .ok .name =>
      let name := name.getD ""
      match named.find? name with
      | some c => .ok c
      | none => .error (.unresolvedName path name)
def resolveOption (named : Named) (path : String) : Option FilterExpr → Except ConfigError Condition
  | none => .error (.emptyExpr path)
  | some e => resolve named path e
def resolveList (named : Named) (path : String) (key : Key) :
    Option (List FilterExpr) → Except ConfigError (List Condition)
  | none => .ok []
  | some es => resolveAll named path key 0 es
/-- The conditions of expressions, the first of them at the given index. -/
def resolveAll (named : Named) (path : String) (key : Key) (index : Nat) :
    List FilterExpr → Except ConfigError (List Condition)
  | [] => .ok []
  | e :: es =>
    match resolve named (childPath path key index) e with
    | .error err => .error err
    | .ok c => (resolveAll named path key (index + 1) es).map (c :: ·)
end

end FilterExpr

structure ResolvedRule where
  condition : Condition
  actions : Actions
  deriving DecidableEq

/-- The named filters of a configuration, and the errors in them. -/
structure NamedResult where
  named : Named
  errors : List ConfigError

def NamedFilter.path (index : Nat) : String := "$.filters[" ++ Text.ofNat index ++ "]"

/-- A named filter beside the valid ones declared before it. -/
def NamedFilter.resolve (index : Nat) (named : Named) (f : NamedFilter) :
    Except ConfigError Condition :=
  let path := NamedFilter.path index
  if f.name = "" then .error (.unnamedFilter index path)
  else if (named.find? f.name).isSome then .error (.repeatedFilter path f.name)
  else (f.filter.resolve named (path ++ ".filter")).mapError (.inFilter f.name)

/-- Named filters one after another, after the valid ones before them. A filter in error is left
out. -/
def resolveNamed (index : Nat) (named : Named) : List NamedFilter → NamedResult
  | [] => ⟨named, []⟩
  | f :: fs =>
    match f.resolve index named with
    | .ok c => resolveNamed (index + 1) (named ++ [(f.name, c)]) fs
    | .error err =>
      let rest := resolveNamed (index + 1) named fs
      ⟨rest.named, err :: rest.errors⟩

def Rule.path (index : Nat) : String := "$.rules[" ++ Text.ofNat index ++ "].filter"

/-- A rule with its condition simplified in at most `passes` rounds. -/
def Rule.resolve (passes : Int) (index : Nat) (named : Named) (r : Rule) :
    Except ConfigError ResolvedRule :=
  match r.filter.resolve named (Rule.path index) with
  | .error err => .error (.inRule index err)
  | .ok c => .ok ⟨c.simplify passes, r.actions⟩

/-- The results of a list and the errors in it, each with the index of its element. -/
def collect {α β ε : Type} (f : Nat → α → Except ε β) : (index : Nat) → List α → List β × List ε
  | _, [] => ([], [])
  | i, x :: xs =>
    let (oks, errs) := collect f (i + 1) xs
    match f i x with
    | .ok b => (b :: oks, errs)
    | .error e => (oks, e :: errs)

/-- All the rules of a configuration, or all the errors in its named filters and rules. -/
def Config.resolve (passes : Int) (c : Config) :
    Except (Failure ConfigError) (List ResolvedRule) :=
  let filters := resolveNamed 0 [] c.filters
  let (rules, errs) := collect (fun i r => r.resolve passes i filters.named) 0 c.rules
  match Failure.ofErrors (filters.errors ++ errs) with
  | some failure => .error failure
  | none => .ok rules

end MailRules
