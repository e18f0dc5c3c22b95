import MailRules.Config.Resolve
import MailRules.Label
import MailRules.Native.Effect

/-!
Native filters and labels as a configuration.

Each filter becomes a rule. A value that compiling would change is taken to be in the search
language already and is marked so, which makes it compile to itself.
-/

namespace MailRules

open Native

namespace Native

/-- Whether a value was quoted or grouped by the service: it holds a space or a quote. -/
def isQuoted (value : String) : Bool := value.toList.any [' ', '\'', '"'].contains

/-- The expression for a field of criteria, if it is set. -/
def declaredField (value : String) (expr : String → Bool → FilterExpr) : List FilterExpr :=
  if value = "" then [] else [expr value (isQuoted value)]

/-- The filter expression for criteria. -/
def Criteria.declared (c : Criteria) : Except CompileError FilterExpr :=
  let exprs := declaredField c.sender (fun s e => { sender := some s, escaped := e })
    ++ declaredField c.recipient (fun s e => { recipient := some s, escaped := e })
    ++ declaredField c.subject (fun s e => { subject := some s, escaped := e })
    ++ declaredField c.query (fun s _ => { query := some s })
  match exprs with
  | [] => .error .nothingToImport
  | [e] => .ok e
  | es => .ok { conj := some es }

def Filter.declared (f : Filter) : Except CompileError Rule := do
  let filter ← f.criteria.declared
  let actions ← f.action.declared
  return ⟨filter, actions⟩

end Native

/-- The author of a configuration that nobody wrote. -/
def Author.unknown : Author := ⟨"YOUR NAME HERE (auto imported)", "your-email@gmail.com"⟩

/-- The configuration for native filters and labels, or the errors of all filters. -/
def Config.ofNative (filters : List Filter) (labels : List Label) :
    Except (Failure CompileError) Config :=
  let (rules, errors) :=
    collect (fun i (f : Filter) => f.declared.mapError (.inFilter i f.id)) 0 filters
  match Failure.ofErrors errors with
  | some failure => .error failure
  | none => .ok { author := .unknown, labels := labels.map Label.declared, rules }

end MailRules
