import MailRules.Condition
import MailRules.Failure

/-!
Why rules cannot be turned into native filters, or native filters into rules.
-/

namespace MailRules.Native

inductive CompileError where
  | emptyCriteria
  | noPieces (root : Connective)
  | childless (op : Connective)
  | negationOf (children : Nat)
  | noConnective
  | noField
  | marksSpam
  | contraryImportance
  | nothingToImport
  | inRule (index : Nat) (cause : CompileError)
  | inFilter (index : Nat) (id : String) (cause : CompileError)

namespace CompileError

def message : CompileError → String
  | emptyCriteria => "criteria produced an empty filter"
  | noPieces _ => "criteria produced an empty filter"
  | childless op => "'" ++ op.name ++ "' node without children"
  | negationOf n => "after 'not' got " ++ Text.ofNat n ++ " children, expected 1"
  | noConnective => "unknown node operation <Operation.NONE: 0>"
  | noField => "unknown function type <Function.NONE: 0>"
  | marksSpam => "gmail filters don't allow one to send messages to spam directly"
  | contraryImportance => "in 'mark important': cannot be both true and false"
  | nothingToImport => "empty criteria"
  | inRule index cause => "error generating rule #" ++ Text.ofNat index ++ ": " ++ cause.message
  | inFilter index _ cause => "importing filter #" ++ Text.ofNat index ++ ": " ++ cause.message

/-- The facts that the error rests on. Those of a cause win over those of what it is the cause
of. -/
def details : CompileError → Json.Fields
  | noPieces root => [("operation", .str root.name)]
  | childless op => [("operation", .str op.name)]
  | negationOf n => [("children", .ofNat n)]
  | marksSpam => [("action", .str "markSpam")]
  | contraryImportance => [("action", .str "markImportant")]
  | inRule index cause => Json.overlay [("rule_index", .ofNat index)] cause.details
  | inFilter index id cause =>
    Json.overlay [("filter_index", .ofNat index), ("filter_id", .str id)] cause.details
  | _ => []

instance : Fault CompileError := ⟨message, details⟩

end CompileError

end MailRules.Native
