import MailRules.Config
import MailRules.Failure

/-!
What can be wrong with a configuration that was read without a defect.
-/

namespace MailRules

inductive ConfigError where
  | emptyExpr (path : String)
  | severalKeys (path : String) (keys : List Key)
  | misplacedEscape (path : String) (key : Key)
  | unresolvedName (path : String) (name : String)
  | unnamedFilter (index : Nat) (path : String)
  | repeatedFilter (path : String) (name : String)
  | inFilter (name : String) (cause : ConfigError)
  | inRule (index : Nat) (cause : ConfigError)
  | unnamedLabel (index : Nat)
  | slashedLabel (index : Nat) (name : String)
  | repeatedLabel (index : Nat) (name : String)

namespace ConfigError

def message : ConfigError → String
  | emptyExpr path => "empty filter node at " ++ path
  | severalKeys path keys => "multiple fields specified in the same filter node at " ++ path ++ ": "
      ++ String.intercalate ", " (keys.map Key.word)
  | misplacedEscape path key => "'isEscaped' specified for operation '" ++ key.word ++ "' at "
      ++ path ++ ", only allowed with 'from', 'to' or 'subject'"
  | unresolvedName path name => "unresolved filter reference '" ++ name ++ "' at " ++ path
  | unnamedFilter index _ => "named filter #" ++ Text.ofNat index ++ " has an empty name"
  | repeatedFilter _ name => "named filter '" ++ name ++ "' declared more than once"
  | inFilter name cause => "error parsing named filter '" ++ name ++ "': " ++ cause.message
  | inRule index cause =>
    "error parsing criteria for rule #" ++ Text.ofNat index ++ ": " ++ cause.message
  | unnamedLabel index => "label #" ++ Text.ofNat index ++ " has an empty name"
  | slashedLabel _ name => "label '" ++ name ++ "' shouldn't start or end with '/'"
  | repeatedLabel _ name => "label '" ++ name ++ "' is specified multiple times"

/-- The facts that the error rests on. Those of a cause win over those of what it is the cause
of. -/
def details : ConfigError → Json.Fields
  | emptyExpr path => [("path", .str path)]
  | severalKeys path keys => [("path", .str path), ("fields", .ofTexts (keys.map Key.word))]
  | misplacedEscape path key => [("path", .str path), ("field", .str key.word)]
  | unresolvedName path name => [("path", .str path), ("name", .str name)]
  | unnamedFilter _ path => [("path", .str path)]
  | repeatedFilter path name => [("path", .str path), ("name", .str name)]
  | inFilter name cause => Json.overlay [("name", .str name)] cause.details
  | inRule index cause => Json.overlay [("rule_index", .ofNat index)] cause.details
  | unnamedLabel index => [("index", .ofNat index)]
  | slashedLabel index name => [("index", .ofNat index), ("name", .str name)]
  | repeatedLabel index name => [("index", .ofNat index), ("name", .str name)]

instance : Fault ConfigError := ⟨message, details⟩

end ConfigError

end MailRules
