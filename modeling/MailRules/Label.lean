import MailRules.Config.Error
import MailRules.Config.Reader
import MailRules.Config.Writer

/-!
Labels as the mail service has them, and the checks on a set of labels.

A label without a color leaves the color to the service, so it agrees with a label of any color.
-/

namespace MailRules

/-- A label. The id and the number of messages are the service's own. -/
structure Label where
  id : String := ""
  name : String
  color : Option Color := none
  messages : Int := 0
  deriving DecidableEq

namespace Label

open Document

def record : Record Json Label :=
  Label.mk <$> .field "id" "" asText <*> .required "name" asText
    <*> .field "color" none (orNull Color.read) <*> .field "num_messages" 0 asWhole

def read : Json → Reading Label := record.asOpen

def written (l : Label) : Written :=
  .object [.text "id" l.id, ⟨"name", .plain (.str l.name), false⟩,
    ⟨"color", .optional (l.color.map (·.written)), l.color.isNone⟩,
    ⟨"num_messages", .plain (.int l.messages), l.messages = 0⟩]

def render (l : Label) : String :=
  match l.color with
  | none => l.name
  | some c => l.name ++ "; color: " ++ c.background ++ ", " ++ c.text

/-- Whether nothing has to be done to a label for it to be as the other one is declared. -/
def agreesWith (l other : Label) : Bool :=
  l.name = other.name ∧ (other.color = none ∨ l.color = other.color)

def ofDeclared (d : DeclaredLabel) : Label := { name := d.name, color := d.color }

def declared (l : Label) : DeclaredLabel := ⟨l.name, l.color⟩

def slashed (name : String) : Bool :=
  name.toList.head? = some '/' || name.toList.getLast? = some '/'

/-- What is wrong with a label, at an index and after labels with the given names. -/
def errors (index : Nat) (seen : List String) (l : Label) : List ConfigError :=
  if l.name = "" then [.unnamedLabel index]
  else (if slashed l.name then [.slashedLabel index l.name] else [])
    ++ (if seen.contains l.name then [.repeatedLabel index l.name] else [])

/-- What is wrong with labels, the first of them at an index and after labels with the given
names. -/
def errorsFrom (index : Nat) (seen : List String) : List Label → List ConfigError
  | [] => []
  | l :: ls => l.errors index seen
      ++ errorsFrom (index + 1) (if l.name = "" then seen else l.name :: seen) ls

/-- The failure of a set of labels that is not well formed. Parents of labels need not be there. -/
def validate (ls : List Label) : Option (Failure ConfigError) :=
  Failure.ofErrors (errorsFrom 0 [] ls)

end Label

end MailRules
