import MailRules.Json
import MailRules.Text.Digits

/-!
Failures: one error, or several that were collected in one go.

A stage that works on a list goes on after an error, so that all of them are told at once. `combine`
makes the failure of the whole from the failures of the parts: none if no part failed, the error
alone if there is just one, and otherwise all of them in order. Failures of parts that are
themselves lists are taken apart one level, and what they list is kept, also a place in a list where
nothing failed.
-/

namespace MailRules

/-- An error that can be told: as a text, and by the facts it rests on. -/
class Fault (ε : Type) where
  message : ε → String
  details : ε → Json.Fields

/-- One error, or a list of places with the failure of each, if it failed. -/
inductive Failure (ε : Type) where
  | one (error : ε)
  | many (places : List (Option (Failure ε)))

namespace Failure

variable {ε : Type}

/-- The places that a failure lists, or the failure itself if it is a single error. -/
def errors : Failure ε → List (Option (Failure ε))
  | one e => [some (one e)]
  | many places => places

/-- The failures told one by one; none for no failure. -/
def errorsOf : Option (Failure ε) → List (Option (Failure ε))
  | none => []
  | some f => f.errors

/-- The failure that a list of places amounts to. -/
def ofList : List (Option (Failure ε)) → Option (Failure ε)
  | [] => none
  | [place] => place
  | places => some (many places)

/-- The failure of a whole whose parts ended as given. -/
def combine (parts : List (Option (Failure ε))) : Option (Failure ε) :=
  ofList (parts.flatMap errorsOf)

def ofErrors (es : List ε) : Option (Failure ε) := ofList (es.map fun e => some (one e))

mutual
def message [Fault ε] : Failure ε → String
  | one e => Fault.message e
  | many places =>
    Text.ofNat places.length ++ " errors occurred:\n"
      ++ String.intercalate "\n" (messages places)
def messages [Fault ε] : List (Option (Failure ε)) → List String
  | [] => []
  | none :: fs => "- None" :: messages fs
  | some f :: fs => ("- " ++ message f) :: messages fs
end

/-- The facts of a failure; of several errors, how many they are. -/
def details [Fault ε] : Failure ε → Json.Fields
  | one e => Fault.details e
  | many places => [("count", .ofNat places.length)]

theorem ofErrors_eq_none_iff {es : List ε} : ofErrors es = none ↔ es = [] := by
  match es with
  | [] => simp [ofErrors, ofList]
  | [e] => simp [ofErrors, ofList]
  | e :: e' :: es => simp [ofErrors, ofList]

end Failure

end MailRules
