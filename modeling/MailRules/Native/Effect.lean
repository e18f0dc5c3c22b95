import MailRules.Config
import MailRules.Native.Error
import MailRules.Native.Filter

/-!
The actions of rules as native actions, and back.

A native action applies one label at most, so actions with several labels become several native
actions: the first does everything else and applies the first label, the others apply one label
each. A state of three is told by two flags. Nothing can be marked as spam.
-/

namespace MailRules

open Native

namespace Actions

/-- The native action for everything but the labels, with one label. -/
def withLabel (a : Actions) (label : String) : Action where
  label := label
  category := a.category
  archive := a.archive
  delete := a.delete
  markImportant := a.markImportant = some true
  markNotImportant := a.markImportant = some false
  markRead := a.markRead
  markNotSpam := a.markSpam = some false
  star := a.star
  forward := a.forward

/-- The native actions that together do what the actions do. -/
def native (a : Actions) : Except CompileError (List Action) :=
  if a.markSpam = some true then .error .marksSpam
  else .ok <| match a.labels with
    | [] => [a.withLabel ""]
    | label :: labels => a.withLabel label :: labels.map fun l => { label := l }

end Actions

/-- The actions of a rule that does what a native action does. -/
def Native.Action.declared (a : Action) : Except CompileError Actions :=
  if a.markImportant && a.markNotImportant then .error .contraryImportance
  else .ok {
    archive := a.archive
    delete := a.delete
    markRead := a.markRead
    star := a.star
    markSpam := if a.markNotSpam then some false else none
    markImportant := if a.markImportant || a.markNotImportant then some a.markImportant else none
    category := a.category
    labels := if a.label = "" then [] else [a.label]
    forward := a.forward }

end MailRules
