import MailRules.Label
import MailRules.Native.Filter
import MailRules.Text.UnifiedDiff

/-!
The difference between the labels that are there and those that should be.

Labels are matched by name, in the order of their names. A label is modified if it has to change to
be as declared; a label that a filter still applies may not be removed.
-/

namespace MailRules

structure ModifiedLabel where
  old : Label
  new : Label

/-- Labels to be added, removed and modified. -/
structure LabelChanges where
  added : List Label := []
  removed : List Label := []
  modified : List ModifiedLabel := []

namespace LabelChanges

def isEmpty (c : LabelChanges) : Bool := c.added.isEmpty && c.removed.isEmpty && c.modified.isEmpty

/-- The changes between two lists in the order of their names, name by name. -/
def join : List Label → List Label → LabelChanges
  | [], desired => { added := desired }
  | observed, [] => { removed := observed }
  | o :: os, d :: ds =>
    if o.name < d.name then
      let c := join os (d :: ds)
      { c with removed := o :: c.removed }
    else if d.name < o.name then
      let c := join (o :: os) ds
      { c with added := d :: c.added }
    else
      let c := join os ds
      if o.agreesWith d then c else { c with modified := ⟨o, d⟩ :: c.modified }

def inNameOrder (ls : List Label) : List Label := ls.mergeSort fun a b => decide (a.name ≤ b.name)

/-- The changes from the labels that are there to those that should be. -/
def between (observed desired : List Label) : LabelChanges :=
  join (inNameOrder observed) (inNameOrder desired)

def line (l : Label) : String := l.render ++ "\n"

/-- The changes as a diff of the labels' texts. -/
def text (c : LabelChanges) : String :=
  Text.stateDiff 3 (c.modified.map (line ·.old) ++ c.removed.map line)
    (c.modified.map (line ·.new) ++ c.added.map line)

end LabelChanges

inductive LabelChangeError where
  | inUse (name : String)

def LabelChangeError.message : LabelChangeError → String
  | inUse name => "cannot remove label '" ++ name ++ "', used in filter"

def LabelChangeError.details : LabelChangeError → Json.Fields
  | inUse name => [("label", .str name)]

instance : Fault LabelChangeError := ⟨LabelChangeError.message, LabelChangeError.details⟩

/-- The first removed label that a filter still applies. -/
def LabelChanges.check (c : LabelChanges) (filters : List Native.Filter) :
    Except LabelChangeError Unit :=
  match c.removed.find? fun l => filters.any (·.hasLabel l.name) with
  | some l => .error (.inUse l.name)
  | none => .ok ()

/-- Remote labels, and after them the local labels with other names. -/
def Label.merge (localLabels remote : List Label) : List Label :=
  remote ++ localLabels.filter fun l => !(remote.any fun r => r.name = l.name)

end MailRules
