import MailRules.Json.Text

/-!
What can be wrong with a document, and where.

A document is a JSON value that is read as something of the domain. All of its defects are told,
each with the path of keys and indices that leads to it, in the order of the written path and then
of the code of the defect.
-/

namespace MailRules.Document

/-- A way in which a value is not what is asked for. -/
inductive Defect where
  | missing
  | unknownKey
  | notText
  | notList
  | notObject
  | notChoice
  | notFlag
  | unreadableFlag
  | notWhole
  | unreadableWhole
  | oversizedWhole
  | fraction
  | notFinite
  | belowMinimum
  | tooDeep
  | rejected (reason : String)

/-- The code under which a defect is told. -/
def Defect.code : Defect → String
  | missing => "missing"
  | unknownKey => "extra_forbidden"
  | notText => "string_type"
  | notList => "list_type"
  | notObject => "model_type"
  | notChoice => "enum"
  | notFlag => "bool_type"
  | unreadableFlag => "bool_parsing"
  | notWhole => "int_type"
  | unreadableWhole => "int_parsing"
  | oversizedWhole => "int_parsing_size"
  | fraction => "int_from_float"
  | notFinite => "finite_number"
  | belowMinimum => "greater_than_equal"
  | tooDeep => "recursion_depth_exceeded"
  | rejected _ => "value_error"

/-- The text told with a defect; only a rejection gives its reason. -/
def Defect.reason? : Defect → Option String
  | rejected reason => some ("Value error, " ++ reason)
  | _ => none

/-- A defect at a place in a document. -/
structure Issue where
  path : List String
  defect : Defect

namespace Issue

/-- The place as text; the empty text for the document as a whole. -/
def place (i : Issue) : String := String.intercalate "." i.path

def le (i j : Issue) : Bool :=
  i.place < j.place || (i.place = j.place && decide (i.defect.code ≤ j.defect.code))

def inOrder (issues : List Issue) : List Issue := issues.mergeSort le

def toJson (i : Issue) : Json :=
  .obj ([("loc", .str i.place), ("type", .str i.defect.code)]
    ++ (i.defect.reason?.map fun s => ("msg", Json.str s)).toList)

end Issue

end MailRules.Document
