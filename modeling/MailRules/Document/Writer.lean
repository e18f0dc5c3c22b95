import MailRules.Json

/-!
Writing values of the domain as documents.

A value is written as a list of entries, one for each of its fields. From the same entries come the
full document, with every field, and the brief one, which leaves out every field that has the value
it would have anyway, inside the fields as well.
-/

namespace MailRules.Document

/-- A value in full, and in brief. -/
structure Written where
  full : Json
  brief : Json

/-- A value whose brief form is its full form. -/
def Written.plain (v : Json) : Written := ⟨v, v⟩

def Written.list (items : List Written) : Written :=
  ⟨.arr (items.map (·.full)), .arr (items.map (·.brief))⟩

def Written.optional : Option Written → Written
  | none => .plain .null
  | some w => w

/-- A field of a written object; `usual` if the brief form leaves it out. -/
structure Entry where
  key : String
  value : Written
  usual : Bool := false

def Written.object (entries : List Entry) : Written :=
  ⟨.obj (entries.map fun e => (e.key, e.value.full)),
    .obj ((entries.filter fun e => !e.usual).map fun e => (e.key, e.value.brief))⟩

/-- A text, which is empty unless something is said. -/
def Entry.text (key value : String) : Entry := ⟨key, .plain (.str value), value = ""⟩

/-- A flag, which is off unless something is said. -/
def Entry.flag (key : String) (value : Bool) : Entry := ⟨key, .plain (.bool value), !value⟩

/-- A text that may be absent. -/
def Entry.text? (key : String) (value : Option String) : Entry :=
  ⟨key, .plain (.ofText? value), value.isNone⟩

/-- A flag of three states. -/
def Entry.flag? (key : String) (value : Option Bool) : Entry :=
  ⟨key, .plain (match value with | none => .null | some b => .bool b), value.isNone⟩

def Entry.texts (key : String) (value : List String) : Entry :=
  ⟨key, .plain (.ofTexts value), value.isEmpty⟩

end MailRules.Document
