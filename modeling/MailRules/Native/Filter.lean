/-!
Native filters: what the mail service stores.

A native filter has criteria in four fields and an action that can apply one label at most, and can
sort a message into one of the categories of the service.
-/

namespace MailRules

inductive Category where
  | personal
  | social
  | updates
  | forums
  | promotions
  deriving DecidableEq

namespace Category

def name : Category → String
  | personal => "personal"
  | social => "social"
  | updates => "updates"
  | forums => "forums"
  | promotions => "promotions"

def all : List Category := [personal, social, updates, forums, promotions]

def ofName? (name : String) : Option Category := all.find? (·.name = name)

theorem ofName?_name (c : Category) : ofName? c.name = some c := by cases c <;> decide

end Category

end MailRules

namespace MailRules.Native

/-- The criteria of a native filter. The query is free text in the search language. -/
structure Criteria where
  sender : String := ""
  recipient : String := ""
  subject : String := ""
  query : String := ""
  deriving DecidableEq

def Criteria.isEmpty (c : Criteria) : Bool := c = {}

/-- What a native filter does to the messages it matches. -/
structure Action where
  label : String := ""
  category : Option Category := none
  archive : Bool := false
  delete : Bool := false
  markImportant : Bool := false
  markNotImportant : Bool := false
  markRead : Bool := false
  markNotSpam : Bool := false
  star : Bool := false
  forward : String := ""
  deriving DecidableEq

def Action.isEmpty (a : Action) : Bool := a = {}

/-- A native filter. The id is the service's own and says nothing about the filter. -/
structure Filter where
  id : String := ""
  criteria : Criteria := {}
  action : Action := {}
  deriving DecidableEq

def Filter.hasLabel (f : Filter) (name : String) : Bool := f.action.label = name

end MailRules.Native
