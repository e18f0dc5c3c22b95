import MailRules.Condition
import MailRules.Native.Filter

/-!
The declarative configuration: labels, named filters, rules and the trials that check them.

Absent values are written as `none`, an empty text or an empty list. `FilterExpr.given` lists what a
filter expression actually says: a rule may say only one thing in each expression, and anything more
complex is built with `and`, `or` and `not`.
-/

namespace MailRules

/-- A filter as it is declared: a tree of expressions with, in each, one thing said. -/
structure FilterExpr where
  conj : Option (List FilterExpr) := none
  disj : Option (List FilterExpr) := none
  neg : Option FilterExpr := none
  sender : Option String := none
  recipient : Option String := none
  cc : Option String := none
  bcc : Option String := none
  replyTo : Option String := none
  subject : Option String := none
  list : Option String := none
  has : Option String := none
  query : Option String := none
  /-- A reference to a named filter. -/
  name : Option String := none
  /-- The text is already written in the search language. -/
  escaped : Bool := false

/-- What an expression can say: a connective over expressions, a field, or the name of a filter. -/
inductive Key where
  | conj
  | disj
  | neg
  | field (f : Field)
  | name
  deriving DecidableEq

/-- The key as it is written in a configuration. -/
def Key.word : Key → String
  | conj => "and"
  | disj => "or"
  | neg => "not"
  | field f => f.name
  | name => "name"

/-- The fields that an expression may name. -/
def Field.declarable : List Field :=
  [.sender, .recipient, .cc, .bcc, .replyTo, .subject, .list, .has, .query]

namespace FilterExpr

def text (e : FilterExpr) : Field → Option String
  | .unset => none
  | .sender => e.sender
  | .recipient => e.recipient
  | .cc => e.cc
  | .bcc => e.bcc
  | .replyTo => e.replyTo
  | .subject => e.subject
  | .list => e.list
  | .has => e.has
  | .query => e.query

def givesText : Option String → Bool
  | none => false
  | some s => s ≠ ""

def givesList : Option (List FilterExpr) → Bool
  | none => false
  | some es => !es.isEmpty

/-- Whether the expression says something under a key. Nothing, an empty text and an empty list
count the same. -/
def gives (e : FilterExpr) : Key → Bool
  | .conj => givesList e.conj
  | .disj => givesList e.disj
  | .neg => e.neg.isSome
  | .field f => givesText (e.text f)
  | .name => givesText e.name

/-- All keys, in the order in which they are told. -/
def keys : List Key :=
  [.conj, .disj, .neg] ++ Field.declarable.map .field ++ [.name]

/-- The keys under which the expression says something. -/
def given (e : FilterExpr) : List Key := keys.filter e.gives

end FilterExpr

/-- What a rule does to the messages it matches. Marking as spam and as important have three states:
do it, never do it, and leave it. -/
structure Actions where
  archive : Bool := false
  delete : Bool := false
  markRead : Bool := false
  star : Bool := false
  markSpam : Option Bool := none
  markImportant : Option Bool := none
  category : Option Category := none
  labels : List String := []
  forward : String := ""
  deriving DecidableEq

def Actions.isEmpty (a : Actions) : Bool := a = {}

/-- A filter with the actions applied to the messages it matches. -/
structure Rule where
  filter : FilterExpr
  actions : Actions

/-- A filter that rules refer to by name. -/
structure NamedFilter where
  name : String
  filter : FilterExpr

structure Color where
  background : String
  text : String
  deriving DecidableEq

/-- A label as it is declared. -/
structure DeclaredLabel where
  name : String
  color : Option Color := none
  deriving DecidableEq

structure Message where
  sender : String := ""
  recipients : List String := []
  cc : List String := []
  bcc : List String := []
  replyTo : List String := []
  lists : List String := []
  subject : String := ""
  body : String := ""
  deriving DecidableEq

/-- Sample messages with the actions that the rules should apply to each of them. -/
structure Trial where
  name : String := ""
  messages : List Message
  actions : Actions

structure Author where
  name : String := ""
  email : String := ""
  deriving DecidableEq

structure Config where
  version : String := "v1alpha3"
  author : Author := {}
  labels : List DeclaredLabel := []
  filters : List NamedFilter := []
  rules : List Rule := []
  trials : List Trial := []

end MailRules
