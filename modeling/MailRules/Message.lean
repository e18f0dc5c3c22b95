import MailRules.Config
import MailRules.Text.Lower

/-!
Testing messages against operands.

Values and operands are compared in a normal form that ignores case and takes an at sign for a
point, so that an address ends with its domain and with everything above it. A `Matcher` is a test
of one field, or a combination of matchers.
-/

namespace MailRules

inductive MessageField where
  | sender
  | recipients
  | cc
  | bcc
  | replyTo
  | lists
  | subject
  | body
  deriving DecidableEq

def MessageField.name : MessageField → String
  | sender => "from"
  | recipients => "to"
  | cc => "cc"
  | bcc => "bcc"
  | replyTo => "replyto"
  | lists => "lists"
  | subject => "subject"
  | body => "body"

def MessageField.all : List MessageField :=
  [sender, recipients, cc, bcc, replyTo, lists, subject, body]

def MessageField.ofName? (name : String) : Option MessageField := all.find? (·.name = name)

def Message.values (m : Message) : MessageField → List String
  | .sender => [m.sender]
  | .recipients => m.recipients
  | .cc => m.cc
  | .bcc => m.bcc
  | .replyTo => m.replyTo
  | .lists => m.lists
  | .subject => [m.subject]
  | .body => [m.body]

/-- The form in which values are compared. -/
def normalForm (value : String) : List Char :=
  Text.lower (value.toList.map fun c => if c = '@' then '.' else c)

inductive Comparison where
  | exact
  | suffix
  | contains
  deriving DecidableEq

/-- Whether `part` is found in one piece in a list. -/
def occursIn (part : List Char) : List Char → Bool
  | [] => part.isEmpty
  | c :: cs => part.isPrefixOf (c :: cs) || occursIn part cs

/-- Whether a value in normal form compares as asked. -/
def Comparison.holds (expected value : List Char) : Comparison → Bool
  | exact => value = expected
  | suffix => expected.isSuffixOf value
  | contains => occursIn expected value

/-- A test of one field of a message: whether one of its values compares as asked. -/
structure FieldTest where
  field : MessageField
  expected : List Char
  comparison : Comparison
  deriving DecidableEq

namespace FieldTest

def passes (t : FieldTest) (m : Message) : Bool :=
  (m.values t.field).any fun v => t.comparison.holds t.expected (normalForm v)

/-- The test of an address. An operand that starts with a star or a point, or an at sign, asks for
the end of the address. -/
def address (field : MessageField) (operand : String) : FieldTest :=
  match normalForm operand with
  | '*' :: rest => ⟨field, rest, .suffix⟩
  | '.' :: rest => ⟨field, '.' :: rest, .suffix⟩
  | expected => ⟨field, expected, .exact⟩

/-- The test of free text, which may contain the operand anywhere. -/
def words (field : MessageField) (operand : String) : FieldTest :=
  ⟨field, normalForm operand, .contains⟩

end FieldTest

/-- A test of whole messages. -/
inductive Matcher where
  | test (t : FieldTest)
  | all (ms : List Matcher)
  | any (ms : List Matcher)
  | negation (m : Matcher)

namespace Matcher

mutual
def accepts (m : Message) : Matcher → Bool
  | test t => t.passes m
  | all ms => acceptsAll m ms
  | any ms => acceptsAny m ms
  | negation n => !accepts m n
def acceptsAll (m : Message) : List Matcher → Bool
  | [] => true
  | n :: ns => accepts m n && acceptsAll m ns
def acceptsAny (m : Message) : List Matcher → Bool
  | [] => false
  | n :: ns => accepts m n || acceptsAny m ns
end

theorem acceptsAll_eq_all (m : Message) : ∀ ns, acceptsAll m ns = ns.all (accepts m)
  | [] => rfl
  | n :: ns => by rw [acceptsAll, acceptsAll_eq_all m ns, List.all_cons]

theorem acceptsAny_eq_any (m : Message) : ∀ ns, acceptsAny m ns = ns.any (accepts m)
  | [] => rfl
  | n :: ns => by rw [acceptsAny, acceptsAny_eq_any m ns, List.any_cons]

/-- The matcher for a recipient. A message counts as sent to those in all of its address lists. -/
def recipient (operand : String) : Matcher :=
  any ([MessageField.recipients, .cc, .bcc, .lists].map fun f => test (.address f operand))

/-- The matcher for an operand anywhere in a message. -/
def anywhere (operand : String) : Matcher :=
  any [recipient operand, test (.address .sender operand), test (.words .subject operand),
    test (.words .body operand)]

end Matcher

end MailRules
