import MailRules.Condition.Json
import MailRules.Failure
import MailRules.Json.Text
import MailRules.Message

/-!
The matcher of a condition: which messages it matches.

Free queries and operands in the search language cannot be interpreted, and conditions that hold one
have no matcher; neither have trees that make no sense.
-/

namespace MailRules

inductive MatcherError where
  | raw (field : Field) (operands : List String)
  | query (operands : List String)
  | noField
  | negationOf (children : Nat)
  | noConnective
  | noOperands
  | negatedOperands (count : Nat)
  | inRule (index : Nat) (condition : Condition) (cause : MatcherError)

namespace MatcherError

def message : MatcherError → String
  | raw field operands =>
    "unsupported 'raw query': " ++ field.name ++ ":" ++ String.intercalate " " operands
  | query operands =>
    "unsupported unconstrained query: '" ++ String.intercalate " " operands ++ "'"
  | noField => "unsupported function: " ++ Field.unset.name
  | negationOf n => "unexpected children size for 'not' node: " ++ Text.ofNat n
  | noConnective => "unsupported operation " ++ Connective.unset.name
  | noOperands => "empty children, cannot group"
  | negatedOperands n => "unexpected children size for 'not' node: " ++ Text.ofNat n
  | inRule index _ cause =>
    "cannot evaluate criteria #" ++ Text.ofNat index ++ ": " ++ cause.message

/-- The facts that the error rests on. Those of a cause win over those of what it is the cause
of. -/
def details : MatcherError → Json.Fields
  | raw field operands => [("function", .str field.name), ("args", .ofTexts operands)]
  | query operands => [("args", .ofTexts operands)]
  | negationOf n => [("children", .ofNat n)]
  | inRule index condition cause =>
    Json.overlay [("rule_index", .ofNat index), ("criteria", .str condition.canonicalText)]
      cause.details
  | _ => []

instance : Fault MatcherError := ⟨message, details⟩

end MatcherError

/-- Matchers under a connective. A lone matcher stands for itself unless it is negated. -/
def Matcher.grouped (op : Connective) (ms : List Matcher) : Except MatcherError Matcher :=
  match op, ms with
  | _, [] => .error .noOperands
  | .not, [m] => .ok (.negation m)
  | .not, ms => .error (.negatedOperands ms.length)
  | _, [m] => .ok m
  | .and, ms => .ok (.all ms)
  | .or, ms => .ok (.any ms)
  | .unset, _ => .error .noConnective

/-- The matcher for one operand of a field. -/
def Field.matcher (operands : List String) : Field → Except MatcherError (String → Matcher)
  | .unset => .error .noField
  | .sender => .ok fun s => .test (.address .sender s)
  | .recipient => .ok .recipient
  | .cc => .ok fun s => .test (.address .cc s)
  | .bcc => .ok fun s => .test (.address .bcc s)
  | .replyTo => .ok fun s => .test (.address .replyTo s)
  | .subject => .ok fun s => .test (.words .subject s)
  | .list => .ok fun s => .test (.address .lists s)
  | .has => .ok .anywhere
  | .query => .error (.query operands)

def Leaf.matcher (l : Leaf) : Except MatcherError Matcher :=
  if l.raw then .error (.raw l.field l.operands)
  else (l.field.matcher l.operands).bind fun f => Matcher.grouped l.grouping (l.operands.map f)

namespace Condition

/-- The matcher of a node from those of its children. -/
def nodeMatcher (op : Connective) (ms : List Matcher) : Except MatcherError Matcher :=
  match op, ms with
  | .and, ms => .ok (.all ms)
  | .or, ms => .ok (.any ms)
  | .not, [m] => .ok (.negation m)
  | .not, ms => .error (.negationOf ms.length)
  | .unset, _ => .error .noConnective

mutual
def matcher : Condition → Except MatcherError Matcher
  | leaf l => l.matcher
  | node op cs => (matchers cs).bind (nodeMatcher op)
def matchers : List Condition → Except MatcherError (List Matcher)
  | [] => .ok []
  | c :: cs =>
    match matcher c with
    | .error e => .error e
    | .ok m => (matchers cs).map (m :: ·)
end

end Condition

end MailRules
