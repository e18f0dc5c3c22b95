import MailRules.Native.Error
import MailRules.Native.Filter

/-!
Conditions in the search language of the mail service.

In a search, `(a b)` asks for all of its parts, `{a b}` for some of them, `-a` for the opposite, and
a field is written as a prefix, `cc:a`. Operands that the search would take apart are quoted.

`queryText` writes a whole condition as a search. `criteria` spreads a conjunction over the fields
of native criteria, which have a place of their own for sender, recipient and subject, and writes
the rest as a search. Both refuse nodes without children.
-/

namespace MailRules.Native

/-- Whether an operand means something else without quotes: a blank or bracket takes it apart, and a
plus sign does so outside an address. -/
def needsQuotes (operand : String) : Bool :=
  operand.toList.any [' ', '\t', '{', '}', '(', ')'].contains
    || (operand.toList.contains '+' && !operand.toList.contains '@')

/-- An operand as it is written in a search. -/
def quote (operand : String) : String :=
  if needsQuotes operand then "\"" ++ operand ++ "\"" else operand

/-- Two searches side by side. -/
def joinQueries (a b : String) : String :=
  if a = "" then b else if b = "" then a else a ++ " " ++ b

/-- A search under a connective. -/
def group (op : Connective) (query : String) : Except CompileError String :=
  match op with
  | .or => .ok ("\x7b" ++ query ++ "\x7d")
  | .and => .ok ("(" ++ query ++ ")")
  | .not => .ok ("-" ++ query)
  | .unset => .error .noConnective

/-- The operands of a leaf. Those of a raw leaf and of a query are in the search language
already. -/
def operandText (l : Leaf) : Except CompileError String :=
  let operands := if l.field ≠ .query ∧ !l.raw then l.operands.map quote else l.operands
  let text := String.intercalate " " operands
  if 1 < l.operands.length then group l.grouping text else .ok text

/-- A field in front of its operands. A search without a prefix looks everywhere. -/
def prefixed (field : Field) (text : String) : String :=
  if field = .has ∨ field = .query then text else field.name ++ ":" ++ text

mutual
def queryText : Condition → Except CompileError String
  | .leaf l => (operandText l).map (prefixed l.field)
  | .node op [] => .error (.childless op)
  | .node op (c :: cs) =>
    match queryTexts (c :: cs) with
    | .error err => .error err
    | .ok text => group op text
def queryTexts : List Condition → Except CompileError String
  | [] => .ok ""
  | c :: cs =>
    match queryText c with
    | .error err => .error err
    | .ok text => (queryTexts cs).map (joinQueries text)
end

/-- Two criteria at once. -/
def Criteria.join (a b : Criteria) : Criteria where
  sender := joinQueries a.sender b.sender
  recipient := joinQueries a.recipient b.recipient
  subject := joinQueries a.subject b.subject
  query := joinQueries a.query b.query

/-- The criteria of a field with its operands. -/
def fieldCriteria (field : Field) (text : String) : Except CompileError Criteria :=
  match field with
  | .unset => .error .noField
  | .sender => .ok { sender := text }
  | .recipient => .ok { recipient := text }
  | .subject => .ok { subject := text }
  | field => .ok { query := prefixed field text }

mutual
/-- The criteria of a condition, which may turn out empty. -/
def parts : Condition → Except CompileError Criteria
  | .leaf l => (operandText l).bind (fieldCriteria l.field)
  | .node op [] => .error (.childless op)
  | .node .or (c :: cs) =>
    (queryTexts (c :: cs)).map fun text => { query := "\x7b" ++ text ++ "\x7d" }
  | .node .and (c :: cs) => partsAll (c :: cs)
  | .node .not [c] => (queryText c).map fun text => { query := "-" ++ text }
  | .node .not cs => .error (.negationOf cs.length)
  | .node .unset _ => .error .noConnective
def partsAll : List Condition → Except CompileError Criteria
  | [] => .ok {}
  | c :: cs =>
    match parts c with
    | .error err => .error err
    | .ok criteria => (partsAll cs).map criteria.join
end

/-- The criteria of a native filter for a condition. A filter without criteria would match
everything, and is refused. -/
def criteria (t : Condition) : Except CompileError Criteria :=
  match parts t with
  | .error err => .error err
  | .ok c => if c.isEmpty then .error .emptyCriteria else .ok c

/-- The search that finds what the criteria match. -/
def Criteria.search (c : Criteria) : String :=
  let field (name value : String) := if value = "" then [] else [name ++ value]
  String.intercalate " " (field "from:" c.sender ++ field "to:" c.recipient
    ++ field "subject:" c.subject ++ field "" c.query)

theorem joinQueries_empty (a : String) : joinQueries a "" = a := by
  unfold joinQueries; split <;> simp_all

theorem empty_joinQueries (a : String) : joinQueries "" a = a := by simp [joinQueries]

end MailRules.Native
