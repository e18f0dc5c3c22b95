import MailRules.Config
import MailRules.Document.Reader

/-!
Reading a configuration, and each of its parts, from a document.

Fields whose name is a word of common programming languages, or is written with a capital, have a
second name that is accepted as well. Rules, filters, labels, messages and trials allow no unknown
keys; colors and authors do. Expressions may stand inside one another up to a depth, and a rule or
named filter around them counts as one more.
-/

namespace MailRules

open Document Document.Reading

def Category.read : Json → Reading Category
  | .str s => match Category.ofName? s with
    | some c => .read c
    | none => bad .notChoice
  | _ => bad .notChoice

namespace FilterExpr

/-- A value in an expression, with what it is when read as an expression or as a list of them. -/
structure Part where
  value : Json
  asExpr : Reading (Option FilterExpr)
  asExprs : Reading (Option (List FilterExpr))

def textField (n : Names) : Record Part (Option String) :=
  .field n none fun p => orNull asText p.value

def record : Record Part FilterExpr :=
  FilterExpr.mk <$> .field ⟨"and", ["and_"]⟩ none Part.asExprs
    <*> .field ⟨"or", ["or_"]⟩ none Part.asExprs <*> .field ⟨"not", ["not_"]⟩ none Part.asExpr
    <*> textField ⟨"from", ["from_"]⟩ <*> textField "to" <*> textField "cc" <*> textField "bcc"
    <*> textField "replyto" <*> textField "subject" <*> textField ⟨"list", ["list_"]⟩
    <*> textField "has" <*> textField "query" <*> textField "name"
    <*> .field ⟨"isEscaped", ["is_escaped"]⟩ false fun p => asFlag p.value

/-- The number of documents around an expression that is too many. -/
def depthLimit : Nat := 255

/-- The defect of a value that is no object, where an expression inside `depth` others is due. -/
def strayDefect (depth : Nat) : Defect := if depth < depthLimit then .notObject else .tooDeep

mutual
/-- A filter expression inside `depth` others. -/
def readAt : (depth : Nat) → Json → Reading FilterExpr
  | depth, .obj fields =>
    if depth < depthLimit then record.runClosed (readParts (depth + 1) fields) else bad .tooDeep
  | depth, _ => bad (strayDefect depth)
/-- The parts of an expression; the expressions among them are inside `depth` others. -/
def readParts : (depth : Nat) → List (String × Json) → List (String × Part)
  | _, [] => []
  | depth, (key, v) :: rest =>
    (key, ⟨v, readOptional depth v, readList depth v⟩) :: readParts depth rest
/-- An expression inside `depth` others, or null. -/
def readOptional : (depth : Nat) → Json → Reading (Option FilterExpr)
  | _, .null => .read none
  | depth, .obj fields =>
    if depth < depthLimit then some <$> record.runClosed (readParts (depth + 1) fields)
    else bad .tooDeep
  | depth, _ => bad (strayDefect depth)
/-- A list of expressions inside `depth` others, or null. -/
def readList : (depth : Nat) → Json → Reading (Option (List FilterExpr))
  | _, .null => .read none
  | depth, .arr vs => some <$> readItems depth 0 vs
  | _, _ => bad .notList
/-- Expressions inside `depth` others one by one, the first of them at the given index. -/
def readItems : (depth index : Nat) → List Json → Reading (List FilterExpr)
  | _, _, [] => .read []
  | depth, i, v :: vs =>
    List.cons <$> under (Text.ofNat i) (readAt depth v) <*> readItems depth (i + 1) vs
end

/-- A filter expression that stands for itself. -/
def read : Json → Reading FilterExpr := readAt 0

/-- The filter expression of a rule or named filter. -/
def readInside : Json → Reading FilterExpr := readAt 1

end FilterExpr

def Actions.record : Record Json Actions :=
  Actions.mk <$> .field "archive" false asFlag <*> .field "delete" false asFlag
    <*> .field ⟨"markRead", ["mark_read"]⟩ false asFlag <*> .field "star" false asFlag
    <*> .field ⟨"markSpam", ["mark_spam"]⟩ none (orNull asFlag)
    <*> .field ⟨"markImportant", ["mark_important"]⟩ none (orNull asFlag)
    <*> .field "category" none (orNull Category.read) <*> .field "labels" [] (asList asText)
    <*> .field "forward" "" asText

def Actions.read : Json → Reading Actions := record.asClosed

def Rule.record : Record Json Rule :=
  Rule.mk <$> .required "filter" FilterExpr.readInside <*> .required "actions" Actions.read

def Rule.read : Json → Reading Rule := record.asClosed

def NamedFilter.record : Record Json NamedFilter :=
  NamedFilter.mk <$> .required "name" asText <*> .required "filter" FilterExpr.readInside

def NamedFilter.read : Json → Reading NamedFilter := record.asClosed

def Color.record : Record Json Color :=
  Color.mk <$> .required "background" asText <*> .required "text" asText

def Color.read : Json → Reading Color := record.asOpen

def DeclaredLabel.record : Record Json DeclaredLabel :=
  DeclaredLabel.mk <$> .required "name" asText <*> .field "color" none (orNull Color.read)

def DeclaredLabel.read : Json → Reading DeclaredLabel := record.asClosed

def Message.record : Record Json Message :=
  Message.mk <$> .field ⟨"from", ["from_"]⟩ "" asText <*> .field "to" [] (asList asText)
    <*> .field "cc" [] (asList asText) <*> .field "bcc" [] (asList asText)
    <*> .field "replyto" [] (asList asText) <*> .field "lists" [] (asList asText)
    <*> .field "subject" "" asText <*> .field "body" "" asText

def Message.read : Json → Reading Message := record.asClosed

def Trial.record : Record Json Trial :=
  Trial.mk <$> .field "name" "" asText <*> .required "messages" (asList Message.read)
    <*> .required "actions" Actions.read

def Trial.read : Json → Reading Trial := record.asClosed

def Author.record : Record Json Author :=
  Author.mk <$> .field "name" "" asText <*> .field "email" "" asText

def Author.read : Json → Reading Author := record.asOpen

def Config.record : Record Json Config :=
  Config.mk <$> .field "version" "v1alpha3" asText <*> .field "author" {} Author.read
    <*> .field "labels" [] (asList DeclaredLabel.read)
    <*> .field "filters" [] (asList NamedFilter.read) <*> .field "rules" [] (asList Rule.read)
    <*> .field "tests" [] (asList Trial.read)

def Config.read : Json → Reading Config := record.asClosed

end MailRules
