import MailRules.Config
import MailRules.Document.Writer

/-!
Writing a configuration, and each of its parts, as a document, under the names by which fields are
told.
-/

namespace MailRules

open Document

mutual
def FilterExpr.written : FilterExpr → Written
  | ⟨conj, disj, neg, sender, recipient, cc, bcc, replyTo, subject, list, has, query, name,
      escaped⟩ =>
    .object [
      ⟨"and", writtenList conj, conj.isNone⟩, ⟨"or", writtenList disj, disj.isNone⟩,
      ⟨"not", writtenOption neg, neg.isNone⟩, .text? "from" sender, .text? "to" recipient,
      .text? "cc" cc, .text? "bcc" bcc, .text? "replyto" replyTo, .text? "subject" subject,
      .text? "list" list, .text? "has" has, .text? "query" query, .text? "name" name,
      .flag "isEscaped" escaped]
def FilterExpr.writtenOption : Option FilterExpr → Written
  | none => .plain .null
  | some e => e.written
def FilterExpr.writtenList : Option (List FilterExpr) → Written
  | none => .plain .null
  | some es => .list (writtenAll es)
def FilterExpr.writtenAll : List FilterExpr → List Written
  | [] => []
  | e :: es => e.written :: writtenAll es
end

def Actions.written (a : Actions) : Written :=
  .object [
    .flag "archive" a.archive, .flag "delete" a.delete, .flag "markRead" a.markRead,
    .flag "star" a.star, .flag? "markSpam" a.markSpam, .flag? "markImportant" a.markImportant,
    .text? "category" (a.category.map (·.name)), .texts "labels" a.labels,
    .text "forward" a.forward]

def Rule.written (r : Rule) : Written :=
  .object [⟨"filter", r.filter.written, false⟩, ⟨"actions", r.actions.written, false⟩]

def NamedFilter.written (f : NamedFilter) : Written :=
  .object [⟨"name", .plain (.str f.name), false⟩, ⟨"filter", f.filter.written, false⟩]

def Color.written (c : Color) : Written :=
  .object [⟨"background", .plain (.str c.background), false⟩, ⟨"text", .plain (.str c.text), false⟩]

def DeclaredLabel.written (l : DeclaredLabel) : Written :=
  .object [⟨"name", .plain (.str l.name), false⟩,
    ⟨"color", .optional (l.color.map (·.written)), l.color.isNone⟩]

def Message.written (m : Message) : Written :=
  .object [
    .text "from" m.sender, .texts "to" m.recipients, .texts "cc" m.cc, .texts "bcc" m.bcc,
    .texts "replyto" m.replyTo, .texts "lists" m.lists, .text "subject" m.subject,
    .text "body" m.body]

def Trial.written (t : Trial) : Written :=
  .object [.text "name" t.name, ⟨"messages", .list (t.messages.map (·.written)), false⟩,
    ⟨"actions", t.actions.written, false⟩]

def Author.written (a : Author) : Written :=
  .object [.text "name" a.name, .text "email" a.email]

def Config.written (c : Config) : Written :=
  .object [
    ⟨"version", .plain (.str c.version), c.version = "v1alpha3"⟩,
    ⟨"author", c.author.written, c.author = {}⟩,
    ⟨"labels", .list (c.labels.map (·.written)), c.labels.isEmpty⟩,
    ⟨"filters", .list (c.filters.map (·.written)), c.filters.isEmpty⟩,
    ⟨"rules", .list (c.rules.map (·.written)), c.rules.isEmpty⟩,
    ⟨"tests", .list (c.trials.map (·.written)), c.trials.isEmpty⟩]

end MailRules
