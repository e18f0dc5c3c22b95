import MailRules.Config.Reader
import MailRules.Document.Writer
import MailRules.Json.Text
import MailRules.Native.Filter
import MailRules.Text.Sha256

/-!
Native filters as documents, and what makes two of them the same filter.

Unknown keys are passed over, since the service may tell more about a filter than is needed here.

The content of a filter is the canonical text of its criteria and action; the id is left out.
Filters are told apart by the digest of their content.
-/

namespace MailRules.Native

open Document

def Criteria.record : Record Json Criteria :=
  Criteria.mk <$> .field ⟨"from", ["from_"]⟩ "" asText <*> .field "to" "" asText
    <*> .field "subject" "" asText <*> .field "query" "" asText

def Criteria.read : Json → Reading Criteria := record.asOpen

def Criteria.written (c : Criteria) : Written :=
  .object [.text "from" c.sender, .text "to" c.recipient, .text "subject" c.subject,
    .text "query" c.query]

def Action.record : Record Json Action :=
  Action.mk <$> .field "add_label" "" asText <*> .field "category" none (orNull Category.read)
    <*> .field "archive" false asFlag <*> .field "delete" false asFlag
    <*> .field "mark_important" false asFlag <*> .field "mark_not_important" false asFlag
    <*> .field "mark_read" false asFlag <*> .field "mark_not_spam" false asFlag
    <*> .field "star" false asFlag <*> .field "forward" "" asText

def Action.read : Json → Reading Action := record.asOpen

def Action.written (a : Action) : Written :=
  .object [
    .text "add_label" a.label, .text? "category" (a.category.map (·.name)),
    .flag "archive" a.archive, .flag "delete" a.delete, .flag "mark_important" a.markImportant,
    .flag "mark_not_important" a.markNotImportant, .flag "mark_read" a.markRead,
    .flag "mark_not_spam" a.markNotSpam, .flag "star" a.star, .text "forward" a.forward]

def Filter.record : Record Json Filter :=
  Filter.mk <$> .field "id" "" asText <*> .field "criteria" {} Criteria.read
    <*> .field "action" {} Action.read

def Filter.read : Json → Reading Filter := record.asOpen

def Filter.written (f : Filter) : Written :=
  .object [.text "id" f.id, ⟨"criteria", f.criteria.written, f.criteria.isEmpty⟩,
    ⟨"action", f.action.written, f.action.isEmpty⟩]

/-! ## Contents -/

/-- The content of a filter as text. -/
def Filter.content (f : Filter) : String :=
  (Json.obj [("criteria", f.criteria.written.full), ("action", f.action.written.full)]).canonical

def Filter.contentHash (f : Filter) : String := Text.sha256 f.content

def Criteria.hash (c : Criteria) : String := Text.sha256 c.written.full.canonical

/-- The filters with the digests of their contents, in their order, each content once: of several
filters with one content the first one counts. -/
def distinctFrom (seen : List String) : List Filter → List (String × Filter)
  | [] => []
  | f :: fs =>
    let hash := f.contentHash
    if seen.contains hash then distinctFrom seen fs
    else (hash, f) :: distinctFrom (hash :: seen) fs

def distinct (fs : List Filter) : List (String × Filter) := distinctFrom [] fs

end MailRules.Native
