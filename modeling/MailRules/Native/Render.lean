import MailRules.Native.Layout
import MailRules.Native.Search
import MailRules.Text.Digits
import MailRules.Text.Whitespace

/-!
Native filters as text, one parameter to a line.
-/

namespace MailRules.Native

/-- The line of a parameter; none if it is not set. -/
def paramLine (name value : String) : String :=
  if value = "" then "" else "    " ++ name ++ ": " ++ value ++ "\n"

/-- The line of a flag; none if it is off. -/
def flagLine (name : String) (value : Bool) : String :=
  if value then "    " ++ name ++ "\n" else ""

namespace Filter

def criteriaText (c : Criteria) : String :=
  paramLine "from" c.sender ++ paramLine "to" c.recipient ++ paramLine "subject" c.subject
    ++ paramLine "query" (indented c.query 2)

def actionText (a : Action) : String :=
  flagLine "archive" a.archive ++ flagLine "delete" a.delete
    ++ flagLine "mark as important" a.markImportant
    ++ flagLine "never mark as important" a.markNotImportant
    ++ flagLine "never mark as spam" a.markNotSpam ++ flagLine "mark as read" a.markRead
    ++ flagLine "star" a.star
    ++ paramLine "categorize as" ((a.category.map (·.name)).getD "")
    ++ paramLine "apply label" a.label ++ paramLine "forward to" a.forward

def render (f : Filter) : String :=
  "* Criteria:\n" ++ criteriaText f.criteria ++ "  Actions:\n" ++ actionText f.action

def lines (f : Filter) : List String := Text.lines f.render

/-- The address of the search that finds what the filter matches. -/
def searchAddress (c : Criteria) : String :=
  "https://mail.google.com/mail/u/0/#search/" ++ Text.percentEncoded c.search

/-- A filter as text, with its search and the address of it. -/
def renderDebug (f : Filter) : String :=
  "# Search: " ++ f.criteria.search ++ "\n# URL: " ++ searchAddress f.criteria ++ "\n" ++ f.render

/-- Filters as text, with an empty line between them. -/
def renderAll (debug : Bool) (filters : List Filter) : String :=
  String.intercalate "\n" (filters.map fun f => if debug then f.renderDebug else f.render)

end Filter

end MailRules.Native
