/-!
A search laid out over several lines, one operand to a line and indented by its nesting.

The layout goes through the search character by character (`Layout.step`). A space starts a new line
unless blanks are being skipped; an opening bracket starts a deeper line after it, a closing bracket
a shallower line before it and another after it; quoted text is copied as it stands. Blanks are
skipped at the start, after a bracket and after a colon.
-/

namespace MailRules.Native

namespace Layout

/-- What the next character is read as. -/
inductive Mode where
  | skipping
  | plain
  | quoted
  deriving DecidableEq

/-- The layout under way: how to read on, the depth of the line, and whether a line was broken. -/
structure State where
  mode : Mode := .skipping
  level : Int
  broken : Bool := false

/-- The blanks in front of a line at a depth; a depth below zero has none. -/
def indentation (level : Int) : List Char := List.replicate (2 * level.toNat) ' '

def newLine (level : Int) : List Char := '\n' :: indentation level

/-- What is written for a character, and the layout after it. -/
def step (s : State) (c : Char) : List Char × State :=
  if s.mode = .quoted then ([c], if c = '"' then { s with mode := .plain } else s)
  else if c = ' ' then
    if s.mode = .skipping then ([], s) else (newLine s.level, { s with broken := true })
  else if c = '{' ∨ c = '(' then
    (c :: newLine (s.level + 1), ⟨.skipping, s.level + 1, true⟩)
  else if c = '}' ∨ c = ')' then
    (newLine (s.level - 1) ++ c :: newLine (s.level - 1), ⟨.skipping, s.level - 1, true⟩)
  else if c = ':' then ([c], { s with mode := .skipping })
  else if c = '"' then ([c], { s with mode := .quoted })
  else ([c], { s with mode := .plain })

/-- What is written for characters, and the layout after them. -/
def run (s : State) : List Char → List Char × State
  | [] => ([], s)
  | c :: cs =>
    let (here, s) := step s c
    let (rest, s) := run s cs
    (here ++ rest, s)

/-- A search laid out from a depth, and whether that took more than one line. -/
def text (level : Int) (query : String) : String × Bool :=
  let (written, s) := run { level } query.toList
  (String.ofList (indentation level ++ written), s.broken)

end Layout

def withoutTail (cs : List Char) : List Char :=
  (cs.reverse.dropWhile fun c => c = ' ' ∨ c = '\n').reverse

/-- A search below a parameter at a depth. A search that fits on one line stays beside the name. -/
def indented (query : String) (level : Int) : String :=
  match Layout.text (level + 1) query with
  | (_, false) => query
  | (text, true) => String.ofList ('\n' :: withoutTail text.toList)

end MailRules.Native
