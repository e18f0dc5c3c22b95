/-!
Blank characters, and the lines of a text.

`isSpace` is the character class *White_Space* of the Unicode standard. `isBlank` adds the four
information separators, U+001C to U+001F, which are blanks for the purpose of trimming text.

A line ends with a line feed, a carriage return with or without a line feed after it, or one of the
other line boundaries of Unicode, and keeps what ends it. The last line may go without.
-/

namespace MailRules.Text

def isSpace (c : Char) : Bool :=
  let n := c.toNat
  (0x09 ≤ n && n ≤ 0x0d) || n = 0x20 || n = 0x85 || n = 0xa0 || n = 0x1680
    || (0x2000 ≤ n && n ≤ 0x200a) || n = 0x2028 || n = 0x2029 || n = 0x202f || n = 0x205f
    || n = 0x3000

def isBlank (c : Char) : Bool := isSpace c || (0x1c ≤ c.toNat && c.toNat ≤ 0x1f)

/-- A list without the elements at its end that satisfy `p`. -/
def dropEndWhile {α : Type} (p : α → Bool) (xs : List α) : List α :=
  (xs.reverse.dropWhile p).reverse

/-- A list without the elements at either end that satisfy `p`. -/
def trimWhile {α : Type} (p : α → Bool) (xs : List α) : List α := dropEndWhile p (xs.dropWhile p)

def trimmed (s : String) : String := String.ofList (trimWhile isBlank s.toList)

def trimmedEnd (s : String) : String := String.ofList (dropEndWhile isBlank s.toList)

/-! ## Lines -/

def endsLine (c : Char) : Bool :=
  let n := c.toNat
  (0x0a ≤ n && n ≤ 0x0d) || (0x1c ≤ n && n ≤ 0x1e) || n = 0x85 || n = 0x2028 || n = 0x2029

/-- The lines of a text after the characters `line`, given in reverse, of the line under way. -/
def linesFrom (line : List Char) : List Char → List (List Char)
  | [] => if line.isEmpty then [] else [line.reverse]
  | '\r' :: '\n' :: rest => ('\n' :: '\r' :: line).reverse :: linesFrom [] rest
  | c :: rest =>
    if endsLine c then (c :: line).reverse :: linesFrom [] rest else linesFrom (c :: line) rest

/-- The lines of a text, each with what ends it. -/
def lines (s : String) : List String := (linesFrom [] s.toList).map String.ofList

theorem flatten_linesFrom (line cs : List Char) :
    (linesFrom line cs).flatten = line.reverse ++ cs := by
  fun_induction linesFrom line cs with
  | case1 line h => simp_all
  | case2 line h => simp
  | case3 line rest ih => simp [ih]
  | case4 line c rest _ h ih => simp [ih]
  | case5 line c rest _ h ih => simp [ih]

end MailRules.Text
