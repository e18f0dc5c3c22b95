import MailRules.Document.Defect
import MailRules.Text.Whitespace

/-!
Whole numbers written as text, read leniently.

Blanks around the number, a sign, zeros in front, single underscores between digits and a fraction
of zeros are allowed. The number after the sign starts with a digit. If that is a zero, the zeros
and underscores in front of it are dropped; after them the number itself may have a minus sign, but
no more zeros in front. A number has at most `longest` digits. A text that starts with more is told
apart from a text that is no number, but not if it takes dropping something to find them.
-/

namespace MailRules.Document

/-- A number without the zeros (and underscores) in front of it; `last` is the one dropped before.
The zero of a number that is nothing but zeros stays, and so does the one before a point. -/
def dropZeros : (last : Char) → List Char → Option (List Char)
  | last, [] => some [last]
  | last, c :: cs =>
    if c = '0' ∨ c = '_' then dropZeros c cs
    else if c.isDigit ∨ c = '-' then some (c :: cs)
    else if c = '.' then some (last :: c :: cs)
    else none

/-- A number that starts with a digit, without zeros in front. -/
def unpadded : List Char → Option (List Char)
  | [] => none
  | c :: cs => if c = '0' then dropZeros c cs else if c.isDigit then some (c :: cs) else none

/-- A number without a fraction of zeros. -/
def dropFraction (cs : List Char) : List Char :=
  let whole := cs.takeWhile (· ≠ '.')
  let fraction := (cs.dropWhile (· ≠ '.')).drop 1
  if !fraction.isEmpty ∧ fraction.all (· = '0') then whole else cs

/-- Whether every underscore of a text, of which `last` is the character before, stands between two
other characters. -/
def underscoresApart : (last : Char) → List Char → Bool
  | last, [] => last ≠ '_'
  | last, c :: cs => (last ≠ '_' || c ≠ '_') && underscoresApart c cs

/-- A text without its underscores, if each of them stands between two other characters. -/
def dropUnderscores (cs : List Char) : List Char :=
  if underscoresApart '_' cs then cs.filter (· ≠ '_') else cs

/-- The greatest number of digits that a number may have. -/
def longest : Nat := 4300

/-- The natural number that digits stand for, if there are not too many and no zeros in front. -/
def ofDigits? (cs : List Char) : Option Nat :=
  if cs.isEmpty ∨ !cs.all Char.isDigit ∨ longest < cs.length then none
  else if cs.head? = some '0' ∧ 1 < cs.length then none
  else some (Nat.ofDigitChars 10 cs 0)

/-- The number that a text without zeros in front stands for; it may have a minus sign. -/
def ofUnpadded? (cs : List Char) : Option Int :=
  match dropUnderscores (dropFraction cs) with
  | '-' :: cs => (ofDigits? cs).map fun n => -(n : Int)
  | cs => (ofDigits? cs).map fun n => (n : Int)

/-- The number that a text without blanks around it stands for. -/
def ofTrimmed? : List Char → Option Int
  | '-' :: cs => (unpadded cs).bind fun cs => ofUnpadded? ('-' :: cs)
  | '+' :: cs => (unpadded cs).bind ofUnpadded?
  | cs => (unpadded cs).bind ofUnpadded?

def dropMinus : List Char → List Char
  | '-' :: cs => cs
  | cs => cs

/-- Whether a text starts with too many digits, the first of which is no zero. -/
def startsOversized (cs : List Char) : Bool :=
  let digits := (dropMinus cs).takeWhile Char.isDigit
  longest < digits.length && digits.head? ≠ some '0'

def wholeOfText (s : String) : Except Defect Int :=
  let cs := s.toList
  if startsOversized cs then .error .oversizedWhole
  else match ofTrimmed? (Text.trimWhile Text.isSpace cs) with
    | none => .error .unreadableWhole
    | some n => .ok n

end MailRules.Document
