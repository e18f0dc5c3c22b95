import MailRules.Text.Digits
import MailRules.Text.Matching

/-!
Unified diffs of two sequences of lines, which keep what ends them.

A diff lists the lines that go and the lines that come, with some lines of context around them;
changes that are close to each other share a hunk. A diff without hunks is the empty text.
-/

namespace MailRules.Text

/-- A stretch of either side: kept as it is, or replaced. -/
structure Stretch where
  kept : Bool
  left : Int
  leftEnd : Int
  right : Int
  rightEnd : Int

/-- The stretches of two sequences with the given matching blocks, from the given places to the ends
of both sides. -/
def stretchesFrom (i j : Nat) (leftEnd rightEnd : Nat) : List Block → List Stretch
  | [] => if i < leftEnd ∨ j < rightEnd then [⟨false, i, leftEnd, j, rightEnd⟩] else []
  | b :: bs =>
    (if i < b.left ∨ j < b.right then [⟨false, i, b.left, j, b.right⟩] else [])
      ++ (if b.size = 0 then [] else
          [⟨true, b.left, (b.left + b.size : Nat), b.right, (b.right + b.size : Nat)⟩])
      ++ stretchesFrom (b.left + b.size) (b.right + b.size) leftEnd rightEnd bs

/-- A kept stretch with at most `n` lines at its end. -/
def Stretch.tail (n : Int) (s : Stretch) : Stretch :=
  { s with left := max s.left (s.leftEnd - n), right := max s.right (s.rightEnd - n) }

/-- A kept stretch with at most `n` lines at its start. -/
def Stretch.head (n : Int) (s : Stretch) : Stretch :=
  { s with leftEnd := min s.leftEnd (s.left + n), rightEnd := min s.rightEnd (s.right + n) }

/-- Stretches of which the first, if it is kept, has at most `n` lines. -/
def trimFirst (n : Int) : List Stretch → List Stretch
  | [] => []
  | s :: ss => (if s.kept then s.tail n else s) :: ss

/-- Stretches of which the last, if it is kept, has at most `n` lines. -/
def trimLast (n : Int) : List Stretch → List Stretch
  | [] => []
  | [s] => [if s.kept then s.head n else s]
  | s :: ss => s :: trimLast n ss

/-- The stretches in hunks, after the stretches of the hunk under way. A kept stretch that is longer
than the context on both sides of it parts two hunks. -/
def hunksFrom (n : Int) (hunk : List Stretch) : List Stretch → List (List Stretch)
  | [] => match hunk with
    | [] => []
    | [s] => if s.kept then [] else [[s]]
    | ss => [ss]
  | s :: ss =>
    if s.kept ∧ 2 * n < s.leftEnd - s.left then
      (hunk ++ [s.head n]) :: hunksFrom n [s.tail n] ss
    else hunksFrom n (hunk ++ [s]) ss

/-- The hunks of two sequences with `n` lines of context. -/
def hunks (n : Int) (left right : List String) : List (List Stretch) :=
  let stretches := stretchesFrom 0 0 left.length right.length
    (matchingBlocks left right (rareAnchors right))
  let stretches := if stretches.isEmpty then [⟨true, 0, 1, 0, 1⟩] else stretches
  hunksFrom n [] (trimLast n (trimFirst n stretches))

/-- The place in a sequence of a given length that an index stands for: a negative index counts from
the end. -/
def place (length : Nat) (i : Int) : Nat := if i < 0 then (length + i).toNat else min length i.toNat

def between (lines : List String) (i j : Int) : List String :=
  let i := place lines.length i
  (lines.drop i).take (place lines.length j - i)

/-- A range of lines in the head of a hunk. The first line has number one; a single line goes
without a count, and an empty range stands before the line it names. -/
def rangeText (start stop : Int) : String :=
  let length := stop - start
  if length = 1 then ofInt (start + 1)
  else if length = 0 then ofInt start ++ ",0"
  else ofInt (start + 1) ++ "," ++ ofInt length

def Stretch.lines (left right : List String) (s : Stretch) : List String :=
  if s.kept then (between left s.left s.leftEnd).map (" " ++ ·)
  else (between left s.left s.leftEnd).map ("-" ++ ·)
    ++ (between right s.right s.rightEnd).map ("+" ++ ·)

def hunkLines (left right : List String) (hunk : List Stretch) : List String :=
  match hunk.head?, hunk.getLast? with
  | some first, some last =>
    ("@@ -" ++ rangeText first.left last.leftEnd ++ " +" ++ rangeText first.right last.rightEnd
      ++ " @@\n") :: hunk.flatMap (Stretch.lines left right)
  | _, _ => []

/-- The diff of two named sequences with `context` lines of context; empty if there is no hunk. -/
def unifiedDiff (leftName rightName : String) (context : Int) (left right : List String) : String :=
  match hunks context left right with
  | [] => ""
  | hs => String.join (["--- " ++ leftName ++ "\n", "+++ " ++ rightName ++ "\n"]
      ++ hs.flatMap (hunkLines left right))

/-- The names under which the present and the future state are diffed. -/
def stateDiff (context : Int) (current desired : List String) : String :=
  unifiedDiff "Current" "TO BE APPLIED" context current desired

end MailRules.Text
