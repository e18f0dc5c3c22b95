import Std.Data.HashMap

/-!
Matching blocks of two sequences of lines.

The longest block of equal lines is found first, the earliest one of several, and then the longest
blocks before it and after it, and so on. Lines of the second sequence can be left out as places
where a block may start (`Anchors`); a block found elsewhere still grows over them.

`blocksWithin` yields blocks in ascending order that do not overlap; `similarity` is the share of
lines in them.
-/

namespace MailRules.Text

/-- A run of equal lines: where it starts on either side, and how long it is. -/
structure Block where
  left : Nat
  right : Nat
  size : Nat

/-- Where each line stands in the second sequence, in ascending order. -/
abbrev Anchors := Std.HashMap String (List Nat)

def anchors (lines : List String) : Anchors :=
  let places : Anchors :=
    lines.zipIdx.foldl (fun m (line, i) => m.insert line (i :: m.getD line [])) ∅
  places.map fun _ is => is.reverse

/-- The places of lines that are not too common: of two hundred lines or more, those that take up
one place in a hundred are left out. -/
def rareAnchors (lines : List String) : Anchors :=
  let n := lines.length
  let all := anchors lines
  if n < 200 then all else all.filter fun _ is => is.length ≤ n / 100 + 1

structure Pair where
  left : Array String
  right : Array String
  anchors : Anchors

/-- The lengths of the blocks that end at the given places in the right sequence, from those that
end one line earlier in both. Both lists ascend by place. -/
def lengthsAt (before : List (Nat × Nat)) : List Nat → List (Nat × Nat)
  | [] => []
  | j :: js =>
    let before := before.dropWhile fun p => p.1 + 1 < j
    let length := match before with
      | (p, n) :: _ => if p + 1 = j then n + 1 else 1
      | [] => 1
    (j, length) :: lengthsAt before js

/-- The longest block among those so far and those that end at line `i` on the left. -/
def longer (i : Nat) (best : Block) : List (Nat × Nat) → Block
  | [] => best
  | (j, n) :: ends =>
    longer i (if best.size < n then ⟨i + 1 - n, j + 1 - n, n⟩ else best) ends

namespace Pair

/-- The longest block between anchors, with the left side going through the given lines. -/
def scan (p : Pair) (blo bhi : Nat) :
    List Nat → (ends : List (Nat × Nat)) → (best : Block) → Block
  | [], _, best => best
  | i :: is, ends, best =>
    let places := ((p.left[i]?.bind (p.anchors[·]?)).getD []).filter fun j => blo ≤ j && j < bhi
    let ends := lengthsAt ends places
    scan p blo bhi is ends (longer i best ends)

def same (p : Pair) (i j : Nat) : Bool :=
  match p.left[i]?, p.right[j]? with
  | some a, some b => a == b
  | _, _ => false

/-- The block with up to `most` equal lines before it taken in. -/
def growBack (p : Pair) : (most : Nat) → Block → Block
  | 0, b => b
  | most + 1, b =>
    if p.same (b.left - 1) (b.right - 1) then
      growBack p most ⟨b.left - 1, b.right - 1, b.size + 1⟩
    else b

/-- The block with up to `most` equal lines after it taken in. -/
def growOn (p : Pair) : (most : Nat) → Block → Block
  | 0, b => b
  | most + 1, b =>
    if p.same (b.left + b.size) (b.right + b.size) then
      growOn p most { b with size := b.size + 1 }
    else b

/-- The longest block within a range of either side. -/
def longest (p : Pair) (alo ahi blo bhi : Nat) : Block :=
  let b := p.scan blo bhi (List.range' alo (ahi - alo)) [] ⟨alo, blo, 0⟩
  let b := p.growBack (min (b.left - alo) (b.right - blo)) b
  p.growOn (min (ahi - (b.left + b.size)) (bhi - (b.right + b.size))) b

/-- The blocks within a range of either side, in ascending order. -/
def blocksWithin (p : Pair) (alo ahi blo bhi : Nat) : List Block :=
  match p.longest alo ahi blo bhi with
  | ⟨i, j, n⟩ =>
    if _h : 0 < n ∧ alo ≤ i ∧ i + n ≤ ahi then
      p.blocksWithin alo i blo j ++ ⟨i, j, n⟩ :: p.blocksWithin (i + n) ahi (j + n) bhi
    else []
termination_by ahi - alo

end Pair

/-- Blocks with those that follow each other without a gap on either side made into one. -/
def joinBlocks : List Block → List Block
  | [] => []
  | b :: bs =>
    match joinBlocks bs with
    | [] => [b]
    | c :: cs =>
      if b.left + b.size = c.left ∧ b.right + b.size = c.right then
        ⟨b.left, b.right, b.size + c.size⟩ :: cs
      else b :: c :: cs

/-- The matching blocks of two sequences of lines. -/
def matchingBlocks (left right : List String) (anchors : Anchors) : List Block :=
  let p : Pair := ⟨left.toArray, right.toArray, anchors⟩
  joinBlocks (p.blocksWithin 0 left.length 0 right.length)

def linesIn : List Block → Nat
  | [] => 0
  | b :: bs => b.size + linesIn bs

/-- The share of lines in matching blocks, from 0 to 1. Nothing is wholly similar to nothing. -/
def similarity (left right : List String) : Float :=
  let total := left.length + right.length
  if total = 0 then 1.0
  else
    let matched := linesIn (matchingBlocks left right (anchors right))
    2.0 * Float.ofNat matched / Float.ofNat total

end MailRules.Text
