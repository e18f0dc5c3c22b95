import MailRules.Decimal
import MailRules.Json
import MailRules.Text.Digits
import MailRules.Text.Whitespace

/-!
Tables of costs in documents.

Items are numbers, flags, texts that stand for a number, or null, which stands for none. Numbers in
texts may have digits of any script and white space around them. A document has a shape if all the
lists at each depth are of equal length, and there may be no more than `depthLimit` depths; only a
document of two dimensions is a table.
-/

namespace MailRules.Assignment

inductive TableError where
  | ragged
  | tooDeep
  | noNumber

/-- The digits at the start of a text, with the single underscores between them dropped, and what
follows. -/
def digitRun : List Char → List Char × List Char
  | '_' :: c :: cs =>
    if c.isDigit then
      let (ds, rest) := digitRun cs
      (c :: ds, rest)
    else ([], '_' :: c :: cs)
  | c :: cs =>
    if c.isDigit then
      let (ds, rest) := digitRun cs
      (c :: ds, rest)
    else ([], c :: cs)
  | [] => ([], [])

/-- Digits at the start of a text; the first character has to be one. -/
def digitsAt (cs : List Char) : List Char × List Char :=
  match cs with
  | '_' :: _ => ([], cs)
  | cs => digitRun cs

/-- The exponent that a whole text stands for; no text stands for zero. -/
def exponent? : List Char → Option Int
  | [] => some 0
  | c :: cs =>
    if c = 'e' ∨ c = 'E' then
      let (negative, cs) := match cs with
        | '-' :: cs => (true, cs)
        | '+' :: cs => (false, cs)
        | cs => (false, cs)
      match digitsAt cs with
      | ([], _) => none
      | (ds, []) =>
        let n : Int := Nat.ofDigitChars 10 ds 0
        some (if negative then -n else n)
      | _ => none
    else none

/-- The number that a text without a sign stands for. -/
def unsigned? (cs : List Char) : Option Float :=
  let word := (String.ofList cs).toLower
  if word = "inf" ∨ word = "infinity" then some (1 / 0)
  else if word = "nan" then some (0 / 0)
  else
    let (whole, rest) := digitsAt cs
    let (fraction, rest) := match rest with
      | '.' :: rest => digitsAt rest
      | rest => ([], rest)
    if whole.isEmpty ∧ fraction.isEmpty then none
    else
      (exponent? rest).map fun e =>
        Decimal.toDouble (Nat.ofDigitChars 10 (whole ++ fraction) 0) (e - fraction.length)

def number? (s : String) : Option Float :=
  match Text.plainDigits (Text.trimWhile Text.isSpace s.toList) with
  | '-' :: cs => (unsigned? cs).map fun x => -x
  | '+' :: cs => unsigned? cs
  | cs => unsigned? cs

def ofItem : Json → Except TableError Float
  | .int n => .ok (Float.ofInt n)
  | .float x => .ok x
  | .bool b => .ok (if b then 1 else 0)
  | .null => .ok (0 / 0)
  | .str s => match number? s with
    | some x => .ok x
    | none => .error .noNumber
  | _ => .error .noNumber

mutual
/-- The lengths of the lists at each depth, if they are equal. -/
def shape? : Json → Option (List Nat)
  | .arr vs => shapes? vs
  | _ => some []
/-- The lengths at each depth of a list of items, its own first. -/
def shapes? : List Json → Option (List Nat)
  | [] => some [0]
  | [v] => (shape? v).map (1 :: ·)
  | v :: vs =>
    match shape? v, shapes? vs with
    | some s, some (n :: t) => if s = t then some ((n + 1) :: t) else none
    | _, _ => none
end

mutual
def numbers : Json → Except TableError (List Float)
  | .arr vs => numbersAll vs
  | v => (ofItem v).map ([·])
def numbersAll : List Json → Except TableError (List Float)
  | [] => .ok []
  | v :: vs =>
    match numbers v with
    | .error e => .error e
    | .ok xs => (numbersAll vs).map (xs ++ ·)
end

def depthLimit : Nat := 64

/-- The rows of a document of two dimensions; none for a document of other dimensions. -/
def table (v : Json) : Except TableError (List (List Float)) :=
  match shape? v with
  | none => .error .ragged
  | some shape =>
    if depthLimit < shape.length then .error .tooDeep
    else match v, shape with
      | .arr rows, [_, _] => rows.mapM numbers
      | v, _ => (numbers v).map fun _ => []

end MailRules.Assignment
