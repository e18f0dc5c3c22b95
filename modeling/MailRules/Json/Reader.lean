import MailRules.Decimal
import MailRules.Json
import MailRules.Text.Digits

/-!
Reading JSON text. A number with a fraction or an exponent is a double, any other number a whole
number, and the doubles that no digits stand for have names; a field given twice keeps its first
place and its last value. `Json.read?` refuses text that is not one JSON value, and text that names
half a surrogate pair.
-/

namespace MailRules.Json

open MailRules.Text

def skipBlanks : List Char → List Char
  | [] => []
  | c :: cs => if c = ' ' ∨ c = '\t' ∨ c = '\n' ∨ c = '\r' then skipBlanks cs else c :: cs

def after? : (word : List Char) → List Char → Option (List Char)
  | [], cs => some cs
  | _ :: _, [] => none
  | w :: ws, c :: cs => if w = c then after? ws cs else none

/-- The character that a letter after a backslash stands for. -/
def escaped? : Char → Option Char
  | '"' => some '"'
  | '\\' => some '\\'
  | '/' => some '/'
  | 'b' => some '\x08'
  | 'f' => some '\x0c'
  | 'n' => some '\n'
  | 'r' => some '\r'
  | 't' => some '\t'
  | _ => none

/-- The number that four hexadecimal digits stand for. -/
def unit? (a b c d : Char) : Option Nat := do
  let a ← hexValue? a
  let b ← hexValue? b
  let c ← hexValue? c
  let d ← hexValue? d
  return ((a * 16 + b) * 16 + c) * 16 + d

/-- The rest of a quoted text and what follows it. `high` is the first half of a surrogate pair that
waits for its second half. -/
def readQuoted (high : Option Nat) (read : List Char) : List Char → Option (String × List Char)
  | [] => none
  | '"' :: rest => if high.isSome then none else some (String.ofList read.reverse, rest)
  | '\\' :: 'u' :: a :: b :: c :: d :: rest =>
    match unit? a b c d, high with
    | none, _ => none
    | some u, none =>
      if 0xD800 ≤ u ∧ u < 0xDC00 then readQuoted (some u) read rest
      else if 0xDC00 ≤ u ∧ u < 0xE000 then none
      else readQuoted none (Char.ofNat u :: read) rest
    | some u, some h =>
      if 0xDC00 ≤ u ∧ u < 0xE000 then
        readQuoted none (Char.ofNat (0x10000 + (h - 0xD800) * 0x400 + (u - 0xDC00)) :: read) rest
      else none
  | '\\' :: c :: rest =>
    match escaped? c, high with
    | some e, none => readQuoted none (e :: read) rest
    | _, _ => none
  | c :: rest => if high.isSome ∨ c.toNat < 0x20 then none else readQuoted none (c :: read) rest

def valueOfDigits (digits : List Char) : Nat := Nat.ofDigitChars 10 digits 0

def takeDigits (cs : List Char) : List Char × List Char := cs.span Char.isDigit

/-- The exponent at the start of a text, if there is one, and what follows. -/
def readExponent (cs : List Char) : Option (Option Int × List Char) :=
  match cs with
  | c :: rest =>
    if c = 'e' ∨ c = 'E' then
      let (negative, rest) := match rest with
        | '-' :: rest => (true, rest)
        | '+' :: rest => (false, rest)
        | rest => (false, rest)
      match takeDigits rest with
      | ([], _) => none
      | (digits, rest) =>
        let e : Int := valueOfDigits digits
        some (some (if negative then -e else e), rest)
    else some (none, cs)
  | [] => some (none, [])

/-- A number without its sign, and what follows it. -/
def readNumber (negative : Bool) (cs : List Char) : Option (Json × List Char) :=
  match takeDigits cs with
  | ([], _) => none
  | (whole, rest) =>
    if whole.length > 1 ∧ whole.head? = some '0' then none
    else
      let fraction? : Option (Option (List Char) × List Char) := match rest with
        | '.' :: rest =>
          match takeDigits rest with
          | ([], _) => none
          | (digits, rest) => some (some digits, rest)
        | rest => some (none, rest)
      match fraction? with
      | none => none
      | some (fraction, rest) =>
        match readExponent rest with
        | none => none
        | some (exponent, rest) =>
          if fraction.isNone ∧ exponent.isNone then
            let n : Int := valueOfDigits whole
            some (.int (if negative then -n else n), rest)
          else
            let digits := fraction.getD []
            let x := Decimal.toDouble (valueOfDigits (whole ++ digits))
              (exponent.getD 0 - digits.length)
            some (.float (if negative then -x else x), rest)

/-- An infinite double, after its first letter. -/
def readInfinity (negative : Bool) (cs : List Char) : Option (Json × List Char) :=
  (after? "nfinity".toList cs).map fun rest => (.float (if negative then -1 / 0 else 1 / 0), rest)

mutual
/-- A value and what follows it. The first argument bounds the calls still to be made. -/
def readValue : Nat → List Char → Option (Json × List Char)
  | 0, _ => none
  | fuel + 1, cs =>
    match skipBlanks cs with
    | '"' :: rest => (readQuoted none [] rest).map fun (s, rest) => (.str s, rest)
    | '[' :: rest =>
      match skipBlanks rest with
      | ']' :: rest => some (.arr [], rest)
      | rest => (readItems fuel rest).map fun (items, rest) => (.arr items, rest)
    | '{' :: rest =>
      match skipBlanks rest with
      | '}' :: rest => some (.obj [], rest)
      | rest => (readFields fuel [] rest).map fun (fields, rest) => (.obj fields, rest)
    | '-' :: 'I' :: rest => readInfinity true rest
    | 'I' :: rest => readInfinity false rest
    | 'N' :: rest => (after? ['a', 'N'] rest).map fun rest => (.float (0 / 0), rest)
    | '-' :: rest => readNumber true rest
    | 't' :: rest => (after? ['r', 'u', 'e'] rest).map fun rest => (.bool true, rest)
    | 'f' :: rest => (after? ['a', 'l', 's', 'e'] rest).map fun rest => (.bool false, rest)
    | 'n' :: rest => (after? ['u', 'l', 'l'] rest).map fun rest => (.null, rest)
    | rest => readNumber false rest
/-- The items of an array up to its closing bracket. -/
def readItems : Nat → List Char → Option (List Json × List Char)
  | 0, _ => none
  | fuel + 1, cs =>
    match readValue fuel cs with
    | none => none
    | some (v, rest) =>
      match skipBlanks rest with
      | ',' :: rest => (readItems fuel rest).map fun (vs, rest) => (v :: vs, rest)
      | ']' :: rest => some ([v], rest)
      | _ => none
/-- The fields of an object up to its closing bracket, after those read before. -/
def readFields : Nat → Fields → List Char → Option (Fields × List Char)
  | 0, _, _ => none
  | fuel + 1, fields, cs =>
    match skipBlanks cs with
    | '"' :: rest =>
      match readQuoted none [] rest with
      | none => none
      | some (key, rest) =>
        match skipBlanks rest with
        | ':' :: rest =>
          match readValue fuel rest with
          | none => none
          | some (v, rest) =>
            match skipBlanks rest with
            | ',' :: rest => readFields fuel (put key v fields) rest
            | '}' :: rest => some (put key v fields, rest)
            | _ => none
        | _ => none
    | _ => none
end

/-- The value that a text holds. Every call reads a character, so the text's length bounds them. -/
def read? (text : String) : Option Json :=
  let cs := text.toList
  match readValue (2 * cs.length + 2) cs with
  | some (v, rest) => if skipBlanks rest = [] then some v else none
  | none => none

end MailRules.Json
