import MailRules.Decimal
import MailRules.Json
import MailRules.Text.Digits

/-!
JSON values as text.

A `Layout` holds the decisions of one written form: whether the fields of an object are sorted,
whether text is kept to ASCII, what stands after a comma and a colon, and whether each item has a
line of its own. There are three forms: the canonical one, which gives equal values equal texts; the
indented one, for people; and the form of a log line.
-/

namespace MailRules.Json

open MailRules.Text

/-- How a JSON value is written. -/
structure Layout where
  sorted : Bool
  ascii : Bool
  comma : String
  colon : String
  indented : Bool

/-- Sorted keys and no blanks. -/
def Layout.canonical : Layout := ⟨true, false, ",", ":", false⟩

/-- Sorted keys and one item per line. -/
def Layout.pretty : Layout := ⟨true, false, ",", ": ", true⟩

/-- Fields as they stand, on one line of ASCII. -/
def Layout.line : Layout := ⟨false, true, ", ", ": ", false⟩

/-- A UTF-16 unit as an escape. -/
def unitEscape (unit : Nat) : List Char := '\\' :: 'u' :: hexDigits 4 unit

/-- A character inside a quoted text: quotes, backslashes and controls are escaped, and in ASCII
text also everything above the printable range, as UTF-16 units. -/
def escapeChar (ascii : Bool) (c : Char) : List Char :=
  if c = '"' then ['\\', '"']
  else if c = '\\' then ['\\', '\\']
  else if c = '\n' then ['\\', 'n']
  else if c = '\r' then ['\\', 'r']
  else if c = '\t' then ['\\', 't']
  else if c = '\x08' then ['\\', 'b']
  else if c = '\x0c' then ['\\', 'f']
  else if c.toNat < 0x20 then unitEscape c.toNat
  else if ascii && 0x7f ≤ c.toNat then
    if c.toNat < 0x10000 then unitEscape c.toNat
    else
      let rest := c.toNat - 0x10000
      unitEscape (0xD800 + rest / 0x400) ++ unitEscape (0xDC00 + rest % 0x400)
  else [c]

def quoted (ascii : Bool) (s : String) : String :=
  String.ofList ('"' :: (s.toList.flatMap (escapeChar ascii) ++ ['"']))

/-- Doubles are written with the fewest digits that identify them, positionally below `10 ^ 16` and
down to four zeros after the point, otherwise with a signed exponent of at least two digits. -/
def doubleNotation : Decimal.Notation := ⟨-3, 16, 2, "NaN", "Infinity"⟩

/-- The start of a line at a depth, in an indented layout. -/
def Layout.newLine (y : Layout) (depth : Nat) : String :=
  if y.indented then String.ofList ('\n' :: List.replicate (2 * depth) ' ') else ""

/-- The items of an array or object at a depth, between brackets. -/
def Layout.enclose (y : Layout) (depth : Nat) (opening closing : String) (items : List String) :
    String :=
  match items with
  | [] => opening ++ closing
  | items => opening ++ y.newLine (depth + 1)
      ++ String.intercalate (y.comma ++ y.newLine (depth + 1)) items ++ y.newLine depth ++ closing

/-- Pairs in the order of their keys, where the layout sorts them. -/
def Layout.arrange {α : Type} (y : Layout) (fields : List (String × α)) : List (String × α) :=
  if y.sorted then fields.mergeSort (fun a b => decide (a.1 ≤ b.1)) else fields

mutual
/-- A value as text, inside `depth` arrays or objects. -/
def render (y : Layout) (depth : Nat) : Json → String
  | .null => "null"
  | .bool b => if b then "true" else "false"
  | .int n => Text.ofInt n
  | .float x => Decimal.textOf doubleNotation x
  | .str s => quoted y.ascii s
  | .arr items => y.enclose depth "[" "]" (renderItems y (depth + 1) items)
  | .obj fields =>
    y.enclose depth "\x7b" "\x7d" ((y.arrange (renderFields y (depth + 1) fields)).map fun kv =>
      quoted y.ascii kv.1 ++ y.colon ++ kv.2)
def renderItems (y : Layout) (depth : Nat) : List Json → List String
  | [] => []
  | v :: vs => render y depth v :: renderItems y depth vs
def renderFields (y : Layout) (depth : Nat) : List (String × Json) → List (String × String)
  | [] => []
  | (k, v) :: rest => (k, render y depth v) :: renderFields y depth rest
end

/-- The canonical text of a value: the same for values that differ in the order of fields only. -/
def canonical (v : Json) : String := render .canonical 0 v

/-- A value for people to read, with a line break at its end. -/
def pretty (v : Json) : String := render .pretty 0 v ++ "\n"

/-- A value on a line of ASCII. -/
def line (v : Json) : String := render .line 0 v

end MailRules.Json
