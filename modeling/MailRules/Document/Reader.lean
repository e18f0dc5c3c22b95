import MailRules.Decimal
import MailRules.Document.Defect
import MailRules.Document.Number
import MailRules.Text.Digits

/-!
Reading values of the domain from documents.

A `Reading` is what was read, or all the issues found: readings are joined with `<*>`, which keeps
the issues of both sides. A `Record` is a reading of an object field by field: a field is looked up
under the names it may have, the first name winning, and its issues are told under the name it was
given by. An object that allows no unknown keys tells every key under which nothing was looked up.
-/

namespace MailRules.Document

/-- What was read from a document, or what is wrong with it. -/
inductive Reading (α : Type) where
  | read (value : α)
  | flawed (issues : List Issue)

namespace Reading

variable {α β : Type}

def map (f : α → β) : Reading α → Reading β
  | read a => read (f a)
  | flawed is => flawed is

/-- A function that was read, applied to what was read. The issues of both are kept. -/
def apply : Reading (α → β) → Reading α → Reading β
  | read f, read a => read (f a)
  | read _, flawed js => flawed js
  | flawed is, read _ => flawed is
  | flawed is, flawed js => flawed (is ++ js)

instance : Applicative Reading where
  pure := read
  map := map
  seq f x := apply f (x ())

/-- A single defect at the place being read. -/
def bad (d : Defect) : Reading α := flawed [⟨[], d⟩]

/-- The reading of a part that stands under a key or an index. -/
def under (step : String) : Reading α → Reading α
  | read a => read a
  | flawed is => flawed (is.map fun i => { i with path := step :: i.path })

/-- The reading, if no further issues were found beside it. -/
def along (issues : List Issue) (r : Reading α) : Reading α :=
  match issues, r with
  | [], r => r
  | is, read _ => flawed is
  | is, flawed js => flawed (js ++ is)

/-- What was read put to a further test. -/
def check (r : Reading α) (test : α → Reading β) : Reading β :=
  match r with
  | read a => test a
  | flawed is => flawed is

end Reading

open Reading

def asText : Json → Reading String
  | .str s => read s
  | _ => bad .notText

def flagOfWord? (word : String) : Option Bool :=
  let word := word.toLower
  if ["0", "off", "f", "false", "n", "no"].contains word then some false
  else if ["1", "on", "t", "true", "y", "yes"].contains word then some true
  else none

/-- The least magnitude that does not fit a signed word. -/
def wordBound : Nat := 0x8000000000000000

def fitsWord (n : Int) : Bool := -(wordBound : Int) ≤ n && n < wordBound

/-- The flag that a whole number stands for; `fits` if the number is small enough to be one. -/
def flagOfWhole (fits : Bool) (n : Int) : Reading Bool :=
  if n = 0 then read false
  else if n = 1 then read true
  else if fits then bad .unreadableFlag
  else bad .notFlag

/-- A flag: a boolean, the number 0 or 1, or one of the words for either. -/
def asFlag : Json → Reading Bool
  | .bool b => read b
  | .int n => flagOfWhole (fitsWord n) n
  | .float x =>
    if !x.isFinite then bad .notFlag
    else match Decimal.whole? x with
      | none => bad .notFlag
      | some n => flagOfWhole (n.natAbs < wordBound) n
  | .str s => match flagOfWord? s with
    | some b => read b
    | none => bad .unreadableFlag
  | _ => bad .notFlag

/-- A whole number: also a double without a fraction, a boolean, or a text that stands for one. -/
def asWhole : Json → Reading Int
  | .int n => read n
  | .bool b => read (if b then 1 else 0)
  | .float x =>
    if !x.isFinite then bad .notFinite
    else match Decimal.whole? x with
      | none => bad .fraction
      | some n => if n.natAbs < wordBound then read n else bad .oversizedWhole
  | .str s => match wholeOfText s with
    | .ok n => read n
    | .error d => bad d
  | _ => bad .notWhole

/-- Items one by one, the first of them at the given index. -/
def items {α : Type} (item : Json → Reading α) : (index : Nat) → List Json → Reading (List α)
  | _, [] => read []
  | i, v :: vs => List.cons <$> under (Text.ofNat i) (item v) <*> items item (i + 1) vs

def asList {α : Type} (item : Json → Reading α) : Json → Reading (List α)
  | .arr vs => items item 0 vs
  | _ => bad .notList

def orNull {α : Type} (value : Json → Reading α) : Json → Reading (Option α)
  | .null => read none
  | v => some <$> value v

/-- The names of a field: the one it is missed by, and any other that is accepted. -/
structure Names where
  main : String
  others : List String

instance : Coe String Names := ⟨fun main => ⟨main, []⟩⟩

/-- All names of a field, the one that wins first. -/
def Names.all (n : Names) : List String := n.main :: n.others

/-- The value under the first of several keys that is there. -/
def pick? {α : Type} (keys : List String) (fields : List (String × α)) : Option (String × α) :=
  keys.findSome? fun key => fields.find? (·.1 = key)

/-- How an object is read: the names its fields may have, and what is made of the fields. -/
structure Record (α β : Type) where
  names : List Names
  run : List (String × α) → Reading β

namespace Record

variable {α β γ : Type}

instance : Applicative (Record α) where
  pure b := ⟨[], fun _ => read b⟩
  map f r := ⟨r.names, fun fs => (r.run fs).map f⟩
  seq f r := ⟨f.names ++ (r ()).names, fun fs => (f.run fs).apply ((r ()).run fs)⟩

/-- A field that has to be there. -/
def required (n : Names) (value : α → Reading β) : Record α β where
  names := [n]
  run fs := match pick? n.all fs with
    | some (key, v) => under key (value v)
    | none => under n.main (bad .missing)

/-- A field that has a value of its own when it is not there. -/
def field (n : Names) (default : β) (value : α → Reading β) : Record α β where
  names := [n]
  run fs := match pick? n.all fs with
    | some (key, v) => under key (value v)
    | none => read default

/-- The keys under which no field was looked up. -/
def unknownKeys (r : Record α β) (fs : List (String × α)) : List String :=
  let used := r.names.filterMap fun n => (pick? n.all fs).map (·.1)
  (fs.map (·.1)).filter fun key => !used.contains key

/-- What is made of the fields of an object that allows no unknown keys. -/
def runClosed (r : Record α β) (fs : List (String × α)) : Reading β :=
  (r.run fs).along ((r.unknownKeys fs).map fun key => ⟨[key], .unknownKey⟩)

/-- An object that may have other fields as well. -/
def asOpen (r : Record Json β) : Json → Reading β
  | .obj fs => r.run fs
  | _ => bad .notObject

/-- An object that may have no other fields. -/
def asClosed (r : Record Json β) : Json → Reading β
  | .obj fs => r.runClosed fs
  | _ => bad .notObject

end Record

end MailRules.Document
