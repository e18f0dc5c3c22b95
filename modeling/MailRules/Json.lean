/-!
JSON values: the form in which configurations are read and in which filters, labels and errors are
written down.

Whole numbers and doubles are kept apart, since a document that says `1.0` does not say `1`. An
object keeps its fields in the order they were given; `Json.put` is the only way a field replaces
another, and it keeps the place of the field it replaces.
-/

namespace MailRules

inductive Json where
  | null
  | bool (b : Bool)
  | int (n : Int)
  | float (x : Float)
  | str (s : String)
  | arr (items : List Json)
  | obj (fields : List (String × Json))
  deriving Inhabited

namespace Json

/-- The fields of an object, in order. -/
abbrev Fields := List (String × Json)

/-- The value of the first field with the given key. -/
def find? (key : String) : Fields → Option Json
  | [] => none
  | (k, v) :: rest => if k = key then some v else find? key rest

/-- Sets a field: in the place of the field with that key, or else at the end. -/
def put (key : String) (value : Json) : Fields → Fields
  | [] => [(key, value)]
  | (k, v) :: rest => if k = key then (key, value) :: rest else (k, v) :: put key value rest

/-- The first fields with every one of the others set on top of them. -/
def overlay (base others : Fields) : Fields :=
  others.foldl (fun fields kv => put kv.1 kv.2 fields) base

theorem find?_put_of_ne {key other : String} (h : other ≠ key) (value : Json) :
    ∀ fields, find? other (put key value fields) = find? other fields
  | [] => by simp [put, find?, Ne.symm h]
  | (k, v) :: rest => by
    by_cases hk : k = key
    · subst hk; simp [put, find?, Ne.symm h]
    · simp [put, find?, hk, find?_put_of_ne h value rest]

theorem sizeOf_lt_arr {items : List Json} {v : Json} (h : v ∈ items) :
    sizeOf v < sizeOf (arr items) := by
  have smaller := List.sizeOf_lt_of_mem h
  rw [arr.sizeOf_spec]
  omega

theorem sizeOf_lt_obj {fields : Fields} {x : String × Json} (h : x ∈ fields) :
    sizeOf x.2 < sizeOf (obj fields) := by
  have smaller := List.sizeOf_lt_of_mem h
  have part : sizeOf x = 1 + sizeOf x.1 + sizeOf x.2 := rfl
  rw [obj.sizeOf_spec]
  omega

/-- A text, or null where there is none. -/
def ofText? : Option String → Json
  | none => .null
  | some s => .str s

def ofTexts (texts : List String) : Json := .arr (texts.map .str)

def ofNat (n : Nat) : Json := .int n

/-- Whether a value says nothing: it is null, off, zero or empty. -/
def isNothing : Json → Bool
  | null => true
  | bool b => !b
  | int n => n = 0
  | float x => x == 0
  | str s => s = ""
  | arr items => items.isEmpty
  | obj fields => fields.isEmpty

end Json

end MailRules
