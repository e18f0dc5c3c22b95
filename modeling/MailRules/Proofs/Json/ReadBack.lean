import MailRules.Json.Reader
import MailRules.Json.Text
import Mathlib.Data.List.TakeDrop
import Mathlib.Tactic.IntervalCases

/-!
What is written canonically is read back, with the fields of each object in the order of their keys.

This holds of values without doubles in which no object has a key twice (`Exact`). The reader counts
its calls, so each statement says that enough calls read a value, whatever follows it: nothing, a
comma or a closing bracket (`Ends`).

What is proved:
  1. `readQuoted_quoted`: a text in quotes is read back, whatever characters it holds.
  2. `readNumber_toDigits`: so is a whole number.
  3. `reads_of_exact`: so is every exact value, by induction on it: the items of an array are read
     one after the other (`readItems_chars`), and so are the fields of an object, of which none
     replaces another (`readFields_chars`).
  4. `arranged_eq_of_canonical_eq`: exact values with one canonical text are equal up to the order
     of fields.
-/

namespace MailRules.Json

open MailRules.Text

/-! ## Texts in quotes -/

theorem hexValue?_hexDigit {n : Nat} (h : n < 16) : hexValue? (hexDigit n) = some n := by
  interval_cases n <;> rfl

theorem unit?_hexDigits {n : Nat} (h : n < 0x10000) :
    ∃ a b c d, hexDigits 4 n = [a, b, c, d] ∧ unit? a b c d = some n := by
  refine ⟨hexDigit (n / 16 / 16 / 16 % 16), hexDigit (n / 16 / 16 % 16), hexDigit (n / 16 % 16),
    hexDigit (n % 16), rfl, ?_⟩
  have digit (m : Nat) : hexValue? (hexDigit (m % 16)) = some (m % 16) :=
    hexValue?_hexDigit (Nat.mod_lt m (by decide))
  have whole : ((n / 16 / 16 / 16 % 16 * 16 + n / 16 / 16 % 16) * 16 + n / 16 % 16) * 16 + n % 16
      = n := by omega
  simp [unit?, digit, whole]

theorem escapeChar_cases (c : Char) :
    (∃ d, escapeChar false c = ['\\', d] ∧ escaped? d = some c) ∨
    (c.toNat < 0x20 ∧ escapeChar false c = unitEscape c.toNat) ∨
      (c ≠ '"' ∧ c ≠ '\\' ∧ 0x20 ≤ c.toNat ∧ escapeChar false c = [c]) := by
  by_cases special : c ∈ ['"', '\\', '\n', '\r', '\t', '\x08', '\x0c']
  · simp only [List.mem_cons, List.not_mem_nil, or_false] at special
    rcases special with rfl | rfl | rfl | rfl | rfl | rfl | rfl
    all_goals exact .inl ⟨_, rfl, rfl⟩
  · simp only [List.mem_cons, List.not_mem_nil, or_false, not_or] at special
    by_cases low : c.toNat < 0x20
    · exact .inr (.inl ⟨low, by simp [escapeChar, special, low]⟩)
    · refine .inr (.inr ⟨special.1, special.2.1, Nat.le_of_not_lt low, ?_⟩)
      simp [escapeChar, special, low]

theorem readQuoted_escaped {c d : Char} (h : escaped? d = some c) (read rest : List Char) :
    readQuoted none read ('\\' :: d :: rest) = readQuoted none (c :: read) rest := by
  have short : d ≠ 'u' := by
    rintro rfl
    cases h
  simp [readQuoted, short, h]

theorem readQuoted_escapeChar (c : Char) (read rest : List Char) :
    readQuoted none read (escapeChar false c ++ rest) = readQuoted none (c :: read) rest := by
  rcases escapeChar_cases c with ⟨d, text, stands⟩ | ⟨low, text⟩ | ⟨quote, backslash, high, text⟩
  · rw [text]
    exact readQuoted_escaped stands read rest
  · obtain ⟨a, b, d, e, digits, value⟩ := unit?_hexDigits (n := c.toNat) (by omega)
    rw [text, unitEscape, digits]
    have notHigh : ¬ (0xD800 ≤ c.toNat ∧ c.toNat < 0xDC00) := by omega
    have notLow : ¬ (0xDC00 ≤ c.toNat ∧ c.toNat < 0xE000) := by omega
    simp [readQuoted, value, notHigh, notLow]
  · rw [text]
    simp [readQuoted, backslash, Nat.not_lt.mpr high]

theorem readQuoted_quoted (s : String) (rest : List Char) :
    readQuoted none [] (s.toList.flatMap (escapeChar false) ++ '"' :: rest) = some (s, rest) := by
  suffices ∀ cs read : List Char,
      readQuoted none read (cs.flatMap (escapeChar false) ++ '"' :: rest) =
        some (String.ofList (read.reverse ++ cs), rest) by simpa using this s.toList []
  intro cs
  induction cs with
  | nil => intro read; simp [readQuoted]
  | cons c cs ih =>
    intro read
    rw [List.flatMap_cons, List.append_assoc, readQuoted_escapeChar, ih]
    simp

/-! ## Whole numbers -/

/-- A text that may follow a value: it is empty or starts with a comma or a closing bracket. -/
def Ends (rest : List Char) : Prop := ∀ c, rest.head? = some c → c = ',' ∨ c = ']' ∨ c = '}'

theorem takeDigits_append {digits rest : List Char} (all : ∀ c ∈ digits, c.isDigit = true)
    (ends : Ends rest) : takeDigits (digits ++ rest) = (digits, rest) := by
  have stop : rest.takeWhile Char.isDigit = [] ∧ rest.dropWhile Char.isDigit = rest := by
    cases rest with
    | nil => exact ⟨rfl, rfl⟩
    | cons c cs => rcases ends c rfl with rfl | rfl | rfl <;> exact ⟨rfl, rfl⟩
  rw [takeDigits, List.span_eq_takeWhile_dropWhile, List.takeWhile_append_of_pos all,
    List.dropWhile_append_of_pos all, stop.1, stop.2, List.append_nil]

theorem head?_toDigits {n : Nat} (h : (Nat.toDigits 10 n).head? = some '0') : n = 0 := by
  induction n using Nat.strongRecOn with
  | ind n ih =>
    by_cases small : n < 10
    · interval_cases n <;> first | rfl | exact absurd h (by decide)
    · have front : (Nat.toDigits 10 (n / 10)).head? = some '0' := by
        rw [Nat.toDigits_of_base_le (by decide) (by omega), List.head?_append] at h
        cases first : (Nat.toDigits 10 (n / 10)).head? with
        | none => exact absurd (List.head?_eq_none_iff.mp first) Nat.toDigits_ne_nil
        | some c => rwa [first] at h
      have zero := ih (n / 10) (by omega) front
      omega

theorem readExponent_of_ends {rest : List Char} (ends : Ends rest) :
    readExponent rest = some (none, rest) := by
  cases rest with
  | nil => rfl
  | cons c cs => rcases ends c rfl with rfl | rfl | rfl <;> rfl

theorem readNumber_toDigits (negative : Bool) (n : Nat) {rest : List Char} (ends : Ends rest) :
    readNumber negative (Nat.toDigits 10 n ++ rest) =
      some (.int (if negative then -n else n), rest) := by
  have split : takeDigits (Nat.toDigits 10 n ++ rest) = (Nat.toDigits 10 n, rest) :=
    takeDigits_append (fun c => Nat.isDigit_of_mem_toDigits (by decide) (by decide)) ends
  have unpadded : ¬ ((Nat.toDigits 10 n).length > 1 ∧ (Nat.toDigits 10 n).head? = some '0') := by
    rintro ⟨long, padded⟩
    rw [head?_toDigits padded] at long
    exact absurd long (by decide)
  have whole : ∀ cs, rest ≠ '.' :: cs := by
    rintro cs rfl
    exact absurd (ends '.' rfl) (by decide)
  have value : valueOfDigits (Nat.toDigits 10 n) = n := Nat.ofDigitChars_ten_toDigits
  simp [readNumber, split, unpadded, readExponent_of_ends ends, value]

theorem exists_toDigits_eq_cons (n : Nat) :
    ∃ d ds, Nat.toDigits 10 n = d :: ds ∧ ∀ c, c.isDigit = false → d ≠ c := by
  obtain ⟨d, ds, digits⟩ := List.exists_cons_of_ne_nil (Nat.toDigits_ne_nil (n := n) (b := 10))
  have mem : d ∈ Nat.toDigits 10 n := digits ▸ List.mem_cons_self
  have isDigit : d.isDigit = true := Nat.isDigit_of_mem_toDigits (by decide) (by decide) mem
  refine ⟨d, ds, digits, ?_⟩
  rintro c other rfl
  exact Bool.false_ne_true (other.symm.trans isDigit)

/-! ## Values -/

/-- A value that its canonical text tells exactly: it holds no doubles, and the keys of each object
are distinct. -/
inductive Exact : Json → Prop where
  | null : Exact .null
  | bool (b : Bool) : Exact (.bool b)
  | int (n : Int) : Exact (.int n)
  | str (s : String) : Exact (.str s)
  | arr {items : List Json} (each : ∀ v ∈ items, Exact v) : Exact (.arr items)
  | obj {fields : Fields} (distinct : (fields.map (·.1)).Nodup)
      (each : ∀ field ∈ fields, Exact field.2) : Exact (.obj fields)

mutual
/-- A value with the fields of each object in the order of their keys. -/
def arranged : Json → Json
  | .arr items => .arr (arrangedItems items)
  | .obj fields => .obj (Layout.canonical.arrange (arrangedFields fields))
  | v => v
def arrangedItems : List Json → List Json
  | [] => []
  | v :: vs => arranged v :: arrangedItems vs
/-- Fields whose values have the fields of each object in the order of their keys. -/
def arrangedFields : Fields → Fields
  | [] => []
  | (key, v) :: fields => (key, arranged v) :: arrangedFields fields
end

theorem arrangedItems_eq_map : ∀ items, arrangedItems items = items.map arranged
  | [] => rfl
  | _ :: items => congrArg _ (arrangedItems_eq_map items)

theorem arrangedFields_eq_map :
    ∀ fields, arrangedFields fields = fields.map fun field => (field.1, arranged field.2)
  | [] => rfl
  | _ :: fields => congrArg _ (arrangedFields_eq_map fields)

theorem renderItems_eq_map (y : Layout) (depth : Nat) :
    ∀ items, renderItems y depth items = items.map (render y depth)
  | [] => rfl
  | _ :: items => congrArg _ (renderItems_eq_map y depth items)

theorem renderFields_eq_map (y : Layout) (depth : Nat) : ∀ fields,
    renderFields y depth fields = fields.map fun field => (field.1, render y depth field.2)
  | [] => rfl
  | _ :: fields => congrArg _ (renderFields_eq_map y depth fields)

theorem arrange_map {α β : Type} (y : Layout) (f : α → β) (fields : List (String × α)) :
    y.arrange (fields.map fun field => (field.1, f field.2)) =
      (y.arrange fields).map fun field => (field.1, f field.2) := by
  rw [Layout.arrange, Layout.arrange]
  split
  · exact (List.map_mergeSort (f := fun field : String × α => (field.1, f field.2))
      fun _ _ _ _ => rfl).symm
  · rfl

theorem arrange_perm {α : Type} (y : Layout) (fields : List (String × α)) :
    (y.arrange fields).Perm fields := by
  rw [Layout.arrange]
  split
  · exact List.mergeSort_perm fields _
  · exact .refl _

/-- The canonical text of a value, inside a number of arrays and objects. -/
def chars (depth : Nat) (v : Json) : List Char := (render .canonical depth v).toList

theorem chars_enclose (depth : Nat) (opening closing : String) (items : List String) :
    (Layout.canonical.enclose depth opening closing items).toList =
      opening.toList ++ [','].intercalate (items.map String.toList) ++ closing.toList := by
  cases items with
  | nil => simp [Layout.enclose, List.intercalate]
  | cons item items =>
    simp [Layout.enclose, Layout.newLine, Layout.canonical, String.toList_intercalate]

theorem chars_null (depth : Nat) : chars depth .null = ['n', 'u', 'l', 'l'] := by
  rw [chars, render]
  rfl

theorem chars_bool (depth : Nat) (b : Bool) : chars depth (.bool b) =
    if b then ['t', 'r', 'u', 'e'] else ['f', 'a', 'l', 's', 'e'] := by
  rw [chars, render]
  cases b <;> rfl

theorem chars_int (depth : Nat) (n : Int) : chars depth (.int n) =
    (if n < 0 then ['-'] else []) ++ Nat.toDigits 10 n.natAbs := by
  rw [chars, render, Text.ofInt, Text.ofNat]
  split <;> simp

theorem chars_str (depth : Nat) (s : String) :
    chars depth (.str s) = '"' :: (s.toList.flatMap (escapeChar false) ++ ['"']) := by
  rw [chars, render, quoted, String.toList_ofList]
  rfl

theorem chars_arr (depth : Nat) (items : List Json) : chars depth (.arr items) =
    '[' :: ([','].intercalate (items.map (chars (depth + 1))) ++ [']']) := by
  rw [chars, render, chars_enclose, renderItems_eq_map, List.map_map]
  rfl

def fieldChars (depth : Nat) (field : String × Json) : List Char :=
  '"' :: (field.1.toList.flatMap (escapeChar false) ++ '"' :: ':' :: chars depth field.2)

theorem chars_obj (depth : Nat) (fields : Fields) : chars depth (.obj fields) =
    '{' :: ([','].intercalate
      ((Layout.canonical.arrange fields).map (fieldChars (depth + 1))) ++ ['}']) := by
  have text (field : String × Json) : (quoted Layout.canonical.ascii field.1 ++
      Layout.canonical.colon ++ render .canonical (depth + 1) field.2).toList =
        fieldChars (depth + 1) field := by
    simp [quoted, fieldChars, chars, Layout.canonical]
  rw [chars, render, chars_enclose, renderFields_eq_map, arrange_map]
  simp only [List.map_map, Function.comp_def, text]
  rfl

/-! ## Reading values -/

/-- A value that is read from its text, by enough calls, whatever follows. -/
def Reads (v : Json) : Prop :=
  ∀ depth, ∃ n, ∀ fuel, n ≤ fuel → ∀ rest, Ends rest →
    readValue fuel (chars depth v ++ rest) = some (arranged v, rest)

/-- The first call of the reader leaves one call less for the parts of the value. -/
theorem reads_of_succ {v : Json} (h : ∀ depth, ∃ n, ∀ fuel, n ≤ fuel → ∀ rest, Ends rest →
    readValue (fuel + 1) (chars depth v ++ rest) = some (arranged v, rest)) : Reads v := by
  intro depth
  obtain ⟨n, read⟩ := h depth
  refine ⟨n + 1, fun fuel enough rest ends => ?_⟩
  obtain ⟨fuel, rfl⟩ := Nat.exists_eq_add_of_le' (Nat.le_of_add_left_le enough)
  exact read fuel (Nat.le_of_add_le_add_right enough) rest ends

/-- The text of a value starts neither with a blank nor as an array ends. -/
theorem exists_chars_eq_cons {v : Json} (h : Exact v) (depth : Nat) :
    ∃ c cs, chars depth v = c :: cs ∧ c ∉ [' ', '\t', '\n', '\r', ']'] := by
  cases h with
  | null => exact ⟨'n', _, chars_null depth, by decide⟩
  | bool b =>
    rw [chars_bool]
    cases b
    · exact ⟨'f', _, rfl, by decide⟩
    · exact ⟨'t', _, rfl, by decide⟩
  | int n =>
    obtain ⟨d, ds, digits, other⟩ := exists_toDigits_eq_cons n.natAbs
    rw [chars_int, digits]
    split
    · exact ⟨'-', _, rfl, by decide⟩
    · exact ⟨d, ds, rfl, by simp [other]⟩
  | str s => exact ⟨'"', _, chars_str depth s, by decide⟩
  | arr _ => exact ⟨'[', _, chars_arr depth _, by decide⟩
  | obj _ _ => exact ⟨'{', _, chars_obj depth _, by decide⟩

theorem reads_int (n : Int) : Reads (.int n) := by
  refine reads_of_succ fun depth => ⟨0, fun fuel _ rest ends => ?_⟩
  obtain ⟨d, ds, digits, other⟩ := exists_toDigits_eq_cons n.natAbs
  have number (negative : Bool) := readNumber_toDigits negative n.natAbs ends
  simp only [chars_int, arranged]
  rw [digits, List.cons_append] at *
  split
  · next negative =>
    rw [List.singleton_append, List.cons_append, readValue]
    simp [skipBlanks, other, number, abs_of_neg negative]
  · next positive =>
    simp [readValue, skipBlanks, other, number, abs_of_nonneg (Int.not_lt.mp positive)]

theorem readItems_chars (depth : Nat) {items : List Json} (ne : items ≠ [])
    (each : ∀ v ∈ items, Reads v) : ∃ n, ∀ fuel, n ≤ fuel → ∀ rest,
      readItems fuel ([','].intercalate (items.map (chars depth)) ++ ']' :: rest) =
        some (items.map arranged, rest) := by
  induction items with
  | nil => exact absurd rfl ne
  | cons v items ih =>
    obtain ⟨n, here⟩ := each v List.mem_cons_self depth
    cases items with
    | nil =>
      refine ⟨n + 1, fun fuel enough rest => ?_⟩
      obtain ⟨fuel, rfl⟩ := Nat.exists_eq_add_of_le' (Nat.le_of_add_left_le enough)
      rw [List.map_singleton, List.intercalate_singleton, readItems,
        here fuel (by omega) (']' :: rest) (by simp [Ends])]
      rfl
    | cons w items =>
      obtain ⟨m, there⟩ := ih (List.cons_ne_nil _ _) fun v hv => each v (List.mem_cons_of_mem _ hv)
      refine ⟨max n m + 1, fun fuel enough rest => ?_⟩
      obtain ⟨fuel, rfl⟩ := Nat.exists_eq_add_of_le' (Nat.le_of_add_left_le enough)
      have rest' := there fuel (by omega) rest
      rw [List.map_cons] at rest'
      rw [List.map_cons, List.map_cons, List.intercalate_cons_cons, List.append_assoc,
        List.append_assoc, readItems, here fuel (by omega) _ (by simp [Ends]),
        List.singleton_append]
      simp only [skipBlanks]
      simp [rest']

theorem put_of_fresh {key : String} (v : Json) : ∀ {fields : Fields}, key ∉ fields.map (·.1) →
    put key v fields = fields ++ [(key, v)]
  | [], _ => rfl
  | (k, w) :: fields, fresh => by
    rw [List.map_cons, List.mem_cons, not_or] at fresh
    rw [put, if_neg (Ne.symm fresh.1), put_of_fresh v fresh.2, List.cons_append]

/-- Reading fields, each with a key that none before it has. -/
theorem readFields_chars (depth : Nat) {fields : Fields} (ne : fields ≠ [])
    (each : ∀ field ∈ fields, Reads field.2) : ∃ n, ∀ fuel, n ≤ fuel → ∀ before rest,
      ((before ++ fields).map (·.1)).Nodup →
      readFields fuel before ([','].intercalate (fields.map (fieldChars depth)) ++ '}' :: rest) =
        some (before ++ fields.map fun field => (field.1, arranged field.2), rest) := by
  induction fields with
  | nil => exact absurd rfl ne
  | cons field fields ih =>
    obtain ⟨key, v⟩ := field
    obtain ⟨n, here⟩ := each (key, v) List.mem_cons_self depth
    have fresh {before : Fields} (distinct : ((before ++ (key, v) :: fields).map (·.1)).Nodup) :
        key ∉ before.map (·.1) := by
      rw [List.map_append, List.map_cons] at distinct
      exact fun mem => (List.nodup_append.mp distinct).2.2 key mem key List.mem_cons_self rfl
    cases fields with
    | nil =>
      refine ⟨n + 1, fun fuel enough before rest distinct => ?_⟩
      obtain ⟨fuel, rfl⟩ := Nat.exists_eq_add_of_le' (Nat.le_of_add_left_le enough)
      have value := here fuel (by omega) ('}' :: rest) (by simp [Ends])
      rw [List.map_singleton, List.intercalate_singleton, fieldChars]
      simp [readFields, skipBlanks, readQuoted_quoted, value, put_of_fresh _ (fresh distinct)]
    | cons other fields =>
      obtain ⟨m, there⟩ := ih (List.cons_ne_nil _ _) fun f hf => each f (List.mem_cons_of_mem _ hf)
      refine ⟨max n m + 1, fun fuel enough before rest distinct => ?_⟩
      obtain ⟨fuel, rfl⟩ := Nat.exists_eq_add_of_le' (Nat.le_of_add_left_le enough)
      have value := here fuel (by omega) (',' :: ([','].intercalate
        ((other :: fields).map (fieldChars depth)) ++ '}' :: rest)) (by simp [Ends])
      have others := there fuel (by omega) (before ++ [(key, arranged v)]) rest
        (by simpa using distinct)
      rw [List.map_cons] at value others
      rw [List.map_cons, List.map_cons, List.intercalate_cons_cons, fieldChars]
      simp [readFields, skipBlanks, readQuoted_quoted, value, put_of_fresh _ (fresh distinct),
        others]

theorem exists_intercalate_eq_cons {c : Char} {cs text : List Char} (texts : List (List Char))
    (h : text = c :: cs) : ∃ more, [','].intercalate (text :: texts) = c :: more := by
  cases texts with
  | nil => exact ⟨cs, by rw [List.intercalate_singleton, h]⟩
  | cons other texts => exact ⟨_, by rw [List.intercalate_cons_cons, h, List.cons_append]; rfl⟩

theorem reads_arr {items : List Json} (all : ∀ v ∈ items, Exact v)
    (each : ∀ v ∈ items, Reads v) : Reads (.arr items) := by
  refine reads_of_succ fun depth => ?_
  cases items with
  | nil =>
    refine ⟨0, fun fuel _ rest _ => ?_⟩
    simp [chars_arr, arranged, arrangedItems, readValue, skipBlanks]
  | cons v items =>
    obtain ⟨n, read⟩ := readItems_chars (depth + 1) (List.cons_ne_nil v items) each
    obtain ⟨c, cs, text, other⟩ := exists_chars_eq_cons (all v List.mem_cons_self) (depth + 1)
    obtain ⟨more, front⟩ := exists_intercalate_eq_cons (items.map (chars (depth + 1))) text
    refine ⟨n, fun fuel enough rest _ => ?_⟩
    have values := read fuel enough rest
    rw [List.map_cons, front, List.cons_append, List.map_cons] at values
    rw [chars_arr, List.map_cons, front]
    simp only [List.mem_cons, List.not_mem_nil, not_or] at other
    simp [readValue, skipBlanks, other, arranged, arrangedItems_eq_map, values]

theorem reads_obj {fields : Fields} (distinct : (fields.map (·.1)).Nodup)
    (each : ∀ field ∈ fields, Reads field.2) : Reads (.obj fields) := by
  refine reads_of_succ fun depth => ?_
  have perm := arrange_perm .canonical fields
  rw [chars_obj, arranged, arrangedFields_eq_map, arrange_map]
  cases inOrder : Layout.canonical.arrange fields with
  | nil =>
    refine ⟨0, fun fuel _ rest _ => ?_⟩
    simp [readValue, skipBlanks]
  | cons field others =>
    rw [inOrder] at perm
    obtain ⟨n, read⟩ := readFields_chars (depth + 1) (List.cons_ne_nil field others)
      fun f hf => each f (perm.mem_iff.mp hf)
    obtain ⟨more, front⟩ := exists_intercalate_eq_cons
      (others.map (fieldChars (depth + 1))) (rfl : fieldChars (depth + 1) field = _)
    refine ⟨n, fun fuel enough rest _ => ?_⟩
    have values := read fuel enough [] rest ((perm.map _).nodup_iff.mpr distinct)
    rw [List.map_cons, front, List.cons_append, List.nil_append, List.map_cons] at values
    rw [List.map_cons, front]
    simp [readValue, skipBlanks, values]

/-- **What is written canonically is read back**, with the fields of each object in order. -/
theorem reads_of_exact {v : Json} (h : Exact v) : Reads v := by
  induction h with
  | null =>
    refine reads_of_succ fun depth => ⟨0, fun fuel _ rest _ => ?_⟩
    simp [chars_null, arranged, readValue, skipBlanks, after?]
  | bool b =>
    refine reads_of_succ fun depth => ⟨0, fun fuel _ rest _ => ?_⟩
    cases b <;> simp [chars_bool, arranged, readValue, skipBlanks, after?]
  | int n => exact reads_int n
  | str s =>
    refine reads_of_succ fun depth => ⟨0, fun fuel _ rest _ => ?_⟩
    simp [chars_str, arranged, readValue, skipBlanks, readQuoted_quoted]
  | arr each ih => exact reads_arr each ih
  | obj distinct _ ih => exact reads_obj distinct ih

theorem arranged_eq_of_canonical_eq {v w : Json} (hv : Exact v) (hw : Exact w)
    (h : v.canonical = w.canonical) : v.arranged = w.arranged := by
  obtain ⟨n, left⟩ := reads_of_exact hv 0
  obtain ⟨m, right⟩ := reads_of_exact hw 0
  have one : chars 0 v = chars 0 w := congrArg String.toList h
  have read := left (max n m) (le_max_left n m) [] (by simp [Ends])
  have read' := right (max n m) (le_max_right n m) [] (by simp [Ends])
  rw [one, read', Option.some.injEq, Prod.mk.injEq] at read
  exact read.1.symm

theorem eq_of_perm_of_keys {α : Type} : ∀ {xs ys : List (String × α)}, xs.Perm ys →
    xs.map (·.1) = ys.map (·.1) → (xs.map (·.1)).Nodup → xs = ys
  | [], _, perm, _, _ => (List.nil_perm.mp perm).symm
  | x :: xs, [], perm, _, _ => absurd (List.perm_nil.mp perm) (List.cons_ne_nil x xs)
  | x :: xs, y :: ys, perm, keys, distinct => by
    rw [List.map_cons, List.map_cons, List.cons.injEq] at keys
    rw [List.map_cons, List.nodup_cons] at distinct
    obtain rfl : x = y := by
      rcases List.mem_cons.mp (perm.mem_iff.mp List.mem_cons_self) with same | later
      · exact same
      · exact absurd (keys.2 ▸ List.mem_map_of_mem later) distinct.1
    rw [eq_of_perm_of_keys ((List.perm_cons x).mp perm) keys.2 distinct.2]

/-- Objects whose fields stand in the same order are equal if they are so up to the order. -/
theorem arrangedFields_eq {fields fields' : Fields}
    (h : (Json.obj fields).arranged = (Json.obj fields').arranged)
    (keys : fields.map (·.1) = fields'.map (·.1)) (distinct : (fields.map (·.1)).Nodup) :
    arrangedFields fields = arrangedFields fields' := by
  have sameKeys (fields : Fields) : (arrangedFields fields).map (·.1) = fields.map (·.1) := by
    rw [arrangedFields_eq_map, List.map_map]
    rfl
  simp only [arranged, Json.obj.injEq] at h
  have perm := (arrange_perm .canonical (arrangedFields fields)).symm.trans
    (h ▸ arrange_perm .canonical (arrangedFields fields'))
  refine eq_of_perm_of_keys perm ?_ ?_
  · rw [sameKeys, sameKeys, keys]
  · rwa [sameKeys]

end MailRules.Json
