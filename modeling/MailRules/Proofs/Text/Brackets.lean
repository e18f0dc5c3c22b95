import Mathlib.Algebra.Group.Nat.Even

/-!
Brackets and quotes in a text.

A text is read from left to right. A quote begins or ends a quoted section, in which nothing else
counts. Outside of quotes an opening bracket is open until a closing bracket closes it, which has to
be the last one that is open. Which closing bracket fits which opening one is a parameter: in a
well-bracketed text it is that of the same kind.

What is defined and proved:
  1. `Nesting.read`: what is open after a text, and whether the text ends inside quotes; nothing if
     a closing bracket does not fit. `Nesting.Reads`: what one character does.
  2. `read_append`: a text is read piece by piece. `read_of_neutral`, `read_of_quoted`: what leaves
     everything open as it is. `read_below`: what is open before a text does not matter to it.
  3. `quoted_eq_iff`: the number of quotes tells whether a text ends inside of them.
  4. `exists_opener`: a closing bracket closes a bracket (`Opener`) that is found in the text.
  5. `outside`: what of a text is outside of quotes. `WellBracketed`: a text that leaves nothing
     open.
-/

namespace MailRules.Text

def isOpening (c : Char) : Bool := c = '{' || c = '('

def isClosing (c : Char) : Bool := c = '}' || c = ')'

def isBracket (c : Char) : Bool := isOpening c || isClosing c

def sameKind (o c : Char) : Bool := (o = '{' && c = '}') || (o = '(' && c = ')')

theorem isOpening_iff {c : Char} : isOpening c = true ↔ c = '{' ∨ c = '(' := by
  simp [isOpening]

theorem isClosing_iff {c : Char} : isClosing c = true ↔ c = '}' ∨ c = ')' := by
  simp [isClosing]

theorem isBracket_eq_false_iff {c : Char} :
    isBracket c = false ↔ isOpening c = false ∧ isClosing c = false :=
  Bool.or_eq_false_iff

theorem not_opening_of_closing {c : Char} (h : isClosing c = true) : isOpening c = false := by
  rcases isClosing_iff.mp h with rfl | rfl <;> rfl

theorem ne_quote_of_bracket {c : Char} (h : isOpening c = true ∨ isClosing c = true) :
    c ≠ '"' := by
  intro quote
  rw [quote] at h
  rcases h with h | h <;> cases h

/-- How far a text is read: whether that is inside quotes, and the brackets that are open, the last
one first. -/
structure Nesting where
  quoted : Bool := false
  opened : List Char := []
  deriving DecidableEq

namespace Nesting

variable (fits : Char → Char → Bool)

/-- What is open after a character. -/
def step (s : Nesting) (c : Char) : Option Nesting :=
  if c = '"' then some { s with quoted := !s.quoted }
  else if s.quoted then some s
  else if isOpening c then some { s with opened := c :: s.opened }
  else if isClosing c then
    match s.opened with
    | o :: rest => if fits o c then some { s with opened := rest } else none
    | [] => none
  else some s

def read (s : Nesting) : List Char → Option Nesting
  | [] => some s
  | c :: cs => (step fits s c).bind fun s => read s cs

variable {fits} {s : Nesting}

/-- What a character does to what is open. -/
inductive Reads (fits : Char → Char → Bool) : Nesting → Char → Nesting → Prop
  | quote (quoted : Bool) (opened : List Char) : Reads fits ⟨quoted, opened⟩ '"' ⟨!quoted, opened⟩
  | passed {s : Nesting} {c : Char} (other : c ≠ '"')
      (idle : s.quoted = true ∨ isBracket c = false) : Reads fits s c s
  | opening {o : Char} (opened : List Char) (bracket : isOpening o = true) :
      Reads fits ⟨false, opened⟩ o ⟨false, o :: opened⟩
  | closing {o c : Char} (opened : List Char) (bracket : isClosing c = true)
      (fit : fits o c = true) : Reads fits ⟨false, o :: opened⟩ c ⟨false, opened⟩

theorem reads_of_step {c : Char} {s' : Nesting} (h : step fits s c = some s') :
    Reads fits s c s' := by
  obtain ⟨quoted, opened⟩ := s
  unfold step at h
  split at h
  · next quote =>
    cases h
    subst quote
    exact .quote quoted opened
  · next other =>
    split at h
    · next inside =>
      cases h
      exact .passed other (.inl inside)
    · next outside =>
      cases Bool.eq_false_iff.mpr outside
      split at h
      · next bracket =>
        cases h
        exact .opening opened bracket
      · next noOpening =>
        split at h
        · next bracket =>
          cases opened with
          | nil => cases h
          | cons o opened =>
            obtain ⟨fit, same⟩ := Option.ite_none_right_eq_some.mp h
            cases same
            exact .closing opened bracket fit
        · next noClosing =>
          cases h
          refine .passed other (.inr ?_)
          simp [isBracket, noOpening, noClosing]

theorem Reads.step {c : Char} {s' : Nesting} (h : Reads fits s c s') :
    step fits s c = some s' := by
  cases h with
  | quote quoted opened => rfl
  | passed other idle =>
    rcases idle with inside | neutral
    · simp [Nesting.step, other, inside]
    · rw [isBracket_eq_false_iff] at neutral
      simp [Nesting.step, other, neutral]
  | opening opened bracket =>
    have other : c ≠ '"' := ne_quote_of_bracket (.inl bracket)
    simp [Nesting.step, other, bracket]
  | closing opened bracket fit =>
    rcases isClosing_iff.mp bracket with rfl | rfl <;>
      simp [Nesting.step, isOpening, isClosing, fit]

theorem Reads.quoted_eq {c : Char} {s' : Nesting} (h : Reads fits s c s') :
    s'.quoted = if c = '"' then !s.quoted else s.quoted := by
  cases h with
  | quote quoted opened => rfl
  | passed other idle => rw [if_neg other]
  | opening opened bracket => rw [if_neg (ne_quote_of_bracket (.inl bracket))]
  | closing opened bracket fit => rw [if_neg (ne_quote_of_bracket (.inr bracket))]

/-- What is open below stays open below what a character opens. -/
theorem Reads.below (below : List Char) {c : Char} {s' : Nesting} (h : Reads fits s c s') :
    Reads fits ⟨s.quoted, s.opened ++ below⟩ c ⟨s'.quoted, s'.opened ++ below⟩ := by
  cases h with
  | quote quoted opened => exact .quote quoted (opened ++ below)
  | passed other idle => exact .passed other idle
  | opening opened bracket => exact .opening (opened ++ below) bracket
  | closing opened bracket fit => exact .closing (opened ++ below) bracket fit

theorem read_append (xs ys : List Char) :
    read fits s (xs ++ ys) = (read fits s xs).bind fun s => read fits s ys := by
  induction xs generalizing s with
  | nil => rfl
  | cons c cs ih =>
    rw [List.cons_append, read, read]
    cases step fits s c with
    | none => rfl
    | some s' => exact ih

theorem read_of_quoted {cs : List Char} (inside : s.quoted = true) (unquoted : '"' ∉ cs) :
    read fits s cs = some s := by
  induction cs with
  | nil => rfl
  | cons c cs ih =>
    rw [List.mem_cons, not_or] at unquoted
    rw [read, (Reads.passed (Ne.symm unquoted.1) (.inl inside)).step]
    exact ih unquoted.2

theorem read_of_neutral {cs : List Char} (neutral : ∀ c ∈ cs, c ≠ '"' ∧ isBracket c = false) :
    read fits s cs = some s := by
  induction cs with
  | nil => rfl
  | cons c cs ih =>
    obtain ⟨⟨quote, bracket⟩, others⟩ := List.forall_mem_cons.mp neutral
    rw [read, (Reads.passed quote (.inr bracket)).step]
    exact ih others

theorem read_below (below : List Char) {cs : List Char} {s' : Nesting}
    (h : read fits s cs = some s') :
    read fits ⟨s.quoted, s.opened ++ below⟩ cs = some ⟨s'.quoted, s'.opened ++ below⟩ := by
  induction cs generalizing s with
  | nil =>
    cases h
    rfl
  | cons c cs ih =>
    obtain ⟨t, first, rest⟩ := Option.bind_eq_some_iff.mp h
    rw [read, ((reads_of_step first).below below).step]
    exact ih rest

/-- A text with an even number of quotes ends as it starts, inside or outside of them. -/
theorem quoted_eq_iff {cs : List Char} {s' : Nesting} (h : read fits s cs = some s') :
    s'.quoted = s.quoted ↔ Even (cs.count '"') := by
  induction cs generalizing s with
  | nil =>
    cases h
    simp
  | cons c cs ih =>
    obtain ⟨t, first, rest⟩ := Option.bind_eq_some_iff.mp h
    have here := (reads_of_step first).quoted_eq
    rw [List.count_cons]
    by_cases quote : c = '"'
    · rw [if_pos quote] at here
      rw [if_pos (by simpa using quote), Nat.even_add_one, ← ih rest, here]
      cases s.quoted <;> simp
    · rw [if_neg quote] at here
      rw [if_neg (by simpa using quote), Nat.add_zero, ← ih rest, here]

theorem unquoted_of_read {cs : List Char} (brackets : ∀ c ∈ cs, isBracket c = true)
    (outside : s.quoted = false) {s' : Nesting} (h : read fits s cs = some s') :
    s'.quoted = false := by
  have none : '"' ∉ cs := fun quote => Bool.noConfusion (brackets '"' quote)
  rw [← outside, quoted_eq_iff h, List.count_eq_zero_of_not_mem none]
  exact Even.zero

theorem read_concat_eq_some {c : Char} {cs : List Char} {s' : Nesting} :
    read fits s (cs ++ [c]) = some s' ↔ ∃ t, read fits s cs = some t ∧ Reads fits t c s' := by
  rw [read_append, Option.bind_eq_some_iff]
  refine exists_congr fun t => and_congr_right fun _ => ?_
  rw [show read fits t [c] = (step fits t c).bind some from rfl, Option.bind_fun_some]
  exact ⟨reads_of_step, Reads.step⟩

/-- A bracket that is open after a text stands in it, outside of quotes, and what follows it is well
bracketed up to where the text ends. -/
theorem exists_opening {cs opened : List Char} {quoted : Bool} {o : Char}
    (h : read fits {} cs = some ⟨quoted, o :: opened⟩) : ∃ earlier within,
      cs = earlier ++ o :: within ∧ isOpening o = true ∧
        read fits {} earlier = some ⟨false, opened⟩ ∧ read fits {} within = some ⟨quoted, []⟩ := by
  -- The induction is on the length, as a closing bracket leads back to the one that it closes.
  induction size : cs.length using Nat.strong_induction_on generalizing cs opened quoted o with
  | _ n ih =>
    rcases cs.eq_nil_or_concat with rfl | ⟨xs, c, rfl⟩
    · cases h
    rw [List.concat_eq_append] at h size ⊢
    rw [List.length_append, List.length_singleton] at size
    obtain ⟨t, before, last⟩ := read_concat_eq_some.mp h
    cases last with
    | quote quoted =>
      obtain ⟨earlier, within, rfl, bracket, first, rest⟩ := ih _ (by omega) before rfl
      refine ⟨earlier, within ++ ['"'], by simp, bracket, first, ?_⟩
      exact read_concat_eq_some.mpr ⟨_, rest, .quote quoted []⟩
    | passed other idle =>
      obtain ⟨earlier, within, rfl, bracket, first, rest⟩ := ih _ (by omega) before rfl
      refine ⟨earlier, within ++ [c], by simp, bracket, first, ?_⟩
      exact read_concat_eq_some.mpr ⟨_, rest, .passed other idle⟩
    | opening opened bracket => exact ⟨xs, [], rfl, bracket, before, rfl⟩
    | @closing o' _ opened bracket fit =>
      obtain ⟨mid, inner, rfl, bracket', first, rest⟩ := ih _ (by omega) before rfl
      rw [List.length_append, List.length_cons] at size
      obtain ⟨earlier, within, rfl, bracket'', first, rest'⟩ := ih _ (by omega) first rfl
      refine ⟨earlier, within ++ o' :: (inner ++ [c]), by simp, bracket'', first, ?_⟩
      rw [read_append, rest', Option.bind_some, read, (Reads.opening [] bracket').step,
        Option.bind_some, read_concat_eq_some]
      exact ⟨_, read_below [o'] rest, .closing [] bracket fit⟩

end Nesting

/-! ## Which bracket is closed -/

/-- The bracket `o` after `earlier` is the one that a closing bracket after `before` closes: it
stands outside of quotes, and what is between the two is well bracketed. -/
structure Opener (fits : Char → Char → Bool) (before earlier : List Char) (o : Char) : Prop where
  bracket : isOpening o = true
  outside : Even (earlier.count '"')
  between : ∃ within, before = earlier ++ o :: within ∧ Nesting.read fits {} within = some {}

/-- A closing bracket outside of quotes closes the last bracket that is open before it. -/
theorem Nesting.exists_opener {fits : Char → Char → Bool} {before after : List Char} {c : Char}
    {s : Nesting} (h : read fits {} (before ++ c :: after) = some s) (bracket : isClosing c = true)
    (outside : Even (before.count '"')) : ∃ earlier o opened, Opener fits before earlier o ∧
      fits o c = true ∧ read fits {} before = some ⟨false, o :: opened⟩ ∧
        read fits {} earlier = some ⟨false, opened⟩ := by
  rw [read_append] at h
  obtain ⟨⟨quoted, open'⟩, first, rest⟩ := Option.bind_eq_some_iff.mp h
  obtain ⟨t, here, _⟩ := Option.bind_eq_some_iff.mp rest
  cases (quoted_eq_iff first).mpr outside
  cases reads_of_step here with
  | quote quoted opened => cases bracket
  | passed other idle => simp [isBracket, bracket] at idle
  | opening opened bracket' =>
    rw [not_opening_of_closing bracket] at bracket'
    cases bracket'
  | @closing o _ opened _ fit =>
    obtain ⟨earlier, within, whole, bracket', before', inner⟩ := exists_opening first
    exact ⟨earlier, o, opened, ⟨bracket', (quoted_eq_iff before').mp rfl, within, whole, inner⟩,
      fit, first, before'⟩

/-! ## What is outside of quotes -/

/-- The characters of a text that are outside of quotes, given whether the text starts inside. -/
def outside : Bool → List Char → List Char
  | _, [] => []
  | quoted, c :: cs =>
    if c = '"' then outside (!quoted) cs
    else if quoted then outside quoted cs
    else c :: outside quoted cs

theorem outside_quoted {cs : List Char} (unquoted : '"' ∉ cs) (ds : List Char) :
    outside true (cs ++ '"' :: ds) = outside false ds := by
  induction cs with
  | nil => simp [outside]
  | cons c cs ih =>
    rw [List.mem_cons, not_or] at unquoted
    rw [List.cons_append, outside, if_neg (Ne.symm unquoted.1), if_pos rfl, ih unquoted.2]

theorem outside_sublist : ∀ (quoted : Bool) (cs : List Char), (outside quoted cs).Sublist cs
  | _, [] => .slnil
  | quoted, c :: cs => by
    unfold outside
    split
    · exact (outside_sublist _ cs).cons c
    · split
      · exact (outside_sublist _ cs).cons c
      · exact (outside_sublist _ cs).cons_cons c

/-- In the text every closing bracket outside of quotes closes the last open bracket, which is of
the same kind, and the text ends outside of quotes with nothing open. -/
def WellBracketed (text : String) : Prop := Nesting.read sameKind {} text.toList = some {}

instance (text : String) : Decidable (WellBracketed text) :=
  inferInstanceAs (Decidable (Nesting.read sameKind {} text.toList = some {}))

end MailRules.Text
