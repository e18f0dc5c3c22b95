import MailRules.Native.Search

/-!
The search language has one reading.

A `Search` is what a text in the search language says, and `Search.text` writes it the way searches
are generated. The text of a search does not end in a way of its own: an operand ends where the next
character cannot belong to it. So a search is read off a text from the left, up to a blank or a
closing bracket, and what is shown is that two readings of one text agree on the search and on the
rest (`text_unique`). The first character tells the kind of a search, but for an operand without
quotes and a field: these are told apart by the colon, which ends the name of the field. It takes
operands that do not look like something else (`Legible`).

What is proved:
  1. `lead_text`: the first character of a text tells quotes, brackets and minus signs from names.
  2. `run_unique`: of two runs of characters of a kind, followed by another kind, neither is
     longer.
  3. `text_unique`, `spaced_unique`: one reading of a search, and of searches side by side.
  4. `Writes.unique`: a text in the search language writes one list of searches, and `Writes.join`,
     `Writes.group`, `Writes.minus`: how texts are put together.
-/

namespace MailRules.Native

/-- What a text in the search language says. -/
inductive Search where
  | operand (text : String)
  | within (field : Field) (s : Search)
  | group (op : Connective) (ss : List Search)
  | minus (s : Search)

def opening : Connective → Char
  | .or => '{'
  | _ => '('

def closing : Connective → Char
  | .or => '}'
  | _ => ')'

namespace Search

mutual
def text : Search → List Char
  | operand s => (quote s).toList
  | within f s => f.name.toList ++ ':' :: s.text
  | group op ss => opening op :: ((spaced ss).tail ++ [closing op])
  | minus s => '-' :: s.text
def spaced : List Search → List Char
  | [] => []
  | s :: ss => ' ' :: (s.text ++ spaced ss)
end

def texts (ss : List Search) : List Char := (spaced ss).tail

theorem texts_cons (s : Search) (ss : List Search) : texts (s :: ss) = s.text ++ spaced ss := rfl

theorem texts_singleton (s : Search) : texts [s] = s.text := List.append_nil _

theorem text_group (op : Connective) (ss : List Search) :
    (group op ss).text = opening op :: (texts ss ++ [closing op]) := rfl

theorem spaced_eq_cons {ss : List Search} (h : ss ≠ []) : spaced ss = ' ' :: texts ss := by
  cases ss with
  | nil => contradiction
  | cons s ss => rfl

theorem spaced_append : ∀ ss us : List Search, spaced (ss ++ us) = spaced ss ++ spaced us
  | [], _ => rfl
  | s :: ss, us => by simp only [List.cons_append, spaced, spaced_append ss us, List.append_assoc]

end Search

/-- An operand that does not look like another search. -/
structure Legible (operand : String) : Prop where
  set : operand ≠ ""
  unquoted : '"' ∉ operand.toList
  unnamed : ':' ∉ operand.toList
  unsigned : operand.toList.head? ≠ some '-'

instance (s : String) : Decidable (Legible s) :=
  decidable_of_iff
    (s ≠ "" ∧ '"' ∉ s.toList ∧ ':' ∉ s.toList ∧ s.toList.head? ≠ some '-')
    ⟨fun ⟨set, quote, colon, minus⟩ => ⟨set, quote, colon, minus⟩,
      fun h => ⟨h.set, h.unquoted, h.unnamed, h.unsigned⟩⟩

/-- A search that can be read back. -/
inductive Search.Readable : Search → Prop
  | operand {s : String} : Legible s → Readable (operand s)
  | within {f : Field} {s : Search} : Readable s → Readable (within f s)
  | group {op : Connective} {ss : List Search} :
      op = .and ∨ op = .or → ss ≠ [] → (∀ s ∈ ss, Readable s) → Readable (group op ss)
  | minus {s : Search} : Readable s → Readable (minus s)

/-- What follows a search: nothing, a blank or a closing bracket. -/
def Ends (r : List Char) : Prop := ∀ c, r.head? = some c → c = ' ' ∨ c = '}' ∨ c = ')'

/-- What follows the last of several searches: nothing or a closing bracket. -/
def Closes (r : List Char) : Prop := ∀ c, r.head? = some c → c = '}' ∨ c = ')'

theorem Closes.ends {r : List Char} (h : Closes r) : Ends r := fun c hc => .inr (h c hc)

theorem closes_closing {op : Connective} (hop : op = .and ∨ op = .or) (r : List Char) :
    Closes (closing op :: r) := by
  rcases hop with rfl | rfl
  · rintro c ⟨⟩; exact .inr rfl
  · rintro c ⟨⟩; exact .inl rfl

/-! ## The first character -/

/-- A character of a name or of an operand without quotes. -/
def isPlain (c : Char) : Bool := !([' ', '\t', '{', '}', '(', ')', '"', ':'].contains c)

/-- What the first character of a text tells. -/
inductive Lead where
  | quotes
  | opening (op : Connective)
  | minus
  | name
  deriving DecidableEq

/-- What a first character tells. -/
def Lead.of (c : Char) : Lead :=
  if c = '"' then quotes
  else if c = '{' then opening .or
  else if c = '(' then opening .and
  else if c = '-' then minus
  else name

/-- What the text of a search begins with. -/
def Search.lead : Search → Lead
  | operand s => if needsQuotes s then .quotes else .name
  | within _ _ => .name
  | group op _ => .opening op
  | minus _ => .minus

theorem plain_of_unquoted {s : String} (h : Legible s) (bare : needsQuotes s = false) :
    ∀ c ∈ s.toList, isPlain c = true := by
  intro c hc
  simp only [needsQuotes, Bool.or_eq_false_iff, List.any_eq_false] at bare
  have special := bare.1 c hc
  have quotes : c ≠ '"' := fun e => h.unquoted (e ▸ hc)
  have colon : c ≠ ':' := fun e => h.unnamed (e ▸ hc)
  simp only [List.contains_eq_mem, List.mem_cons, List.not_mem_nil, or_false,
    decide_eq_true_eq] at special
  simp only [isPlain, List.contains_eq_mem, List.mem_cons, List.not_mem_nil, or_false,
    Bool.not_eq_true', decide_eq_false_iff_not]
  grind

theorem plain_name (f : Field) : ∀ c ∈ f.name.toList, isPlain c = true :=
  List.all_eq_true.mp (by cases f <;> decide)

theorem lead_of_plain {c : Char} (plain : isPlain c = true) (unsigned : c ≠ '-') :
    Lead.of c = .name := by
  simp only [isPlain, List.contains_eq_mem, List.mem_cons, List.not_mem_nil, or_false,
    Bool.not_eq_true', decide_eq_false_iff_not, not_or] at plain
  simp only [Lead.of, plain, unsigned, if_false]

theorem lead_text {s : Search} (h : s.Readable) :
    ∃ c cs, s.text = c :: cs ∧ Lead.of c = s.lead := by
  cases h with
  | @operand s legible =>
    rw [Search.text, quote, Search.lead]
    split
    · exact ⟨'"', s.toList ++ ['"'], by simp [String.toList_append], rfl⟩
    · next bare =>
      have plain := plain_of_unquoted legible (Bool.eq_false_iff.mpr bare)
      have unsigned := legible.unsigned
      match chars : s.toList with
      | [] => exact absurd (String.toList_inj.mp chars) legible.set
      | c :: cs =>
        rw [chars] at plain unsigned
        exact ⟨c, cs, rfl, lead_of_plain (plain c List.mem_cons_self) (by simpa using unsigned)⟩
  | @within f s _ =>
    rw [Search.text, Search.lead]
    cases f <;> exact ⟨_, _, rfl, by decide⟩
  | group hop _ _ =>
    rw [Search.text, Search.lead]
    rcases hop with rfl | rfl <;> exact ⟨_, _, rfl, by decide⟩
  | minus _ => exact ⟨_, _, rfl, (by decide : Lead.of '-' = .minus)⟩

theorem lead_eq_of_append_eq {s s' : Search} (h : s.Readable) (h' : s'.Readable)
    {r r' : List Char} (e : s.text ++ r = s'.text ++ r') : s.lead = s'.lead := by
  obtain ⟨c, cs, hc, lead⟩ := lead_text h
  obtain ⟨c', cs', hc', lead'⟩ := lead_text h'
  rw [hc, hc'] at e
  rw [← lead, ← lead', (List.cons.inj e).1]

theorem lead_eq_name {s : String} : (Search.operand s).lead = .name ↔ needsQuotes s = false := by
  cases quoted : needsQuotes s <;> simp [Search.lead, quoted]

theorem lead_eq_quotes {s : String} :
    (Search.operand s).lead = .quotes ↔ needsQuotes s = true := by
  cases quoted : needsQuotes s <;> simp [Search.lead, quoted]

/-! ## Runs of characters -/

/-- Two runs of characters of a kind, with which one text begins and which another kind of character
ends, are the same. -/
theorem run_unique {p : Char → Bool} : ∀ {xs ys r r' : List Char},
    (∀ c ∈ xs, p c = true) → (∀ c ∈ ys, p c = true) →
    (∀ c, r.head? = some c → p c = false) → (∀ c, r'.head? = some c → p c = false) →
    xs ++ r = ys ++ r' → xs = ys ∧ r = r'
  | [], [], _, _, _, _, _, _, e => ⟨rfl, e⟩
  -- Where one run ends, the other cannot go on, as what follows the first is of another kind.
  | [], y :: ys, _, _, _, hy, hr, _, e => by
    subst e
    simp [hy y List.mem_cons_self] at hr
  | x :: xs, [], _, _, hx, _, _, hr', e => by
    subst e
    simp [hx x List.mem_cons_self] at hr'
  | x :: xs, y :: ys, _, _, hx, hy, hr, hr', e => by
    obtain ⟨rfl, tail⟩ := List.cons.inj e
    obtain ⟨rfl, rest⟩ := run_unique (fun c hc => hx c (List.mem_cons_of_mem x hc))
      (fun c hc => hy c (List.mem_cons_of_mem x hc)) hr hr' tail
    exact ⟨rfl, rest⟩

theorem Ends.not_plain {r : List Char} (h : Ends r) :
    ∀ c, r.head? = some c → isPlain c = false := by
  intro c hc
  rcases h c hc with rfl | rfl | rfl <;> decide

/-! ## One reading -/

theorem quoted_unique {s s' : String} (h : Legible s) (h' : Legible s') {r r' : List Char}
    (e : ("\"" ++ s ++ "\"").toList ++ r = ("\"" ++ s' ++ "\"").toList ++ r') :
    s = s' ∧ r = r' := by
  simp only [String.toList_append, List.append_assoc] at e
  have e := (List.cons.inj e).2
  have inside {s : String} (h : Legible s) : ∀ c ∈ s.toList, (c != '"') = true :=
    fun c hc => bne_iff_ne.mpr fun e => h.unquoted (e ▸ hc)
  have ends (r : List Char) : ∀ c, ("\"".toList ++ r).head? = some c → (c != '"') = false := by
    intro c hc
    cases hc
    rfl
  obtain ⟨same, rest⟩ := run_unique (inside h) (inside h') (ends r) (ends r') e
  exact ⟨String.toList_inj.mp same, (List.cons.inj rest).2⟩

/-- An operand without quotes is not the name of a field, which a colon ends. -/
theorem bare_ne_within {s : String} (h : Legible s) (bare : needsQuotes s = false) {f : Field}
    {r r' : List Char} (ends : Ends r) : s.toList ++ r ≠ f.name.toList ++ ':' :: r' := by
  intro e
  obtain ⟨_, rfl⟩ := run_unique (plain_of_unquoted h bare) (plain_name f) ends.not_plain
    (by rintro c ⟨⟩; decide) e
  have := ends ':' rfl
  simp at this

theorem ends_spaced {ss : List Search} {r : List Char} (h : Ends r) :
    Ends (Search.spaced ss ++ r) := by
  cases ss with
  | nil => exact h
  | cons s ss => rintro c ⟨⟩; exact .inl rfl

theorem spaced_unique : ∀ {ss ss' : List Search} {r r' : List Char},
    (∀ s ∈ ss, ∀ {s' : Search} {r r'}, s'.Readable → Ends r → Ends r' →
      s.text ++ r = s'.text ++ r' → s = s' ∧ r = r') →
    (∀ s ∈ ss', s.Readable) → Closes r → Closes r' →
    Search.spaced ss ++ r = Search.spaced ss' ++ r' → ss = ss' ∧ r = r'
  | [], [], _, _, _, _, _, _, e => ⟨rfl, e⟩
  | [], _ :: _, _, _, _, _, closes, _, e => by
    subst e
    simpa using closes ' ' rfl
  | _ :: _, [], _, _, _, _, _, closes', e => by
    subst e
    simpa using closes' ' ' rfl
  | s :: ss, s' :: ss', r, r', one, h', closes, closes', e => by
    simp only [Search.spaced, List.cons_append, List.append_assoc] at e
    obtain ⟨rfl, tail⟩ := one s List.mem_cons_self (h' s' List.mem_cons_self)
      (ends_spaced closes.ends) (ends_spaced closes'.ends) (List.cons.inj e).2
    obtain ⟨rfl, rest⟩ := spaced_unique (fun t ht => one t (List.mem_cons_of_mem s ht))
      (fun t ht => h' t (List.mem_cons_of_mem _ ht)) closes closes' tail
    exact ⟨rfl, rest⟩

/-- **A search has one reading**, whatever follows it. -/
theorem text_unique {s : Search} (h : s.Readable) : ∀ {s' : Search} {r r' : List Char},
    s'.Readable → Ends r → Ends r' → s.text ++ r = s'.text ++ r' → s = s' ∧ r = r' := by
  -- In each case the first characters leave only searches of the same kind to compare with, and
  -- for names the other kind of names.
  induction h with
  | @operand s legible =>
    intro s' r r' h' ends ends' e
    have lead := lead_eq_of_append_eq (.operand legible) h' e
    cases h' with
    | @operand s' legible' =>
      cases quoted : needsQuotes s with
      | true =>
        have quoted' := lead_eq_quotes.mp (lead ▸ lead_eq_quotes.mpr quoted)
        simp only [Search.text, quote, quoted, quoted', if_true] at e
        obtain ⟨rfl, rest⟩ := quoted_unique legible legible' e
        exact ⟨rfl, rest⟩
      | false =>
        have bare' := lead_eq_name.mp (lead ▸ lead_eq_name.mpr quoted)
        simp only [Search.text, quote, quoted, bare', Bool.false_eq_true, if_false] at e
        obtain ⟨same, rest⟩ := run_unique (plain_of_unquoted legible quoted)
          (plain_of_unquoted legible' bare') ends.not_plain ends'.not_plain e
        exact ⟨by rw [String.toList_inj.mp same], rest⟩
    | within _ =>
      have bare := lead_eq_name.mp lead
      simp only [Search.text, quote, bare, Bool.false_eq_true, if_false, List.append_assoc] at e
      exact absurd e (bare_ne_within legible bare ends)
    | group _ _ _ => simp only [Search.lead] at lead; split at lead <;> contradiction
    | minus _ => simp only [Search.lead] at lead; split at lead <;> contradiction
  | @within f s readable ih =>
    intro s' r r' h' ends ends' e
    have lead := lead_eq_of_append_eq (.within readable) h' e
    cases h' with
    | @operand s' legible' =>
      have bare := lead_eq_name.mp lead.symm
      simp only [Search.text, quote, bare, Bool.false_eq_true, if_false, List.append_assoc] at e
      exact absurd e.symm (bare_ne_within legible' bare ends')
    | @within f' s' readable' =>
      simp only [Search.text, List.append_assoc, List.cons_append] at e
      obtain ⟨same, tail⟩ := run_unique (plain_name f) (plain_name f')
        (by rintro c ⟨⟩; decide) (by rintro c ⟨⟩; decide) e
      obtain rfl := Field.name_injective (String.toList_inj.mp same)
      obtain ⟨rfl, rest⟩ := ih readable' ends ends' (List.cons.inj tail).2
      exact ⟨rfl, rest⟩
    | group _ _ _ => cases lead
    | minus _ => cases lead
  | @group op ss hop ne readable ih =>
    intro s' r r' h' ends ends' e
    have lead := lead_eq_of_append_eq (.group hop ne readable) h' e
    cases h' with
    | operand _ => simp only [Search.lead] at lead; split at lead <;> contradiction
    | within _ => cases lead
    | @group op' ss' _ ne' readable' =>
      cases lead
      simp only [Search.text_group, List.cons_append, List.append_assoc] at e
      -- With a blank in front, the parts read like the tail of a list of searches.
      have inside : Search.spaced ss ++ closing op :: r = Search.spaced ss' ++ closing op :: r' := by
        rw [Search.spaced_eq_cons ne, Search.spaced_eq_cons ne']
        exact congrArg (' ' :: ·) (List.cons.inj e).2
      obtain ⟨rfl, rest⟩ := spaced_unique ih readable' (closes_closing hop r)
        (closes_closing hop r') inside
      exact ⟨rfl, (List.cons.inj rest).2⟩
    | minus _ => cases lead
  | @minus s readable ih =>
    intro s' r r' h' ends ends' e
    have lead := lead_eq_of_append_eq (.minus readable) h' e
    cases h' with
    | operand _ => simp only [Search.lead] at lead; split at lead <;> contradiction
    | within _ => cases lead
    | group _ _ _ => cases lead
    | @minus s' readable' =>
      obtain ⟨rfl, rest⟩ := ih readable' ends ends' (List.cons.inj e).2
      exact ⟨rfl, rest⟩

/-! ## Texts put together -/

/-- The text writes the searches side by side. -/
structure Writes (q : String) (ss : List Search) : Prop where
  readable : ∀ s ∈ ss, s.Readable
  text : q.toList = Search.texts ss

namespace Writes

theorem nil : Writes "" [] := ⟨by simp, rfl⟩

theorem operand {s : String} (h : Legible s) : Writes (quote s) [.operand s] := by
  refine ⟨by simpa using .operand h, ?_⟩
  rw [Search.texts_singleton, Search.text]

section
variable {q : String} {s : Search} {ss us : List Search}

theorem eq_empty_iff (h : Writes q ss) : q = "" ↔ ss = [] := by
  have empty : q = "" ↔ Search.texts ss = [] := by
    rw [← h.text, ← String.toList_inj, String.toList_empty]
  rw [empty]
  cases ss with
  | nil => simp [Search.texts, Search.spaced]
  | cons s ss =>
    obtain ⟨c, cs, text, _⟩ := lead_text (h.readable s List.mem_cons_self)
    simp [Search.texts_cons, text]

theorem unique (h : Writes q ss) (h' : Writes q us) : ss = us := by
  by_cases empty : q = ""
  · rw [h.eq_empty_iff.mp empty, h'.eq_empty_iff.mp empty]
  · have closes : Closes [] := fun c hc => by cases hc
    have texts : Search.spaced ss ++ [] = Search.spaced us ++ [] := by
      rw [Search.spaced_eq_cons (mt h.eq_empty_iff.mpr empty),
        Search.spaced_eq_cons (mt h'.eq_empty_iff.mpr empty), ← h.text, ← h'.text]
    exact (spaced_unique (fun s hs => text_unique (h.readable s hs)) h'.readable closes closes
      texts).1

theorem join {q' : String} (h : Writes q ss) (h' : Writes q' us) :
    Writes (joinQueries q q') (ss ++ us) := by
  refine ⟨fun s hs => (List.mem_append.mp hs).elim (h.readable s) (h'.readable s), ?_⟩
  unfold joinQueries
  split
  · next empty =>
    rw [h.eq_empty_iff.mp empty, List.nil_append]
    exact h'.text
  · next set =>
    split
    · next empty =>
      rw [h'.eq_empty_iff.mp empty, List.append_nil]
      exact h.text
    · next set' =>
      have spaced := Search.spaced_eq_cons (mt h.eq_empty_iff.mpr set)
      have spaced' := Search.spaced_eq_cons (mt h'.eq_empty_iff.mpr set')
      rw [Search.texts, Search.spaced_append, spaced, spaced', List.cons_append, List.tail_cons,
        ← h.text, ← h'.text, String.toList_append, String.toList_append, List.append_assoc]
      rfl

theorem group {op : Connective} (hop : op = .and ∨ op = .or) (ne : ss ≠ []) (h : Writes q ss) :
    ∃ q', Native.group op q = .ok q' ∧ Writes q' [.group op ss] := by
  have readable : Search.Readable (.group op ss) := .group hop ne h.readable
  have written : Search.texts [.group op ss] = opening op :: (q.toList ++ [closing op]) := by
    rw [Search.texts_singleton, Search.text_group, h.text]
  rcases hop with rfl | rfl
  · exact ⟨_, rfl, by simpa using readable, by simp [written, opening, closing]⟩
  · exact ⟨_, rfl, by simpa using readable, by simp [written, opening, closing]⟩

theorem minus (h : Writes q [s]) : Writes ("-" ++ q) [.minus s] := by
  refine ⟨by simpa using .minus (h.readable s List.mem_cons_self), ?_⟩
  rw [String.toList_append, h.text, Search.texts_singleton, Search.texts_singleton]
  rfl

theorem within (f : Field) (h : Writes q [s]) : Writes (f.name ++ ":" ++ q) [.within f s] := by
  refine ⟨by simpa using .within (h.readable s List.mem_cons_self), ?_⟩
  rw [String.toList_append, String.toList_append, h.text, Search.texts_singleton,
    Search.texts_singleton, List.append_assoc]
  rfl

end

theorem operands : ∀ {ss : List String}, (∀ s ∈ ss, Legible s) →
    Writes (String.intercalate " " (ss.map quote)) (ss.map .operand)
  | [], _ => nil
  | [s], h => by
    rw [List.map_cons, List.map_nil, String.intercalate_singleton]
    exact operand (h s List.mem_cons_self)
  | s :: s' :: ss, h => by
    have head := operand (h s List.mem_cons_self)
    have tail := operands fun t ht => h t (List.mem_cons_of_mem s ht)
    have joined := head.join tail
    have set : quote s ≠ "" := fun e => by simpa using head.eq_empty_iff.mp e
    have set' : String.intercalate " " ((s' :: ss).map quote) ≠ "" :=
      fun e => by simpa using tail.eq_empty_iff.mp e
    rw [joinQueries, if_neg set, if_neg set'] at joined
    rw [List.map_cons, String.intercalate_cons_of_ne_nil (by simp)]
    exact joined

end Writes

end MailRules.Native
