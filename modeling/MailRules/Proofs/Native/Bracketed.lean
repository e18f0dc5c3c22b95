import MailRules.Proofs.Native.Conjuncts
import MailRules.Proofs.Text.Brackets

/-!
Operands cannot break out of their group.

A search is written in tokens: operands, the brackets of groups, and between them blanks, minus
signs and names of fields. Of these only the brackets of groups count for a reader who looks for
brackets outside of quotes, as long as no operand has a quote of its own: an operand with a bracket
is quoted as a whole. So the brackets that such a reader finds are those of the groups, which are
opened and closed in pairs, one group inside the other.

Which brackets and operands are written, and in which sequence, is told by the condition
(`Condition.outline`), for each place of the criteria by the conjuncts that are written there.

What is defined and proved:
  1. `Token`, `Spelt`: a text that is put together from tokens, with a given outline.
  2. `queryText_spelt`, `parts_spelt`: searches and criteria have the outline of their condition.
  3. `read_token`: what a reader finds in a token. `paired_outline`: an outline leaves nothing open.
  4. `criteria_bracketed`: all places of the criteria are well bracketed, and no bracket of an
     operand is found outside of quotes.
-/

namespace MailRules

open Native Text

/-- Operands that are written as they are or in quotes, and have no quotes of their own. -/
structure Leaf.Quotable (l : Leaf) : Prop where
  plain : l.raw = false
  tested : l.field ≠ .query
  unquoted : ∀ s ∈ l.operands, '"' ∉ s.toList

instance (l : Leaf) : Decidable l.Quotable :=
  decidable_of_iff (l.raw = false ∧ l.field ≠ .query ∧ ∀ s ∈ l.operands, '"' ∉ s.toList)
    ⟨fun ⟨plain, tested, unquoted⟩ => ⟨plain, tested, unquoted⟩,
      fun h => ⟨h.plain, h.tested, h.unquoted⟩⟩

namespace Native

/-! ## Tokens of a search -/

/-- A token of a written search. -/
inductive Token where
  | blank
  | minus
  | name (f : Field)
  | opens (op : Connective)
  | closes (op : Connective)
  | operand (s : String)

namespace Token

def text : Token → List Char
  | blank => [' ']
  | minus => ['-']
  | name f => f.name.toList ++ [':']
  | opens op => [opening op]
  | closes op => [closing op]
  | operand s => (quote s).toList

/-- Whether a token is an operand or a bracket of a group. -/
def counts : Token → Bool
  | blank => false
  | minus => false
  | name _ => false
  | _ => true

def bracket? : Token → Option Char
  | opens op => some (opening op)
  | closes op => some (closing op)
  | _ => none

/-- The tokens in a group. A negation has no brackets of its own. -/
def enclosed : Connective → List Token → List Token
  | .and, ps => opens .and :: (ps ++ [closes .and])
  | .or, ps => opens .or :: (ps ++ [closes .or])
  | _, ps => ps

def texts (ps : List Token) : List Char := ps.flatMap text

@[simp] theorem texts_cons (p : Token) (ps : List Token) :
    texts (p :: ps) = p.text ++ texts ps := rfl

@[simp] theorem texts_append (ps qs : List Token) : texts (ps ++ qs) = texts ps ++ texts qs :=
  List.flatMap_append

end Token

open Token

/-- The text is put together from tokens, of which those that count are the outline. -/
def Spelt (q : String) (outline : List Token) : Prop :=
  ∃ ps, texts ps = q.toList ∧ ps.filter counts = outline

namespace Spelt

variable {q q' : String} {ps qs : List Token}

theorem nil : Spelt "" [] := ⟨[], rfl, rfl⟩

theorem operand (s : String) : Spelt (quote s) [.operand s] :=
  ⟨[.operand s], List.append_nil _, rfl⟩

theorem spaced (h : Spelt q ps) (h' : Spelt q' qs) : Spelt (q ++ " " ++ q') (ps ++ qs) := by
  obtain ⟨us, text, rfl⟩ := h
  obtain ⟨vs, text', rfl⟩ := h'
  refine ⟨us ++ .blank :: vs, ?_, ?_⟩
  · rw [texts_append, texts_cons, text, text', String.toList_append, String.toList_append,
      List.append_assoc]
    rfl
  · rw [List.filter_append, List.filter_cons_of_neg (by simp [counts])]

/-- A text without characters may still have empty operands in its outline. -/
theorem join (h : Spelt q ps) (h' : Spelt q' qs) : Spelt (joinQueries q q') (ps ++ qs) := by
  unfold joinQueries
  split
  · next none =>
    obtain ⟨us, text, rfl⟩ := h
    obtain ⟨vs, text', rfl⟩ := h'
    exact ⟨us ++ vs, by rw [texts_append, text, text', none]; rfl, List.filter_append ..⟩
  · split
    · next none =>
      obtain ⟨us, text, rfl⟩ := h
      obtain ⟨vs, text', rfl⟩ := h'
      refine ⟨us ++ vs, ?_, List.filter_append ..⟩
      rw [texts_append, text, text', none]
      exact List.append_nil _
    · exact h.spaced h'

theorem minus (h : Spelt q ps) : Spelt ("-" ++ q) ps := by
  obtain ⟨us, text, rfl⟩ := h
  refine ⟨.minus :: us, ?_, List.filter_cons_of_neg (by simp [counts])⟩
  rw [texts_cons, text, String.toList_append]
  rfl

theorem bracketed (op : Connective) (h : Spelt q ps)
    (written : q'.toList = opening op :: (q.toList ++ [closing op])) :
    Spelt q' (opens op :: (ps ++ [closes op])) := by
  obtain ⟨us, text, rfl⟩ := h
  refine ⟨opens op :: (us ++ [closes op]), ?_, ?_⟩
  · rw [texts_cons, texts_append, text, written]
    rfl
  · rw [List.filter_cons_of_pos (by rfl), List.filter_append]
    rfl

theorem group {op : Connective} (h : Spelt q ps) (grouped : Native.group op q = .ok q') :
    Spelt q' (enclosed op ps) := by
  cases op with
  | unset => cases grouped
  | and =>
    cases grouped
    apply h.bracketed .and
    rw [String.toList_append, String.toList_append]
    rfl
  | or =>
    cases grouped
    apply h.bracketed .or
    rw [String.toList_append, String.toList_append]
    rfl
  | not =>
    cases grouped
    exact h.minus

theorem prefixed (f : Field) (h : Spelt q ps) : Spelt (Native.prefixed f q) ps := by
  unfold Native.prefixed
  split
  · exact h
  · obtain ⟨us, text, rfl⟩ := h
    refine ⟨.name f :: us, ?_, List.filter_cons_of_neg (by simp [counts])⟩
    rw [texts_cons, text, String.toList_append, String.toList_append]
    rfl

theorem operands : ∀ ss : List String,
    Spelt (String.intercalate " " (ss.map quote)) (ss.map .operand)
  | [] => nil
  | [s] => by
    rw [List.map_cons, List.map_nil, String.intercalate_singleton]
    exact operand s
  | s :: s' :: ss => by
    have tail := operands (s' :: ss)
    rw [List.map_cons, List.map_cons, String.intercalate_cons_cons]
    exact (operand s).spaced tail

end Spelt

end Native

/-! ## The outline of a condition -/

/-- The operands of a leaf, in brackets if there are several. -/
def Leaf.outline (l : Leaf) : List Token :=
  if 1 < l.operands.length then Token.enclosed l.grouping (l.operands.map .operand)
  else l.operands.map .operand

namespace Condition

mutual
/-- The operands of a condition and the brackets of its groups, in sequence. -/
def outline : Condition → List Token
  | leaf l => l.outline
  | node op cs => Token.enclosed op (outlineAll cs)
def outlineAll : List Condition → List Token
  | [] => []
  | c :: cs => outline c ++ outlineAll cs
end

mutual
/-- The conditions that are asked for at once. -/
def conjuncts : Condition → List Condition
  | leaf l => [leaf l]
  | node .and cs => conjunctsAll cs
  | node op cs => [node op cs]
def conjunctsAll : List Condition → List Condition
  | [] => []
  | c :: cs => conjuncts c ++ conjunctsAll cs
end

/-- The operands and brackets that are written in a place of the criteria. -/
def outlineIn (p : Place) (t : Condition) : List Token :=
  outlineAll (t.conjuncts.filter (·.place = p))

theorem outlineAll_append : ∀ cs ds, outlineAll (cs ++ ds) = outlineAll cs ++ outlineAll ds
  | [], _ => rfl
  | c :: cs, ds => by
    rw [List.cons_append, outlineAll, outlineAll_append cs ds, outlineAll, List.append_assoc]

theorem conjuncts_node {op : Connective} (other : op ≠ .and) (cs : List Condition) :
    (node op cs).conjuncts = [node op cs] := by
  cases op <;> first | contradiction | rfl

theorem operandText_spelt {l : Leaf} {q : String} (quotable : l.Quotable)
    (h : operandText l = .ok q) : Spelt q l.outline := by
  have written : (if l.field ≠ .query ∧ !l.raw then l.operands.map quote else l.operands) =
      l.operands.map quote := by simp [quotable.tested, quotable.plain]
  simp only [operandText, written] at h
  unfold Leaf.outline
  split at h
  · next several =>
    rw [if_pos several]
    exact (Spelt.operands l.operands).group h
  · next few =>
    rw [if_neg few]
    cases h
    exact Spelt.operands l.operands

theorem queryTexts_spelt : ∀ {cs : List Condition} {q : String},
    (∀ c ∈ cs, ∀ q, queryText c = .ok q → Spelt q c.outline) → queryTexts cs = .ok q →
      Spelt q (outlineAll cs)
  | [], q, _, h => by
    cases h
    exact Spelt.nil
  | c :: cs, q, each, h => by
    rw [queryTexts] at h
    cases head : queryText c with
    | error e =>
      rw [head] at h
      cases h
    | ok q' =>
      rw [head] at h
      obtain ⟨q'', tail, rfl⟩ := map_eq_ok.mp h
      have others := queryTexts_spelt (fun d hd => each d (List.mem_cons_of_mem c hd)) tail
      exact (each c List.mem_cons_self q' head).join others

theorem quotable_child {op : Connective} {cs : List Condition} {c : Condition}
    (quotable : ∀ l ∈ (node op cs).leaves, l.Quotable) (hc : c ∈ cs) :
    ∀ l ∈ c.leaves, l.Quotable := by
  intro l hl
  apply quotable
  rw [leaves_node]
  exact List.mem_flatMap.mpr ⟨c, hc, hl⟩

theorem queryText_spelt {t : Condition} {q : String} (quotable : ∀ l ∈ t.leaves, l.Quotable)
    (h : queryText t = .ok q) : Spelt q t.outline := by
  induction t using induct generalizing q with
  | onLeaf l =>
    rw [queryText] at h
    obtain ⟨q', written, rfl⟩ := map_eq_ok.mp h
    have mine := quotable l (by rw [leaves_leaf]; exact List.mem_cons_self)
    exact (operandText_spelt mine written).prefixed l.field
  | onNode op cs ih =>
    have each : ∀ c ∈ cs, ∀ q, queryText c = .ok q → Spelt q c.outline := by
      intro c hc q written
      exact ih c hc (quotable_child quotable hc) written
    cases cs with
    | nil => cases h
    | cons c cs =>
      rw [queryText] at h
      split at h
      · cases h
      · next written => exact (queryTexts_spelt each written).group h

theorem spelt_only {q : String} {t : Condition} (h : Spelt q t.outline) (p : Place) :
    Spelt ((Criteria.only q t.place).text p) (outlineAll ([t].filter (·.place = p))) := by
  rw [Criteria.text_only]
  by_cases here : t.place = p
  · rw [if_pos here, List.filter_cons_of_pos (by simpa using here), List.filter_nil, outlineAll,
      outlineAll, List.append_nil]
    exact h
  · rw [if_neg here, List.filter_cons_of_neg (by simpa using here), List.filter_nil]
    exact Spelt.nil

theorem partsAll_spelt : ∀ {cs : List Condition} {k : Criteria},
    (∀ c ∈ cs, ∀ k, parts c = .ok k → ∀ p, Spelt (k.text p) (c.outlineIn p)) →
      partsAll cs = .ok k →
        ∀ p, Spelt (k.text p) (outlineAll ((conjunctsAll cs).filter (·.place = p)))
  | [], k, _, h, p => by
    cases h
    rw [Criteria.text_empty]
    exact Spelt.nil
  | c :: cs, k, each, h, p => by
    rw [partsAll] at h
    cases head : parts c with
    | error e =>
      rw [head] at h
      cases h
    | ok a =>
      rw [head] at h
      obtain ⟨b, tail, rfl⟩ := map_eq_ok.mp h
      have others := partsAll_spelt (fun d hd => each d (List.mem_cons_of_mem c hd)) tail p
      rw [Criteria.text_join, conjunctsAll, List.filter_append, outlineAll_append]
      exact (each c List.mem_cons_self a head p).join others

theorem parts_spelt {t : Condition} {k : Criteria} (quotable : ∀ l ∈ t.leaves, l.Quotable)
    (h : parts t = .ok k) (p : Place) : Spelt (k.text p) (t.outlineIn p) := by
  induction t using induct generalizing k p with
  | onLeaf l =>
    have mine := quotable l (by rw [leaves_leaf]; exact List.mem_cons_self)
    rw [parts] at h
    obtain ⟨q, written, asked⟩ := bind_eq_ok.mp h
    rw [fieldCriteria_eq_only asked]
    have spelt := operandText_spelt mine written
    apply spelt_only
    split
    · exact spelt.prefixed l.field
    · exact spelt
  | onNode op cs ih =>
    by_cases conjunction : op = .and
    · subst conjunction
      cases cs with
      | nil => cases h
      | cons c cs =>
        rw [parts] at h
        refine partsAll_spelt (fun d hd k written p => ?_) h p
        exact ih d hd (quotable_child quotable hd) written p
    · rw [parts_node (takes_of_parts h) conjunction] at h
      obtain ⟨q, written, rfl⟩ := map_eq_ok.mp h
      rw [outlineIn, conjuncts_node conjunction]
      exact spelt_only (t := node op cs) (queryText_spelt quotable written) p

end Condition

namespace Native

/-! ## What a reader finds -/

namespace Token

def brackets (ps : List Token) : List Char := ps.filterMap bracket?

/-- A token that is no operand, or an operand without quotes. -/
def Unquoted : Token → Prop
  | operand s => '"' ∉ s.toList
  | _ => True

theorem brackets_append (ps qs : List Token) : brackets (ps ++ qs) = brackets ps ++ brackets qs :=
  List.filterMap_append

theorem brackets_cons (p : Token) (ps : List Token) :
    brackets (p :: ps) = p.bracket?.toList ++ brackets ps := by
  unfold brackets
  rw [List.filterMap_cons]
  cases p.bracket? <;> rfl

theorem brackets_filter (ps : List Token) : brackets (ps.filter counts) = brackets ps := by
  induction ps with
  | nil => rfl
  | cons p ps ih =>
    cases counted : p.counts with
    | true => rw [List.filter_cons_of_pos counted, brackets_cons, brackets_cons, ih]
    | false =>
      have none : p.bracket? = none := by
        cases p with
        | opens op => cases counted
        | closes op => cases counted
        | _ => rfl
      rw [List.filter_cons_of_neg (by simp [counted]), brackets_cons, none, ih]
      rfl

theorem isBracket_of_mem {c : Char} {ps : List Token} (h : c ∈ brackets ps) :
    isBracket c = true := by
  obtain ⟨p, mem, own⟩ := List.mem_filterMap.mp h
  clear mem
  cases p with
  | opens op =>
    cases own
    cases op <;> rfl
  | closes op =>
    cases own
    cases op <;> rfl
  | _ => cases own

theorem neutral_of_bare {s : String} (bare : needsQuotes s = false) :
    ∀ c ∈ s.toList, isBracket c = false := by
  intro c hc
  rw [needsQuotes, Bool.or_eq_false_iff, List.any_eq_false] at bare
  have special := bare.1 c hc
  simp only [List.contains_eq_mem, List.mem_cons, List.not_mem_nil, or_false, decide_eq_true_eq,
    not_or] at special
  simp [isBracket, isOpening, isClosing, special]

theorem neutral_name (f : Field) :
    ∀ c ∈ (name f).text, c ≠ '"' ∧ isBracket c = false := by
  have all : ((name f).text.all fun c => c ≠ '"' && !isBracket c) = true := by
    cases f <;> rfl
  simpa using all

/-- Outside of quotes a reader finds nothing in a token but the bracket that it is. -/
theorem read_token {p : Token} (unquoted : p.Unquoted) (fits : Char → Char → Bool)
    (opened : List Char) : Nesting.read fits ⟨false, opened⟩ p.text =
      Nesting.read fits ⟨false, opened⟩ p.bracket?.toList := by
  cases p with
  | blank => rfl
  | minus => rfl
  | name f => exact Nesting.read_of_neutral (neutral_name f)
  | opens op => rfl
  | closes op => rfl
  | operand s =>
    show Nesting.read fits ⟨false, opened⟩ (quote s).toList = some ⟨false, opened⟩
    unfold quote
    split
    · -- The quotes around the operand are the only ones.
      rw [String.toList_append, String.toList_append]
      show Nesting.read fits ⟨true, opened⟩ (s.toList ++ ['"']) = some ⟨false, opened⟩
      rw [Nesting.read_append, Nesting.read_of_quoted rfl unquoted]
      rfl
    · next bare =>
      have plain := neutral_of_bare (Bool.eq_false_iff.mpr bare)
      exact Nesting.read_of_neutral fun c hc => ⟨fun quote => unquoted (quote ▸ hc), plain c hc⟩

theorem outside_token {p : Token} (unquoted : p.Unquoted) :
    (outside false p.text).filter isBracket = p.bracket?.toList := by
  cases p with
  | blank => rfl
  | minus => rfl
  | name f => cases f <;> rfl
  | opens op => cases op <;> rfl
  | closes op => cases op <;> rfl
  | operand s =>
    show (outside false (quote s).toList).filter isBracket = []
    unfold quote
    split
    · rw [String.toList_append, String.toList_append]
      show (outside true (s.toList ++ ['"'])).filter isBracket = []
      rw [outside_quoted unquoted]
      rfl
    · next bare =>
      apply List.filter_eq_nil_iff.mpr
      intro c hc
      have among : c ∈ s.toList := (outside_sublist false s.toList).subset hc
      simp [neutral_of_bare (Bool.eq_false_iff.mpr bare) c among]

theorem read_texts {ps : List Token} (unquoted : ∀ p ∈ ps, p.Unquoted)
    (fits : Char → Char → Bool) (opened : List Char) :
    Nesting.read fits ⟨false, opened⟩ (texts ps) =
      Nesting.read fits ⟨false, opened⟩ (brackets ps) := by
  induction ps generalizing opened with
  | nil => rfl
  | cons p ps ih =>
    obtain ⟨first, others⟩ := List.forall_mem_cons.mp unquoted
    rw [texts_cons, brackets_cons, Nesting.read_append, Nesting.read_append, read_token first]
    cases found : Nesting.read fits ⟨false, opened⟩ p.bracket?.toList with
    | none => rfl
    | some s =>
      have single : ∀ c ∈ p.bracket?.toList, isBracket c = true := by
        intro c hc
        have own : c ∈ brackets [p] := by
          rw [brackets_cons]
          exact List.mem_append_left _ hc
        exact isBracket_of_mem own
      have closed : s.quoted = false := Nesting.unquoted_of_read single rfl found
      obtain ⟨quoted, opened'⟩ := s
      cases closed
      exact ih others opened'

/-! ## Groups are opened and closed in pairs -/

/-- The brackets among the tokens leave everything open that was open before. -/
def Paired (ps : List Token) : Prop :=
  ∀ opened, Nesting.read sameKind ⟨false, opened⟩ (brackets ps) = some ⟨false, opened⟩

theorem paired_operands (ss : List String) : Paired (ss.map operand) := by
  have none : brackets (ss.map operand) = [] := by
    induction ss with
    | nil => rfl
    | cons s ss ih => exact ih
  intro opened
  rw [none]
  rfl

theorem Paired.append {ps qs : List Token} (h : Paired ps) (h' : Paired qs) :
    Paired (ps ++ qs) := by
  intro opened
  rw [brackets_append, Nesting.read_append, h opened]
  exact h' opened

theorem Paired.enclosed {ps : List Token} (op : Connective) (h : Paired ps) :
    Paired (enclosed op ps) := by
  have grouped (op : Connective) (own : op = .and ∨ op = .or) :
      Paired (opens op :: (ps ++ [closes op])) := by
    intro opened
    rw [brackets_cons, brackets_append, Nesting.read_append]
    have opening : Nesting.read sameKind ⟨false, opened⟩ (opens op).bracket?.toList =
        some ⟨false, opening op :: opened⟩ := by
      rcases own with rfl | rfl <;> rfl
    have closing : Nesting.read sameKind ⟨false, Native.opening op :: opened⟩
        (brackets [closes op]) = some ⟨false, opened⟩ := by
      rcases own with rfl | rfl <;> rfl
    rw [opening, Option.bind_some, Nesting.read_append, h, Option.bind_some, closing]
  cases op with
  | unset => exact h
  | and => exact grouped .and (.inl rfl)
  | or => exact grouped .or (.inr rfl)
  | not => exact h

end Token

end Native

namespace Condition

open Token

theorem paired_outlineAll : ∀ {cs : List Condition}, (∀ c ∈ cs, Paired c.outline) →
    Paired (outlineAll cs)
  | [], _ => paired_operands []
  | c :: cs, each => by
    have others := paired_outlineAll fun d hd => each d (List.mem_cons_of_mem c hd)
    exact (each c List.mem_cons_self).append others

theorem paired_outline (t : Condition) : Paired t.outline := by
  induction t using induct with
  | onLeaf l =>
    rw [outline]
    unfold Leaf.outline
    split
    · exact (paired_operands l.operands).enclosed l.grouping
    · exact paired_operands l.operands
  | onNode op cs ih => exact (paired_outlineAll ih).enclosed op

theorem mem_enclosed {s : String} {op : Connective} {ps : List Token} :
    .operand s ∈ enclosed op ps ↔ .operand s ∈ ps := by
  cases op <;> simp [enclosed]

theorem mem_outlineAll {s : String} {cs : List Condition} :
    .operand s ∈ outlineAll cs ↔ ∃ c ∈ cs, .operand s ∈ c.outline := by
  induction cs with
  | nil => simp [outlineAll]
  | cons c cs ih => rw [outlineAll, List.mem_append, ih, List.exists_mem_cons_iff]

theorem mem_outline {s : String} {t : Condition} :
    .operand s ∈ t.outline ↔ ∃ l ∈ t.leaves, s ∈ l.operands := by
  induction t using induct with
  | onLeaf l =>
    rw [outline, leaves_leaf]
    unfold Leaf.outline
    split <;> simp [mem_enclosed]
  | onNode op cs ih =>
    rw [outline, mem_enclosed, mem_outlineAll, leaves_node]
    simp only [List.mem_flatMap]
    constructor
    · intro ⟨c, hc, mem⟩
      obtain ⟨l, hl, hs⟩ := (ih c hc).mp mem
      exact ⟨l, ⟨c, hc, hl⟩, hs⟩
    · intro ⟨l, ⟨c, hc, hl⟩, hs⟩
      exact ⟨c, hc, (ih c hc).mpr ⟨l, hl, hs⟩⟩

theorem conjunctsAll_eq_flatMap : ∀ cs, conjunctsAll cs = cs.flatMap conjuncts
  | [] => rfl
  | c :: cs => by rw [conjunctsAll, conjunctsAll_eq_flatMap cs, List.flatMap_cons]

theorem leaves_conjuncts (t : Condition) : t.conjuncts.flatMap leaves = t.leaves := by
  induction t using induct with
  | onLeaf l => simp [conjuncts]
  | onNode op cs ih =>
    by_cases conjunction : op = .and
    · subst conjunction
      rw [conjuncts, conjunctsAll_eq_flatMap, List.flatMap_assoc, leaves_node]
      exact List.flatMap_congr ih
    · rw [conjuncts_node conjunction, List.flatMap_cons, List.flatMap_nil, List.append_nil]

/-- **Operands cannot break out of their group.** If no leaf is raw or a query and no operand has a
quote, all places of the criteria are well bracketed. Each is put together from tokens, of which
those that count are the operands and the brackets of the conjuncts that are written there. A reader
comes to every token outside of quotes, and finds no bracket in it outside of quotes but the one
that it is. -/
theorem criteria_bracketed {t : Condition} {c : Criteria} (quotable : ∀ l ∈ t.leaves, l.Quotable)
    (h : criteria t = .ok c) (p : Place) :
    WellBracketed (c.text p) ∧ ∃ ps, texts ps = (c.text p).toList ∧
      ps.filter counts = outlineAll (t.conjuncts.filter (·.place = p)) ∧
      ∀ before token after, ps = before ++ token :: after →
        (∃ opened, Nesting.read sameKind {} (texts before) = some ⟨false, opened⟩) ∧
          (outside false token.text).filter isBracket = token.bracket?.toList := by
  obtain ⟨ps, written, counted⟩ := parts_spelt quotable (parts_of_criteria h).1 p
  have unquoted : ∀ token ∈ ps, token.Unquoted := by
    intro token mem
    cases token with
    | operand s =>
      have told : Token.operand s ∈ t.outlineIn p := by
        rw [← counted]
        exact List.mem_filter.mpr ⟨mem, rfl⟩
      obtain ⟨u, hu, told⟩ := mem_outlineAll.mp told
      obtain ⟨l, hl, hs⟩ := mem_outline.mp told
      have among : l ∈ t.leaves := by
        rw [← leaves_conjuncts]
        exact List.mem_flatMap.mpr ⟨u, List.mem_of_mem_filter hu, hl⟩
      exact (quotable l among).unquoted s hs
    | _ => trivial
  have paired : Paired ps := by
    intro opened
    rw [← brackets_filter, counted]
    exact paired_outlineAll (fun u _ => paired_outline u) opened
  have all : Nesting.read sameKind {} (texts ps) = some {} :=
    (read_texts unquoted sameKind []).trans (paired [])
  refine ⟨by rw [WellBracketed, ← written, all], ps, written, counted, ?_⟩
  intro before token after split
  have first : ∀ token ∈ before, token.Unquoted := by
    intro token mem
    apply unquoted
    rw [split]
    exact List.mem_append_left _ mem
  refine ⟨?_, outside_token (unquoted token (by rw [split]; simp))⟩
  -- As all of the text is read, so is its beginning, where brackets alone count.
  rw [split, texts_append, Nesting.read_append] at all
  obtain ⟨⟨quoted, opened⟩, read, _⟩ := Option.bind_eq_some_iff.mp all
  have closed : quoted = false := by
    rw [read_texts first] at read
    exact Nesting.unquoted_of_read (fun c hc => isBracket_of_mem hc) rfl read
  exact ⟨opened, closed ▸ read⟩

/-- Operands made of brackets, alone and in groups, in several places. -/
theorem criteria_bracketed_hostile :
    let t := conj [leaf ⟨.sender, ["a\x7d from:b", "c"], .or, false⟩,
      neg (disj [leaf ⟨.has, [")", "-(\x7b"], .and, false⟩, leaf ⟨.cc, ["d:"], .unset, false⟩]),
      conj [leaf ⟨.sender, ["(e"], .unset, false⟩]]
    let c : Criteria := { sender := "\x7b\"a\x7d from:b\" c\x7d \"(e\""
                          query := "-\x7b(\")\" \"-(\x7b\") cc:d:\x7d" }
    (∀ l ∈ t.leaves, l.Quotable) ∧ criteria t = .ok c ∧ ∀ p, WellBracketed (c.text p) ∧
      ∃ ps, texts ps = (c.text p).toList ∧
        ps.filter counts = outlineAll (t.conjuncts.filter (·.place = p)) ∧
        ∀ before token after, ps = before ++ token :: after →
          (∃ opened, Nesting.read sameKind {} (texts before) = some ⟨false, opened⟩) ∧
            (outside false token.text).filter isBracket = token.bracket?.toList := by
  intro t c
  have quotable : ∀ l ∈ t.leaves, l.Quotable := by decide
  have asked : criteria t = .ok c := rfl
  exact ⟨quotable, asked, fun p => criteria_bracketed quotable asked p⟩

end Condition

end MailRules
