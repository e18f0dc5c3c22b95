import MailRules.Proofs.Native.Unambiguous

/-!
Which conditions are refused by the search language.

A condition is written in two ways: spread over the places of the criteria, from the root down
through conjunctions, and as a search everywhere else. Both refuse a node without children or
connective, and several operands without a grouping. Only the first looks at the number of negated
conditions and at the field of a leaf. So a negation of several conditions, and a leaf without a
field, are refused where nothing but conjunctions is above them, and are written anywhere else: the
minus sign then stands before the first of the conditions only.

What is proved:
  1. `queryText_refuses`: what is refused as a search.
  2. `parts_refuses`, `parts_empty`: what is refused as criteria, and what leaves them empty.
  3. `criteria_refuses`: the conditions that have no criteria. `criteria_accepts_malformed`:
     malformed ones that have.
-/

namespace MailRules

/-- A leaf that says nothing: no operand other than the empty one, and no prefix before it. -/
def Leaf.Silent (l : Leaf) : Prop :=
  (l.operands = [] ∨ l.operands = [""]) ∧
    l.field ∈ [.sender, .recipient, .subject, .has, .query]

namespace Condition

/-- A part of the condition is `D`, with only connectives that are `through` above it. -/
inductive Somewhere (through : Connective → Prop) (D : Condition → Prop) : Condition → Prop
  | here {t : Condition} : D t → Somewhere through D t
  | child {op : Connective} {cs : List Condition} {c : Condition} :
      through op → c ∈ cs → Somewhere through D c → Somewhere through D (node op cs)

/-- A part of the condition is `D`. -/
def Anywhere (D : Condition → Prop) : Condition → Prop := Somewhere (fun _ => True) D

/-- A part of the condition is `D`, with only conjunctions above it. -/
def Conjoined (D : Condition → Prop) : Condition → Prop := Somewhere (· = .and) D

/-- What no rule has: a leaf without a field, a node without a connective or without children, and a
negation of several conditions. -/
def Malformed : Condition → Prop
  | leaf l => l.field = .unset
  | node op cs => ¬ op.Takes cs.length

/-- What cannot be put into brackets: several operands without a grouping, and a node without a
connective or without children. -/
def Ungrouped : Condition → Prop
  | leaf l => 1 < l.operands.length ∧ l.grouping = .unset
  | node op cs => op = .unset ∨ cs = []

section Somewhere
variable {through : Connective → Prop} {D : Condition → Prop}

@[simp] theorem somewhere_leaf {l : Leaf} : Somewhere through D (leaf l) ↔ D (leaf l) :=
  ⟨fun h => by cases h; assumption, .here⟩

@[simp] theorem somewhere_node {op : Connective} {cs : List Condition} :
    Somewhere through D (node op cs) ↔
      D (node op cs) ∨ through op ∧ ∃ c ∈ cs, Somewhere through D c := by
  constructor
  · intro h
    cases h with
    | here h => exact .inl h
    | child on mem h => exact .inr ⟨on, _, mem, h⟩
  · intro h
    rcases h with h | ⟨on, c, mem, h⟩
    · exact .here h
    · exact .child on mem h

theorem Everywhere.not_somewhere {L : Leaf → Prop} {N : Connective → List Condition → Prop}
    {t : Condition} (h : Everywhere L N t) (leaves : ∀ l, L l → ¬ D (.leaf l))
    (nodes : ∀ op cs, N op cs → ¬ D (.node op cs)) : ¬ Somewhere through D t := by
  induction h with
  | leaf hl => exact fun found => leaves _ hl (somewhere_leaf.mp found)
  | node hn _ ih =>
    intro found
    rcases somewhere_node.mp found with own | ⟨_, c, hc, found⟩
    · exact nodes _ _ hn own
    · exact ih c hc found

end Somewhere

end Condition

namespace Native

open Condition

/-! ## Searches -/

theorem group_refuses {op : Connective} {q : String} :
    (∃ e, group op q = .error e) ↔ op = .unset := by
  cases op <;> simp [group]

theorem operandText_refuses {l : Leaf} :
    (∃ e, operandText l = .error e) ↔ (leaf l).Ungrouped := by
  simp only [operandText, Ungrouped]
  by_cases several : 1 < l.operands.length
  · rw [if_pos several, group_refuses]
    exact (and_iff_right several).symm
  · simp [several]

theorem queryTexts_refuses : ∀ {cs : List Condition},
    (∃ e, queryTexts cs = .error e) ↔ ∃ c ∈ cs, ∃ e, queryText c = .error e
  | [] => by simp [queryTexts]
  | c :: cs => by
    rw [queryTexts, List.exists_mem_cons_iff, ← queryTexts_refuses]
    cases queryText c with
    | error e => simp
    | ok q => simp [map_eq_error]

theorem queryText_refuses (t : Condition) :
    (∃ e, queryText t = .error e) ↔ t.Anywhere Ungrouped := by
  rw [Anywhere]
  induction t using induct with
  | onLeaf l => rw [queryText, map_eq_error, operandText_refuses, somewhere_leaf]
  | onNode op cs ih =>
    cases cs with
    | nil => simp [queryText, Ungrouped]
    | cons c cs =>
      have children : (∃ e, queryTexts (c :: cs) = .error e) ↔
          ∃ d ∈ c :: cs, d.Anywhere Ungrouped := by
        rw [queryTexts_refuses]
        exact exists_congr fun d => and_congr_right (ih d)
      have own : (node op (c :: cs)).Ungrouped ↔ op = .unset := by simp [Ungrouped]
      rw [somewhere_node, own, true_and, ← Anywhere, ← children, queryText]
      cases queryTexts (c :: cs) with
      | error e => simp
      | ok q => simp [group_refuses]

/-! ## Criteria -/

theorem fieldCriteria_refuses {f : Field} {q : String} :
    (∃ e, fieldCriteria f q = .error e) ↔ f = .unset := by
  cases f <;> simp [fieldCriteria]

theorem partsAll_refuses : ∀ {cs : List Condition},
    (∃ e, partsAll cs = .error e) ↔ ∃ c ∈ cs, ∃ e, parts c = .error e
  | [] => by simp [partsAll]
  | c :: cs => by
    rw [partsAll, List.exists_mem_cons_iff, ← partsAll_refuses]
    cases parts c with
    | error e => simp
    | ok k => simp [map_eq_error]

theorem parts_of_malformed {op : Connective} {cs : List Condition} (h : (node op cs).Malformed) :
    ∃ e, parts (node op cs) = .error e :=
  match op, cs, h with
  | op, [], _ => ⟨.childless op, by rw [parts]⟩
  | .not, _ :: _ :: _, _ => ⟨_, rfl⟩
  | .unset, _ :: _, _ => ⟨_, rfl⟩
  | .not, [_], h => absurd rfl h
  | .and, _ :: _, h => absurd (Nat.succ_pos _) h
  | .or, _ :: _, h => absurd (Nat.succ_pos _) h

/-- A condition is refused as criteria for what refuses it as a search, and for what is malformed
with nothing but conjunctions above. -/
theorem parts_refuses (t : Condition) :
    (∃ e, parts t = .error e) ↔ t.Anywhere Ungrouped ∨ t.Conjoined Malformed := by
  induction t using induct with
  | onLeaf l =>
    have field : ∀ q, (∃ e, fieldCriteria l.field q = .error e) ↔ (leaf l).Malformed :=
      fun q => fieldCriteria_refuses
    rw [parts, bind_eq_error, operandText_refuses, Anywhere, Conjoined, somewhere_leaf,
      somewhere_leaf]
    simp only [field]
    by_cases ungrouped : (leaf l).Ungrouped
    · simp [ungrouped]
    · cases text : operandText l with
      | error e => exact absurd (operandText_refuses.mp ⟨e, text⟩) ungrouped
      | ok q => simp [ungrouped]
  | onNode op cs ih =>
    by_cases malformed : (node op cs).Malformed
    · exact iff_of_true (parts_of_malformed malformed) (.inr (.here malformed))
    · have takes : op.Takes cs.length := not_not.mp malformed
      by_cases conjunction : op = .and
      · subst conjunction
        have filled : cs ≠ [] := List.length_pos_iff.mp takes
        have children : (∃ e, parts (node .and cs) = .error e) ↔
            ∃ c ∈ cs, c.Anywhere Ungrouped ∨ c.Conjoined Malformed := by
          obtain ⟨c, rest, rfl⟩ := List.exists_cons_of_ne_nil filled
          rw [parts, partsAll_refuses]
          exact exists_congr fun c => and_congr_right (ih c)
        have own : ¬ (node .and cs).Ungrouped := by simp [Ungrouped, filled]
        rw [children, Anywhere, Conjoined, somewhere_node, somewhere_node]
        simp only [own, malformed, false_or, true_and, and_or_left, exists_or]
      · rw [parts_node takes conjunction, map_eq_error, queryText_refuses, Conjoined,
          somewhere_node]
        simp [malformed, conjunction]

/-! ## Criteria that ask for nothing -/

theorem group_ne_empty (op : Connective) (q : String) : group op q ≠ .ok "" := by
  cases op <;> simp [group]

theorem quote_eq_empty {s : String} : quote s = "" ↔ s = "" := by
  rw [quote]
  split
  · next needed =>
    constructor
    · intro empty
      simpa using congrArg String.toList empty
    · intro empty
      rw [empty] at needed
      cases needed
  · exact Iff.rfl

theorem operandText_eq_empty : ∀ {l : Leaf},
    operandText l = .ok "" ↔ l.operands = [] ∨ l.operands = [""]
  | ⟨f, [], op, raw⟩ => by simp [operandText]
  | ⟨f, [s], op, raw⟩ => by
    have one : ¬ 1 < [s].length := by simp
    simp only [operandText, if_neg one]
    split <;> simp [quote_eq_empty]
  | ⟨f, s :: s' :: ss, op, raw⟩ => by
    have several : 1 < (s :: s' :: ss).length := by simp
    simp only [operandText, if_pos several]
    simp [group_ne_empty]

theorem fieldCriteria_eq_empty {f : Field} {q : String} : fieldCriteria f q = .ok {} ↔
    q = "" ∧ f ∈ [.sender, .recipient, .subject, .has, .query] := by
  cases f <;> simp [fieldCriteria, prefixed, Field.name]

theorem parts_leaf_eq_empty {l : Leaf} : parts (leaf l) = .ok {} ↔ l.Silent := by
  rw [parts, bind_eq_ok, Leaf.Silent, ← operandText_eq_empty]
  constructor
  · intro asked
    obtain ⟨q, written, place⟩ := asked
    obtain ⟨rfl, plain⟩ := fieldCriteria_eq_empty.mp place
    exact ⟨written, plain⟩
  · intro silent
    exact ⟨"", silent.1, fieldCriteria_eq_empty.mpr ⟨rfl, silent.2⟩⟩

theorem joinQueries_eq_empty {a b : String} : joinQueries a b = "" ↔ a = "" ∧ b = "" := by
  rw [joinQueries]
  split
  · next none => simp [none]
  · next some =>
    split
    · next none => simp [none, some]
    · simp [some]

theorem join_eq_empty {a b : Criteria} : a.join b = {} ↔ a = {} ∧ b = {} := by
  cases a
  cases b
  simp only [Criteria.join, Criteria.mk.injEq, joinQueries_eq_empty]
  tauto

theorem partsAll_eq_empty : ∀ {cs : List Condition},
    partsAll cs = .ok {} ↔ ∀ c ∈ cs, parts c = .ok {}
  | [] => by simp [partsAll]
  | c :: cs => by
    rw [List.forall_mem_cons, ← partsAll_eq_empty, partsAll]
    cases parts c with
    | error e => simp
    | ok k =>
      simp only [map_eq_ok, join_eq_empty, Except.ok.injEq]
      constructor
      · intro joined
        obtain ⟨_, others, head, rfl⟩ := joined
        exact ⟨head, others⟩
      · intro each
        exact ⟨{}, each.2, each.1, rfl⟩

theorem parts_ne_empty {op : Connective} {cs : List Condition} (other : op ≠ .and) :
    parts (node op cs) ≠ .ok {} := by
  intro empty
  by_cases malformed : (node op cs).Malformed
  · obtain ⟨e, refused⟩ := parts_of_malformed malformed
    rw [empty] at refused
    cases refused
  · rw [parts_node (not_not.mp malformed) other, map_eq_ok] at empty
    obtain ⟨q, written, same⟩ := empty
    cases same
    cases cs with
    | nil => rw [queryText] at written; cases written
    | cons c cs =>
      rw [queryText] at written
      split at written
      · cases written
      · exact group_ne_empty _ _ written

/-- Criteria are empty if there is nothing but conjunctions and leaves that say nothing. -/
theorem parts_empty (t : Condition) :
    parts t = .ok {} ↔ t.Everywhere Leaf.Silent fun op cs => op = .and ∧ cs ≠ [] := by
  induction t using induct with
  | onLeaf l => rw [parts_leaf_eq_empty, everywhere_leaf]
  | onNode op cs ih =>
    rw [everywhere_node]
    by_cases conjunction : op = .and
    · subst conjunction
      cases cs with
      | nil => simp [parts]
      | cons c cs =>
        rw [parts, partsAll_eq_empty]
        exact (forall₂_congr ih).trans (and_iff_right ⟨rfl, List.cons_ne_nil c cs⟩).symm
    · simp [parts_ne_empty, conjunction]

/-- **Which conditions have no criteria.** A part that cannot be put into brackets is refused
wherever it is. A leaf without a field and a negation of several are refused only if nothing but
conjunctions is above them. Beside these, just the conditions are refused that ask for nothing. -/
theorem criteria_refuses (t : Condition) : (∃ e, criteria t = .error e) ↔
    t.Anywhere Ungrouped ∨ t.Conjoined Malformed ∨
      t.Everywhere Leaf.Silent fun op cs => op = .and ∧ cs ≠ [] := by
  rw [← or_assoc, ← parts_refuses, ← parts_empty, criteria]
  cases parts t with
  | error e => simp
  | ok k =>
    by_cases none : k = {}
    · simp [Criteria.isEmpty, none]
    · simp [Criteria.isEmpty, none]

/-- A disjunction hides a negation of several, of which the first only is negated, and a leaf
without a field. -/
theorem criteria_accepts_malformed :
    let several := disj [node .not [leaf ⟨.sender, ["a"], .unset, false⟩,
      leaf ⟨.sender, ["b"], .unset, false⟩]]
    let nameless := disj [leaf ⟨.unset, ["x"], .unset, false⟩]
    (several.Anywhere Malformed ∧ criteria several = .ok { query := "\x7b-from:a from:b\x7d" }) ∧
      nameless.Anywhere Malformed ∧ criteria nameless = .ok { query := "\x7bnone:x\x7d" } := by
  refine ⟨⟨?_, by rfl⟩, ?_, by rfl⟩
  · exact .child trivial List.mem_cons_self (.here (show ¬ 2 = 1 by decide))
  · exact .child trivial List.mem_cons_self (.here rfl)

end Native

end MailRules
