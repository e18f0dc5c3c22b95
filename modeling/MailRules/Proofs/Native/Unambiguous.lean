import MailRules.Proofs.Condition.CanonicalOrder
import MailRules.Proofs.Native.SearchText
import MailRules.Proofs.Outcome

/-!
Two different simplified conditions never compile to the same native criteria.

A condition is written as a search, `Condition.search`, and two conditions may well be written as
the same search: a search without a prefix looks everywhere, so a disjunction of such leaves reads
like one leaf with several operands. In normal form this does not happen, as such leaves are joined
into one, and a node always has a child that is not an operand (`search_node_ne_leaf`).

The criteria spread a conjunction at the root over four places. Which place a child goes to is told
by its rank in the canonical order, so the children of each rank can be read off one place, and in
canonical order these are all the children (`components_unique`).

What is proved:
  1. `queryText_writes`, `criteria_writes`: the search and the criteria of a legible condition are
     generated, and what they write.
  2. `search_unique`, `item_unique`: conditions in normal form are told by their searches, and by
     what is written in a place.
  3. `criteria_unambiguous`: simplified conditions are told by their criteria.
-/

namespace MailRules

open Native

/-- A leaf that is written with a known field and operands that are read as they are. -/
structure Leaf.Legible (l : Leaf) : Prop where
  plain : l.raw = false
  named : l.field ≠ .unset
  tested : l.field ≠ .query
  operands : ∀ s ∈ l.operands, Native.Legible s

instance (l : Leaf) : Decidable l.Legible :=
  decidable_of_iff
    (l.raw = false ∧ l.field ≠ .unset ∧ l.field ≠ .query ∧ ∀ s ∈ l.operands, Native.Legible s)
    ⟨fun ⟨plain, named, tested, operands⟩ => ⟨plain, named, tested, operands⟩,
      fun h => ⟨h.plain, h.named, h.tested, h.operands⟩⟩

/-! ## Conditions as searches -/

/-- The operands of a leaf as a search. -/
def Leaf.operandSearch (l : Leaf) : Search :=
  match l.operands with
  | [s] => .operand s
  | ss => .group l.grouping (ss.map .operand)

def Leaf.search (l : Leaf) : Search :=
  if l.field = .has then l.operandSearch else .within l.field l.operandSearch

/-- A node as a search, from the searches of its children. -/
def Native.Search.node : Connective → List Search → Search
  | .not, [s] => .minus s
  | op, ss => .group op ss

namespace Condition

mutual
def search : Condition → Search
  | leaf l => l.search
  | node op cs => .node op (searchAll cs)
def searchAll : List Condition → List Search
  | [] => []
  | c :: cs => search c :: searchAll cs
end

theorem searchAll_eq_map : ∀ cs, searchAll cs = cs.map search
  | [] => rfl
  | c :: cs => by rw [searchAll, searchAll_eq_map cs, List.map_cons]

theorem search_node (op : Connective) (cs : List Condition) :
    (node op cs).search = .node op (cs.map search) := by rw [search, searchAll_eq_map]

/-- A well-formed condition with legible leaves. -/
def Written : Condition → Prop :=
  Everywhere (fun l => l.WellFormed ∧ l.Legible) fun op cs => op.Takes cs.length

theorem operandText_writes {l : Leaf} (shaped : l.WellFormed) (legible : l.Legible) :
    ∃ q, operandText l = .ok q ∧ Writes q [l.operandSearch] := by
  have quoted : l.field ≠ .query ∧ (!l.raw) = true := ⟨legible.tested, by simp [legible.plain]⟩
  have written := Writes.operands legible.operands
  simp only [operandText, if_pos quoted]
  by_cases several : 1 < l.operands.length
  · have search : l.operandSearch = .group l.grouping (l.operands.map .operand) := by
      unfold Leaf.operandSearch
      split
      · next one => simp [one] at several
      · rfl
    rw [if_pos several, search]
    exact written.group (shaped.several several) (by simpa using shaped.operands)
  · have := List.length_pos_iff.mpr shaped.operands
    obtain ⟨s, one⟩ := List.length_eq_one_iff.mp (by omega : l.operands.length = 1)
    rw [if_neg several]
    refine ⟨_, rfl, ?_⟩
    rw [Leaf.operandSearch]
    simp only [one] at written ⊢
    exact written

theorem prefixed_writes {l : Leaf} (legible : l.Legible) {q : String}
    (h : Writes q [l.operandSearch]) : Writes (prefixed l.field q) [l.search] := by
  rw [prefixed, Leaf.search]
  by_cases everywhere : l.field = .has
  · simpa only [everywhere, true_or, if_true] using h
  · rw [if_neg (not_or.mpr ⟨everywhere, legible.tested⟩), if_neg everywhere]
    exact h.within l.field

theorem queryTexts_writes : ∀ {cs : List Condition},
    (∀ c ∈ cs, ∃ q, queryText c = .ok q ∧ Writes q [c.search]) →
      ∃ q, queryTexts cs = .ok q ∧ Writes q (cs.map search)
  | [], _ => ⟨"", rfl, .nil⟩
  | c :: cs, h => by
    obtain ⟨q, hq, head⟩ := h c List.mem_cons_self
    obtain ⟨q', hq', tail⟩ := queryTexts_writes fun d hd => h d (List.mem_cons_of_mem c hd)
    exact ⟨joinQueries q q', by rw [queryTexts, hq, hq']; rfl, head.join tail⟩

theorem queryText_writes {t : Condition} (h : t.Written) :
    ∃ q, queryText t = .ok q ∧ Writes q [t.search] := by
  induction h with
  | leaf h =>
    obtain ⟨q, hq, written⟩ := operandText_writes h.1 h.2
    exact ⟨_, by rw [queryText, hq]; rfl, prefixed_writes h.2 written⟩
  | @node op cs takes _ ih =>
    obtain ⟨q, hq, written⟩ := queryTexts_writes ih
    rw [search_node]
    cases cs with
    | nil => cases op <;> simp [Connective.Takes] at takes
    | cons c cs =>
      rw [queryText, hq]
      cases op with
      | unset => cases takes
      | and => exact written.group (.inl rfl) (by simp)
      | or => exact written.group (.inr rfl) (by simp)
      | not =>
        obtain rfl : cs = [] := by simpa [Connective.Takes] using takes
        exact ⟨_, rfl, written.minus⟩

/-! ## Conditions told by their searches -/

/-- A condition in normal form with legible leaves. -/
def Unmistakable : Condition → Prop :=
  Everywhere (fun l => l.WellFormed ∧ l.Legible) Settled

theorem Unmistakable.written {t : Condition} (h : t.Unmistakable) : t.Written :=
  h.imp (fun _ => id) fun _ _ h => h.keeps.takes

theorem operandSearch_ne_within (l : Leaf) (f : Field) (s : Search) :
    l.operandSearch ≠ .within f s := by
  unfold Leaf.operandSearch; split <;> simp

theorem operandSearch_ne_minus (l : Leaf) (s : Search) : l.operandSearch ≠ .minus s := by
  unfold Leaf.operandSearch; split <;> simp

theorem operandSearch_unique {l l' : Leaf} (h : l.WellFormed) (h' : l'.WellFormed)
    (e : l.operandSearch = l'.operandSearch) :
    l.operands = l'.operands ∧ l.grouping = l'.grouping := by
  unfold Leaf.operandSearch at e
  split at e <;> split at e
  · next s one _ s' one' =>
    cases e
    rw [one, one', h.lone (by simp [one]), h'.lone (by simp [one'])]
    exact ⟨rfl, rfl⟩
  · cases e
  · cases e
  · injection e with grouping operands
    exact ⟨eq_of_map_eq_map (fun _ _ _ _ => Search.operand.inj) operands, grouping⟩

theorem leaf_unique {l l' : Leaf} (h : l.WellFormed ∧ l.Legible) (h' : l'.WellFormed ∧ l'.Legible)
    (field : l.field = l'.field) (e : l.operandSearch = l'.operandSearch) : l = l' := by
  obtain ⟨operands, grouping⟩ := operandSearch_unique h.1 h'.1 e
  have raw : l.raw = l'.raw := by rw [h.2.plain, h'.2.plain]
  cases l
  cases l'
  simp_all

theorem search_leaf_unique {l l' : Leaf} (h : l.WellFormed ∧ l.Legible)
    (h' : l'.WellFormed ∧ l'.Legible) (e : l.search = l'.search) : l = l' := by
  unfold Leaf.search at e
  split at e <;> split at e
  · next has has' => exact leaf_unique h h' (has.trans has'.symm) e
  · exact absurd e (operandSearch_ne_within _ _ _)
  · exact absurd e.symm (operandSearch_ne_within _ _ _)
  · injection e with field operands
    exact leaf_unique h h' field operands

/-- A condition that is written as an operand is a leaf that any parent would join. -/
theorem mergeable_of_search_operand {c : Condition} {s : String} (h : c.search = .operand s)
    (op : Connective) : ∃ l, mergeable? op c = some l ∧ l.field = .has := by
  cases c with
  | leaf l =>
    rw [search, Leaf.search] at h
    split at h
    · next has =>
      refine ⟨l, mergeable?_eq_some.mpr ⟨rfl, fun several => ?_⟩, has⟩
      unfold Leaf.operandSearch at h
      split at h
      · next one => simp [one] at several
      · cases h
    · cases h
  | node op' cs =>
    rw [search_node] at h
    unfold Search.node at h
    split at h <;> cases h

/-- The search of a node in normal form: a minus sign and a search, or a group of two or more. -/
theorem search_node_of_settled {op : Connective} {cs : List Condition} (h : Settled op cs) :
    (op = .not ∧ ∃ c, cs = [c] ∧ (node op cs).search = .minus c.search) ∨
      ((op = .and ∨ op = .or) ∧ (node op cs).search = .group op (cs.map search)) := by
  have keeps := h.keeps
  rw [search_node]
  cases op with
  | unset => cases keeps
  | and => exact .inr ⟨.inl rfl, rfl⟩
  | or => exact .inr ⟨.inr rfl, rfl⟩
  | not =>
    obtain ⟨c, rfl⟩ := List.length_eq_one_iff.mp keeps
    exact .inl ⟨rfl, c, rfl, rfl⟩

/-- Two children that are operands would be joined, so a node is not written as a leaf. -/
theorem search_node_ne_leaf {op : Connective} {cs : List Condition} (h : Settled op cs)
    (l : Leaf) : (node op cs).search ≠ l.search := by
  intro e
  rw [Leaf.search] at e
  rcases search_node_of_settled h with ⟨_, c, _, written⟩ | ⟨hop, written⟩ <;> rw [written] at e
  · split at e
    · exact operandSearch_ne_minus _ _ e.symm
    · cases e
  · split at e
    · -- A group that a leaf writes has nothing but operands in it.
      have operands : ∀ c ∈ cs, ∃ s, c.search = .operand s := by
        intro c hc
        unfold Leaf.operandSearch at e
        split at e
        · cases e
        · injection e with _ e
          obtain ⟨s, _, hs⟩ := List.mem_map.mp (e ▸ List.mem_map_of_mem (f := search) hc)
          exact ⟨s, hs.symm⟩
      have two : 1 < cs.length := by rcases hop with rfl | rfl <;> exact h.keeps
      match cs, two with
      | c :: d :: rest, _ =>
        obtain ⟨s, hc⟩ := operands c List.mem_cons_self
        obtain ⟨s', hd⟩ := operands d (List.mem_cons_of_mem c List.mem_cons_self)
        obtain ⟨l, hl, has⟩ := mergeable_of_search_operand hc op
        obtain ⟨l', hl', has'⟩ := mergeable_of_search_operand hd op
        have apart := h.apart
        simp [Apart, hl, hl', has, has'] at apart
    · cases e

/-- **Conditions in normal form are told by their searches.** -/
theorem search_unique {t : Condition} (ht : t.Unmistakable) :
    ∀ {u : Condition}, u.Unmistakable → t.search = u.search → t = u := by
  induction ht with
  | @leaf l h =>
    intro u hu e
    cases hu with
    | leaf h' => rw [search_leaf_unique h h' e]
    | node settled _ => exact absurd e.symm (search_node_ne_leaf settled l)
  | @node op cs settled _ ih =>
    intro u hu e
    -- Groups and minus signs tell the connective, and the parts the children in their order.
    cases hu with
    | @leaf l _ => exact absurd e (search_node_ne_leaf settled l)
    | @node op' ds settled' children =>
      rcases search_node_of_settled settled with ⟨rfl, c, rfl, written⟩ | ⟨hop, written⟩ <;>
        rcases search_node_of_settled settled' with ⟨rfl, d, rfl, written'⟩ | ⟨hop', written'⟩ <;>
        rw [written, written'] at e
      · injection e with e
        rw [ih c List.mem_cons_self (children d List.mem_cons_self) e]
      · cases e
      · cases e
      · injection e with same searches
        rw [same, eq_of_map_eq_map (fun c hc d hd => ih c hc (children d hd)) searches]

end Condition

/-! ## Criteria -/

/-- The places of native criteria. -/
inductive Native.Place where
  | sender
  | recipient
  | subject
  | query
  deriving DecidableEq

namespace Native.Criteria

def text (c : Criteria) : Place → String
  | .sender => c.sender
  | .recipient => c.recipient
  | .subject => c.subject
  | .query => c.query

def only (q : String) : Place → Criteria
  | .sender => { sender := q }
  | .recipient => { recipient := q }
  | .subject => { subject := q }
  | .query => { query := q }

theorem text_only (q : String) (p p' : Place) :
    (only q p).text p' = if p = p' then q else "" := by
  cases p <;> cases p' <;> rfl

theorem text_join (a b : Criteria) (p : Place) :
    (a.join b).text p = joinQueries (a.text p) (b.text p) := by
  cases p <;> rfl

theorem text_empty (p : Place) : text {} p = "" := by
  cases p <;> rfl

end Native.Criteria

namespace Condition

/-- The place of the criteria in which a condition is written. -/
def place : Condition → Place
  | leaf l =>
    match l.field with
    | .sender => .sender
    | .recipient => .recipient
    | .subject => .subject
    | _ => .query
  | node _ _ => .query

/-- What is written there. Only the query takes prefixes. -/
def item : Condition → Search
  | leaf l => if (leaf l).place = .query then l.search else l.operandSearch
  | node op cs => (node op cs).search

/-- The conditions that the criteria of a condition ask for at once. -/
def components : Condition → List Condition
  | node .and cs => cs
  | t => [t]

/-- The criteria write the conditions, each in its place. -/
def WrittenIn (k : Criteria) (cs : List Condition) : Prop :=
  ∀ p, Writes (k.text p) ((cs.filter (·.place = p)).map item)

theorem writtenIn_only {t : Condition} {q : String} (h : Writes q [t.item]) :
    WrittenIn (.only q t.place) [t] := by
  intro p
  rw [Criteria.text_only]
  by_cases here : t.place = p
  · simpa [here] using h
  · simpa [here] using Writes.nil

theorem WrittenIn.join {a b : Criteria} {cs ds : List Condition} (ha : WrittenIn a cs)
    (hb : WrittenIn b ds) : WrittenIn (a.join b) (cs ++ ds) := by
  intro p
  rw [Criteria.text_join, List.filter_append, List.map_append]
  exact (ha p).join (hb p)

theorem parts_node {op : Connective} {cs : List Condition} (takes : op.Takes cs.length)
    (other : op ≠ .and) :
    parts (node op cs) = (queryText (node op cs)).map fun q => { query := q } := by
  cases cs with
  | nil => cases op <;> simp [Connective.Takes] at takes
  | cons c cs =>
    cases op with
    | unset => cases takes
    | and => contradiction
    | or =>
      rw [parts, queryText]
      cases queryTexts (c :: cs) <;> rfl
    | not =>
      obtain rfl : cs = [] := by simpa [Connective.Takes] using takes
      rw [parts, queryText, queryTexts]
      cases queryText c with
      | error e => rfl
      | ok q =>
        simp only [queryTexts, Except.map, joinQueries_empty]
        rfl

theorem parts_writes_one {t : Condition} (h : t.Written) (other : ∀ cs, t ≠ node .and cs) :
    ∃ k, parts t = .ok k ∧ WrittenIn k [t] := by
  cases t with
  | leaf l =>
    obtain ⟨shaped, legible⟩ := everywhere_leaf.mp h
    obtain ⟨q, hq, written⟩ := operandText_writes shaped legible
    have queried := prefixed_writes legible written
    refine ⟨.only (if (leaf l).place = .query then prefixed l.field q else q) (leaf l).place,
      ?_, writtenIn_only ?_⟩
    · rw [parts, hq]
      show fieldCriteria l.field q = _
      have named := legible.named
      revert named
      rw [place]
      cases l.field <;> simp [fieldCriteria, Criteria.only]
    · rw [item]
      split
      · exact queried
      · exact written
  | node op cs =>
    obtain ⟨q, hq, written⟩ := queryText_writes h
    have ne_and : op ≠ .and := fun e => other cs (e ▸ rfl)
    exact ⟨{ query := q }, by rw [parts_node (everywhere_node.mp h).1 ne_and, hq]; rfl,
      writtenIn_only (t := node op cs) written⟩

theorem partsAll_writes : ∀ {cs : List Condition},
    (∀ c ∈ cs, ∃ k, parts c = .ok k ∧ WrittenIn k [c]) →
      ∃ k, partsAll cs = .ok k ∧ WrittenIn k cs
  | [], _ => ⟨{}, rfl, fun p => by rw [Criteria.text_empty]; exact .nil⟩
  | c :: cs, h => by
    obtain ⟨k, hk, head⟩ := h c List.mem_cons_self
    obtain ⟨k', hk', tail⟩ := partsAll_writes fun d hd => h d (List.mem_cons_of_mem c hd)
    exact ⟨k.join k', by rw [partsAll, hk, hk']; rfl, head.join tail⟩

/-- Criteria that are generated are the parts of the condition, and ask for something. -/
theorem parts_of_criteria {t : Condition} {k : Criteria} (h : criteria t = .ok k) :
    parts t = .ok k ∧ k.isEmpty = false := by
  rw [criteria] at h
  split at h
  · cases h
  · next written =>
    split at h
    · cases h
    · next set =>
      cases h
      exact ⟨written, by simpa using set⟩

theorem components_cases (t : Condition) :
    (∃ cs, t = node .and cs) ∨ (∀ cs, t ≠ node .and cs) ∧ t.components = [t] := by
  unfold components
  split
  · next cs => exact .inl ⟨cs, rfl⟩
  · next other => exact .inr ⟨fun cs e => other cs e, rfl⟩

/-- The components of a condition in normal form are no conjunctions themselves. -/
theorem Unmistakable.components {t : Condition} (h : t.Unmistakable) :
    (∀ c ∈ t.components, c.Unmistakable ∧ ∀ cs, c ≠ node .and cs) ∧ t.components ≠ [] := by
  rcases components_cases t with ⟨cs, rfl⟩ | ⟨other, one⟩
  · obtain ⟨settled, children⟩ := everywhere_node.mp h
    refine ⟨fun c hc => ⟨children c hc, fun gs e => settled.alternating gs (e ▸ hc)⟩, ?_⟩
    rintro rfl
    have := settled.keeps
    simp [Connective.Keeps] at this
  · rw [one]
    simpa using ⟨h, other⟩

theorem criteria_writes {t : Condition} (h : t.Unmistakable) :
    ∃ k, criteria t = .ok k ∧ WrittenIn k t.components := by
  have written : ∃ k, parts t = .ok k ∧ WrittenIn k t.components := by
    rcases components_cases t with ⟨cs, rfl⟩ | ⟨other, one⟩
    · obtain ⟨k, hk, written⟩ := partsAll_writes fun c hc =>
        parts_writes_one (h.components.1 c hc).1.written (h.components.1 c hc).2
      cases cs with
      | nil => exact absurd rfl h.components.2
      | cons c cs => exact ⟨k, by rw [parts]; exact hk, written⟩
    · rw [one]
      exact parts_writes_one h.written other
  obtain ⟨k, hk, written⟩ := written
  refine ⟨k, ?_, written⟩
  -- The place of any component is not empty, so neither are the criteria.
  obtain ⟨c, hc⟩ := List.exists_mem_of_ne_nil _ h.components.2
  have some : k.text c.place ≠ "" := by
    intro empty
    have none := (written c.place).eq_empty_iff.mp empty
    rw [List.map_eq_nil_iff, List.filter_eq_nil_iff] at none
    exact none c hc (by simp)
  have set : k.isEmpty = false := by
    rw [Criteria.isEmpty, decide_eq_false_iff_not]
    rintro rfl
    exact some (Criteria.text_empty _)
  simp only [criteria, hk, set, Bool.false_eq_true, if_false]

/-! ## Conditions told by their criteria -/

theorem item_of_query {t : Condition} (h : t.place = .query) : t.item = t.search := by
  cases t with
  | leaf l => rw [item, if_pos h, search]
  | node op cs => rw [item]

theorem field_eq_of_place_eq {l l' : Leaf} (other : (leaf l).place ≠ .query)
    (h : (leaf l).place = (leaf l').place) : l.field = l'.field := by
  rw [place, place] at h
  rw [place] at other
  revert h other
  cases l.field <;> cases l'.field <;> decide

/-- Conditions in normal form are told by their place and what is written there. -/
theorem item_unique {c d : Condition} (hc : c.Unmistakable) (hd : d.Unmistakable)
    (place : c.place = d.place) (e : c.item = d.item) : c = d := by
  by_cases query : c.place = .query
  · rw [item_of_query query, item_of_query (place ▸ query)] at e
    exact search_unique hc hd e
  · have query' : d.place ≠ .query := place ▸ query
    cases c with
    | node op cs => exact absurd rfl query
    | leaf l =>
      cases d with
      | node op cs => exact absurd rfl query'
      | leaf l' =>
        rw [item, if_neg query, item, if_neg query'] at e
        rw [leaf_unique (everywhere_leaf.mp hc) (everywhere_leaf.mp hd)
          (field_eq_of_place_eq query place) e]

theorem place_eq_of_rank_eq {c d : Condition} (h : c.rank = d.rank) : c.place = d.place := by
  have kinds := kind_eq_of_rank_eq h
  cases c with
  | leaf l =>
    cases d with
    | leaf l' =>
      have same : l.field = l'.field := Option.some.inj (congrArg Prod.snd kinds)
      rw [place, place, same]
    | node _ _ => cases kinds
  | node _ _ =>
    cases d with
    | leaf _ => cases kinds
    | node _ _ => rfl

/-- Conditions in canonical order are told by the criteria that write them: those of one rank are
all written in one place, in their order. -/
theorem components_unique {k : Criteria} {cs ds : List Condition} (hc : WrittenIn k cs)
    (hd : WrittenIn k ds) (ordered : arrange cs = cs) (ordered' : arrange ds = ds)
    (apart : ∀ c ∈ cs, ∀ d ∈ ds, c.place = d.place → c.item = d.item → c = d) : cs = ds := by
  have places (p : Place) : cs.filter (·.place = p) = ds.filter (·.place = p) := by
    refine eq_of_map_eq_map (fun c hc d hd => ?_) ((hc p).unique (hd p))
    obtain ⟨hc, here⟩ := List.mem_filter.mp hc
    obtain ⟨hd, here'⟩ := List.mem_filter.mp hd
    exact apart c hc d hd ((of_decide_eq_true here).trans (of_decide_eq_true here').symm)
  rw [← ordered, ← ordered']
  refine arrange_eq_of_ranks fun r => ?_
  -- All that have the rank `r` are in one place, where both lists agree.
  by_cases taken : ∃ c : Condition, c.rank = r
  · obtain ⟨c, rfl⟩ := taken
    have within (es : List Condition) : es.filter (·.rank = c.rank) =
        (es.filter (·.place = c.place)).filter (·.rank = c.rank) := by
      rw [List.filter_filter]
      refine List.filter_congr fun e _ => ?_
      have := place_eq_of_rank_eq (c := e) (d := c)
      grind
    rw [within cs, within ds, places]
  · have none (es : List Condition) : es.filter (·.rank = r) = [] := by
      rw [List.filter_eq_nil_iff]
      exact fun e _ same => taken ⟨e, of_decide_eq_true same⟩
    rw [none, none]

/-! ## Simplified conditions -/

theorem joined_legible {op : Connective} {ls : List Leaf} {f : Field}
    (h : ∀ l ∈ ls, l.Legible) (hf : f ∈ fieldsOf ls) : (joined op ls f).Legible := by
  obtain ⟨l, hl, rfl⟩ := mem_fieldsOf.mp hf
  refine ⟨?_, ?_, ?_, ?_⟩
  · exact joined_raw_eq_false (fun l' hl' => (h l' hl').plain) op l.field
  · rw [joined, Leaf.over_field]
    exact (h l hl).named
  · rw [joined, Leaf.over_field]
    exact (h l hl).tested
  · rw [joined, Leaf.over_operands]
    intro s hs
    obtain ⟨l', hl', hs⟩ := List.mem_flatMap.mp hs
    exact (h l' (List.mem_of_mem_filter hl')).operands s hs

theorem legible_simplify {t : Condition} (h : ∀ l ∈ t.leaves, l.Legible) (n : Int) :
    ∀ l ∈ (t.simplify n).leaves, l.Legible :=
  (leafLaw_all fun _ => joined_legible).simplifying.simplify t n h

theorem unmistakable_simplify {t : Condition} (wf : t.WellFormed) (h : ∀ l ∈ t.leaves, l.Legible)
    {n : Int} (hn : 2 ≤ n) : (t.simplify n).Unmistakable := by
  obtain ⟨shaped, settled⟩ := everywhere_iff_leaves.mp (normal_simplify wf hn).1
  have legible := legible_simplify h n
  exact everywhere_iff_leaves.mpr ⟨fun l hl => ⟨shaped l hl, legible l hl⟩, settled⟩

theorem arrange_components {t : Condition} (h : t.Ordered) :
    arrange t.components = t.components := by
  rcases components_cases t with ⟨cs, rfl⟩ | ⟨_, one⟩
  · exact (everywhere_node.mp h).1
  · rw [one]
    exact List.perm_singleton.mp (arrange_perm [t])

/-- A condition in normal form is told by its components: a component on its own is no conjunction,
which has two. -/
theorem eq_of_components_eq {t u : Condition} (ht : t.Unmistakable) (hu : u.Unmistakable)
    (h : t.components = u.components) : t = u := by
  have two {cs : List Condition} (h : (node .and cs).Unmistakable) : 1 < cs.length :=
    (everywhere_node.mp h).1.keeps
  rcases components_cases t with ⟨cs, rfl⟩ | ⟨_, one⟩ <;>
    rcases components_cases u with ⟨ds, rfl⟩ | ⟨_, one'⟩
  · exact congrArg _ h
  · have both : cs = [u] := h.trans one'
    have := two ht
    simp [both] at this
  · have both : ds = [t] := h.symm.trans one
    have := two hu
    simp [both] at this
  · rw [one, one'] at h
    exact (List.cons.inj h).1

/-- **The generated search syntax is unambiguous.** Well-formed conditions with legible leaves have
native criteria when simplified in two rounds or more, and if those of two are the same, then so are
the simplified conditions. -/
theorem criteria_unambiguous {t u : Condition} {m n : Int} (ht : t.WellFormed) (hu : u.WellFormed)
    (legible : ∀ l ∈ t.leaves, l.Legible) (legible' : ∀ l ∈ u.leaves, l.Legible) (hm : 2 ≤ m)
    (hn : 2 ≤ n) :
    ∃ k k', criteria (t.simplify m) = .ok k ∧ criteria (u.simplify n) = .ok k' ∧
      (k = k' → t.simplify m = u.simplify n) := by
  have normal := unmistakable_simplify ht legible hm
  have normal' := unmistakable_simplify hu legible' hn
  obtain ⟨k, hk, written⟩ := criteria_writes normal
  obtain ⟨k', hk', written'⟩ := criteria_writes normal'
  refine ⟨k, k', hk, hk', ?_⟩
  rintro rfl
  apply eq_of_components_eq normal normal'
  exact components_unique written written' (arrange_components (normal_simplify ht hm).2)
    (arrange_components (normal_simplify hu hn).2) fun c hc d hd =>
      item_unique (normal.components.1 c hc).1 (normal'.components.1 d hd).1

/-- Two conditions that are simplified to the same one, in different ways. -/
theorem criteria_unambiguous_disjunction :
    let has (s : String) := leaf ⟨.has, [s], .unset, false⟩
    let t := conj [disj [has "a b", disj [has "c", neg (neg (has "d+e"))]],
      leaf ⟨.sender, ["f", "g@h"], .or, false⟩, leaf ⟨.sender, ["i"], .unset, false⟩]
    let u := conj [leaf ⟨.sender, ["f", "g@h"], .or, false⟩, leaf ⟨.sender, ["i"], .unset, false⟩,
      leaf ⟨.has, ["a b", "c", "d+e"], .or, false⟩]
    t.WellFormed ∧ u.WellFormed ∧ (∀ l ∈ t.leaves, l.Legible) ∧ (∀ l ∈ u.leaves, l.Legible) ∧
      ∃ k k', criteria (t.simplify 2) = .ok k ∧ criteria (u.simplify 3) = .ok k' ∧
        (k = k' → t.simplify 2 = u.simplify 3) := by
  intro has t u
  have ht : t.WellFormed := by decide
  have hu : u.WellFormed := by decide
  have legible : ∀ l ∈ t.leaves, l.Legible := by decide
  have legible' : ∀ l ∈ u.leaves, l.Legible := by decide
  exact ⟨ht, hu, legible, legible', criteria_unambiguous ht hu legible legible' (by decide)
    (by decide)⟩

/-- Conditions that are not simplified may share their criteria. -/
example : criteria (disj [leaf ⟨.has, ["a"], .unset, false⟩, leaf ⟨.has, ["b"], .unset, false⟩]) =
    criteria (leaf ⟨.has, ["a", "b"], .or, false⟩) := rfl

end Condition

end MailRules
