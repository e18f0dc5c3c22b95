import MailRules.Proofs.Native.Imported
import MailRules.Proofs.Native.Writable
import Mathlib.Algebra.Order.BigOperators.Group.List
import Mathlib.Algebra.Order.Ring.Nat

/-!
The search of criteria against the searches of the conditions that the criteria ask for.

Criteria put what they ask for into four places, and each condition of a conjunction into one of
them. The search of the criteria then writes the prefix of a place once, in front of all that is
there. So the search is a join of the conditions' own searches as long as nothing else shares a
place that has a prefix; a second text in such a place is left without it.

What is proved:
  1. `extent_sideBySide`, `length_intercalate`: how long searches side by side are.
  2. `parts_term`, `partsAll_terms`: what a condition, and several, put into the places.
  3. `search_conjuncts`: the search that results, and when it is a join of the conditions' own.
-/

namespace MailRules

namespace Native

/-! ## Searches side by side -/

def sideBySide (qs : List String) : String := qs.foldr joinQueries ""

@[simp] theorem sideBySide_nil : sideBySide [] = "" := rfl

@[simp] theorem sideBySide_cons (q : String) (qs : List String) :
    sideBySide (q :: qs) = joinQueries q (sideBySide qs) := rfl

/-- The room that a search takes next to others. -/
def extent (q : String) : Nat := if q = "" then 0 else q.length + 1

theorem extent_joinQueries (a b : String) : extent (joinQueries a b) = extent a + extent b := by
  rw [joinQueries]
  by_cases ha : a = ""
  · rw [if_pos ha, ha, extent, extent, if_pos rfl, Nat.zero_add]
  · rw [if_neg ha]
    by_cases hb : b = ""
    · rw [if_pos hb, hb]
      rfl
    · have joined : a ++ " " ++ b ≠ "" := by
        intro empty
        simpa using congrArg String.toList empty
      rw [if_neg hb, extent, extent, extent, if_neg joined, if_neg ha, if_neg hb]
      simp only [String.length_append]
      show a.length + 1 + b.length + 1 = _
      omega

theorem extent_sideBySide : ∀ qs, extent (sideBySide qs) = (qs.map extent).sum
  | [] => rfl
  | q :: qs => by
    rw [sideBySide_cons, extent_joinQueries, extent_sideBySide qs, List.map_cons, List.sum_cons]

/-- A join has a blank between each two, whether or not there is something on both sides. -/
theorem length_intercalate : ∀ {qs : List String}, qs ≠ [] →
    (String.intercalate " " qs).length + 1 = (qs.map fun q => q.length + 1).sum
  | [q], _ => by simp
  | q :: q' :: qs, _ => by
    have tail := length_intercalate (List.cons_ne_nil q' qs)
    rw [String.intercalate_cons_cons, List.map_cons, List.sum_cons, ← tail]
    simp only [String.length_append]
    show q.length + 1 + _ + 1 = _
    omega

theorem sideBySide_eq_empty {qs : List String} : sideBySide qs = "" ↔ ∀ q ∈ qs, q = "" := by
  induction qs with
  | nil => simp
  | cons q qs ih => rw [sideBySide_cons, joinQueries_eq_empty, ih, List.forall_mem_cons]

theorem sideBySide_eq_intercalate : ∀ {qs : List String}, (∀ q ∈ qs, q ≠ "") →
    sideBySide qs = String.intercalate " " qs
  | [], _ => by simp
  | [q], _ => by simp [joinQueries_empty]
  | q :: q' :: qs, told => by
    obtain ⟨head, tail⟩ := List.forall_mem_cons.mp told
    have some : sideBySide (q' :: qs) ≠ "" := fun none =>
      tail q' List.mem_cons_self (sideBySide_eq_empty.mp none q' List.mem_cons_self)
    rw [String.intercalate_cons_cons, ← sideBySide_eq_intercalate tail, sideBySide_cons, joinQueries,
      if_neg head, if_neg some]

theorem joinQueries_assoc (a b c : String) :
    joinQueries (joinQueries a b) c = joinQueries a (joinQueries b c) := by
  by_cases ha : a = ""
  · rw [ha, empty_joinQueries, empty_joinQueries]
  by_cases hb : b = ""
  · rw [hb, joinQueries_empty, empty_joinQueries]
  by_cases hc : c = ""
  · rw [hc, joinQueries_empty, joinQueries_empty]
  have left : joinQueries a b ≠ "" := fun none => ha (joinQueries_eq_empty.mp none).1
  have right : joinQueries b c ≠ "" := fun none => hb (joinQueries_eq_empty.mp none).1
  calc joinQueries (joinQueries a b) c
      = joinQueries a b ++ " " ++ c := by rw [joinQueries, if_neg left, if_neg hc]
    _ = a ++ " " ++ b ++ " " ++ c := by rw [joinQueries, if_neg ha, if_neg hb]
    _ = a ++ " " ++ (b ++ " " ++ c) := by simp only [String.append_assoc]
    _ = a ++ " " ++ joinQueries b c := by rw [joinQueries.eq_1 b, if_neg hb, if_neg hc]
    _ = joinQueries a (joinQueries b c) := by rw [joinQueries.eq_1 a, if_neg ha, if_neg right]

theorem sideBySide_append : ∀ qs qs' : List String,
    sideBySide (qs ++ qs') = joinQueries (sideBySide qs) (sideBySide qs')
  | [], qs' => (empty_joinQueries _).symm
  | q :: qs, qs' => by
    rw [List.cons_append, sideBySide_cons, sideBySide_append qs, ← joinQueries_assoc, sideBySide_cons]

theorem sideBySide_flatMap {α : Type} (f : α → List String) : ∀ xs : List α,
    sideBySide (xs.flatMap f) = sideBySide (xs.map fun x => sideBySide (f x))
  | [] => rfl
  | x :: xs => by
    rw [List.flatMap_cons, sideBySide_append, sideBySide_flatMap f xs, List.map_cons, sideBySide_cons]

/-! ## Places and what is put there -/

/-- What the search writes in front of a place. -/
def Place.label : Place → String
  | sender => "from:"
  | recipient => "to:"
  | subject => "subject:"
  | query => ""

/-- A place in the search, with all that is there. -/
def Place.labelled (p : Place) (q : String) : String := if q = "" then "" else p.label ++ q

theorem search_eq_sideBySide (c : Criteria) :
    c.search = sideBySide (Place.all.map fun p => p.labelled (c.text p)) := by
  let written (p : Place) : List String := if c.text p = "" then [] else [p.label ++ c.text p]
  have told : ∀ q ∈ Place.all.flatMap written, q ≠ "" := by
    intro q hq
    obtain ⟨p, _, hq⟩ := List.mem_flatMap.mp hq
    by_cases none : c.text p = ""
    · simp [written, none] at hq
    · simp only [written, if_neg none, List.mem_singleton] at hq
      simp [hq, none]
  have each : ∀ p, sideBySide (written p) = p.labelled (c.text p) := by
    intro p
    simp only [written, Place.labelled]
    split
    · rfl
    · exact joinQueries_empty _
  have all : c.search = String.intercalate " " (Place.all.flatMap written) := by
    simp only [Place.all, List.flatMap_cons, List.flatMap_nil, List.append_nil, ← List.append_assoc]
    rfl
  rw [all, ← sideBySide_eq_intercalate told, sideBySide_flatMap]
  exact congrArg sideBySide (List.map_congr_left fun p _ => each p)

theorem eq_empty_of_search {c : Criteria} (h : c.search = "") : c = {} := by
  rw [search_eq_sideBySide, sideBySide_eq_empty] at h
  refine Criteria.ext_text fun p => ?_
  have none : p.labelled (c.text p) = "" :=
    h _ (List.mem_map_of_mem (by cases p <;> decide : p ∈ Place.all))
  rw [Criteria.text_empty]
  by_contra some
  rw [Place.labelled, if_neg some] at none
  exact some (String.append_eq_empty_iff.mp none).2

/-- What a condition asks for: a text in a place. -/
structure Term where
  place : Place
  text : String

def Term.search (m : Term) : String := m.place.label ++ m.text

def textsIn (p : Place) (ms : List Term) : List String :=
  (ms.filter fun m => m.place = p).map Term.text

/-- The criteria ask for the terms, each in its place. -/
def AsksFor (c : Criteria) (ms : List Term) : Prop := ∀ p, c.text p = sideBySide (textsIn p ms)

theorem asksFor_only (q : String) (p : Place) : AsksFor (.only q p) [⟨p, q⟩] := by
  intro p'
  rw [Criteria.text_only, textsIn]
  by_cases here : p = p'
  · simp [here, joinQueries_empty]
  · simp [here]

theorem AsksFor.join {a b : Criteria} {ms ns : List Term} (ha : AsksFor a ms) (hb : AsksFor b ns) :
    AsksFor (a.join b) (ms ++ ns) := by
  intro p
  have texts : textsIn p (ms ++ ns) = textsIn p ms ++ textsIn p ns := by
    rw [textsIn, List.filter_append, List.map_append]
    rfl
  rw [Criteria.text_join, ha p, hb p, texts, sideBySide_append]

end Native

namespace Condition

open Native

/-- The search of a condition is that of a term in the place of the condition. -/
structure Asks (u : Condition) (m : Term) : Prop where
  place : m.place = u.place
  search : queryText u = .ok m.search

/-- A leaf over a field with a prefix of its own gives its operands to the place of the field, any
other its search to the query. -/
theorem prefixed_eq_label (l : Leaf) (q : String) : (leaf l).place ≠ .query →
    prefixed l.field q = (leaf l).place.label ++ q := by
  rw [place]
  cases l.field <;> simp [prefixed, Place.label, Field.name]

theorem fieldCriteria_eq_only {l : Leaf} {q : String} {k : Criteria}
    (h : fieldCriteria l.field q = .ok k) :
    k = .only (if (leaf l).place = .query then prefixed l.field q else q) (leaf l).place := by
  rw [place]
  revert h
  cases l.field <;> simp [fieldCriteria, Criteria.only, eq_comm]

theorem takes_of_parts {op : Connective} {cs : List Condition} {k : Criteria}
    (h : parts (node op cs) = .ok k) : op.Takes cs.length := by
  match op, cs, h with
  | .and, _ :: _, _ => exact Nat.succ_pos _
  | .or, _ :: _, _ => exact Nat.succ_pos _
  | .not, [_], _ => rfl
  | .not, _ :: _ :: _, h => cases h
  | .unset, _ :: _, h => cases h

theorem parts_term {u : Condition} {k : Criteria} (other : ∀ gs, u ≠ node .and gs)
    (h : parts u = .ok k) : ∃ m, u.Asks m ∧ AsksFor k [m] := by
  cases u with
  | leaf l =>
    rw [parts] at h
    obtain ⟨q, hq, h⟩ := bind_eq_ok.mp h
    have written : queryText (leaf l) = .ok (prefixed l.field q) := by rw [queryText, hq]; rfl
    rw [fieldCriteria_eq_only h]
    refine ⟨_, ⟨rfl, ?_⟩, asksFor_only _ _⟩
    by_cases query : (leaf l).place = .query
    · rw [written, Term.search, if_pos query, query, Place.label, String.empty_append]
    · rw [written, Term.search, if_neg query, prefixed_eq_label l q query]
  | node op cs =>
    rw [parts_node (takes_of_parts h) fun e => other cs (e ▸ rfl)] at h
    obtain ⟨q, hq, rfl⟩ := map_eq_ok.mp h
    exact ⟨⟨.query, q⟩, ⟨rfl, by rw [hq, Term.search, Place.label, String.empty_append]⟩,
      asksFor_only q .query⟩

theorem partsAll_terms : ∀ {cs : List Condition} {k : Criteria}, (∀ gs, node .and gs ∉ cs) →
    partsAll cs = .ok k → ∃ ms, List.Forall₂ Asks cs ms ∧ AsksFor k ms
  | [], k, _, h => by
    cases h
    exact ⟨[], .nil, Criteria.text_empty⟩
  | c :: cs, k, flat, h => by
    rw [partsAll] at h
    cases hc : parts c with
    | error e => simp [hc] at h
    | ok a =>
      rw [hc] at h
      obtain ⟨b, hb, rfl⟩ := map_eq_ok.mp h
      obtain ⟨m, asks, first⟩ := parts_term (fun gs e => flat gs (e ▸ List.mem_cons_self)) hc
      obtain ⟨ms, others, rest⟩ :=
        partsAll_terms (fun gs hgs => flat gs (List.mem_cons_of_mem c hgs)) hb
      exact ⟨m :: ms, .cons asks others, first.join rest⟩

theorem criteria_terms {t : Condition} {c : Criteria} (flat : ∀ gs, node .and gs ∉ t.components)
    (h : criteria t = .ok c) : ∃ ms, List.Forall₂ Asks t.components ms ∧ AsksFor c ms := by
  have written := (parts_of_criteria h).1
  rcases components_cases t with ⟨cs, rfl⟩ | ⟨other, one⟩
  · cases cs with
    | nil => cases written
    | cons d ds =>
      rw [parts] at written
      exact partsAll_terms flat written
  · obtain ⟨m, asks, told⟩ := parts_term other written
    rw [one]
    exact ⟨[m], .cons asks .nil, told⟩

end Condition

namespace Native

/-! ## When a search is a join of others -/

variable {c : Criteria} {ms : List Term}

/-- The room of a term's own search in a join, which has a blank after it even if it is empty. -/
def Term.room (m : Term) : Nat := m.search.length + 1

theorem Term.room_eq (m : Term) : m.room = m.place.label.length + m.text.length + 1 := by
  rw [room, Term.search, String.length_append]

/-- Nothing is lost of the terms of a place: none is empty, and none has to share a prefix. -/
def Whole (p : Place) (ms : List Term) : Prop :=
  (∀ m ∈ ms, m.text ≠ "") ∧ (p ≠ .query → ms.length ≤ 1)

theorem extent_texts {p : Place} : ∀ {ms : List Term}, (∀ m ∈ ms, m.place = p) →
    extent (sideBySide (ms.map Term.text)) + ms.length * p.label.length ≤ (ms.map Term.room).sum ∧
      (extent (sideBySide (ms.map Term.text)) + ms.length * p.label.length = (ms.map Term.room).sum →
        ∀ m ∈ ms, m.text ≠ "")
  | [], _ => by simp [extent]
  | m :: ms, here => by
    obtain ⟨first, others⟩ := List.forall_mem_cons.mp here
    obtain ⟨most, equal⟩ := extent_texts others
    have room := m.room_eq
    rw [first] at room
    simp only [List.map_cons, List.sum_cons, sideBySide_cons, extent_joinQueries, List.length_cons,
      Nat.succ_mul, List.forall_mem_cons]
    by_cases none : m.text = ""
    · have nothing : extent m.text = 0 := by rw [extent, if_pos none]
      constructor
      · omega
      · intro same
        omega
    · have all : extent m.text = m.text.length + 1 := by rw [extent, if_neg none]
      constructor
      · omega
      · intro same
        exact ⟨none, equal (by omega)⟩

/-- The terms of a place take no more room there than in a join, and as much only if nothing is
lost of them. -/
theorem extent_labelled {p : Place} {ms : List Term} (here : ∀ m ∈ ms, m.place = p) :
    extent (p.labelled (sideBySide (ms.map Term.text))) ≤ (ms.map Term.room).sum ∧
      (extent (p.labelled (sideBySide (ms.map Term.text))) = (ms.map Term.room).sum →
        Whole p ms) := by
  obtain ⟨most, equal⟩ := extent_texts here
  cases ms with
  | nil => exact ⟨Nat.zero_le _, fun _ => ⟨by simp, fun _ => Nat.zero_le 1⟩⟩
  | cons m ms =>
    have room : 0 < ((m :: ms).map Term.room).sum := by
      rw [List.map_cons, List.sum_cons, Term.room]
      omega
    rw [List.length_cons, Nat.succ_mul] at most equal
    by_cases none : sideBySide ((m :: ms).map Term.text) = ""
    · rw [Place.labelled, if_pos none]
      show 0 ≤ _ ∧ (0 = _ → _)
      exact ⟨Nat.zero_le _, fun same => absurd same room.ne⟩
    · have written : p.label ++ sideBySide ((m :: ms).map Term.text) ≠ "" :=
        fun empty => none (String.append_eq_empty_iff.mp empty).2
      have labelled : extent (p.labelled (sideBySide ((m :: ms).map Term.text))) =
          p.label.length + extent (sideBySide ((m :: ms).map Term.text)) := by
        rw [Place.labelled, if_neg none, extent, extent, if_neg none, if_neg written,
          String.length_append]
        omega
      rw [labelled]
      refine ⟨by omega, fun same => ⟨equal (by omega), fun prefixed => ?_⟩⟩
      -- Each further term of the place would have had the prefix of its own.
      have long : 0 < p.label.length := by revert prefixed; cases p <;> decide
      have rest : ms.length * p.label.length = 0 := by omega
      have alone : ms.length = 0 := (Nat.mul_eq_zero.mp rest).resolve_right long.ne'
      rw [List.length_cons, alone]

theorem perm_places (ms : List Term) :
    (Place.all.flatMap fun p => ms.filter fun m => m.place = p).Perm ms :=
  Condition.perm_flatMap_filter Term.place (by decide) fun m _ => by cases m.place <;> decide

theorem mem_place {ms : List Term} (p : Place) :
    ∀ m ∈ ms.filter (fun m => m.place = p), m.place = p :=
  fun _ hm => of_decide_eq_true (List.mem_filter.mp hm).2

/-- A search that writes terms is as long as a join of them only if nothing is lost of them. -/
theorem whole_of_intercalate (asks : AsksFor c ms) (some : c.search ≠ "") {qs : List String}
    (perm : qs.Perm (ms.map Term.search)) (joined : c.search = String.intercalate " " qs) :
    ∀ p, Whole p (ms.filter fun m => m.place = p) := by
  have written : extent c.search =
      (Place.all.map fun p => extent (p.labelled (sideBySide (textsIn p ms)))).sum := by
    rw [search_eq_sideBySide, extent_sideBySide, List.map_map]
    exact congrArg List.sum (List.map_congr_left fun p _ => by rw [Function.comp, asks p])
  have terms : (ms.map Term.room).sum =
      (Place.all.map fun p => ((ms.filter fun m => m.place = p).map Term.room).sum).sum := by
    rw [← ((perm_places ms).map Term.room).sum_eq, List.map_flatMap, List.flatMap, List.sum_flatten,
      List.map_map]
    rfl
  have ne : qs ≠ [] := by
    rintro rfl
    exact some (joined.trans (by simp))
  have total : extent c.search = (ms.map Term.room).sum :=
    calc extent c.search
        = c.search.length + 1 := by rw [extent, if_neg some]
      _ = (qs.map fun q => q.length + 1).sum := by rw [joined, length_intercalate ne]
      _ = (ms.map Term.room).sum := by
        rw [(perm.map _).sum_eq, List.map_map]
        rfl
  intro p
  by_contra lost
  have short : extent (p.labelled (sideBySide (textsIn p ms))) <
      ((ms.filter fun m => m.place = p).map Term.room).sum :=
    (extent_labelled (mem_place p)).1.lt_of_ne fun same => lost ((extent_labelled (mem_place p)).2 same)
  have less := List.sum_lt_sum (l := Place.all) _ _ (fun p _ => (extent_labelled (mem_place p)).1)
    ⟨p, by cases p <;> decide, short⟩
  exact absurd (written.symm.trans (total.trans terms)) less.ne

theorem labelled_of_whole {p : Place} {ms : List Term} (here : ∀ m ∈ ms, m.place = p)
    (whole : Whole p ms) :
    p.labelled (sideBySide (ms.map Term.text)) = sideBySide (ms.map Term.search) := by
  by_cases query : p = .query
  · have same : ms.map Term.search = ms.map Term.text := by
      refine List.map_congr_left fun m hm => ?_
      rw [Term.search, here m hm, query, Place.label, String.empty_append]
    rw [same, query, Place.labelled, Place.label, String.empty_append]
    split
    · next none => exact none.symm
    · rfl
  · match ms, whole.2 query with
    | [], _ => rfl
    | [m], _ =>
      have text : m.text ≠ "" := whole.1 m List.mem_cons_self
      simp only [List.map_cons, List.map_nil, sideBySide_cons, sideBySide_nil, joinQueries_empty]
      rw [Place.labelled, if_neg text, Term.search, here m List.mem_cons_self]

theorem search_of_whole (asks : AsksFor c ms)
    (whole : ∀ p, Whole p (ms.filter fun m => m.place = p)) :
    c.search = String.intercalate " "
      ((Place.all.flatMap fun p => ms.filter fun m => m.place = p).map Term.search) := by
  have told : ∀ q ∈ (Place.all.flatMap fun p => ms.filter fun m => m.place = p).map Term.search,
      q ≠ "" := by
    intro q hq
    obtain ⟨m, hm, rfl⟩ := List.mem_map.mp hq
    obtain ⟨p, _, hm⟩ := List.mem_flatMap.mp hm
    exact fun empty => (whole p).1 m hm (String.append_eq_empty_iff.mp empty).2
  have each (p : Place) : p.labelled (c.text p) =
      sideBySide ((ms.filter fun m => m.place = p).map Term.search) := by
    rw [asks p]
    exact labelled_of_whole (mem_place p) (whole p)
  rw [← sideBySide_eq_intercalate told, List.map_flatMap, sideBySide_flatMap, search_eq_sideBySide]
  exact congrArg sideBySide (List.map_congr_left fun p _ => each p)

end Native

namespace Condition

open Native

theorem flat_simplify {t : Condition} (wf : t.WellFormed) {n : Int} (hn : 2 ≤ n) :
    ∀ gs, node .and gs ∉ (t.simplify n).components := by
  intro gs hgs
  rcases components_cases (t.simplify n) with ⟨cs, conjunction⟩ | ⟨other, one⟩
  · have normal := (normal_simplify wf hn).1
    rw [conjunction] at normal hgs
    exact (everywhere_node.mp normal).1.alternating gs hgs
  · rw [one, List.mem_singleton] at hgs
    exact other gs hgs.symm

/-- **The search of criteria against the searches of the conditions they ask for.** The criteria of
a condition, none of whose components is a conjunction, ask for a term for each component, and their
search is the terms' texts, place after place, with one prefix for each place. It is a join of the
components' own searches, in whatever order, exactly if no text is empty and no two terms share a
place that has a prefix. -/
theorem search_conjuncts {t : Condition} {c : Criteria} (flat : ∀ gs, node .and gs ∉ t.components)
    (h : criteria t = .ok c) :
    ∃ ms, List.Forall₂ Asks t.components ms ∧
      c.search = sideBySide (Place.all.map fun p => p.labelled (sideBySide (textsIn p ms))) ∧
      ((∃ qs, qs.Perm (ms.map Term.search) ∧ c.search = String.intercalate " " qs) ↔
        (∀ m ∈ ms, m.text ≠ "") ∧
          ∀ p, p ≠ .query → (ms.filter fun m => m.place = p).length ≤ 1) := by
  obtain ⟨ms, asks, told⟩ := criteria_terms flat h
  have some : c.search ≠ "" := by
    intro empty
    have set := (parts_of_criteria h).2
    rw [eq_empty_of_search empty] at set
    exact absurd set (by decide)
  refine ⟨ms, asks, ?_, ?_, ?_⟩
  · rw [search_eq_sideBySide]
    exact congrArg sideBySide (List.map_congr_left fun p _ => by rw [told p])
  · intro ⟨qs, perm, joined⟩
    have whole := whole_of_intercalate told some perm joined
    exact ⟨fun m hm => (whole m.place).1 m (by simpa using hm), fun p => (whole p).2⟩
  · intro ⟨texts, alone⟩
    have whole (p : Place) : Whole p (ms.filter fun m => m.place = p) :=
      ⟨fun m hm => texts m (List.mem_of_mem_filter hm), alone p⟩
    exact ⟨_, (perm_places ms).map _, search_of_whole told whole⟩

/-- A simplified rule that asks each field with a prefix for one thing at most. -/
theorem search_conjuncts_simplified :
    let t := (conj [leaf ⟨.has, ["a b"], .unset, false⟩,
      conj [leaf ⟨.recipient, ["c", "d"], .and, false⟩, neg (leaf ⟨.sender, ["e"], .unset, false⟩)],
      disj [leaf ⟨.subject, ["f"], .unset, false⟩, leaf ⟨.subject, ["g"], .unset, false⟩]]).simplify 2
    let c : Criteria :=
      { recipient := "(c d)", subject := "\x7bf g\x7d", query := "\"a b\" -from:e" }
    (∀ gs, node .and gs ∉ t.components) ∧ criteria t = .ok c ∧
      ∃ ms, List.Forall₂ Asks t.components ms ∧
        c.search = sideBySide (Place.all.map fun p => p.labelled (sideBySide (textsIn p ms))) ∧
        ((∃ qs, qs.Perm (ms.map Term.search) ∧ c.search = String.intercalate " " qs) ↔
          (∀ m ∈ ms, m.text ≠ "") ∧
            ∀ p, p ≠ .query → (ms.filter fun m => m.place = p).length ≤ 1) := by
  intro t c
  have flat : ∀ gs, node .and gs ∉ t.components := flat_simplify (by decide) (by decide)
  have asked : criteria t = .ok c := rfl
  exact ⟨flat, asked, search_conjuncts flat asked⟩

/-- A simplified rule that asks two things of the sender: the second is searched for everywhere. -/
theorem search_prefix_once :
    let rule := conj [leaf ⟨.sender, ["a", "b"], .or, false⟩, leaf ⟨.sender, ["c", "d"], .or, false⟩]
    let t := rule.simplify 2
    rule.WellFormed ∧ (∀ gs, node .and gs ∉ t.components) ∧
      ∃ c texts, criteria t = .ok c ∧ t.components.mapM queryText = .ok texts ∧
        ¬ ∃ qs, qs.Perm texts ∧ c.search = String.intercalate " " qs := by
  intro rule t
  have wf : rule.WellFormed := by decide
  have flat : ∀ gs, node .and gs ∉ t.components := flat_simplify wf (by decide)
  have asked : criteria t = .ok { sender := "\x7ba b\x7d \x7bc d\x7d" } := rfl
  have written : t.components.mapM queryText = .ok ["from:\x7ba b\x7d", "from:\x7bc d\x7d"] := rfl
  refine ⟨wf, flat, _, _, asked, written, ?_⟩
  intro ⟨qs, perm, joined⟩
  have ne : qs ≠ [] := by
    rintro rfl
    simpa using perm.length_eq
  -- The search has one prefix less than a join in any order.
  have long := length_intercalate ne
  rw [← joined, (perm.map _).sum_eq] at long
  exact absurd long (by decide)

end Condition

end MailRules
