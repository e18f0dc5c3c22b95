import MailRules.Native.Render
import MailRules.Proofs.Native.Layout
import MailRules.Proofs.Text.Lines
import Mathlib.Data.List.Forall2

/-!
What the text of native filters still tells.

A filter is shown on lines of its own: a heading, its criteria, and its actions below a second
heading. Parameters and flags begin in different ways, so they are known by the lines that are there
(`items_unique`). The search may take several lines, and one of them may look like the second
heading; but none looks like the first heading, and after the last of the second headings there are
actions only. So a filter is known by its lines up to the layout of its search, and filters one
below the other are known by their text, as long as no text in them has a line feed.

What is defined and proved:
  1. `Item`, `items_unique`: lines that may be left out are known by how they begin.
  2. `block`, `ended_block`: the lines of a filter, and the text that they make.
  3. `bodyLines_eq_iff`: when two filters have the same lines (`Filter.Alike`).
  4. `renderAll_false_eq_iff`, `renderAll_true_eq_iff`: when two lists of filters have the same text,
     without and with their searches.
-/

namespace MailRules.Native

open Text (ended ended_append ended_cons)

/-! ## Lines that may be left out -/

/-- A line that may be left out: how it begins, and how it goes on if it is there. -/
structure Item where
  start : List Char
  value : Option (List Char)

def itemLines (is : List Item) : List (List Char) :=
  is.filterMap fun i => i.value.map (i.start ++ ·)

/-- Of two beginnings neither goes on as the other. -/
def Apart (p q : List Char) : Prop := ¬ p <+: q ∧ ¬ q <+: p

instance (p q : List Char) : Decidable (Apart p q) := inferInstanceAs (Decidable (_ ∧ _))

/-- The first of some lines begins in the given way. -/
def Begins (p : List Char) (ls : List (List Char)) : Prop := ∃ l ∈ ls.head?, p <+: l

theorem not_begins_nil (p : List Char) : ¬ Begins p [] := by simp [Begins]

theorem itemLines_cons (i : Item) (is : List Item) :
    itemLines (i :: is) = itemLines [i] ++ itemLines is :=
  List.filterMap_append (l := [i])

theorem begins_append (p : List Char) (v : List Char) (ls : List (List Char)) :
    Begins p ((p ++ v) :: ls) := ⟨p ++ v, rfl, List.prefix_append p v⟩

theorem not_begins_cons {p q : List Char} (apart : Apart p q) (v : List Char)
    (ls : List (List Char)) : ¬ Begins p ((q ++ v) :: ls) := by
  rintro ⟨l, hl, begins⟩
  obtain rfl : q ++ v = l := by simpa using hl
  exact (List.prefix_or_prefix_of_prefix begins (List.prefix_append q v)).elim apart.1 apart.2

theorem not_begins_items {p : List Char} {ls : List (List Char)} (rest : ¬ Begins p ls) :
    ∀ {is : List Item}, (∀ i ∈ is, Apart p i.start) → ¬ Begins p (itemLines is ++ ls)
  | [], _ => rest
  | i :: is, apart => by
    obtain ⟨here, apart⟩ := List.forall_mem_cons.mp apart
    have after := not_begins_items rest apart
    obtain ⟨q, v⟩ := i
    rw [itemLines_cons, List.append_assoc]
    cases v with
    | none => exact after
    | some v => exact not_begins_cons here v _

theorem item_unique {i j : Item} (start : i.start = j.start) {xs ys : List (List Char)}
    (hx : ¬ Begins i.start xs) (hy : ¬ Begins j.start ys)
    (h : itemLines [i] ++ xs = itemLines [j] ++ ys) : i = j ∧ xs = ys := by
  obtain ⟨p, v⟩ := i
  obtain ⟨q, w⟩ := j
  obtain rfl : p = q := start
  cases v with
  | none =>
    cases w with
    | none => exact ⟨rfl, h⟩
    | some w =>
      obtain rfl : xs = (p ++ w) :: ys := h
      exact absurd (begins_append p w ys) hx
  | some v =>
    cases w with
    | none =>
      obtain rfl : (p ++ v) :: xs = ys := h
      exact absurd (begins_append p v xs) hy
    | some w =>
      obtain ⟨line, rest⟩ := List.cons.inj h
      rw [List.append_cancel_left line]
      exact ⟨rfl, rest⟩

theorem items_unique : ∀ {is js : List Item} {xs ys : List (List Char)},
    is.map (·.start) = js.map (·.start) → (is.map (·.start)).Pairwise Apart →
      (∀ p ∈ is.map (·.start), ¬ Begins p xs ∧ ¬ Begins p ys) →
      itemLines is ++ xs = itemLines js ++ ys → is = js ∧ xs = ys
  | [], [], _, _, _, _, _, h => ⟨rfl, h⟩
  | i :: is, j :: js, xs, ys, starts, apart, rest, h => by
    obtain ⟨start, after⟩ : i.start = j.start ∧ is.map (·.start) = js.map (·.start) :=
      List.cons.inj starts
    obtain ⟨here, apart⟩ := List.pairwise_cons.mp apart
    obtain ⟨⟨notX, notY⟩, rest⟩ := List.forall_mem_cons.mp rest
    rw [itemLines_cons i is, itemLines_cons j js, List.append_assoc, List.append_assoc] at h
    have notLeft : ¬ Begins i.start (itemLines is ++ xs) :=
      not_begins_items notX fun k hk => here _ (List.mem_map_of_mem hk)
    have notRight : ¬ Begins j.start (itemLines js ++ ys) := by
      rw [← start]
      refine not_begins_items notY fun k hk => here _ ?_
      rw [after]
      exact List.mem_map_of_mem hk
    obtain ⟨same, remains⟩ := item_unique start notLeft notRight h
    obtain ⟨sames, remains⟩ := items_unique after apart rest remains
    exact ⟨by rw [same, sames], remains⟩

/-! ## The lines of a filter -/

def paramItem (name value : String) : Item :=
  ⟨("    " ++ name ++ ": ").toList, if value = "" then none else some value.toList⟩

def flagItem (name : String) (value : Bool) : Item :=
  ⟨("    " ++ name).toList, if value then some [] else none⟩

theorem ended_itemLines (is : List Item) :
    ended (itemLines is) = is.flatMap fun i => ended (itemLines [i]) := by
  induction is with
  | nil => rfl
  | cons i is ih => rw [itemLines_cons, ended_append, ih, List.flatMap_cons]

theorem ended_paramItem (name value : String) :
    ended (itemLines [paramItem name value]) = (paramLine name value).toList := by
  by_cases unset : value = ""
  · simp [paramItem, paramLine, itemLines, unset, ended]
  · simp [paramItem, paramLine, itemLines, unset, ended]

theorem ended_flagItem (name : String) (value : Bool) :
    ended (itemLines [flagItem name value]) = (flagLine name value).toList := by
  cases value <;> simp [flagItem, flagLine, itemLines, ended]

theorem paramItem_injective {name value value' : String}
    (h : paramItem name value = paramItem name value') : value = value' := by
  simp only [paramItem, Item.mk.injEq, true_and] at h
  split at h <;> split at h <;> simp_all [String.toList_inj]

theorem flagItem_injective {name : String} {value value' : Bool}
    (h : flagItem name value = flagItem name value') : value = value' := by
  cases value <;> cases value' <;> simp_all [flagItem]

namespace Filter

def criteriaItems (c : Criteria) : List Item :=
  [paramItem "from" c.sender, paramItem "to" c.recipient, paramItem "subject" c.subject]

def queryLines (query : String) : List (List Char) :=
  if query = "" then [] else ("    query: ".toList ++ (indented query 2).toList).splitOn '\n'

def actionItems (a : Action) : List Item :=
  [flagItem "archive" a.archive, flagItem "delete" a.delete,
    flagItem "mark as important" a.markImportant,
    flagItem "never mark as important" a.markNotImportant,
    flagItem "never mark as spam" a.markNotSpam, flagItem "mark as read" a.markRead,
    flagItem "star" a.star, paramItem "categorize as" ((a.category.map (·.name)).getD ""),
    paramItem "apply label" a.label, paramItem "forward to" a.forward]

def heading : List Char := "* Criteria:".toList

def actionHeading : List Char := "  Actions:".toList

/-- The lines above the heading, which are shown if asked for. -/
def searchLines (debug : Bool) (f : Filter) : List (List Char) :=
  if debug then [("# Search: " ++ f.criteria.search).toList,
    ("# URL: " ++ searchAddress f.criteria).toList] else []

/-- The lines below the heading, with the empty line that follows. -/
def bodyLines (f : Filter) : List (List Char) :=
  itemLines (criteriaItems f.criteria) ++ queryLines f.criteria.query ++
    actionHeading :: (itemLines (actionItems f.action) ++ [[]])

def block (debug : Bool) (f : Filter) : List (List Char) :=
  searchLines debug f ++ heading :: bodyLines f

theorem indented_eq_empty_iff {query : String} {level : Int} :
    indented query level = "" ↔ query = "" := by
  by_cases wrapped : Wrapped query
  · refine iff_of_false (fun empty => ?_) (fun empty => ?_)
    · have := toList_indented level wrapped
      simp [empty] at this
    · exact not_wrapped_empty (empty ▸ wrapped)
  · rw [indented_of_not level wrapped]

theorem ended_queryLines (query : String) :
    ended (queryLines query) = (paramLine "query" (indented query 2)).toList := by
  rw [queryLines, paramLine]
  by_cases unset : query = ""
  · rw [if_pos unset, if_pos (indented_eq_empty_iff.mpr unset)]
    rfl
  · rw [if_neg unset, if_neg (mt indented_eq_empty_iff.mp unset), Text.ended_splitOn]
    simp

theorem ended_render (f : Filter) : ended (heading :: bodyLines f) =
    f.render.toList ++ ['\n'] := by
  have top : "* Criteria:\n".toList = heading ++ ['\n'] := by decide
  have middle : "  Actions:\n".toList = actionHeading ++ ['\n'] := by decide
  have bottom : ended [[]] = ['\n'] := rfl
  rw [ended_cons, bodyLines, ended_append, ended_append, ended_cons, ended_append,
    ended_itemLines, ended_itemLines, ended_queryLines]
  simp [render, criteriaText, actionText, criteriaItems, actionItems, ended_paramItem,
    ended_flagItem, top, middle, bottom]

theorem ended_block (debug : Bool) (f : Filter) : ended (block debug f) =
    (if debug then f.renderDebug else f.render).toList ++ ['\n'] := by
  have address : "\n# URL: ".toList = '\n' :: "# URL: ".toList := by decide
  rw [block, ended_append, ended_render]
  cases debug with
  | false => rfl
  | true => simp [searchLines, renderDebug, ended, address]

/-! ## Lines without line feeds -/

/-- No text of a filter has a line feed. -/
structure OneLined (f : Filter) : Prop where
  sender : '\n' ∉ f.criteria.sender.toList
  recipient : '\n' ∉ f.criteria.recipient.toList
  subject : '\n' ∉ f.criteria.subject.toList
  query : '\n' ∉ f.criteria.query.toList
  label : '\n' ∉ f.action.label.toList
  forward : '\n' ∉ f.action.forward.toList

theorem feedless_items {is : List Item}
    (h : ∀ i ∈ is, '\n' ∉ i.start ∧ ∀ v ∈ i.value, '\n' ∉ v) : ∀ l ∈ itemLines is, '\n' ∉ l := by
  intro l hl
  obtain ⟨i, hi, there⟩ := List.mem_filterMap.mp hl
  obtain ⟨v, hv, rfl⟩ := Option.map_eq_some_iff.mp there
  obtain ⟨start, value⟩ := h i hi
  simp [start, value v hv]

theorem feedless_param {name value : String} (hn : '\n' ∉ name.toList) (hv : '\n' ∉ value.toList) :
    '\n' ∉ (paramItem name value).start ∧ ∀ v ∈ (paramItem name value).value, '\n' ∉ v := by
  constructor
  · simp [paramItem, hn]
  · simp only [paramItem]
    split <;> simp [hv]

theorem feedless_flag {name : String} (hn : '\n' ∉ name.toList) (value : Bool) :
    '\n' ∉ (flagItem name value).start ∧ ∀ v ∈ (flagItem name value).value, '\n' ∉ v := by
  cases value <;> simp [flagItem, hn]

theorem feedless_name (c : Option Category) : '\n' ∉ ((c.map (·.name)).getD "").toList := by
  cases c with
  | none => decide
  | some c => cases c <;> decide

theorem feedless_queryLines (query : String) : ∀ l ∈ queryLines query, '\n' ∉ l := by
  intro l hl
  rw [queryLines] at hl
  split at hl
  · cases hl
  · exact Text.not_mem_of_mem_splitOn hl

theorem feedless_bodyLines {f : Filter} (h : f.OneLined) : ∀ l ∈ bodyLines f, '\n' ∉ l := by
  have criteria : ∀ l ∈ itemLines (criteriaItems f.criteria), '\n' ∉ l := by
    refine feedless_items ?_
    simp only [criteriaItems, List.forall_mem_cons]
    exact ⟨feedless_param (by decide) h.sender, feedless_param (by decide) h.recipient,
      feedless_param (by decide) h.subject, by simp⟩
  have action : ∀ l ∈ itemLines (actionItems f.action), '\n' ∉ l := by
    refine feedless_items ?_
    simp only [actionItems, List.forall_mem_cons]
    refine ⟨?_, ?_, ?_, ?_, ?_, ?_, ?_, feedless_param (by decide) (feedless_name _),
      feedless_param (by decide) h.label, feedless_param (by decide) h.forward, by simp⟩
    all_goals exact feedless_flag (by decide) _
  have middle : '\n' ∉ actionHeading := by decide
  simp only [bodyLines, List.forall_mem_append, List.forall_mem_cons]
  exact ⟨⟨criteria, feedless_queryLines _⟩, middle, action, by simp⟩

theorem feedless_intercalate : ∀ {ss : List String}, (∀ s ∈ ss, '\n' ∉ s.toList) →
    '\n' ∉ (String.intercalate " " ss).toList
  | [], _ => by decide
  | [s], h => by simpa using h
  | s :: t :: ss, h => by
    obtain ⟨first, h⟩ := List.forall_mem_cons.mp h
    have rest := feedless_intercalate h
    rw [String.intercalate_cons_cons, String.toList_append, String.toList_append]
    simp only [List.mem_append, not_or]
    exact ⟨⟨first, by decide⟩, rest⟩

theorem feedless_search {f : Filter} (h : f.OneLined) : '\n' ∉ f.criteria.search.toList := by
  have field {name value : String} (hn : '\n' ∉ name.toList) (hv : '\n' ∉ value.toList) :
      ∀ s ∈ if value = "" then [] else [name ++ value], '\n' ∉ s.toList := by
    split <;> simp [hn, hv]
  refine feedless_intercalate ?_
  simp only [List.forall_mem_append]
  exact ⟨⟨⟨field (by decide) h.sender, field (by decide) h.recipient⟩,
    field (by decide) h.subject⟩, field (by decide) h.query⟩

theorem feedless_percentByte (b : UInt8) : '\n' ∉ Text.percentByte b := by
  have digit : ∀ n < 16, Text.hexDigitUpper n ≠ '\n' := by decide
  rw [Text.percentByte]
  split
  · next unreserved =>
    intro feed
    simp only [Text.isUnreserved, Bool.and_eq_true, ← List.mem_singleton.mp feed] at unreserved
    exact absurd unreserved.2 (by decide)
  · split
    · decide
    · have := b.toNat_lt
      have := digit (b.toNat / 16) (by omega)
      have := digit (b.toNat % 16) (by omega)
      grind

theorem feedless_searchLines {f : Filter} (h : f.OneLined) (debug : Bool) :
    ∀ l ∈ searchLines debug f, '\n' ∉ l := by
  cases debug with
  | false => exact List.forall_mem_nil _
  | true =>
    have address : '\n' ∉ (Text.percentEncoded f.criteria.search).toList := by
      rw [Text.percentEncoded, String.toList_ofList, List.mem_flatMap]
      rintro ⟨b, -, hb⟩
      exact feedless_percentByte b hb
    have labels : '\n' ∉ "# Search: ".toList ∧ '\n' ∉ "# URL: ".toList ∧
        '\n' ∉ "https://mail.google.com/mail/u/0/#search/".toList := by decide
    unfold searchLines searchAddress
    simp only [if_true, String.toList_append, List.forall_mem_cons, List.mem_append, not_or]
    exact ⟨⟨labels.1, feedless_search h⟩, ⟨labels.2.1, labels.2.2, address⟩, List.forall_mem_nil _⟩

theorem feedless_block {f : Filter} (h : f.OneLined) (debug : Bool) :
    ∀ l ∈ block debug f, '\n' ∉ l := by
  have top : '\n' ∉ heading := by decide
  rw [block, List.forall_mem_append, List.forall_mem_cons]
  exact ⟨feedless_searchLines h debug, top, feedless_bodyLines h⟩

/-! ## Headings -/

theorem exists_prefix_of_mem_items {l : List Char} {is : List Item} (h : l ∈ itemLines is) :
    ∃ i ∈ is, i.start <+: l := by
  obtain ⟨i, hi, there⟩ := List.mem_filterMap.mp h
  obtain ⟨v, -, rfl⟩ := Option.map_eq_some_iff.mp there
  exact ⟨i, hi, List.prefix_append i.start v⟩

theorem starts_criteria (c : Criteria) : (criteriaItems c).map (·.start) =
    ["    from: ".toList, "    to: ".toList, "    subject: ".toList] := by
  simp only [criteriaItems, paramItem, List.map_cons, List.map_nil]
  decide

theorem starts_action (a : Action) : (actionItems a).map (·.start) =
    ["    archive".toList, "    delete".toList, "    mark as important".toList,
      "    never mark as important".toList, "    never mark as spam".toList,
      "    mark as read".toList, "    star".toList, "    categorize as: ".toList,
      "    apply label: ".toList, "    forward to: ".toList] := by
  simp only [actionItems, paramItem, flagItem, List.map_cons, List.map_nil]
  decide

theorem not_mem_items {l : List Char} {is : List Item}
    (h : ∀ p ∈ is.map (·.start), ¬ p <+: l) : l ∉ itemLines is := by
  intro mem
  obtain ⟨i, hi, begins⟩ := exists_prefix_of_mem_items mem
  exact h i.start (List.mem_map_of_mem hi) begins

theorem heading_not_mem_queryLines {query : String} (h : '\n' ∉ query.toList) :
    heading ∉ queryLines query := by
  rw [queryLines]
  split
  · simp
  · intro mem
    have starred : ['\n', '*', ' '] <:+: '\n' :: heading := by decide
    have within := starred.trans (Text.infix_of_mem_splitOn mem)
    have start : "    query: ".toList =
        [' ', ' ', ' ', ' ', 'q', 'u', 'e', 'r', 'y', ':', ' '] := by decide
    rw [start] at within
    refine not_starred_indented h 2 ?_
    simpa [List.infix_cons_iff] using within

theorem heading_not_mem_bodyLines {f : Filter} (h : f.OneLined) : heading ∉ bodyLines f := by
  have criteria : heading ∉ itemLines (criteriaItems f.criteria) := by
    refine not_mem_items ?_
    rw [starts_criteria]
    decide
  have action : heading ∉ itemLines (actionItems f.action) := by
    refine not_mem_items ?_
    rw [starts_action]
    decide
  have middle : heading ≠ actionHeading := by decide
  have bottom : heading ∉ [[]] := by decide
  simp only [bodyLines, List.mem_append, List.mem_cons, not_or] at bottom ⊢
  exact ⟨⟨criteria, heading_not_mem_queryLines h.query⟩, middle, action, bottom⟩

theorem heading_not_mem_searchLines (debug : Bool) (f : Filter) :
    heading ∉ searchLines debug f := by
  cases debug with
  | false => exact List.not_mem_nil
  | true =>
    have apart : ¬ "# Search: ".toList <+: heading ∧ ¬ "# URL: ".toList <+: heading := by decide
    simp only [searchLines, if_true, String.toList_append, List.mem_cons, not_or]
    refine ⟨fun same => apart.1 ?_, fun same => apart.2 ?_, List.not_mem_nil⟩
    · exact same ▸ List.prefix_append _ _
    · exact same ▸ List.prefix_append _ _

/-! ## Filters with the same lines -/

/-- Two filters are the same, up to blanks in their searches that are not shown. -/
structure Alike (f g : Filter) : Prop where
  sender : f.criteria.sender = g.criteria.sender
  recipient : f.criteria.recipient = g.criteria.recipient
  subject : f.criteria.subject = g.criteria.subject
  query : Respaced f.criteria.query g.criteria.query
  action : f.action = g.action

theorem queryLines_eq_iff {query query' : String} (h : '\n' ∉ query.toList)
    (h' : '\n' ∉ query'.toList) :
    queryLines query = queryLines query' ↔ Respaced query query' := by
  rw [← indented_eq_iff h h' 2, queryLines, queryLines]
  by_cases unset : query = ""
  · by_cases unset' : query' = ""
    · exact iff_of_true (by rw [if_pos unset, if_pos unset']) (by rw [unset, unset'])
    · rw [if_pos unset, if_neg unset', unset]
      refine iff_of_false (fun same => List.splitOn_ne_nil _ _ same.symm) fun same => unset' ?_
      exact indented_eq_empty_iff.mp (same ▸ indented_eq_empty_iff.mpr rfl)
  · by_cases unset' : query' = ""
    · rw [if_neg unset, if_pos unset', unset']
      refine iff_of_false (fun same => List.splitOn_ne_nil _ _ same) fun same => unset ?_
      exact indented_eq_empty_iff.mp (same ▸ indented_eq_empty_iff.mpr rfl)
    · rw [if_neg unset, if_neg unset']
      constructor
      · intro same
        exact String.toList_inj.mp (List.append_cancel_left (Text.splitOn_injective same))
      · intro same
        rw [same]

theorem not_begins_queryLines {p : List Char} (apart : Apart p "    query: ".toList)
    (query : String) : ¬ Begins p (queryLines query) := by
  rw [queryLines]
  split
  · exact not_begins_nil p
  · have start : '\n' ∉ "    query: ".toList := by decide
    obtain ⟨l, ls, parts⟩ := Text.splitOn_append (indented query 2).toList start
    rw [parts]
    exact not_begins_cons apart l ls

theorem criteria_unique {c d : Criteria} (h : itemLines (criteriaItems c) ++ queryLines c.query =
    itemLines (criteriaItems d) ++ queryLines d.query) :
    c.sender = d.sender ∧ c.recipient = d.recipient ∧ c.subject = d.subject ∧
      queryLines c.query = queryLines d.query := by
  have starts : (criteriaItems c).map (·.start) = (criteriaItems d).map (·.start) := by
    rw [starts_criteria, starts_criteria]
  obtain ⟨items, query⟩ := items_unique starts (by rw [starts_criteria]; decide)
    (fun p hp => by
      have apart : Apart p "    query: ".toList := by
        rw [starts_criteria] at hp
        revert p
        decide
      exact ⟨not_begins_queryLines apart _, not_begins_queryLines apart _⟩) h
  simp only [criteriaItems, List.cons.injEq, and_true] at items
  exact ⟨paramItem_injective items.1, paramItem_injective items.2.1,
    paramItem_injective items.2.2, query⟩

theorem category_eq_of_name_eq : ∀ {c d : Option Category},
    (c.map (·.name)).getD "" = (d.map (·.name)).getD "" → c = d
  | none, none, _ => rfl
  | none, some d, h => by cases d <;> exact absurd h (by decide)
  | some c, none, h => by cases c <;> exact absurd h (by decide)
  | some c, some d, h => by
    replace h : c.name = d.name := h
    rw [← Category.ofName?_name c, h, Category.ofName?_name]

theorem action_unique {a b : Action} (h : itemLines (actionItems a) = itemLines (actionItems b)) :
    a = b := by
  have starts : (actionItems a).map (·.start) = (actionItems b).map (·.start) := by
    rw [starts_action, starts_action]
  obtain ⟨items, -⟩ := items_unique starts (by rw [starts_action]; decide)
    (fun p _ => ⟨not_begins_nil p, not_begins_nil p⟩) (congrArg (· ++ []) h)
  simp only [actionItems, List.cons.injEq, and_true] at items
  obtain ⟨archive, delete, important, notImportant, notSpam, read, star, category, label,
    forward⟩ := items
  cases a
  cases b
  rw [Action.mk.injEq]
  exact ⟨paramItem_injective label, category_eq_of_name_eq (paramItem_injective category),
    flagItem_injective archive, flagItem_injective delete, flagItem_injective important,
    flagItem_injective notImportant, flagItem_injective read, flagItem_injective notSpam,
    flagItem_injective star, paramItem_injective forward⟩

theorem bodyLines_eq_iff {f g : Filter} (hf : f.OneLined) (hg : g.OneLined) :
    bodyLines f = bodyLines g ↔ f.Alike g := by
  constructor
  · intro same
    -- A line of the search may look like the heading of the action, but no line below it does.
    have below (a : Action) : actionHeading ∉ itemLines (actionItems a) ++ [[]] := by
      rw [List.mem_append, not_or]
      refine ⟨not_mem_items ?_, by decide⟩
      rw [starts_action]
      decide
    obtain ⟨criteria, action⟩ := Text.cut_last (below f.action) (below g.action) same
    obtain ⟨sender, recipient, subject, query⟩ := criteria_unique criteria
    exact ⟨sender, recipient, subject, (queryLines_eq_iff hf.query hg.query).mp query,
      action_unique (List.append_cancel_right action)⟩
  · rintro ⟨sender, recipient, subject, query, action⟩
    rw [bodyLines, bodyLines, criteriaItems, criteriaItems, sender, recipient, subject,
      (queryLines_eq_iff hf.query hg.query).mpr query, action]

/-! ## Filters one below the other -/

theorem ended_blocks (debug : Bool) : ∀ {fs : List Filter}, fs ≠ [] →
    ended (fs.flatMap (block debug)) = (renderAll debug fs).toList ++ ['\n']
  | [f], _ => by
    rw [List.flatMap_singleton, ended_block]
    rfl
  | f :: g :: fs, _ => by
    rw [List.flatMap_cons, ended_append, ended_block, ended_blocks debug (List.cons_ne_nil g fs),
      renderAll, renderAll, List.map_cons, List.map_cons, List.map_cons,
      String.intercalate_cons_cons]
    simp

theorem renderAll_ne_empty (debug : Bool) {fs : List Filter} (some : fs ≠ []) :
    renderAll debug fs ≠ "" := by
  intro empty
  have star : '*' ∈ ended (fs.flatMap (block debug)) := by
    obtain ⟨f, fs, rfl⟩ := List.exists_cons_of_ne_nil some
    exact List.mem_flatMap.mpr ⟨heading, by simp [block], by decide⟩
  rw [ended_blocks debug some, empty] at star
  exact absurd star (by decide)

theorem renderAll_eq_iff_blocks {fs gs : List Filter} (hfs : ∀ f ∈ fs, f.OneLined)
    (hgs : ∀ g ∈ gs, g.OneLined) (debug : Bool) : renderAll debug fs = renderAll debug gs ↔
      fs.flatMap (block debug) = gs.flatMap (block debug) := by
  have feedless {fs : List Filter} (h : ∀ f ∈ fs, f.OneLined) :
      ∀ l ∈ fs.flatMap (block debug), '\n' ∉ l := by
    intro l hl
    obtain ⟨f, hf, hl⟩ := List.mem_flatMap.mp hl
    exact feedless_block (h f hf) debug l hl
  have blocks {f : Filter} {fs : List Filter} : (f :: fs).flatMap (block debug) ≠ [] := by
    simp [block]
  cases fs with
  | nil =>
    cases gs with
    | nil => exact iff_of_true rfl rfl
    | cons g gs =>
      exact iff_of_false (renderAll_ne_empty debug (List.cons_ne_nil g gs)).symm blocks.symm
  | cons f fs =>
    cases gs with
    | nil => exact iff_of_false (renderAll_ne_empty debug (List.cons_ne_nil f fs)) blocks
    | cons g gs =>
      have text := ended_blocks debug (List.cons_ne_nil f fs)
      have text' := ended_blocks debug (List.cons_ne_nil g gs)
      constructor
      · intro same
        rw [same, ← text'] at text
        exact Text.ended_injective (feedless hfs) (feedless hgs) text
      · intro same
        rw [same, text'] at text
        exact String.toList_inj.mp (List.append_cancel_right text).symm

theorem blocks_eq_iff {fs gs : List Filter} (hfs : ∀ f ∈ fs, f.OneLined)
    (hgs : ∀ g ∈ gs, g.OneLined) (debug : Bool) :
    fs.flatMap (block debug) = gs.flatMap (block debug) ↔ List.Forall₂ (fun f g =>
      searchLines debug f = searchLines debug g ∧ bodyLines f = bodyLines g) fs gs := by
  constructor
  · intro same
    refine (Text.blocks_unique (if debug then 2 else 0) (fun f hf => ?_)
      (List.not_mem_nil (a := heading)) List.not_mem_nil same).2
    have lined : f.OneLined := (List.mem_append.mp hf).elim (hfs f) (hgs f)
    refine ⟨?_, heading_not_mem_searchLines debug f, heading_not_mem_bodyLines lined⟩
    cases debug <;> rfl
  · intro same
    induction same with
    | nil => rfl
    | cons here _ ih =>
      rw [List.forall_mem_cons] at hfs hgs
      rw [List.flatMap_cons, List.flatMap_cons, block, block, here.1, here.2, ih hfs.2 hgs.2]

/-- When two lists of filters have the same text: filters at the same place are alike and, if
searches are shown as well, have the same search. -/
theorem renderAll_eq_iff {fs gs : List Filter} (hfs : ∀ f ∈ fs, f.OneLined)
    (hgs : ∀ g ∈ gs, g.OneLined) (debug : Bool) : renderAll debug fs = renderAll debug gs ↔
      List.Forall₂ (fun f g => searchLines debug f = searchLines debug g ∧ f.Alike g) fs gs := by
  rw [renderAll_eq_iff_blocks hfs hgs, blocks_eq_iff hfs hgs, List.forall₂_iff_zip,
    List.forall₂_iff_zip]
  refine and_congr_right fun _ => forall₂_congr fun f g => ?_
  refine forall_congr' fun mem => and_congr_right fun _ => ?_
  obtain ⟨hf, hg⟩ := List.of_mem_zip mem
  exact bodyLines_eq_iff (hfs f hf) (hgs g hg)

theorem last_of_intercalate {ss : List String} {s t : String}
    (h : String.intercalate " " (ss ++ [s]) = String.intercalate " " (ss ++ [t])) : s = t := by
  by_cases alone : ss = []
  · simpa [alone] using h
  · rw [String.intercalate_append_of_ne_nil alone (List.cons_ne_nil s []),
      String.intercalate_append_of_ne_nil alone (List.cons_ne_nil t [])] at h
    simpa [← String.toList_inj] using h

theorem Alike.criteria_eq {f g : Filter} (h : f.Alike g)
    (search : f.criteria.search = g.criteria.search) : f.criteria = g.criteria := by
  obtain ⟨sender, recipient, subject, query, -⟩ := h
  suffices f.criteria.query = g.criteria.query by
    cases hf : f.criteria
    cases hg : g.criteria
    simp_all
  rcases query with same | ⟨wrapped, wrapped', -⟩
  · exact same
  · have set {q : String} (wrapped : Wrapped q) : q ≠ "" := by
      rintro rfl
      exact not_wrapped_empty wrapped
    simp only [Criteria.search, sender, recipient, subject, if_neg (set wrapped),
      if_neg (set wrapped'), String.empty_append] at search
    exact last_of_intercalate search

theorem searchLines_true_eq_iff {f g : Filter} : searchLines true f = searchLines true g ↔
    f.criteria.search = g.criteria.search := by
  constructor
  · intro same
    have first := (List.cons.inj same).1
    simpa [String.toList_inj] using first
  · intro same
    unfold searchLines searchAddress
    rw [same]

theorem renderAll_false_eq_iff {fs gs : List Filter} (hfs : ∀ f ∈ fs, f.OneLined)
    (hgs : ∀ g ∈ gs, g.OneLined) : renderAll false fs = renderAll false gs ↔
      List.Forall₂ Alike fs gs := by
  have none (f : Filter) : searchLines false f = [] := rfl
  simp only [renderAll_eq_iff hfs hgs, none, true_and]

theorem renderAll_true_eq_iff {fs gs : List Filter} (hfs : ∀ f ∈ fs, f.OneLined)
    (hgs : ∀ g ∈ gs, g.OneLined) : renderAll true fs = renderAll true gs ↔
      List.Forall₂ (fun f g => f.criteria = g.criteria ∧ f.action = g.action) fs gs := by
  have same (f g : Filter) : searchLines true f = searchLines true g ∧ f.Alike g ↔
      f.criteria = g.criteria ∧ f.action = g.action := by
    rw [searchLines_true_eq_iff]
    constructor
    · rintro ⟨search, alike⟩
      exact ⟨alike.criteria_eq search, alike.action⟩
    · rintro ⟨criteria, action⟩
      rw [criteria]
      exact ⟨rfl, by rw [criteria], by rw [criteria], by rw [criteria], .inl (by rw [criteria]),
        action⟩
  simp only [renderAll_eq_iff hfs hgs, same]

end Filter

end MailRules.Native
