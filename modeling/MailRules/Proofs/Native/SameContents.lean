import MailRules.Proofs.Json.ReadBack
import MailRules.Proofs.Native.Changes
import MailRules.Proofs.Native.Reordering
import MailRules.Proofs.Sorting
import Mathlib.Data.List.Sort

/-!
The changes between two lists of filters depend on the contents of the lists only.

A content is a criteria and an action. Its canonical text tells it (`contents_eq_of_content_eq`), so
without a collision of digests a filter that is missing is told by its digest, whichever filter of a
list stands for it. Costs, the assignment and the text look at contents only.

What is proved:
  1. `contents_eq_of_content_eq`: filters with one canonical text have the same contents.
  2. `Missing.contents_eq`: the contents that one list lacks of another, and their order, depend on
     the contents of both.
  3. `diff_same_contents`: two pairs of lists with the same contents have the same changes, in the
     same order and with the same text.
-/

namespace MailRules.Native

open Json (Exact arrangedFields_eq)

/-! ## Contents -/

/-- What a filter is, its id aside. -/
def Filter.contents (f : Filter) : Criteria × Action := (f.criteria, f.action)

theorem full_criteria (c : Criteria) : c.written.full = .obj [("from", .str c.sender),
    ("to", .str c.recipient), ("subject", .str c.subject), ("query", .str c.query)] := rfl

theorem full_action (a : Action) : a.written.full = .obj [("add_label", .str a.label),
    ("category", .ofText? (a.category.map (·.name))), ("archive", .bool a.archive),
    ("delete", .bool a.delete), ("mark_important", .bool a.markImportant),
    ("mark_not_important", .bool a.markNotImportant), ("mark_read", .bool a.markRead),
    ("mark_not_spam", .bool a.markNotSpam), ("star", .bool a.star),
    ("forward", .str a.forward)] := rfl

theorem exact_criteria (c : Criteria) : Exact c.written.full := by
  rw [full_criteria]
  refine .obj (by simp) fun field mem => ?_
  simp only [List.mem_cons, List.not_mem_nil, or_false] at mem
  rcases mem with rfl | rfl | rfl | rfl <;> exact .str _

theorem exact_action (a : Action) : Exact a.written.full := by
  have category : Exact (.ofText? (a.category.map (·.name))) := by
    cases a.category
    · exact .null
    · exact .str _
  rw [full_action]
  refine .obj (by simp) fun field mem => ?_
  simp only [List.mem_cons, List.not_mem_nil, or_false] at mem
  rcases mem with rfl | rfl | rfl | rfl | rfl | rfl | rfl | rfl | rfl | rfl
  all_goals first | exact category | exact .bool _ | exact .str _

theorem criteria_eq_of_arranged_eq {c d : Criteria}
    (h : c.written.full.arranged = d.written.full.arranged) : c = d := by
  rw [full_criteria, full_criteria] at h
  have fields := arrangedFields_eq h rfl (by simp)
  cases c
  cases d
  simpa [Json.arrangedFields, Json.arranged] using fields

theorem category_eq_of_arranged_eq {c d : Option Category}
    (h : (Json.ofText? (c.map (·.name))).arranged = (Json.ofText? (d.map (·.name))).arranged) :
    c = d := by
  cases c with
  | none =>
    cases d with
    | none => rfl
    | some d => simp [Json.ofText?, Json.arranged] at h
  | some c =>
    cases d with
    | none => simp [Json.ofText?, Json.arranged] at h
    | some d =>
      have names : c.name = d.name := by simpa [Json.ofText?, Json.arranged] using h
      have same := congrArg Category.ofName? names
      rwa [Category.ofName?_name, Category.ofName?_name] at same

theorem action_eq_of_arranged_eq {a b : Action}
    (h : a.written.full.arranged = b.written.full.arranged) : a = b := by
  rw [full_action, full_action] at h
  have fields := arrangedFields_eq h rfl (by simp)
  cases a
  cases b
  simp only [Json.arrangedFields, List.cons.injEq, Prod.mk.injEq, true_and, and_true] at fields
  obtain ⟨h1, category, h2⟩ := fields
  have category := category_eq_of_arranged_eq category
  simp_all [Json.arranged]

theorem contents_eq_of_content_eq {f g : Filter} (h : f.content = g.content) :
    f.contents = g.contents := by
  have exact (f : Filter) : Exact (.obj
      [("criteria", f.criteria.written.full), ("action", f.action.written.full)]) := by
    refine .obj (by simp) fun field mem => ?_
    simp only [List.mem_cons, List.not_mem_nil, or_false] at mem
    rcases mem with rfl | rfl
    · exact exact_criteria _
    · exact exact_action _
  have fields := arrangedFields_eq
    (Json.arranged_eq_of_canonical_eq (exact f) (exact g) h) rfl (by simp)
  simp only [Json.arrangedFields, List.cons.injEq, Prod.mk.injEq, true_and, and_true] at fields
  exact Prod.ext (criteria_eq_of_arranged_eq fields.1) (action_eq_of_arranged_eq fields.2)

/-- A filter without an id. -/
def Filter.ofContents (c : Criteria × Action) : Filter := { criteria := c.1, action := c.2 }

/-- Two lists with the same contents: in any order, any number of times and with any ids. -/
def SameContents (fs gs : List Filter) : Prop :=
  ∀ c, c ∈ fs.map Filter.contents ↔ c ∈ gs.map Filter.contents

/-- Filters of which no two have different contents with one digest. -/
def NoCollision (fs : List Filter) : Prop :=
  ∀ f ∈ fs, ∀ g ∈ fs, f.contentHash = g.contentHash → f.content = g.content

theorem SameContents.digests {fs gs : List Filter} (h : SameContents fs gs) (d : String) :
    d ∈ fs.map Filter.contentHash ↔ d ∈ gs.map Filter.contentHash := by
  have digests (fs : List Filter) : fs.map Filter.contentHash =
      (fs.map Filter.contents).map fun c => (Filter.ofContents c).contentHash := by
    rw [List.map_map]
    rfl
  rw [digests fs, digests gs, List.mem_map, List.mem_map]
  simp only [h _]

theorem Missing.subset {fs others out : List Filter} (h : Missing fs others out) : out ⊆ fs :=
  fun f hf => List.mem_of_find?_eq_some (h.first f hf)

/-- What one list lacks of another depends on the contents of both. -/
theorem Missing.contents_eq {fs fs' others others' out out' : List Filter}
    (apart : NoCollision (fs ++ fs')) (h : Missing fs others out) (h' : Missing fs' others' out')
    (same : SameContents fs fs') (same' : SameContents others others') :
    out.map Filter.contents = out'.map Filter.contents := by
  have digests : out.map Filter.contentHash = out'.map Filter.contentHash := by
    refine h.ascending.eq_of_mem_iff h'.ascending fun d => ?_
    rw [h.exact, h'.exact, same.digests, same'.digests]
  refine eq_of_map_eq_map (f := fun c => (Filter.ofContents c).contentHash) ?_ ?_
  · intro c hc c' hc' one
    obtain ⟨f, hf, rfl⟩ := List.mem_map.mp hc
    obtain ⟨g, hg, rfl⟩ := List.mem_map.mp hc'
    exact contents_eq_of_content_eq (apart f (List.mem_append_left _ (h.subset hf)) g
      (List.mem_append_right _ (h'.subset hg)) one)
  · rw [List.map_map, List.map_map]
    exact digests

/-! ## The order in which changes are shown -/

theorem costs_dissimilarity (fs gs : List Filter) : costs dissimilarity fs gs =
    costs dissimilarity ((fs.map Filter.contents).map Filter.ofContents)
      ((gs.map Filter.contents).map Filter.ofContents) := by
  simp only [costs, List.map_map]
  rfl

theorem renderAll_eq (debug : Bool) (fs : List Filter) : Filter.renderAll debug fs =
    Filter.renderAll debug ((fs.map Filter.contents).map Filter.ofContents) := by
  simp only [Filter.renderAll, List.map_map]
  rfl

theorem reorderBySimilarity_contents {fs fs' gs gs' : List Filter}
    (rows : fs.map Filter.contents = fs'.map Filter.contents)
    (columns : gs.map Filter.contents = gs'.map Filter.contents) (some : fs ≠ []) :
    ∃ a r a' r', reorderBySimilarity fs gs = .ok (a, r) ∧
      reorderBySimilarity fs' gs' = .ok (a', r') ∧
      a.map Filter.contents = a'.map Filter.contents ∧
      r.map Filter.contents = r'.map Filter.contents := by
  have some' : fs' ≠ [] := by
    rintro rfl
    exact some (List.map_eq_nil_iff.mp rows)
  obtain ⟨a, r, made, _⟩ := reorderBy_eq_ok dissimilarity gs some
  obtain ⟨a', r', made', _⟩ := reorderBy_eq_ok dissimilarity gs' some'
  refine ⟨a, r, a', r', made, made', ?_⟩
  have sameCosts : costs dissimilarity fs gs = costs dissimilarity fs' gs' := by
    rw [costs_dissimilarity, rows, columns, ← costs_dissimilarity]
  rw [reorderBy, sameCosts] at made
  rw [reorderBy] at made'
  -- The same contents are put in the same order.
  have order := reorder_map Filter.contents Filter.contents fs gs
    (Assignment.optimal (costs dissimilarity fs' gs'))
  rw [rows, columns, reorder_map, made, made'] at order
  simpa [Except.map, eq_comm] using order

/-- What is on one side only of two lists depends on their contents, and so does its order. -/
theorem changed_contents {observed observed' desired desired' : List Filter}
    (apart : NoCollision (observed ++ observed' ++ (desired ++ desired')))
    (sameObserved : SameContents observed observed') (sameDesired : SameContents desired desired') :
    (changed observed desired).added.map Filter.contents =
        (changed observed' desired').added.map Filter.contents ∧
      (changed observed desired).removed.map Filter.contents =
        (changed observed' desired').removed.map Filter.contents := by
  constructor
  · refine (missing_added observed desired).contents_eq ?_ (missing_added observed' desired')
      sameDesired sameObserved
    exact fun f hf g hg => apart f (List.mem_append_right _ hf) g (List.mem_append_right _ hg)
  · refine (missing_removed observed desired).contents_eq ?_ (missing_removed observed' desired')
      sameObserved sameDesired
    exact fun f hf g hg => apart f (List.mem_append_left _ hf) g (List.mem_append_left _ hg)

theorem text_of_contents {c c' : Changes}
    (added : c.added.map Filter.contents = c'.added.map Filter.contents)
    (removed : c.removed.map Filter.contents = c'.removed.map Filter.contents) (debug : Bool)
    (context : Int) : c.text debug context = c'.text debug context := by
  rw [Changes.text, renderAll_eq debug c.removed, renderAll_eq debug c.added, added, removed,
    ← renderAll_eq, ← renderAll_eq, Changes.text]

/-! ## Filters that differ in a search -/

/-- A filter that archives what a search finds. -/
def archiving (query : String) : Filter := { criteria := { query }, action := { archive := true } }

theorem toList_loop (b : ByteArray) (i : Nat) (read : List UInt8) :
    ByteArray.toList.loop b i read = read.reverse ++ b.data.toList.drop i := by
  fun_induction ByteArray.toList.loop b i read with
  | case1 i read inside ih =>
    have inside : i < b.data.toList.length := inside
    have here : b.get! i = b.data.toList[i] := by
      show b.data[i]! = _
      rw [getElem!_pos b.data i inside]
      rfl
    rw [ih, List.drop_eq_getElem_cons inside, here]
    simp
  | case2 i read outside =>
    rw [List.drop_eq_nil_of_le (Nat.not_lt.mp outside), List.append_nil]

theorem toList_bytes (b : ByteArray) : b.toList = b.data.toList := by
  rw [ByteArray.toList, toList_loop]
  rfl

theorem arrange_eq_insertionSort {fields : List (String × String)}
    (distinct : (fields.map (·.1)).Nodup) :
    Json.Layout.canonical.arrange fields = fields.insertionSort fun a b => a.1 ≤ b.1 := by
  have : Std.Total fun a b : String × String => a.1 ≤ b.1 := ⟨fun a b => String.le_total a.1 b.1⟩
  have : IsTrans (String × String) fun a b => a.1 ≤ b.1 := ⟨fun a b c => String.le_trans⟩
  exact mergeSort_eq_of_sorted (List.perm_insertionSort _ _) distinct
    (List.pairwise_insertionSort _ fields)

/-- The searches of the filters that serve as examples. -/
def queries : List String := ["a b", " a b", "c", "d"]

theorem content_archiving : ∀ query ∈ queries, (archiving query).content =
    "\x7b\"action\":\x7b\"add_label\":\"\",\"archive\":true,\"category\":null,\"delete\":false," ++
      "\"forward\":\"\",\"mark_important\":false,\"mark_not_important\":false," ++
      "\"mark_not_spam\":false,\"mark_read\":false,\"star\":false\x7d,\"criteria\":" ++
      "\x7b\"from\":\"\",\"query\":\"" ++ query ++ "\",\"subject\":\"\",\"to\":\"\"\x7d\x7d" := by
  intro query
  simp only [Filter.content, full_criteria, full_action, Json.canonical, Json.render,
    Json.renderFields]
  rw [arrange_eq_insertionSort (by simp), arrange_eq_insertionSort (by simp),
    arrange_eq_insertionSort (by simp)]
  revert query
  decide +kernel

theorem nodup_contentHash_archiving : (queries.map fun q => (archiving q).contentHash).Nodup := by
  simp only [Filter.contentHash]
  rw [List.map_congr_left fun q hq => congrArg Text.sha256 (content_archiving q hq)]
  simp only [Text.sha256, toList_bytes]
  decide +kernel

theorem noCollision_archiving {fs : List Filter}
    (h : ∀ f ∈ fs, ∃ q ∈ queries, f.contents = (archiving q).contents) : NoCollision fs := by
  have digest (f : Filter) : f.contentHash = (Filter.ofContents f.contents).contentHash := rfl
  have content (f : Filter) : f.content = (Filter.ofContents f.contents).content := rfl
  intro f hf g hg one
  obtain ⟨q, hq, fromQ⟩ := h f hf
  obtain ⟨r, hr, fromR⟩ := h g hg
  rw [digest f, digest g, fromQ, fromR] at one
  have same : q = r := List.inj_on_of_nodup_map nodup_contentHash_archiving hq hr one
  rw [content f, content g, fromQ, fromR, same]

/-! ## The same contents -/

/-- **The changes between two lists of filters depend on the contents of the lists only**, unless
two of the contents have one digest: the order of the lists, repetitions and ids make no difference
to the contents that are added and removed, to their order and to the text. -/
theorem diff_same_contents {observed observed' desired desired' : List Filter}
    (apart : NoCollision (observed ++ observed' ++ (desired ++ desired')))
    (sameObserved : SameContents observed observed') (sameDesired : SameContents desired desired') :
    ∃ c c', diff observed desired = .ok c ∧ diff observed' desired' = .ok c' ∧
      c.added.map Filter.contents = c'.added.map Filter.contents ∧
      c.removed.map Filter.contents = c'.removed.map Filter.contents ∧
      ∀ debug context, c.text debug context = c'.text debug context := by
  suffices ∃ c c', diff observed desired = .ok c ∧ diff observed' desired' = .ok c' ∧
      c.added.map Filter.contents = c'.added.map Filter.contents ∧
      c.removed.map Filter.contents = c'.removed.map Filter.contents by
    obtain ⟨c, c', made, made', added, removed⟩ := this
    exact ⟨c, c', made, made', added, removed, text_of_contents added removed⟩
  obtain ⟨added, removed⟩ := changed_contents apart sameObserved sameDesired
  have empty {fs fs' : List Filter} (h : fs.map Filter.contents = fs'.map Filter.contents) :
      fs.isEmpty = fs'.isEmpty := by
    rw [← List.isEmpty_map (f := Filter.contents), h, List.isEmpty_map]
  by_cases none : ((changed observed desired).added.isEmpty ||
      (changed observed desired).removed.isEmpty) = true
  · have none' := none
    rw [empty added, empty removed] at none'
    exact ⟨_, _, if_pos none, if_pos none', added, removed⟩
  · have none' := none
    rw [empty added, empty removed] at none'
    have some : (changed observed desired).added ≠ [] := fun h => none (by simp [h])
    obtain ⟨a, r, a', r', made, made', one, two⟩ := reorderBySimilarity_contents added removed some
    rw [reorderBySimilarity] at made made'
    refine ⟨⟨a, r⟩, ⟨a', r'⟩, ?_, ?_, one, two⟩
    · rw [diff, diffBy, if_neg none, made]
      rfl
    · rw [diff, diffBy, if_neg none', made']
      rfl

/-- Two filters on either side, in two orders, and one of them twice. -/
theorem diff_same_contents_duplicate :
    let f (id query : String) : Filter := { archiving query with id }
    let observed := [f "1" "a b", f "2" " a b", f "3" "a b"]
    let observed' := [f "4" " a b", f "5" "a b"]
    let desired := [f "6" "c", f "7" "d"]
    let desired' := [f "8" "d", f "9" "c", f "10" "d"]
    NoCollision (observed ++ observed' ++ (desired ++ desired')) ∧
      SameContents observed observed' ∧ SameContents desired desired' ∧
      ∃ c c', diff observed desired = .ok c ∧ diff observed' desired' = .ok c' ∧
        c.added.map Filter.contents = c'.added.map Filter.contents ∧
        c.removed.map Filter.contents = c'.removed.map Filter.contents ∧
        ∀ debug context, c.text debug context = c'.text debug context := by
  intro f observed observed' desired desired'
  have apart : NoCollision (observed ++ observed' ++ (desired ++ desired')) := by
    refine noCollision_archiving fun g hg => ?_
    simp only [observed, observed', desired, desired', List.cons_append, List.nil_append,
      List.mem_cons, List.not_mem_nil, or_false] at hg
    rcases hg with rfl | rfl | rfl | rfl | rfl | rfl | rfl | rfl | rfl | rfl <;>
      exact ⟨_, by decide, rfl⟩
  have sameObserved : SameContents observed observed' := fun c => by
    simp only [observed, observed', f, List.map_cons, List.map_nil, Filter.contents, List.mem_cons]
    grind
  have sameDesired : SameContents desired desired' := fun c => by
    simp only [desired, desired', f, List.map_cons, List.map_nil, Filter.contents, List.mem_cons]
    grind
  exact ⟨apart, sameObserved, sameDesired, diff_same_contents apart sameObserved sameDesired⟩

end MailRules.Native
