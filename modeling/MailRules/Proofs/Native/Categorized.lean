import MailRules.Native.Merge
import MailRules.Proofs.Native.Changes

/-!
Sorting out local and remote filters for a merge loses no filter, tells none twice, and pairs as
many as it can.

Each content counts once on a side, with the first filter that has it (`firsts`). The filters whose
content is on one side only are paired by their criteria: under each criteria the first local filter
with the first remote one, and so on until one side has none left (`Paired`). So only one side has
filters left over under any criteria.

What is proved:
  1. `distinct_eq`: the distinct filters of a list are the first ones.
  2. `takeFirst?_eq_some`, `takeFirst?_eq_none`: what taking out a filter finds and leaves.
  3. `paired_pairUp`: pairing pairs the filters under each criteria in their order.
  4. `categorize_partitions`: the categories are made of both sides, in order and without
     repetition.
-/

namespace MailRules.Native

/-! ## Contents -/

/-- The filters of a list, each content once: of several filters with one content the first. -/
def firsts : List Filter → List Filter
  | [] => []
  | f :: fs => f :: (firsts fs).filter fun g => g.contentHash ≠ f.contentHash

theorem distinctFrom_eq (seen : List String) (fs : List Filter) : distinctFrom seen fs =
    ((firsts fs).filter fun f => f.contentHash ∉ seen).map fun f => (f.contentHash, f) := by
  induction fs generalizing seen with
  | nil => rfl
  | cons f fs ih =>
    rw [distinctFrom, firsts]
    by_cases old : f.contentHash ∈ seen
    · -- What has the content of `f` is left out by what was seen already.
      have left : ∀ g ∈ firsts fs, decide (g.contentHash ∉ seen) =
          (decide (g.contentHash ∉ seen) && decide (g.contentHash ≠ f.contentHash)) := by
        intro g _
        by_cases same : g.contentHash = f.contentHash
        · simp [same, old]
        · simp [same]
      rw [if_pos (by simpa using old), ih, List.filter_cons_of_neg (by simpa using old),
        List.filter_filter, List.filter_congr left]
    · have left : ∀ g ∈ firsts fs, decide (g.contentHash ∉ f.contentHash :: seen) =
          (decide (g.contentHash ∉ seen) && decide (g.contentHash ≠ f.contentHash)) := by
        intro g _
        simp [Bool.and_comm]
      rw [if_neg (by simpa using old), ih, List.filter_cons_of_pos (by simpa using old),
        List.filter_filter, List.filter_congr left, List.map_cons]

theorem distinct_eq (fs : List Filter) :
    distinct fs = (firsts fs).map fun f => (f.contentHash, f) := by
  rw [distinct, distinctFrom_eq, List.filter_eq_self.mpr (by simp)]

theorem nodup_firsts (fs : List Filter) : ((firsts fs).map Filter.contentHash).Nodup := by
  have keys : (distinct fs).map (·.1) = (firsts fs).map Filter.contentHash := by
    rw [distinct_eq, List.map_map]
    rfl
  rw [← keys]
  exact nodup_keys_distinctFrom [] fs

/-- The filters of a list whose content another list has. -/
def shared (fs others : List Filter) : List Filter :=
  fs.filter fun f => f.contentHash ∈ others.map Filter.contentHash

/-- The filters of a list whose content another list lacks. -/
def unshared (fs others : List Filter) : List Filter :=
  fs.filter fun f => f.contentHash ∉ others.map Filter.contentHash

theorem sharing_distinct (present : Bool) (fs others : List Filter) :
    sharing present (distinct fs) (distinct others) =
      (firsts fs).filter fun f =>
        decide (f.contentHash ∈ (firsts others).map Filter.contentHash) = present := by
  have found (f : Filter) : ((distinct others).any fun g => g.1 = f.contentHash) =
      decide (f.contentHash ∈ (firsts others).map Filter.contentHash) := by
    rw [distinct_eq, List.any_map, Bool.eq_iff_iff, List.any_eq_true, decide_eq_true_iff,
      List.mem_map]
    simp
  rw [sharing, distinct_eq fs, List.filter_map, List.map_map]
  simp only [Function.comp_def, found, List.map_id']

theorem sharing_true (fs others : List Filter) :
    sharing true (distinct fs) (distinct others) = shared (firsts fs) (firsts others) := by
  simp only [sharing_distinct, shared, decide_eq_true_iff]

theorem sharing_false (fs others : List Filter) :
    sharing false (distinct fs) (distinct others) = unshared (firsts fs) (firsts others) := by
  simp only [sharing_distinct, unshared, decide_eq_false_iff_not]

theorem shared_append_unshared (fs others : List Filter) :
    (shared fs others ++ unshared fs others).Perm fs := by
  simp only [shared, unshared, decide_not]
  exact List.filter_append_perm _ fs

/-! ## Pairs -/

/-- The filters of a list with criteria of the given digest. -/
def under (key : String) (fs : List Filter) : List Filter :=
  fs.filter fun f => f.criteria.hash = key

theorem under_append (key : String) (fs gs : List Filter) :
    under key (fs ++ gs) = under key fs ++ under key gs := List.filter_append fs gs

theorem under_cons_of_eq {key : String} {f : Filter} (h : f.criteria.hash = key)
    (fs : List Filter) : under key (f :: fs) = f :: under key fs := by
  rw [under, List.filter_cons_of_pos (by simpa using h), under]

theorem under_cons_self (f : Filter) (fs : List Filter) :
    under f.criteria.hash (f :: fs) = f :: under f.criteria.hash fs := under_cons_of_eq rfl fs

theorem under_cons_of_ne {key : String} {f : Filter} (h : f.criteria.hash ≠ key)
    (fs : List Filter) : under key (f :: fs) = under key fs := by
  rw [under, List.filter_cons_of_neg (by simpa using h), under]

theorem under_eq_nil {key : String} {fs : List Filter} (h : ∀ f ∈ fs, f.criteria.hash ≠ key) :
    under key fs = [] := List.filter_eq_nil_iff.mpr (by simpa using h)

theorem mem_under {key : String} {f : Filter} {fs : List Filter} :
    f ∈ under key fs ↔ f ∈ fs ∧ f.criteria.hash = key := by simp [under]

theorem byCriteria_cons (f : Filter) (fs : List Filter) :
    byCriteria (f :: fs) = (f.criteria.hash, f) :: byCriteria fs := List.map_cons

theorem takeFirst?_eq_some {key : String} {g : Filter} {fs : List Filter}
    {rest : List (String × Filter)} (h : takeFirst? key (byCriteria fs) = some (g, rest)) :
    ∃ before after, fs = before ++ g :: after ∧ g.criteria.hash = key ∧
      (∀ f ∈ before, f.criteria.hash ≠ key) ∧ rest = byCriteria (before ++ after) := by
  induction fs generalizing rest with
  | nil => cases h
  | cons f fs ih =>
    rw [byCriteria_cons, takeFirst?] at h
    split at h
    · next found =>
      cases h
      exact ⟨[], fs, rfl, found, List.forall_mem_nil _, rfl⟩
    · next other =>
      obtain ⟨⟨g', rest'⟩, taken, same⟩ := Option.map_eq_some_iff.mp h
      cases same
      obtain ⟨before, after, rfl, found, apart, rfl⟩ := ih taken
      exact ⟨f :: before, after, rfl, found, List.forall_mem_cons.mpr ⟨other, apart⟩, rfl⟩

theorem takeFirst?_eq_none {key : String} {fs : List Filter}
    (h : takeFirst? key (byCriteria fs) = none) : ∀ f ∈ fs, f.criteria.hash ≠ key := by
  induction fs with
  | nil => exact List.forall_mem_nil _
  | cons f fs ih =>
    rw [byCriteria_cons, takeFirst?] at h
    split at h
    · cases h
    · next other =>
      exact List.forall_mem_cons.mpr ⟨other, ih (Option.map_eq_none_iff.mp h)⟩

/-- Two lists of filters paired by their criteria: under each criteria the first of one list with
the first of the other, and so on as long as both have one. -/
structure Paired (ls rs : List Filter) (conflicts : List Conflict)
    (localOnly remoteOnly : List Filter) : Prop where
  inOrder : ∀ key, (conflicts.filter fun c => c.localFilter.criteria.hash = key) =
    List.zipWith Conflict.mk (under key ls) (under key rs)
  localLeft : ∀ key, under key localOnly = (under key ls).drop (under key rs).length
  remoteLeft : ∀ key, under key remoteOnly = (under key rs).drop (under key ls).length
  locals : (localOnly ++ conflicts.map (·.localFilter)).Perm ls
  remotes : (remoteOnly ++ conflicts.map (·.remote)).Perm rs
  localOrder : localOnly.Sublist ls
  remoteOrder : remoteOnly.Sublist rs
  conflictOrder : (conflicts.map (·.localFilter)).Sublist ls

/-- A filter without a counterpart is left over. -/
theorem Paired.alone {ls rs : List Filter} {conflicts : List Conflict}
    {localOnly remoteOnly : List Filter} (h : Paired ls rs conflicts localOnly remoteOnly)
    {f : Filter} (none : ∀ g ∈ rs, g.criteria.hash ≠ f.criteria.hash) :
    Paired (f :: ls) rs conflicts (f :: localOnly) remoteOnly where
  inOrder key := by
    rw [h.inOrder]
    by_cases here : f.criteria.hash = key
    · subst here
      rw [under_eq_nil none, List.zipWith_nil_right, List.zipWith_nil_right]
    · rw [under_cons_of_ne here]
  localLeft key := by
    by_cases here : f.criteria.hash = key
    · subst here
      rw [under_cons_self, under_cons_self, h.localLeft, under_eq_nil none]
      rfl
    · rw [under_cons_of_ne here, under_cons_of_ne here, h.localLeft]
  remoteLeft key := by
    rw [h.remoteLeft]
    by_cases here : f.criteria.hash = key
    · subst here
      rw [under_eq_nil none, List.drop_nil, List.drop_nil]
    · rw [under_cons_of_ne here]
  locals := h.locals.cons f
  remotes := h.remotes
  localOrder := h.localOrder.cons_cons f
  remoteOrder := h.remoteOrder
  conflictOrder := h.conflictOrder.cons f

/-- A filter is paired with the first counterpart. -/
theorem Paired.conflict {ls before after : List Filter} {conflicts : List Conflict}
    {localOnly remoteOnly : List Filter}
    (h : Paired ls (before ++ after) conflicts localOnly remoteOnly) {f g : Filter}
    (same : g.criteria.hash = f.criteria.hash)
    (first : ∀ x ∈ before, x.criteria.hash ≠ f.criteria.hash) :
    Paired (f :: ls) (before ++ g :: after) (⟨f, g⟩ :: conflicts) localOnly remoteOnly := by
  have taken : under f.criteria.hash (before ++ g :: after) =
      g :: under f.criteria.hash (before ++ after) := by
    rw [under_append, under_append, under_eq_nil first, under_cons_of_eq same, List.nil_append,
      List.nil_append]
  have others {key : String} (other : f.criteria.hash ≠ key) :
      under key (before ++ g :: after) = under key (before ++ after) := by
    have apart : g.criteria.hash ≠ key := by rwa [same]
    rw [under_append, under_append, under_cons_of_ne apart]
  constructor
  case inOrder =>
    intro key
    by_cases here : f.criteria.hash = key
    · subst here
      rw [taken, under_cons_self, List.zipWith_cons_cons, ← h.inOrder]
      exact List.filter_cons_of_pos (by simp)
    · rw [others here, under_cons_of_ne here, ← h.inOrder]
      exact List.filter_cons_of_neg (by simpa using here)
  case localLeft =>
    intro key
    by_cases here : f.criteria.hash = key
    · subst here
      rw [taken, under_cons_self, List.length_cons, List.drop_succ_cons, h.localLeft]
    · rw [others here, under_cons_of_ne here, h.localLeft]
  case remoteLeft =>
    intro key
    by_cases here : f.criteria.hash = key
    · subst here
      rw [taken, under_cons_self, List.length_cons, List.drop_succ_cons, h.remoteLeft]
    · rw [others here, under_cons_of_ne here, h.remoteLeft]
  case locals => exact List.perm_middle.trans (h.locals.cons f)
  case remotes =>
    calc List.Perm (remoteOnly ++ g :: conflicts.map (·.remote))
          (g :: (remoteOnly ++ conflicts.map (·.remote))) := List.perm_middle
      List.Perm _ (g :: (before ++ after)) := h.remotes.cons g
      List.Perm _ (before ++ g :: after) := List.perm_middle.symm
  case localOrder => exact h.localOrder.cons f
  case remoteOrder =>
    exact h.remoteOrder.trans ((List.Sublist.refl before).append (List.sublist_cons_self g after))
  case conflictOrder => exact h.conflictOrder.cons_cons f

theorem paired_pairUp : ∀ ls rs : List Filter,
    let (conflicts, localOnly, remoteOnly) := pairUp (byCriteria ls) (byCriteria rs)
    Paired ls rs conflicts localOnly remoteOnly
  | [], rs => by
    have all : (byCriteria rs).map (·.2) = rs := by simp [byCriteria, Function.comp_def]
    show Paired [] rs [] [] ((byCriteria rs).map (·.2))
    rw [all]
    exact ⟨fun _ => rfl, fun _ => List.drop_nil.symm, fun _ => rfl, .refl [], by simp, .refl [],
      .refl rs, .refl []⟩
  | f :: ls, rs => by
    show let (conflicts, localOnly, remoteOnly) :=
        pairUp ((f.criteria.hash, f) :: byCriteria ls) (byCriteria rs)
      Paired (f :: ls) rs conflicts localOnly remoteOnly
    rw [pairUp]
    cases taken : takeFirst? f.criteria.hash (byCriteria rs) with
    | none => exact (paired_pairUp ls rs).alone (takeFirst?_eq_none taken)
    | some found =>
      obtain ⟨g, rest⟩ := found
      obtain ⟨before, after, rfl, same, first, rfl⟩ := takeFirst?_eq_some taken
      exact (paired_pairUp ls (before ++ after)).conflict same first

theorem Paired.same_criteria {ls rs : List Filter} {conflicts : List Conflict}
    {localOnly remoteOnly : List Filter} (h : Paired ls rs conflicts localOnly remoteOnly)
    {c : Conflict} (hc : c ∈ conflicts) :
    c.localFilter ∈ ls ∧ c.remote ∈ rs ∧ c.localFilter.criteria.hash = c.remote.criteria.hash := by
  have pair : c ∈ List.zipWith Conflict.mk (under c.localFilter.criteria.hash ls)
      (under c.localFilter.criteria.hash rs) := by
    rw [← h.inOrder]
    exact List.mem_filter.mpr ⟨hc, by simp⟩
  rw [← List.map_uncurry_zip_eq_zipWith] at pair
  obtain ⟨⟨f, g⟩, mem, rfl⟩ := List.mem_map.mp pair
  obtain ⟨left, right⟩ := List.of_mem_zip mem
  exact ⟨(mem_under.mp left).1, (mem_under.mp right).1, (mem_under.mp right).2.symm⟩

/-- Under any criteria one side is used up. -/
theorem Paired.one_sided {ls rs : List Filter} {conflicts : List Conflict}
    {localOnly remoteOnly : List Filter} (h : Paired ls rs conflicts localOnly remoteOnly)
    {f g : Filter} (hf : f ∈ localOnly) (hg : g ∈ remoteOnly) :
    f.criteria.hash ≠ g.criteria.hash := by
  intro same
  have left : f ∈ under f.criteria.hash localOnly := mem_under.mpr ⟨hf, rfl⟩
  have right : g ∈ under f.criteria.hash remoteOnly := mem_under.mpr ⟨hg, same.symm⟩
  rw [h.localLeft] at left
  rw [h.remoteLeft] at right
  have more := List.length_pos_of_mem left
  have fewer := List.length_pos_of_mem right
  rw [List.length_drop] at more fewer
  omega

/-! ## Categories -/

/-- What the categories of two lists hold, in which each content stands once. -/
structure Categories.Partition (ls rs : List Filter) (c : Categories) : Prop where
  /-- Matched are the local filters whose content is remote too. -/
  matched : c.matched = shared ls rs
  /-- Each local filter is matched, local only or on the local side of a conflict, and in one place
  only. -/
  locals : (c.matched ++ (c.localOnly ++ c.conflicts.map (·.localFilter))).Perm ls
  /-- Each remote filter has the content of a matched one, is remote only or on the remote side of
  a conflict, and in one place only. -/
  remotes : (shared rs c.matched ++ (c.remoteOnly ++ c.conflicts.map (·.remote))).Perm rs
  /-- Filters in conflict have the same criteria and different contents. -/
  conflicting : ∀ x ∈ c.conflicts, x.localFilter.criteria.hash = x.remote.criteria.hash ∧
    x.localFilter.contentHash ≠ x.remote.contentHash
  /-- No criteria are left over on both sides. -/
  oneSided : ∀ f ∈ c.localOnly, ∀ g ∈ c.remoteOnly, f.criteria.hash ≠ g.criteria.hash
  /-- Under each criteria the filters that are not matched are paired in their order. -/
  paired : ∀ key, (c.conflicts.filter fun x => x.localFilter.criteria.hash = key) =
    List.zipWith Conflict.mk (under key (unshared ls rs)) (under key (unshared rs ls))
  matchedOrder : c.matched.Sublist ls
  localOrder : c.localOnly.Sublist ls
  remoteOrder : c.remoteOnly.Sublist rs
  conflictOrder : (c.conflicts.map (·.localFilter)).Sublist ls

/-- What is matched on one side is matched on the other. -/
theorem shared_shared (ls rs : List Filter) : shared rs (shared ls rs) = shared rs ls := by
  refine List.filter_congr fun g hg => decide_eq_decide.mpr ⟨fun mem => ?_, fun mem => ?_⟩
  · obtain ⟨f, hf, same⟩ := List.mem_map.mp mem
    exact List.mem_map.mpr ⟨f, (List.mem_filter.mp hf).1, same⟩
  · obtain ⟨f, hf, same⟩ := List.mem_map.mp mem
    refine List.mem_map.mpr ⟨f, List.mem_filter.mpr ⟨hf, ?_⟩, same⟩
    exact decide_eq_true (List.mem_map.mpr ⟨g, hg, same.symm⟩)

theorem categorize_eq (localFilters remote : List Filter) :
    let ls := firsts localFilters
    let rs := firsts remote
    let (conflicts, localOnly, remoteOnly) :=
      pairUp (byCriteria (unshared ls rs)) (byCriteria (unshared rs ls))
    categorize localFilters remote = ⟨shared ls rs, localOnly, remoteOnly, conflicts⟩ := by
  simp only [categorize, sharing_true, sharing_false]

/-- **Sorting out for a merge partitions both sides and pairs as many conflicts as there are.** Of
each side every content counts once, with its first filter. -/
theorem categorize_partitions (localFilters remote : List Filter) :
    ((firsts localFilters).map Filter.contentHash).Nodup ∧
      ((firsts remote).map Filter.contentHash).Nodup ∧
      (categorize localFilters remote).Partition (firsts localFilters) (firsts remote) := by
  refine ⟨nodup_firsts localFilters, nodup_firsts remote, ?_⟩
  have made := categorize_eq localFilters remote
  have pairs := paired_pairUp (unshared (firsts localFilters) (firsts remote))
    (unshared (firsts remote) (firsts localFilters))
  obtain ⟨conflicts, localOnly, remoteOnly⟩ := pairUp
    (byCriteria (unshared (firsts localFilters) (firsts remote)))
    (byCriteria (unshared (firsts remote) (firsts localFilters)))
  simp only at made pairs
  rw [made]
  have among (fs others : List Filter) : (unshared fs others).Sublist fs := List.filter_sublist
  constructor
  case matched => rfl
  case locals =>
    exact (pairs.locals.append_left _).trans (shared_append_unshared _ _)
  case remotes =>
    show List.Perm (shared (firsts remote) (shared (firsts localFilters) (firsts remote)) ++ _) _
    rw [shared_shared]
    exact (pairs.remotes.append_left _).trans (shared_append_unshared _ _)
  case conflicting =>
    intro x hx
    obtain ⟨left, right, same⟩ := pairs.same_criteria hx
    refine ⟨same, fun one => ?_⟩
    have lacks := of_decide_eq_true (List.mem_filter.mp left).2
    exact lacks (List.mem_map.mpr ⟨x.remote, (List.mem_filter.mp right).1, one.symm⟩)
  case oneSided => exact fun f hf g hg => pairs.one_sided hf hg
  case paired => exact pairs.inOrder
  case matchedOrder => exact List.filter_sublist
  case localOrder => exact pairs.localOrder.trans (among _ _)
  case remoteOrder => exact pairs.remoteOrder.trans (among _ _)
  case conflictOrder => exact pairs.conflictOrder.trans (among _ _)

end MailRules.Native
