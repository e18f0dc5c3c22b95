import MailRules.Native.Diff
import MailRules.Proofs.Sorting

/-!
The difference between two lists of filters is exact, and applying it leaves nothing to change.

Filters count by the digest of their content. The distinct filters of a list have each digest once,
with the first filter that has it (`mem_distinct`), and in the order of their digests they can be
joined with those of another list in one pass. What the pass leaves of either list is what the other
does not have (`mergeJoin_eq_lacking`).

What is proved:
  1. `mergeJoin_eq_lacking`: joining two ascending lists gives the values under the keys that the
     other list lacks, on both sides.
  2. `missing_lacking`: the filters that one list lacks are told by digest (`Missing`): in strictly
     ascending order, each digest that the other list has alone, with its first filter.
  3. `changed_exact`: filters are added and removed exactly so, and then nothing is left to change.
-/

namespace MailRules.Native

section
variable {α : Type}

/-- Keyed values in strictly ascending order of their keys. -/
def Ascending (xs : List (String × α)) : Prop := xs.Pairwise fun x y => x.1 < y.1

/-- The values whose keys another list lacks. -/
def lacking (xs others : List (String × α)) : List α :=
  (xs.filter fun x => x.1 ∉ others.map (·.1)).map (·.2)

/-! ## Joining -/

theorem lacking_nil (xs : List (String × α)) : lacking xs [] = xs.map (·.2) := by
  rw [lacking, List.filter_eq_self.mpr (by simp)]

theorem lacking_cons_right {x : String × α} {xs others : List (String × α)}
    (fresh : ∀ y ∈ xs, y.1 ≠ x.1) : lacking xs (x :: others) = lacking xs others := by
  rw [lacking, lacking, List.filter_congr]
  intro y hy
  simp [fresh y hy]

theorem lacking_cons_of_mem {x : String × α} {xs others : List (String × α)}
    (h : x.1 ∈ others.map (·.1)) : lacking (x :: xs) others = lacking xs others := by
  rw [lacking, List.filter_cons_of_neg (by simpa using h)]
  rfl

/-- A value whose key is below all of another list stands on its own. -/
theorem lacking_cons_of_lt {x : String × α} (xs : List (String × α)) {others : List (String × α)}
    (below : ∀ y ∈ others, x.1 < y.1) : lacking (x :: xs) others = x.2 :: lacking xs others ∧
      lacking others (x :: xs) = lacking others xs := by
  constructor
  · have fresh : x.1 ∉ others.map (·.1) := by
      intro mem
      obtain ⟨y, hy, same⟩ := List.mem_map.mp mem
      exact String.ne_of_lt (below y hy) same.symm
    rw [lacking, List.filter_cons_of_pos (by simpa using fresh)]
    rfl
  · exact lacking_cons_right fun y hy => (String.ne_of_lt (below y hy)).symm

theorem Ascending.all_lt {k : String} {x : String × α} {xs : List (String × α)}
    (h : Ascending (x :: xs)) (below : k < x.1) : ∀ y ∈ x :: xs, k < y.1 := by
  intro y hy
  rcases List.mem_cons.mp hy with rfl | hy
  · exact below
  · exact String.lt_trans below ((List.pairwise_cons.mp h).1 y hy)

theorem mergeJoin_eq_lacking {xs ys : List (String × α)} (hx : Ascending xs) (hy : Ascending ys) :
    mergeJoin xs ys = (lacking ys xs, lacking xs ys) := by
  fun_induction mergeJoin xs ys with
  | case1 ys => rw [lacking_nil]; rfl
  | case2 xs => rw [lacking_nil]; rfl
  | case3 h x xs k y ys below added removed step ih =>
    obtain ⟨here, there⟩ := lacking_cons_of_lt (x := (h, x)) xs (hy.all_lt below)
    rw [step, Prod.mk.injEq] at ih
    obtain ⟨rfl, rfl⟩ := ih (List.pairwise_cons.mp hx).2 hy
    rw [here, there]
  | case4 h x xs k y ys _ below added removed step ih =>
    obtain ⟨here, there⟩ := lacking_cons_of_lt (x := (k, y)) ys (hx.all_lt below)
    rw [step, Prod.mk.injEq] at ih
    obtain ⟨rfl, rfl⟩ := ih hx (List.pairwise_cons.mp hy).2
    rw [here, there]
  | case5 h x xs k y ys notBelow notAbove ih =>
    obtain rfl : h = k := String.le_antisymm (String.not_lt.mp notAbove) (String.not_lt.mp notBelow)
    obtain ⟨above, hxs⟩ := List.pairwise_cons.mp hx
    obtain ⟨above', hys⟩ := List.pairwise_cons.mp hy
    have left : lacking xs ((h, y) :: ys) = lacking xs ys :=
      lacking_cons_right fun z hz => (String.ne_of_lt (above z hz)).symm
    have right : lacking ys ((h, x) :: xs) = lacking ys xs :=
      lacking_cons_right fun z hz => (String.ne_of_lt (above' z hz)).symm
    rw [ih hxs hys, lacking_cons_of_mem (by simp), lacking_cons_of_mem (by simp), left, right]

end

/-! ## Distinct filters -/

theorem mem_distinctFrom {seen : List String} {fs : List Filter} {h : String} {f : Filter} :
    (h, f) ∈ distinctFrom seen fs ↔
      h ∉ seen ∧ fs.find? (fun g => g.contentHash = h) = some f := by
  induction fs generalizing seen with
  | nil => simp [distinctFrom]
  | cons g gs ih =>
    rw [distinctFrom]
    by_cases here : g.contentHash = h
    · subst here
      by_cases old : g.contentHash ∈ seen
      · simp [old, ih]
      · simp [old, ih, Prod.ext_iff, eq_comm]
    · by_cases old : g.contentHash ∈ seen
      · simp [old, ih, here]
      · simp [old, ih, here, Ne.symm here]

theorem mem_distinct {fs : List Filter} {h : String} {f : Filter} :
    (h, f) ∈ distinct fs ↔ fs.find? (fun g => g.contentHash = h) = some f := by
  simp [distinct, mem_distinctFrom]

theorem contentHash_of_mem_distinct {fs : List Filter} {x : String × Filter}
    (hx : x ∈ distinct fs) : x.2.contentHash = x.1 := by
  have found := List.find?_some (mem_distinct.mp hx)
  exact of_decide_eq_true found

theorem mem_keys_distinct {fs : List Filter} {h : String} :
    h ∈ (distinct fs).map (·.1) ↔ h ∈ fs.map Filter.contentHash := by
  constructor
  · intro mem
    obtain ⟨x, hx, rfl⟩ := List.mem_map.mp mem
    exact List.mem_map.mpr ⟨x.2, List.mem_of_find?_eq_some (mem_distinct.mp hx),
      contentHash_of_mem_distinct hx⟩
  · intro mem
    obtain ⟨f, hf, rfl⟩ := List.mem_map.mp mem
    have found : (fs.find? fun g => g.contentHash = f.contentHash).isSome = true :=
      List.find?_isSome.mpr ⟨f, hf, by simp⟩
    obtain ⟨g, found⟩ := Option.isSome_iff_exists.mp found
    exact List.mem_map.mpr ⟨_, mem_distinct.mpr found, rfl⟩

theorem nodup_keys_distinctFrom (seen : List String) (fs : List Filter) :
    ((distinctFrom seen fs).map (·.1)).Nodup := by
  induction fs generalizing seen with
  | nil => exact .nil
  | cons g gs ih =>
    rw [distinctFrom]
    split
    · exact ih seen
    · refine List.nodup_cons.mpr ⟨fun mem => ?_, ih _⟩
      obtain ⟨x, hx, same⟩ := List.mem_map.mp mem
      have unseen := (mem_distinctFrom.mp hx).1
      rw [same] at unseen
      exact unseen List.mem_cons_self

theorem inHashOrder_perm (fs : List (String × Filter)) : (inHashOrder fs).Perm fs :=
  List.mergeSort_perm fs _

theorem ascending_inHashOrder (fs : List Filter) : Ascending (inHashOrder (distinct fs)) :=
  ascending_mergeSort (nodup_keys_distinctFrom [] fs)

/-! ## Missing filters -/

/-- The filters of one list whose content another lacks: in strictly ascending order of digests,
each digest that is missing, and under it the first filter that has it. -/
structure Missing (fs others out : List Filter) : Prop where
  ascending : (out.map Filter.contentHash).Pairwise (· < ·)
  exact : ∀ h, h ∈ out.map Filter.contentHash ↔
    h ∈ fs.map Filter.contentHash ∧ h ∉ others.map Filter.contentHash
  first : ∀ f ∈ out, fs.find? (fun g => g.contentHash = f.contentHash) = some f

theorem Missing.eq_nil {fs others out : List Filter} (h : Missing fs others out)
    (covered : ∀ d, d ∈ fs.map Filter.contentHash → d ∈ others.map Filter.contentHash) :
    out = [] := by
  rw [List.eq_nil_iff_forall_not_mem]
  intro f hf
  obtain ⟨here, lacks⟩ := (h.exact f.contentHash).mp (List.mem_map_of_mem hf)
  exact lacks (covered _ here)

theorem missing_lacking (fs others : List Filter) :
    Missing fs others (lacking (inHashOrder (distinct fs)) (inHashOrder (distinct others))) := by
  have entries {x : String × Filter} : x ∈ inHashOrder (distinct fs) ↔ x ∈ distinct fs :=
    (inHashOrder_perm _).mem_iff
  have keys (gs : List Filter) {h : String} :
      h ∈ (inHashOrder (distinct gs)).map (·.1) ↔ h ∈ gs.map Filter.contentHash := by
    rw [((inHashOrder_perm _).map _).mem_iff, mem_keys_distinct]
  -- The digests of what is left are its keys.
  have digests : (lacking (inHashOrder (distinct fs)) (inHashOrder (distinct others))).map
      Filter.contentHash = ((inHashOrder (distinct fs)).filter fun x =>
        x.1 ∉ (inHashOrder (distinct others)).map (·.1)).map (·.1) := by
    rw [lacking, List.map_map]
    refine List.map_congr_left fun x hx => ?_
    exact contentHash_of_mem_distinct (entries.mp (List.mem_filter.mp hx).1)
  refine ⟨?_, fun h => ?_, fun f hf => ?_⟩
  · rw [digests, List.pairwise_map]
    exact (ascending_inHashOrder fs).filter _
  · rw [digests, ← keys fs, ← keys others]
    simp only [List.mem_map, List.mem_filter, decide_eq_true_eq]
    grind
  · rw [lacking] at hf
    obtain ⟨x, hx, rfl⟩ := List.mem_map.mp hf
    have mem := entries.mp (List.mem_filter.mp hx).1
    rw [contentHash_of_mem_distinct mem]
    exact mem_distinct.mp mem

/-! ## Changes -/

theorem changed_eq (observed desired : List Filter) : changed observed desired =
    ⟨lacking (inHashOrder (distinct desired)) (inHashOrder (distinct observed)),
      lacking (inHashOrder (distinct observed)) (inHashOrder (distinct desired))⟩ := by
  rw [changed, mergeJoin_eq_lacking (ascending_inHashOrder observed) (ascending_inHashOrder desired)]

theorem missing_added (observed desired : List Filter) :
    Missing desired observed (changed observed desired).added := by
  rw [changed_eq]
  exact missing_lacking desired observed

theorem missing_removed (observed desired : List Filter) :
    Missing observed desired (changed observed desired).removed := by
  rw [changed_eq]
  exact missing_lacking observed desired

/-- The filters that are there once the changes are made: those whose content is not removed, and
then those that are added. -/
def Changes.appliedTo (c : Changes) (observed : List Filter) : List Filter :=
  observed.filter (fun f => f.contentHash ∉ c.removed.map Filter.contentHash) ++ c.added

theorem digests_appliedTo (observed desired : List Filter) (h : String) :
    h ∈ ((changed observed desired).appliedTo observed).map Filter.contentHash ↔
      h ∈ desired.map Filter.contentHash := by
  have added := (missing_added observed desired).exact h
  have removed := (missing_removed observed desired).exact h
  have kept : h ∈ (observed.filter fun f => f.contentHash ∉
        (changed observed desired).removed.map Filter.contentHash).map Filter.contentHash ↔
      h ∈ observed.map Filter.contentHash ∧
        h ∉ (changed observed desired).removed.map Filter.contentHash := by
    simp only [List.mem_map, List.mem_filter, decide_eq_true_eq]
    grind
  rw [Changes.appliedTo, List.map_append, List.mem_append, kept, added, removed]
  by_cases here : h ∈ observed.map Filter.contentHash <;> simp [here]

/-- **The difference between two lists of filters is exact and convergent.** What is added are the
desired filters that are not observed, what is removed the observed ones that are not desired, and
no content is both. Once the changes are made the contents are those that are desired, and nothing
is left to change. -/
theorem changed_exact (observed desired : List Filter) :
    let changes := changed observed desired
    let now := changes.appliedTo observed
    Missing desired observed changes.added ∧ Missing observed desired changes.removed ∧
      (∀ f ∈ changes.added, ∀ g ∈ changes.removed, f.contentHash ≠ g.contentHash) ∧
      (∀ h, h ∈ now.map Filter.contentHash ↔ h ∈ desired.map Filter.contentHash) ∧
      changed now desired = ⟨[], []⟩ := by
  intro changes now
  have added := missing_added observed desired
  have removed := missing_removed observed desired
  have reached := digests_appliedTo observed desired
  refine ⟨added, removed, fun f hf g hg same => ?_, reached, ?_⟩
  · have lacks := ((added.exact f.contentHash).mp (List.mem_map_of_mem hf)).2
    have here := ((removed.exact g.contentHash).mp (List.mem_map_of_mem hg)).1
    exact lacks (same ▸ here)
  · have noneAdded := (missing_added now desired).eq_nil fun h mem => (reached h).mpr mem
    have noneRemoved := (missing_removed now desired).eq_nil fun h mem => (reached h).mp mem
    show Changes.mk (changed now desired).added (changed now desired).removed = ⟨[], []⟩
    rw [noneAdded, noneRemoved]

end MailRules.Native
