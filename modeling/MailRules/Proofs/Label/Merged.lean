import MailRules.Label.Diff
import MailRules.Proofs.Sorting

/-!
Merging local labels into the remote ones leaves the remote ones as they are.

A merge keeps all remote labels and adds the local ones with other names, so the remote labels are
those of the merged ones whose name was known. That goes on to hold once both sides stand in the
order of their names, since labels with one name keep their sequence. The pass over both sides then
meets each remote label together with itself, and each of the others alone.

What is proved:
  1. `join_known`: the pass over two sides of which one has the labels of the other with known names.
  2. `inNameOrder_merge`: what the order of names does to merged labels.
  3. `between_merge`: after a merge nothing is removed or modified, what is added are the local
     labels that are new, in the order of their names, and no filter stands against it.
-/

namespace MailRules

namespace LabelChanges

/-! ## The pass -/

section
variable {known : String → Bool} {o d : Label} {os ds : List Label}

theorem known_head (same : o :: os = (d :: ds).filter (known ·.name)) : known o.name = true := by
  have found : o ∈ (d :: ds).filter (known ·.name) := same ▸ List.mem_cons_self
  exact (List.mem_filter.mp found).2

theorem eq_head (same : o :: os = (d :: ds).filter (known ·.name)) (names : o.name = d.name) :
    o = d ∧ os = ds.filter (known ·.name) := by
  have isKnown : known d.name = true := names ▸ known_head same
  rw [List.filter_cons_of_pos (by exact isKnown)] at same
  exact List.cons.inj same

/-- If one side has exactly the labels of the other with a known name, the pass adds the others and
leaves the rest alone. -/
theorem join_known (ordered : ds.Pairwise fun a b => a.name ≤ b.name)
    (same : os = ds.filter (known ·.name)) :
    join os ds = { added := ds.filter (!known ·.name) } := by
  fun_induction join os ds with
  | case1 ds =>
    have unknown : ∀ d ∈ ds, known d.name = false := by simpa using same
    have all : ds.filter (!known ·.name) = ds := by
      apply List.filter_eq_self.mpr
      intro d hd
      rw [unknown d hd]
      rfl
    rw [all]
  | case2 os _ =>
    rw [List.filter_nil] at same
    rw [same]
    rfl
  | case3 o os d ds below =>
    -- The first label of the order would come after one of the others.
    have found : o ∈ (d :: ds).filter (known ·.name) := same ▸ List.mem_cons_self
    have above : d.name ≤ o.name := by
      rcases List.mem_cons.mp (List.mem_filter.mp found).1 with rfl | later
      · exact String.le_refl _
      · exact (List.pairwise_cons.mp ordered).1 o later
    exact absurd below (String.not_lt.mpr above)
  | case4 o os d ds _ below c ih =>
    have unknown : known d.name = false := by
      apply Bool.eq_false_iff.mpr
      intro isKnown
      rw [List.filter_cons_of_pos (by exact isKnown)] at same
      rw [(List.cons.inj same).1] at below
      exact String.lt_irrefl _ below
    rw [List.filter_cons_of_neg (by simp [unknown])] at same
    have rest : c = _ := ih (List.pairwise_cons.mp ordered).2 same
    have picked : (d :: ds).filter (!known ·.name) = d :: ds.filter (!known ·.name) :=
      List.filter_cons_of_pos (by simp [unknown])
    rw [picked, rest]
  | case5 o os d ds notBelow notAbove c agree ih =>
    have names : o.name = d.name :=
      String.le_antisymm (String.not_lt.mp notAbove) (String.not_lt.mp notBelow)
    obtain ⟨rfl, rest⟩ := eq_head same names
    have passed : (o :: ds).filter (!known ·.name) = ds.filter (!known ·.name) :=
      List.filter_cons_of_neg (by simp [known_head same])
    rw [passed]
    exact ih (List.pairwise_cons.mp ordered).2 rest
  | case6 o os d ds notBelow notAbove c differ ih =>
    have names : o.name = d.name :=
      String.le_antisymm (String.not_lt.mp notAbove) (String.not_lt.mp notBelow)
    obtain ⟨rfl, _⟩ := eq_head same names
    -- A label agrees with itself.
    exact absurd (by simp [Label.agreesWith]) differ

end

/-! ## Merged labels -/

def isRemote (remote : List Label) (name : String) : Bool := remote.any fun r => r.name = name

/-- The local labels with a name that no remote label has. -/
def newLabels (localLabels remote : List Label) : List Label :=
  localLabels.filter (!isRemote remote ·.name)

theorem isRemote_iff {remote : List Label} {name : String} :
    isRemote remote name = true ↔ name ∈ remote.map (·.name) := by
  simp [isRemote]

section
variable (localLabels remote : List Label)

theorem filter_merge_known :
    (Label.merge localLabels remote).filter (isRemote remote ·.name) = remote := by
  have all : remote.filter (isRemote remote ·.name) = remote :=
    List.filter_eq_self.mpr fun r hr => isRemote_iff.mpr (List.mem_map_of_mem hr)
  have none : (newLabels localLabels remote).filter (isRemote remote ·.name) = [] := by
    simp [newLabels]
  show (remote ++ newLabels localLabels remote).filter _ = _
  rw [List.filter_append, all, none, List.append_nil]

theorem filter_merge_new : (Label.merge localLabels remote).filter (!isRemote remote ·.name) =
    newLabels localLabels remote := by
  have none : remote.filter (!isRemote remote ·.name) = [] := by
    apply List.filter_eq_nil_iff.mpr
    intro r hr
    simp [isRemote_iff.mpr (List.mem_map_of_mem hr)]
  have all : (newLabels localLabels remote).filter (!isRemote remote ·.name) =
      newLabels localLabels remote := by
    simp [newLabels]
  show (remote ++ newLabels localLabels remote).filter _ = _
  rw [List.filter_append, all, none, List.nil_append]

theorem stableSort_inNameOrder (ls : List Label) : StableSort Label.name ls (inNameOrder ls) :=
  stableSort_mergeSort Label.name ls

theorem inNameOrder_merge : inNameOrder remote =
    (inNameOrder (Label.merge localLabels remote)).filter (isRemote remote ·.name) := by
  have picked := (stableSort_inNameOrder (Label.merge localLabels remote)).filter
    (isRemote remote ·.name)
  rw [filter_merge_known] at picked
  exact (stableSort_inNameOrder remote).unique picked

end

/-- **Merging labels is safe for what is there.** From the remote labels to the merged ones, nothing
has to be removed or modified, and what has to be added are the local labels with a name that no
remote label has, in the order of their names and otherwise in their own. So whatever filters there
are, the changes may be made. -/
theorem between_merge (localLabels remote : List Label) (filters : List Native.Filter) :
    let changes := between remote (Label.merge localLabels remote)
    changes.removed = [] ∧ changes.modified = [] ∧
      StableSort Label.name (localLabels.filter fun l => l.name ∉ remote.map (·.name))
        changes.added ∧
      changes.check filters = .ok () := by
  intro changes
  have passed : changes = _ :=
    join_known (stableSort_inNameOrder _).ascending (inNameOrder_merge localLabels remote)
  have added := (stableSort_inNameOrder (Label.merge localLabels remote)).filter
    (!isRemote remote ·.name)
  have new : newLabels localLabels remote =
      localLabels.filter fun l => l.name ∉ remote.map (·.name) := by
    apply List.filter_congr
    intro l _
    simp only [← isRemote_iff, decide_not, Bool.decide_eq_true]
  rw [filter_merge_new, new] at added
  rw [passed]
  exact ⟨rfl, rfl, added, rfl⟩

/-- A name that is there twice, one that is on both sides, and two new labels with one name. -/
example :
    let red : Color := ⟨"#fb4c2f", "#ffffff"⟩
    let remote : List Label := [{ id := "2", name := "b" }, { id := "1", name := "b", color := red }]
    let changes := between remote (Label.merge
      [{ name := "c", color := red }, { name := "b" }, { name := "c" }, { name := "a" }] remote)
    (changes.removed, changes.added) =
      ([], [{ name := "a" }, { name := "c", color := red }, { name := "c" }]) := by
  cbv

end LabelChanges

end MailRules
