import MailRules.Label.Diff
import MailRules.Proofs.Sorting
import Mathlib.Data.List.Nodup

/-!
The difference between two sets of labels is exact, and once it is made nothing is left to change.

Labels are matched by name. In the order of their names two sets are joined in one pass, and each
step of the pass settles one name: it is on one side only, or on both. A step that settles the
least name there is keeps what was found out about the names after it.

What is defined and proved:
  1. `Exact`: what has to change between two sets, name by name.
  2. `Exact.remove`, `Exact.add`, `Exact.keep`: the three steps of the pass.
  3. `exact_join`, `exact_between`: the whole pass.
  4. `appliedTo`: the labels that are there once the changes are made; their names are distinct
     (`nodup_appliedTo`).
  5. `between_converges`: all of this together.
-/

namespace MailRules

namespace LabelChanges

/-- Labels in strictly ascending order of their names. -/
def Ordered (ls : List Label) : Prop := ls.Pairwise fun a b => a.name < b.name

/-- What has to change for the observed labels to become the desired ones: the labels with a name
that is on one side only, and the pairs of labels with one name of which the desired one has a color
and the observed one another color or none. All of them stand in the order of their names. -/
structure Exact (observed desired : List Label) (c : LabelChanges) : Prop where
  removed : ∀ l, l ∈ c.removed ↔ l ∈ observed ∧ l.name ∉ desired.map (·.name)
  added : ∀ l, l ∈ c.added ↔ l ∈ desired ∧ l.name ∉ observed.map (·.name)
  modified : ∀ m, m ∈ c.modified ↔ m.old ∈ observed ∧ m.new ∈ desired ∧
    m.old.name = m.new.name ∧ ∃ color, m.new.color = some color ∧ m.old.color ≠ some color
  removedOrder : Ordered c.removed
  addedOrder : Ordered c.added
  modifiedOrder : c.modified.Pairwise fun a b => a.new.name < b.new.name

/-! ## One name -/

section
variable {o d : Label} {os ds : List Label} {c : LabelChanges}

theorem notMem_of_below {n : String} {ls : List Label} (below : ∀ l ∈ ls, n < l.name) :
    n ∉ ls.map (·.name) := by
  intro mem
  obtain ⟨l, hl, same⟩ := List.mem_map.mp mem
  exact String.ne_of_lt (below l hl) same.symm

theorem Ordered.below {n : String} (h : Ordered (d :: ds)) (first : n < d.name) :
    ∀ l ∈ d :: ds, n < l.name := by
  intro l hl
  rcases List.mem_cons.mp hl with rfl | hl
  · exact first
  · exact String.lt_trans first ((List.pairwise_cons.mp h).1 l hl)

theorem Exact.remove (ordered : Ordered (o :: os)) (below : ∀ l ∈ ds, o.name < l.name)
    (h : Exact os ds c) : Exact (o :: os) ds { c with removed := o :: c.removed } := by
  obtain ⟨above, _⟩ := List.pairwise_cons.mp ordered
  have lacks := notMem_of_below below
  refine ⟨fun l => ?_, fun l => ?_, fun m => ?_, ?_, h.addedOrder, h.modifiedOrder⟩
  · rw [List.mem_cons, List.mem_cons, h.removed]
    grind
  · rw [h.added, List.map_cons, List.mem_cons]
    -- a desired label has another name than the first
    have other : l ∈ ds → l.name ≠ o.name := fun hl => (String.ne_of_lt (below l hl)).symm
    grind
  · rw [h.modified, List.mem_cons]
    have other : m.new ∈ ds → m.old = o → m.old.name ≠ m.new.name := fun hm same =>
      same ▸ String.ne_of_lt (below _ hm)
    grind
  · exact List.pairwise_cons.mpr ⟨fun l hl => above l ((h.removed l).mp hl).1, h.removedOrder⟩

theorem Exact.add (ordered : Ordered (d :: ds)) (below : ∀ l ∈ os, d.name < l.name)
    (h : Exact os ds c) : Exact os (d :: ds) { c with added := d :: c.added } := by
  obtain ⟨above, _⟩ := List.pairwise_cons.mp ordered
  have lacks := notMem_of_below below
  refine ⟨fun l => ?_, fun l => ?_, fun m => ?_, h.removedOrder, ?_, h.modifiedOrder⟩
  · rw [h.removed, List.map_cons, List.mem_cons]
    have other : l ∈ os → l.name ≠ d.name := fun hl => (String.ne_of_lt (below l hl)).symm
    grind
  · rw [List.mem_cons, List.mem_cons, h.added]
    grind
  · rw [h.modified, List.mem_cons]
    have other : m.old ∈ os → m.new = d → m.old.name ≠ m.new.name := fun hm same =>
      same ▸ (String.ne_of_lt (below _ hm)).symm
    grind
  · exact List.pairwise_cons.mpr ⟨fun l hl => above l ((h.added l).mp hl).1, h.addedOrder⟩

/-- A label agrees with the declared one of its name unless that has a color, and another one. -/
theorem agreesWith_iff (same : o.name = d.name) : o.agreesWith d = true ↔
    ¬ ∃ color, d.color = some color ∧ o.color ≠ some color := by
  cases hd : d.color <;> simp [Label.agreesWith, same, hd]

theorem Exact.keep (orderedOld : Ordered (o :: os)) (orderedNew : Ordered (d :: ds))
    (same : o.name = d.name) (h : Exact os ds c) : Exact (o :: os) (d :: ds)
      (if o.agreesWith d then c else { c with modified := ⟨o, d⟩ :: c.modified }) := by
  obtain ⟨aboveOld, _⟩ := List.pairwise_cons.mp orderedOld
  obtain ⟨aboveNew, _⟩ := List.pairwise_cons.mp orderedNew
  have otherOld : ∀ l ∈ os, l.name ≠ d.name := fun l hl =>
    (String.ne_of_lt (same ▸ aboveOld l hl)).symm
  have otherNew : ∀ l ∈ ds, l.name ≠ o.name := fun l hl =>
    (String.ne_of_lt (same ▸ aboveNew l hl)).symm
  have removed (l : Label) :
      l ∈ c.removed ↔ l ∈ o :: os ∧ l.name ∉ (d :: ds).map (·.name) := by
    rw [h.removed, List.mem_cons, List.map_cons, List.mem_cons]
    grind
  have added (l : Label) : l ∈ c.added ↔ l ∈ d :: ds ∧ l.name ∉ (o :: os).map (·.name) := by
    rw [h.added, List.mem_cons, List.map_cons, List.mem_cons]
    grind
  have agrees := agreesWith_iff same
  split
  · next agree =>
    refine ⟨removed, added, fun m => ?_, h.removedOrder, h.addedOrder, h.modifiedOrder⟩
    rw [h.modified, List.mem_cons, List.mem_cons]
    grind
  · next differ =>
    refine ⟨removed, added, fun m => ?_, h.removedOrder, h.addedOrder, ?_⟩
    · rw [List.mem_cons, h.modified, List.mem_cons, List.mem_cons]
      cases m
      grind
    · refine List.pairwise_cons.mpr ⟨fun m hm => ?_, h.modifiedOrder⟩
      exact aboveNew m.new ((h.modified m).mp hm).2.1

end

/-! ## All names -/

theorem exact_join {os ds : List Label} (ho : Ordered os) (hd : Ordered ds) :
    Exact os ds (join os ds) := by
  fun_induction join os ds with
  | case1 ds => exact ⟨by simp, by simp, by simp, .nil, hd, .nil⟩
  | case2 os => exact ⟨by simp, by simp, by simp, ho, .nil, .nil⟩
  | case3 o os d ds below c ih =>
    exact (ih (List.pairwise_cons.mp ho).2 hd).remove ho (hd.below below)
  | case4 o os d ds _ below c ih =>
    exact (ih ho (List.pairwise_cons.mp hd).2).add hd (ho.below below)
  | case5 o os d ds notBelow notAbove c agree ih =>
    have same : o.name = d.name :=
      String.le_antisymm (String.not_lt.mp notAbove) (String.not_lt.mp notBelow)
    have kept := (ih (List.pairwise_cons.mp ho).2 (List.pairwise_cons.mp hd).2).keep ho hd same
    rwa [if_pos agree] at kept
  | case6 o os d ds notBelow notAbove c differ ih =>
    have same : o.name = d.name :=
      String.le_antisymm (String.not_lt.mp notAbove) (String.not_lt.mp notBelow)
    have kept := (ih (List.pairwise_cons.mp ho).2 (List.pairwise_cons.mp hd).2).keep ho hd same
    rwa [if_neg differ] at kept

theorem exact_between {observed desired : List Label}
    (distinctOld : (observed.map (·.name)).Nodup) (distinctNew : (desired.map (·.name)).Nodup) :
    Exact observed desired (between observed desired) := by
  have h : Exact (inNameOrder observed) (inNameOrder desired) (between observed desired) :=
    exact_join (ascending_mergeSort distinctOld) (ascending_mergeSort distinctNew)
  have mem (ls : List Label) (l : Label) : l ∈ inNameOrder ls ↔ l ∈ ls :=
    (List.mergeSort_perm ls _).mem_iff
  have names (ls : List Label) (n : String) :
      n ∈ (inNameOrder ls).map (·.name) ↔ n ∈ ls.map (·.name) :=
    ((List.mergeSort_perm ls _).map _).mem_iff
  refine ⟨fun l => ?_, fun l => ?_, fun m => ?_, h.removedOrder, h.addedOrder, h.modifiedOrder⟩
  · rw [h.removed, mem, names]
  · rw [h.added, mem, names]
  · rw [h.modified, mem, mem]

/-! ## Changes made -/

/-- The label that takes the place of a label. -/
def replacement (c : LabelChanges) (l : Label) : Label :=
  match c.modified.find? fun m => m.old = l with
  | some m => m.new
  | none => l

/-- The labels that are there once the changes are made. -/
def appliedTo (c : LabelChanges) (observed : List Label) : List Label :=
  (observed.filter fun l => l ∉ c.removed).map c.replacement ++ c.added

theorem replacement_cases (c : LabelChanges) (l : Label) :
    (∃ m ∈ c.modified, m.old = l ∧ c.replacement l = m.new) ∨
      (∀ m ∈ c.modified, m.old ≠ l) ∧ c.replacement l = l := by
  rw [replacement]
  cases found : c.modified.find? fun m => m.old = l with
  | some m =>
    exact .inl ⟨m, List.mem_of_find?_eq_some found, by simpa using List.find?_some found, rfl⟩
  | none => exact .inr ⟨by simpa using found, rfl⟩

section
variable {observed desired : List Label} {c : LabelChanges}

theorem Exact.name_replacement (h : Exact observed desired c) (l : Label) :
    (c.replacement l).name = l.name := by
  rcases c.replacement_cases l with ⟨m, hm, rfl, becomes⟩ | ⟨_, becomes⟩
  · rw [becomes, ((h.modified m).mp hm).2.2.1]
  · rw [becomes]

theorem mem_appliedTo {l : Label} : l ∈ c.appliedTo observed ↔
    (∃ o ∈ observed, o ∉ c.removed ∧ c.replacement o = l) ∨ l ∈ c.added := by
  simp [appliedTo, and_assoc]

theorem Exact.mem_names_appliedTo (h : Exact observed desired c) {n : String} :
    n ∈ (c.appliedTo observed).map (·.name) ↔ n ∈ desired.map (·.name) := by
  simp only [List.mem_map, mem_appliedTo]
  constructor
  · rintro ⟨l, ⟨o, ho, kept, rfl⟩ | hl, rfl⟩
    · rw [h.name_replacement]
      rw [h.removed] at kept
      simpa [ho] using kept
    · exact ⟨l, ((h.added l).mp hl).1, rfl⟩
  · rintro ⟨d, hd, rfl⟩
    by_cases there : d.name ∈ observed.map (·.name)
    · obtain ⟨o, ho, same⟩ := List.mem_map.mp there
      have kept : o ∉ c.removed := fun gone =>
        ((h.removed o).mp gone).2 (List.mem_map.mpr ⟨d, hd, same.symm⟩)
      exact ⟨c.replacement o, .inl ⟨o, ho, kept, rfl⟩, (h.name_replacement o).trans same⟩
    · exact ⟨d, .inr ((h.added d).mpr ⟨hd, there⟩), rfl⟩

theorem Exact.nodup_appliedTo (h : Exact observed desired c)
    (distinct : (observed.map (·.name)).Nodup) : ((c.appliedTo observed).map (·.name)).Nodup := by
  have kept : ((observed.filter fun l => l ∉ c.removed).map c.replacement).map (·.name) =
      (observed.filter fun l => l ∉ c.removed).map (·.name) := by
    rw [List.map_map]
    exact List.map_congr_left fun l _ => h.name_replacement l
  rw [appliedTo, List.map_append, kept]
  refine List.Nodup.append ?_ ?_ ?_
  · exact distinct.sublist (List.filter_sublist.map _)
  · exact List.pairwise_map.mpr (h.addedOrder.imp fun below => String.ne_of_lt below)
  · intro n hn hn'
    obtain ⟨l, hl, rfl⟩ := List.mem_map.mp hn'
    obtain ⟨o, ho, same⟩ := List.mem_map.mp hn
    exact ((h.added l).mp hl).2 (List.mem_map.mpr ⟨o, (List.mem_filter.mp ho).1, same⟩)

/-- A label that is there once the changes are made is the desired one of its name, or has nothing
to change. -/
theorem Exact.settled_appliedTo (h : Exact observed desired c)
    (distinct : (desired.map (·.name)).Nodup) {l d : Label} (hl : l ∈ c.appliedTo observed)
    (hd : d ∈ desired) (same : l.name = d.name) : d.color = none ∨ l.color = d.color := by
  have one {d' : Label} (hd' : d' ∈ desired) (same' : d'.name = d.name) : d' = d :=
    List.inj_on_of_nodup_map distinct hd' hd same'
  rcases mem_appliedTo.mp hl with ⟨o, ho, _, rfl⟩ | new
  · rcases c.replacement_cases o with ⟨m, hm, rfl, becomes⟩ | ⟨kept, becomes⟩
    · rw [becomes] at same ⊢
      exact .inr (congrArg _ (one ((h.modified m).mp hm).2.1 same))
    · rw [becomes] at same ⊢
      have agree := mt (h.modified ⟨o, d⟩).mpr fun hm => kept _ hm rfl
      cases color : d.color with
      | none => exact .inl rfl
      | some color' =>
        refine .inr (Classical.byContradiction fun differ => agree ?_)
        exact ⟨ho, hd, same, color', color, differ⟩
  · exact .inr (congrArg _ (one ((h.added l).mp new).1 same))

end

/-- **The difference between two sets of labels is exact and convergent.** What is removed are the
observed labels with a name that is not desired, what is added the desired ones with a name that is
not observed, and what is modified the labels with a name that is both whose desired color is
another one. Once the changes are made there is nothing left to change. -/
theorem between_converges {observed desired : List Label}
    (distinctOld : (observed.map (·.name)).Nodup) (distinctNew : (desired.map (·.name)).Nodup) :
    let changes := between observed desired
    Exact observed desired changes ∧
      (between (changes.appliedTo observed) desired).isEmpty = true := by
  intro changes
  have exact' : Exact observed desired changes := exact_between distinctOld distinctNew
  refine ⟨exact', ?_⟩
  have now := exact_between (exact'.nodup_appliedTo distinctOld) distinctNew
  have added : (between (changes.appliedTo observed) desired).added = [] := by
    refine List.eq_nil_iff_forall_not_mem.mpr fun l hl => ?_
    obtain ⟨hd, lacks⟩ := (now.added l).mp hl
    exact lacks (exact'.mem_names_appliedTo.mpr (List.mem_map_of_mem hd))
  have removed : (between (changes.appliedTo observed) desired).removed = [] := by
    refine List.eq_nil_iff_forall_not_mem.mpr fun l hl => ?_
    obtain ⟨here, lacks⟩ := (now.removed l).mp hl
    exact lacks (exact'.mem_names_appliedTo.mp (List.mem_map_of_mem here))
  have modified : (between (changes.appliedTo observed) desired).modified = [] := by
    refine List.eq_nil_iff_forall_not_mem.mpr fun m hm => ?_
    obtain ⟨old, new, same, color, set, differ⟩ := (now.modified m).mp hm
    rcases exact'.settled_appliedTo distinctNew old new same with unset | equal
    · rw [unset] at set
      cases set
    · exact differ (equal.trans set)
  rw [isEmpty, added, removed, modified]
  rfl

/-- A label to remove, one to add, and three that are both: one recolored, one that is given a color
and one whose color is left to the service. -/
theorem between_converges_each :
    let red : Color := ⟨"#fb4c2f", "#ffffff"⟩
    let blue : Color := ⟨"#4a86e8", "#ffffff"⟩
    let observed : List Label := [{ id := "5", name := "old" }, { name := "plain" },
      { id := "3", name := "recolored", color := red }, { name := "free", color := red }]
    let desired : List Label := [{ name := "recolored", color := blue }, { name := "new" },
      { name := "free" }, { name := "plain", color := blue }]
    let changes := between observed desired
    (observed.map (·.name)).Nodup ∧ (desired.map (·.name)).Nodup ∧
      Exact observed desired changes ∧
        (between (changes.appliedTo observed) desired).isEmpty = true := by
  intro red blue observed desired changes
  have distinctOld : (observed.map (·.name)).Nodup := by decide
  have distinctNew : (desired.map (·.name)).Nodup := by decide
  exact ⟨distinctOld, distinctNew, between_converges distinctOld distinctNew⟩

end LabelChanges

end MailRules
