import MailRules.Proofs.Condition.Coverage

/-!
What holds of every leaf.

A condition is simplified and cut before it is compiled. Both hand on its leaves, but for those that
are joined and those that are cut into several.

What is proved:
  1. `everyLeaf_simplify`: what holds of every leaf, and of leaves joined from such leaves, holds of
     every leaf once the condition is simplified.
  2. `everyLeaf_of_split`: what holds of every leaf, and of what is cut from such a leaf, holds of
     every leaf of the pieces.
  3. `noRaw_simplify`, `noRaw_of_split`: a condition without raw leaves stays without.
-/

namespace MailRules.Condition

/-- Every leaf is `L`, whatever the nodes are. -/
def EveryLeaf (L : Leaf → Prop) (t : Condition) : Prop := ∀ l ∈ t.leaves, L l

section
variable {L : Leaf → Prop}

theorem everyLeaf_leaf {l : Leaf} : (leaf l).EveryLeaf L ↔ L l := by
  simp [EveryLeaf]

theorem everyLeaf_node {op : Connective} {cs : List Condition} :
    (node op cs).EveryLeaf L ↔ ∀ c ∈ cs, c.EveryLeaf L := by
  simp only [EveryLeaf, leaves_node, List.mem_flatMap]
  grind

theorem everyLeaf_simplify (join : ∀ {op ls f}, op = .and ∨ op = .or → (∀ l ∈ ls, L l) →
      f ∈ fieldsOf ls → L (joined op ls f))
    {t : Condition} (h : t.EveryLeaf L) (n : Int) : (t.simplify n).EveryLeaf L :=
  (leafLaw_all join).simplifying.simplify t n h

end

/-! ## Pieces -/

theorem subset_of_mem_stepsOf {α : Type} {step : Int} {xs : List α} {runs : List (List α)}
    (h : stepsOf step xs = .ok runs) : ∀ run ∈ runs, run ⊆ xs := by
  rw [stepsOf] at h
  split at h
  · cases h
  · split at h
    · cases h
      simp
    · cases h
      exact fun run hrun x hx => (infix_of_mem_runsOf hrun).subset hx

section
variable {L : Leaf → Prop} (cut : ∀ l run, L l → L (.over l.field run l.grouping l.raw))
  {t : Condition} {limit : Int} {ps : List Condition}
include cut

theorem everyLeaf_of_chunks (h : t.EveryLeaf L) (hs : t.chunks limit = .ok ps) :
    ∀ p ∈ ps, p.EveryLeaf L := by
  cases t with
  | leaf l =>
    obtain ⟨runs, _, rfl⟩ := map_eq_ok.mp hs
    refine List.forall_mem_map.mpr fun run _ => ?_
    exact everyLeaf_leaf.mpr (cut l run (everyLeaf_leaf.mp h))
  | node op cs =>
    obtain ⟨runs, hruns, rfl⟩ := map_eq_ok.mp hs
    refine List.forall_mem_map.mpr fun run hrun => everyLeaf_node.mpr fun c hc => ?_
    exact everyLeaf_node.mp h c (subset_of_mem_stepsOf hruns run hrun hc)

theorem everyLeaf_of_splitConjunction (h : t.EveryLeaf L)
    (hs : t.splitConjunction limit = .ok ps) : ∀ p ∈ ps, p.EveryLeaf L := by
  cases t with
  | leaf l =>
    cases hs
    simpa using h
  | node op cs =>
    rw [splitConjunction] at hs
    split at hs
    · cases hs
      simpa using h
    · next d siblings found =>
      obtain ⟨pieces, hp, rfl⟩ := map_eq_ok.mp hs
      have children := everyLeaf_node.mp h
      have perm := (largestDisjunction?_eq_some found).2
      -- A chunk of the disjunction is put in front of its siblings.
      obtain ⟨disjunction, others⟩ := List.forall_mem_cons.mp fun c hc =>
        children c (perm.mem_iff.mp hc)
      refine List.forall_mem_map.mpr fun piece hpiece => everyLeaf_node.mpr ?_
      exact List.forall_mem_cons.mpr ⟨everyLeaf_of_chunks cut disjunction hp piece hpiece, others⟩

theorem everyLeaf_of_splitBig (h : t.EveryLeaf L) (hs : t.splitBig limit = .ok ps) :
    ∀ p ∈ ps, p.EveryLeaf L := by
  rw [splitBig] at hs
  split at hs
  · cases hs
    simpa using h
  · split at hs
    · exact everyLeaf_of_chunks cut h hs
    · exact everyLeaf_of_splitConjunction cut h hs
    · cases hs
      simpa using h

theorem everyLeaf_of_split (h : t.EveryLeaf L) (hs : t.split limit = .ok ps) :
    ∀ p ∈ ps, p.EveryLeaf L := by
  have each : ∀ c ∈ t.alternatives, c.EveryLeaf L := by
    unfold alternatives
    split
    · exact everyLeaf_node.mp h
    · simpa using h
  obtain ⟨pss, hpss, rfl⟩ := map_eq_ok.mp hs
  intro p hp
  obtain ⟨qs, hqs, hp⟩ := List.mem_flatten.mp hp
  obtain ⟨c, hc, cuts⟩ := exists_left_of_mem (forall₂_of_mapM hpss) hqs
  exact everyLeaf_of_splitBig cut (each c hc) cuts p hp

end

/-! ## Raw leaves -/

def NoRaw : Condition → Prop := EveryLeaf fun l => l.raw = false

theorem noRaw_simplify {t : Condition} (h : t.NoRaw) (n : Int) : (t.simplify n).NoRaw :=
  everyLeaf_simplify (fun _ plain _ => joined_raw_eq_false plain _ _) h n

theorem noRaw_of_split {t : Condition} (h : t.NoRaw) {limit : Int} {ps : List Condition}
    (hs : t.split limit = .ok ps) : ∀ p ∈ ps, p.NoRaw := by
  refine everyLeaf_of_split (fun l run plain => ?_) h hs
  rwa [Leaf.over_raw]

end MailRules.Condition
