import MailRules.Proofs.Condition.CanonicalOrder

/-!
Two rounds of simplification are enough.

Of a condition in normal form, a round changes no more than the sequence of siblings: flattening and
collapsing find nothing, and joining leaves puts those that could be joined after the others. Whether
a leaf can be joined is told by its rank, so the siblings of one rank keep their sequence and the
canonical order restores what it was (`arrange_mergeLeaves`).

That a normal form stays one and keeps its canonical form (`SameForm`) is a relation that each law
follows (`simplifying_sameForm`), so it holds for any number of rounds.

What is proved:
  1. `simplify_of_normal`: a normal form is simplified to its canonical form.
  2. `simplify_two_rounds`: after two rounds further ones change nothing, simplifying the result
     changes nothing, and no law of logic applies to it (`Simplified`).
-/

namespace MailRules.Condition

/-! ## The form of a simplified condition -/

/-- Siblings that would be joined under a connective: leaves over one field, each with a single
operand or with the connective as its grouping. -/
def Joinable (op : Connective) (c d : Condition) : Prop :=
  ∃ l k : Leaf, c = leaf l ∧ d = leaf k ∧ l.field = k.field ∧
    (l.operands.length = 1 ∨ l.grouping = op) ∧ (k.operands.length = 1 ∨ k.grouping = op)

/-- A node that no law of logic applies to, with its children in canonical order. -/
structure Reduced (op : Connective) (cs : List Condition) : Prop where
  several : op = .and ∨ op = .or → 2 ≤ cs.length
  alternating : ∀ gs, node op gs ∉ cs
  apart : op = .and ∨ op = .or → cs.Pairwise fun c d => ¬ Joinable op c d
  inOrder : InOrder cs

/-- A well-formed condition of which all nodes are reduced. -/
def Simplified : Condition → Prop :=
  Everywhere Leaf.WellFormed fun op cs => op.Takes cs.length ∧ Reduced op cs

theorem Apart.not_joinable {op : Connective} {cs : List Condition} (h : Apart op cs) :
    cs.Pairwise fun c d => ¬ Joinable op c d := by
  rw [Apart, List.Nodup, List.pairwise_map, List.pairwise_filterMap] at h
  refine h.imp ?_
  rintro _ _ apart ⟨l, k, rfl, rfl, field, joins, joins'⟩
  have mergeable {l : Leaf} (joins : l.operands.length = 1 ∨ l.grouping = op) :
      mergeable? op (leaf l) = some l :=
    mergeable?_eq_some.mpr ⟨rfl, fun several => joins.resolve_left (by omega)⟩
  exact apart l (mergeable joins) k (mergeable joins') field

theorem simplified_of_normal {t : Condition} (h : t.Normal) (ordered : t.Ordered) :
    t.Simplified := by
  induction h with
  | leaf shaped => exact .leaf shaped
  | @node op cs settled children ih =>
    obtain ⟨arranged, below⟩ := everywhere_node.mp ordered
    refine .node ⟨settled.keeps.takes, ?_, settled.alternating,
      fun _ => settled.apart.not_joinable, arrange_eq_self_iff.mp arranged⟩
      fun c hc => ih c hc (below c hc)
    rintro (rfl | rfl) <;> exact settled.keeps

/-! ## Joining leaves that are apart -/

/-- Leaves of the right shape. -/
def Shaped (cs : List Condition) : Prop := ∀ l, leaf l ∈ cs → l.WellFormed

theorem fieldsOf_of_nodup : ∀ {ls : List Leaf}, (ls.map Leaf.field).Nodup →
    fieldsOf ls = ls.map Leaf.field
  | [], _ => rfl
  | l :: ls, h => by
    obtain ⟨fresh, rest⟩ := List.nodup_cons.mp h
    rw [fieldsOf, fieldsOf_of_nodup rest, List.map_cons, List.filter_eq_self.mpr]
    intro f hf
    exact decide_eq_true fun same => fresh (same ▸ hf)

theorem filter_eq_singleton {α κ : Type} [DecidableEq κ] {key : α → κ} : ∀ {xs : List α} {x : α},
    (xs.map key).Nodup → x ∈ xs → xs.filter (key · = key x) = [x]
  | y :: ys, x, h, hx => by
    obtain ⟨fresh, rest⟩ := List.nodup_cons.mp h
    rw [List.filter_cons]
    rcases List.mem_cons.mp hx with rfl | hx
    · rw [if_pos (by simp), List.filter_eq_nil_iff.mpr]
      intro z hz same
      exact fresh (of_decide_eq_true same ▸ List.mem_map_of_mem hz)
    · rw [if_neg, filter_eq_singleton rest hx]
      intro same
      exact fresh (of_decide_eq_true same ▸ List.mem_map_of_mem hx)

theorem joined_eq_self {op : Connective} {ls : List Leaf} {l : Leaf} (hop : op ≠ .unset)
    (apart : (ls.map Leaf.field).Nodup) (hl : l ∈ ls) (shaped : l.WellFormed)
    (grouped : 1 < l.operands.length → l.grouping = op) : joined op ls l.field = l := by
  have alone : ls.filter (·.field = l.field) = [l] := filter_eq_singleton apart hl
  have set := List.length_pos_iff.mpr shaped.operands
  simp only [joined, alone, List.flatMap_singleton, List.any_cons, List.any_nil, Bool.or_false]
  unfold Leaf.over
  split
  · next lone => rw [← shaped.lone (by omega)]
  · next several => rw [← grouped (by omega)]

/-- Of children that are apart, those that could be joined are put after the others. -/
theorem mergeLeaves_of_apart {op : Connective} {cs : List Condition} (hop : op ≠ .unset)
    (shaped : Shaped cs) (apart : Apart op cs) : mergeLeaves op cs =
      cs.filter (fun c => (mergeable? op c).isNone) ++
        cs.filter fun c => !(mergeable? op c).isNone := by
  have same : (fieldsOf (cs.filterMap (mergeable? op))).map
      (fun f => leaf (joined op (cs.filterMap (mergeable? op)) f)) =
        (cs.filterMap (mergeable? op)).map leaf := by
    rw [fieldsOf_of_nodup apart, List.map_map]
    refine List.map_congr_left fun l hl => ?_
    obtain ⟨mem, grouped⟩ := mem_mergeable.mp hl
    exact congrArg leaf (joined_eq_self hop apart hl (shaped l mem) grouped)
  have picked : (cs.filterMap (mergeable? op)).map leaf =
      cs.filter fun c => !(mergeable? op c).isNone := by
    rw [List.map_filterMap, ← List.filterMap_eq_filter]
    refine List.filterMap_congr fun c _ => ?_
    cases h : mergeable? op c with
    | none => simp [Option.guard, h]
    | some l =>
      obtain ⟨rfl, _⟩ := mergeable?_eq_some.mp h
      simp [Option.guard, h]
  rw [mergeLeaves, same, picked]

/-- Whether a leaf of the right shape could be joined is told by its grouping. -/
theorem mergeable?_isNone_iff {op : Connective} {c : Condition}
    (shaped : ∀ l, c = leaf l → l.WellFormed) : (mergeable? op c).isNone = true ↔
      c.kind.2 = none ∨ c.kind.1 ≠ .unset ∧ c.kind.1 ≠ op := by
  cases c with
  | node op' gs => simp [mergeable?, kind]
  | leaf l =>
    have wf := shaped l rfl
    have set := List.length_pos_iff.mpr wf.operands
    have several : 1 < l.operands.length ↔ l.grouping ≠ .unset := by
      constructor
      · intro several
        exact (Connective.ne_of_groups (wf.several several)).1
      · intro grouped
        have := mt wf.lone grouped
        omega
    simp only [mergeable?, kind]
    grind

/-- Elements that are picked keep their sequence if they all go to one side. -/
theorem filter_sides {α : Type} {p q : α → Bool} {xs : List α}
    (alike : ∀ x ∈ xs, ∀ y ∈ xs, q x = true → q y = true → p x = p y) :
    (xs.filter p ++ xs.filter fun x => !p x).filter q = xs.filter q := by
  rw [List.filter_append, List.filter_filter, List.filter_filter]
  by_cases first : ∃ x ∈ xs, q x = true ∧ p x = true
  · obtain ⟨x, hx, qx, px⟩ := first
    have second : xs.filter (fun y => q y && !p y) = [] := by
      rw [List.filter_eq_nil_iff]
      intro y hy
      have := alike x hx y hy qx
      grind
    rw [second, List.append_nil]
    refine List.filter_congr fun y hy => ?_
    cases qy : q y with
    | false => rfl
    | true => rw [← alike x hx y hy qx qy, px, Bool.true_and]
  · have none : xs.filter (fun x => q x && p x) = [] := by
      rw [List.filter_eq_nil_iff]
      grind
    rw [none, List.nil_append]
    refine List.filter_congr fun y hy => ?_
    cases qy : q y with
    | false => rfl
    | true =>
      have py : p y ≠ true := fun py => first ⟨y, hy, qy, py⟩
      simp [py]

/-- Of siblings of one rank, all could be joined or none. -/
theorem filter_mergeLeaves {op : Connective} {cs : List Condition} (hop : op ≠ .unset)
    (shaped : Shaped cs) (apart : Apart op cs) (r : Nat) :
    (mergeLeaves op cs).filter (·.rank = r) = cs.filter (·.rank = r) := by
  rw [mergeLeaves_of_apart hop shaped apart]
  refine filter_sides fun c hc d hd rc rd => ?_
  have ranks := (of_decide_eq_true rc).trans (of_decide_eq_true rd).symm
  rw [Bool.eq_iff_iff, mergeable?_isNone_iff fun l e => shaped l (e ▸ hc),
    mergeable?_isNone_iff fun l e => shaped l (e ▸ hd), kind_eq_of_rank_eq ranks]

/-! ## Normal forms keep their canonical form -/

theorem arrange_map_sorted {cs ds : List Condition}
    (h : ∀ r, cs.filter (·.rank = r) = ds.filter (·.rank = r)) :
    arrange (cs.map sorted) = arrange (ds.map sorted) :=
  arrange_eq_of_ranks fun r => by rw [filter_map_sorted, filter_map_sorted, h]

section
variable {op : Connective} {cs ds : List Condition}

theorem Settled.perm (h : Settled op cs) (same : cs.Perm ds) : Settled op ds where
  keeps := same.length_eq ▸ h.keeps
  alternating gs hgs := h.alternating gs (same.mem_iff.mpr hgs)
  apart := ((same.filterMap _).map _).nodup_iff.mp h.apart

theorem settled_map_sorted : Settled op (cs.map sorted) ↔ Settled op cs := by
  have merged : (cs.map sorted).filterMap (mergeable? op) = cs.filterMap (mergeable? op) := by
    rw [List.filterMap_map]
    exact List.filterMap_congr fun c _ => keepsNodes_sorted.mergeable?_eq op c
  constructor
  · intro h
    refine ⟨by simpa using h.keeps, fun gs hgs => ?_, by simpa only [Apart, merged] using h.apart⟩
    have mem := List.mem_map_of_mem (f := sorted) hgs
    rw [sorted_node] at mem
    exact h.alternating _ mem
  · intro h
    exact ⟨by simpa using h.keeps, keepsNodes_sorted.alternating h.alternating,
      by simpa only [Apart, merged] using h.apart⟩

end

/-- If the first is a normal form then so is the second, with the same canonical form. -/
def SameForm (t u : Condition) : Prop := t.Normal → u.Normal ∧ u.sorted = t.sorted

section
variable {op : Connective} {cs ds : List Condition}

theorem SameForm.all (h : List.Forall₂ SameForm cs ds) (normal : ∀ c ∈ cs, c.Normal) :
    (∀ d ∈ ds, d.Normal) ∧ ds.map sorted = cs.map sorted := by
  induction h with
  | nil => simp
  | cons head _ ih =>
    obtain ⟨first, rest⟩ := List.forall_mem_cons.mp normal
    obtain ⟨hd, same⟩ := head first
    obtain ⟨hds, same'⟩ := ih rest
    exact ⟨List.forall_mem_cons.mpr ⟨hd, hds⟩, by rw [List.map_cons, List.map_cons, same, same']⟩

theorem SameForm.node (h : List.Forall₂ SameForm cs ds) :
    SameForm (node op cs) (node op ds) := by
  intro normal
  obtain ⟨settled, children⟩ := everywhere_node.mp normal
  obtain ⟨children', same⟩ := SameForm.all h children
  have settled' : Settled op ds := settled_map_sorted.mp (same ▸ settled_map_sorted.mpr settled)
  exact ⟨.node settled' children', by rw [sorted_node, sorted_node, same]⟩

/-- Children may be given in another sequence, if those of one rank keep theirs. -/
theorem sameForm_of_perm (same : cs.Perm ds)
    (ranks : ∀ r, ds.filter (·.rank = r) = cs.filter (·.rank = r)) :
    SameForm (node op cs) (node op ds) := by
  intro normal
  obtain ⟨settled, children⟩ := everywhere_node.mp normal
  refine ⟨.node (settled.perm same) fun d hd => children d (same.mem_iff.mpr hd), ?_⟩
  rw [sorted_node, sorted_node, arrange_map_sorted ranks]

end

theorem splice_of_alternating {op : Connective} : ∀ {cs : List Condition},
    Alternating op cs → splice op cs = cs
  | [], _ => rfl
  | leaf l :: cs, h => by
    rw [splice, splice_of_alternating fun gs hgs => h gs (List.mem_cons_of_mem _ hgs)]
  | node op' gs :: cs, h => by
    have other : op' ≠ op := by
      rintro rfl
      exact h gs List.mem_cons_self
    rw [splice, if_neg other,
      splice_of_alternating fun gs hgs => h gs (List.mem_cons_of_mem _ hgs)]

/-- Every law leaves a normal form what it is, but for the sequence of siblings. -/
theorem simplifying_sameForm : Simplifying SameForm where
  refl t normal := ⟨normal, rfl⟩
  trans := by
    intro t u v first second normal
    obtain ⟨middle, same⟩ := first normal
    obtain ⟨last, same'⟩ := second middle
    exact ⟨last, same'.trans same⟩
  node op _ _ h := .node h
  splice := by
    intro op cs _ normal
    rw [splice_of_alternating (everywhere_node.mp normal).1.alternating]
    exact ⟨normal, rfl⟩
  merge := by
    intro op cs hop _ normal
    obtain ⟨settled, children⟩ := everywhere_node.mp normal
    have shaped : Shaped cs := fun l hl => everywhere_leaf.mp (children _ hl)
    have ne := (Connective.ne_of_groups hop).1
    have same : cs.Perm (mergeLeaves op cs) := by
      rw [mergeLeaves_of_apart ne shaped settled.apart]
      exact (List.filter_append_perm _ cs).symm
    exact sameForm_of_perm same (filter_mergeLeaves ne shaped settled.apart) normal
  collapse := by
    intro op cs normal
    have settled := (everywhere_node.mp normal).1
    rw [collapseNode_of_keeps settled.keeps fun _ => settled.alternating]
    exact ⟨normal, rfl⟩
  arrange op cs := sameForm_of_perm (arrange_perm cs).symm fun r => filter_arrange r cs

theorem simplify_of_normal {t : Condition} (h : t.Normal) (n : Int) : t.simplify n = t.sorted :=
  (simplifying_sameForm.simplifyRounds n.toNat t h).2

/-! ## Two rounds -/

theorem simplify_eq_twice {t : Condition} (wf : t.WellFormed) {n : Int} (hn : 2 ≤ n) :
    t.simplify n = t.simplifyOnce.simplifyOnce.sorted := by
  obtain ⟨k, hk⟩ : ∃ k, n.toNat = k + 2 := ⟨n.toNat - 2, by omega⟩
  have normal := normal_simplifyOnce (collapsed_simplifyOnce wf)
  rw [simplify, hk, simplifyRounds_succ, simplifyRounds_succ]
  exact (simplifying_sameForm.simplifyRounds k _ normal).2

/-- **Simplification reaches a normal form within two rounds.** More rounds give the same condition,
simplifying that in any number of rounds leaves it as it is, and no law of logic applies to it. -/
theorem simplify_two_rounds {t : Condition} (wf : t.WellFormed) {n : Int} (hn : 2 ≤ n) (m : Int) :
    t.simplify n = t.simplify 2 ∧ (t.simplify n).simplify m = t.simplify n ∧
      (t.simplify n).Simplified := by
  obtain ⟨normal, ordered⟩ := normal_simplify wf hn
  refine ⟨?_, ?_, simplified_of_normal normal ordered⟩
  · rw [simplify_eq_twice wf hn, simplify_eq_twice wf (Int.le_refl 2)]
  · rw [simplify_of_normal normal m, sorted_eq_self_iff.mpr ordered]

/-- A condition that takes two rounds: the first drops the double negation, and only then there are
conjunctions to splice and leaves to join. -/
theorem simplify_two_rounds_negations :
    let t := conj [leaf ⟨.has, ["a"], .unset, false⟩, neg (neg (conj
      [disj [leaf ⟨.sender, ["b"], .unset, false⟩, leaf ⟨.sender, ["c", "d"], .or, true⟩],
        leaf ⟨.has, ["e", "f"], .and, false⟩, neg (leaf ⟨.cc, ["g"], .unset, false⟩)]))]
    t.WellFormed ∧ t.simplify 4 = t.simplify 2 ∧ (t.simplify 4).simplify 3 = t.simplify 4 ∧
      (t.simplify 4).Simplified := by
  intro t
  have wf : t.WellFormed := by decide
  exact ⟨wf, simplify_two_rounds wf (by decide) 3⟩

/-- One round is not enough for it. -/
example :
    let t := conj [leaf ⟨.has, ["a"], .unset, false⟩, neg (neg (conj
      [leaf ⟨.has, ["b"], .unset, false⟩, neg (leaf ⟨.cc, ["c"], .unset, false⟩)]))]
    t.simplify 1 ≠ t.simplify 2 := by decide

end MailRules.Condition
