import MailRules.Proofs.Condition.Shape

/-!
The normal form that two rounds of simplification reach.

A condition of the shape a rule should have is in normal form if no law of logic applies to it: a
conjunction or disjunction has two children or more, no child has the connective of its parent, and
no two leaves would be joined. One round is not enough for it, as dropping a double negation may
bring two conjunctions together after the round has flattened the tree. It brings everything else
about, though (`Collapsed`), and a second round has nothing left to drop but the nodes whose
children it has joined into one leaf. Such a leaf keeps the connective of its node as a grouping,
so it is not joined any further.

What is proved:
  1. `collapsed_simplifyOnce`: a round collapses a well-formed condition.
  2. `flat_flatten`, `gathered_mergeFields`, `normal_collapse`: what each law makes of a collapsed
     condition, and so `normal_simplifyOnce`: a further round makes it normal.
  3. `normal_simplify`: with two rounds or more, simplification yields a normal form with the
     children of every node in canonical order.
-/

namespace MailRules

/-- Whether a node with `n` children is kept: one around a lone child is dropped. -/
def Connective.Keeps : Connective → Nat → Prop
  | .unset, _ => False
  | .and, n => 1 < n
  | .or, n => 1 < n
  | .not, n => n = 1

theorem Connective.Keeps.takes {op : Connective} {n : Nat} (h : op.Keeps n) : op.Takes n := by
  cases op <;> simp only [Keeps, Takes] at h ⊢ <;> omega

namespace Condition

/-- No child has the connective of its node. -/
def Alternating (op : Connective) (cs : List Condition) : Prop := ∀ gs, node op gs ∉ cs

/-- No two children of a node would be joined. -/
def Apart (op : Connective) (cs : List Condition) : Prop :=
  ((cs.filterMap (mergeable? op)).map Leaf.field).Nodup

/-- No law applies to a node with these children. -/
structure Settled (op : Connective) (cs : List Condition) : Prop where
  keeps : op.Keeps cs.length
  alternating : Alternating op cs
  apart : Apart op cs

/-- A condition in normal form. -/
def Normal : Condition → Prop := Everywhere Leaf.WellFormed Settled

/-- No node can be dropped. -/
def Collapsed : Condition → Prop :=
  Everywhere Leaf.WellFormed fun op cs =>
    op.Keeps cs.length ∧ (op = .not → Alternating op cs)

/-- No node can be dropped or spliced. -/
def Flat : Condition → Prop :=
  Everywhere Leaf.WellFormed fun op cs => op.Keeps cs.length ∧ Alternating op cs

/-- The children of a node that were all joined into one leaf. -/
def Joined (op : Connective) (cs : List Condition) : Prop :=
  ∃ l, cs = [leaf l] ∧ l.grouping = op ∧ 1 < l.operands.length

/-- No node can be spliced and no leaves can be joined, but a node may be left with a single joined
leaf. -/
def Gathered : Condition → Prop :=
  Everywhere Leaf.WellFormed fun op cs =>
    (op.Keeps cs.length ∨ Joined op cs) ∧ Alternating op cs ∧ Apart op cs

theorem Normal.collapsed {t : Condition} (h : t.Normal) : t.Collapsed :=
  h.imp (fun _ => id) fun _ _ h => ⟨h.keeps, fun _ => h.alternating⟩

/-! ## Changes of a tree -/

section
variable {L L' : Leaf → Prop} {N N' : Connective → List Condition → Prop}
  {f : Connective → List Condition → Condition}

/-- What a change makes of a tree all over is told node by node, given the children remade. -/
theorem Everywhere.rebuild {t : Condition} (h : Everywhere L N t) (leaves : ∀ l, L l → L' l)
    (nodes : ∀ op cs, N op cs → (∀ c ∈ cs, Everywhere L N c) →
      (∀ d ∈ cs.map (Condition.rebuild f), Everywhere L' N' d) →
      Everywhere L' N' (f op (cs.map (Condition.rebuild f)))) :
    Everywhere L' N' (t.rebuild f) := by
  induction h with
  | leaf hl => exact .leaf (leaves _ hl)
  | node hn hc ih =>
    rw [rebuild_node]
    exact nodes _ _ hn hc (List.forall_mem_map.mpr ih)

/-- A change that gives every node new children only. -/
def KeepsNodes (f : Connective → List Condition → Condition) : Prop :=
  ∀ op cs, ∃ ds, f op cs = node op ds

theorem KeepsNodes.mem_map {op : Connective} {gs cs : List Condition} (hf : KeepsNodes f)
    (h : node op gs ∈ cs.map (Condition.rebuild f)) : ∃ gs', node op gs' ∈ cs := by
  obtain ⟨c, hc, e⟩ := List.mem_map.mp h
  cases c with
  | leaf l => cases e
  | node op' gs' =>
    obtain ⟨ds, e'⟩ := hf op' (gs'.map (Condition.rebuild f))
    rw [rebuild_node, e'] at e
    cases e
    exact ⟨gs', hc⟩

theorem KeepsNodes.alternating {op : Connective} {cs : List Condition} (hf : KeepsNodes f)
    (h : Alternating op cs) : Alternating op (cs.map (Condition.rebuild f)) := by
  intro gs hgs
  obtain ⟨gs', mem⟩ := hf.mem_map hgs
  exact h gs' mem

theorem KeepsNodes.mergeable?_eq (hf : KeepsNodes f) (op : Connective) (c : Condition) :
    mergeable? op (c.rebuild f) = mergeable? op c := by
  cases c with
  | leaf l => rfl
  | node op' gs =>
    obtain ⟨ds, e⟩ := hf op' (gs.map (Condition.rebuild f))
    rw [rebuild_node, e]; rfl

theorem keepsNodes_flatten :
    KeepsNodes fun op cs => .node op (if op = .not then cs else splice op cs) :=
  fun _ _ => ⟨_, rfl⟩

theorem keepsNodes_mergeFields : KeepsNodes fun op cs =>
    if cs.length ≤ 1 ∨ (op ≠ .and ∧ op ≠ .or) then .node op cs else .node op (mergeLeaves op cs) := by
  intro op cs
  by_cases h : cs.length ≤ 1 ∨ (op ≠ .and ∧ op ≠ .or)
  · exact ⟨cs, if_pos h⟩
  · exact ⟨mergeLeaves op cs, if_neg h⟩

theorem keepsNodes_sorted : KeepsNodes fun op cs => .node op (arrange cs) := fun _ _ => ⟨_, rfl⟩

end

/-! ## The first round -/

theorem joined_wellFormed {op : Connective} {ls : List Leaf} {f : Field}
    (hop : op = .and ∨ op = .or) (wf : ∀ l ∈ ls, l.WellFormed) (hf : f ∈ fieldsOf ls) :
    (joined op ls f).WellFormed := by
  have grouping := joined_grouping (Connective.ne_of_groups hop).1 ls f
  refine ⟨joined_operands_ne_nil op (fun l hl => (wf l hl).operands) hf, fun lone => ?_,
    fun several => ?_⟩
  · rw [grouping, if_pos (by omega)]
  · rwa [grouping, if_neg (by omega)]

theorem length_le_flatMap {α β : Type} {f : α → List β} : ∀ {xs : List α},
    (∀ x ∈ xs, f x ≠ []) → xs.length ≤ (xs.flatMap f).length
  | [], _ => Nat.zero_le _
  | x :: xs, h => by
    have head := List.length_pos_iff.mpr (h x List.mem_cons_self)
    have tail := length_le_flatMap fun y hy => h y (List.mem_cons_of_mem x hy)
    simp only [List.flatMap_cons, List.length_append, List.length_cons]
    omega

theorem length_le_splice (op : Connective) {cs : List Condition} (wf : ∀ c ∈ cs, c.WellFormed) :
    cs.length ≤ (splice op cs).length := by
  rw [splice_eq_flatMap]
  refine length_le_flatMap fun c hc => ?_
  cases c with
  | leaf l => simp [spliced]
  | node op' gs =>
    have takes := (everywhere_node.mp (wf _ hc)).1
    rw [spliced]
    split
    · rintro rfl
      cases op' <;> simp [Connective.Takes] at takes
    · simp

/-- Leaves over one field are all joined, so there are as many operands or more. -/
theorem length_le_joined (op : Connective) {ls : List Leaf} {f : Field}
    (h : ∀ l ∈ ls, l.operands ≠ []) (one : fieldsOf ls = [f]) :
    ls.length ≤ (joined op ls f).operands.length := by
  have mine := (gather_perm ls).length_eq
  rw [one, List.flatMap_cons, List.flatMap_nil, List.append_nil] at mine
  rw [joined, Leaf.over_operands, ← mine]
  exact length_le_flatMap fun l hl => h l (List.mem_of_mem_filter hl)

/-- Of two children or more, two are left by joining leaves, or all are joined. -/
theorem mergeLeaves_keeps {op : Connective} {cs : List Condition}
    (shaped : ∀ l ∈ cs.filterMap (mergeable? op), l.WellFormed) (hop : op = .and ∨ op = .or)
    (several : 1 < cs.length) :
    1 < (mergeLeaves op cs).length ∨ Joined op (mergeLeaves op cs) := by
  have parts := (mergeable_perm op cs).length_eq
  rw [mergeLeaves]
  generalize cs.filterMap (mergeable? op) = ls at parts shaped ⊢
  generalize cs.filter (fun c => (mergeable? op c).isNone) = others at parts ⊢
  simp only [List.length_append, List.length_map] at parts ⊢
  -- One child is left only if all children are joined, over one field.
  rcases hfs : fieldsOf ls with _ | ⟨f, _ | ⟨g, fs⟩⟩
  · have none : ls = [] := by
      rw [List.eq_nil_iff_forall_not_mem]
      intro l hl
      have := mem_fieldsOf.mpr ⟨l, hl, rfl⟩
      simp [hfs] at this
    left
    simp only [none, List.length_nil] at parts ⊢
    omega
  · rcases others with _ | ⟨c, others⟩
    · right
      have operands := length_le_joined op (fun l hl => (shaped l hl).operands) hfs
      simp only [List.length_nil] at parts
      refine ⟨joined op ls f, rfl, ?_, by omega⟩
      rw [joined_grouping (Connective.ne_of_groups hop).1, if_neg (by omega)]
    · left
      simp only [List.length_cons]
      omega
  · left
    simp only [List.length_cons]
    omega

theorem wellFormed_flatten {t : Condition} (wf : t.WellFormed) : t.flatten.WellFormed := by
  refine wf.rebuild (fun _ => id) fun op cs takes _ remade => ?_
  by_cases negation : op = .not
  · rw [if_pos negation]
    exact everywhere_node.mpr ⟨by rwa [List.length_map], remade⟩
  · rw [if_neg negation]
    have length := length_le_splice op remade
    rw [List.length_map] at length
    refine everywhere_node.mpr ⟨?_, everywhere_splice remade⟩
    cases op <;> simp only [Connective.Takes] at takes ⊢ <;> first | contradiction | omega

/-- The leaves that may be joined are of the right shape if all leaves are, and joining them keeps
what holds all over the children. -/
theorem everywhere_mergeLeaves {N : Connective → List Condition → Prop} {op : Connective}
    {cs : List Condition} (hop : op = .and ∨ op = .or)
    (h : ∀ c ∈ cs, Everywhere Leaf.WellFormed N c) :
    (∀ l ∈ cs.filterMap (mergeable? op), l.WellFormed) ∧
      ∀ d ∈ mergeLeaves op cs, Everywhere Leaf.WellFormed N d := by
  have shaped : ∀ l ∈ cs.filterMap (mergeable? op), l.WellFormed :=
    fun l hl => everywhere_leaf.mp (h _ (mem_mergeable.mp hl).1)
  refine ⟨shaped, fun d hd => ?_⟩
  rcases mem_mergeLeaves.mp hd with ⟨hd, _⟩ | ⟨f, hf, rfl⟩
  · exact h d hd
  · exact .leaf (joined_wellFormed hop shaped hf)

theorem wellFormed_mergeFields {t : Condition} (wf : t.WellFormed) :
    t.mergeFields.WellFormed := by
  refine wf.rebuild (fun _ => id) fun op cs takes _ remade => ?_
  generalize hds : cs.map (rebuild _) = ds at remade
  have length : ds.length = cs.length := by rw [← hds, List.length_map]
  rw [← length] at takes
  split
  · exact everywhere_node.mpr ⟨takes, remade⟩
  · next merges =>
    have hop : op = .and ∨ op = .or := by grind
    obtain ⟨shaped, merged⟩ := everywhere_mergeLeaves hop remade
    refine everywhere_node.mpr ⟨?_, merged⟩
    have left : 0 < (mergeLeaves op ds).length := by
      rcases mergeLeaves_keeps shaped hop (by omega) with two | ⟨l, e, _⟩
      · omega
      · rw [e]; exact Nat.one_pos
    rcases hop with rfl | rfl <;> exact left

/-- What is dropped from a well-formed condition leaves nothing to drop. -/
theorem collapsed_collapse {t : Condition} (wf : t.WellFormed) : t.collapse.Collapsed := by
  refine wf.rebuild (fun _ => id) fun op cs takes _ remade => ?_
  generalize hds : cs.map (rebuild collapseNode) = ds at remade
  have length : ds.length = cs.length := by rw [← hds, List.length_map]
  rw [← length] at takes
  unfold collapseNode
  split
  · exact (everywhere_node.mp (remade _ List.mem_cons_self)).2 _ List.mem_cons_self
  · next single =>
    refine everywhere_node.mpr ⟨⟨takes, fun _ gs hgs => ?_⟩, remade⟩
    -- A negation below has a single child, so both would have been dropped.
    obtain ⟨d, rfl⟩ := List.length_eq_one_iff.mp takes
    obtain rfl := List.mem_singleton.mp hgs
    obtain ⟨g, rfl⟩ := List.length_eq_one_iff.mp (everywhere_node.mp (remade _ hgs)).1.1
    exact single g rfl
  · exact remade _ List.mem_cons_self
  · next ne_not ne_one _ =>
    refine everywhere_node.mpr ⟨⟨?_, fun e => absurd e ne_not⟩, remade⟩
    have two : ds.length ≠ 1 := by
      intro one
      obtain ⟨d, rfl⟩ := List.length_eq_one_iff.mp one
      exact ne_one d rfl
    cases op <;> simp only [Connective.Takes, Connective.Keeps] at takes ⊢ <;>
      first | contradiction | omega

theorem collapsed_simplifyOnce {t : Condition} (wf : t.WellFormed) : t.simplifyOnce.Collapsed :=
  collapsed_collapse (wellFormed_mergeFields (wellFormed_flatten wf))

/-! ## The second round -/

theorem flat_flatten {t : Condition} (h : t.Collapsed) : t.flatten.Flat := by
  refine h.rebuild (fun _ => id) fun op cs ⟨keeps, negation⟩ _ remade => ?_
  by_cases ne_not : op = .not
  · rw [if_pos ne_not]
    refine everywhere_node.mpr ⟨⟨by rwa [List.length_map], ?_⟩, remade⟩
    exact keepsNodes_flatten.alternating (negation ne_not)
  · rw [if_neg ne_not]
    have length := length_le_splice op fun d hd =>
      (remade d hd).imp (fun _ => id) fun _ _ h => h.1.takes
    rw [List.length_map] at length
    refine everywhere_node.mpr ⟨⟨?_, fun gs hgs => ?_⟩, everywhere_splice remade⟩
    · cases op <;> simp only [Connective.Keeps] at keeps ⊢ <;> first | contradiction | omega
    · -- A child that is spliced is flat already, so it brings up no node like its parent.
      rw [splice_eq_flatMap] at hgs
      obtain ⟨d, hd, hgs⟩ := List.mem_flatMap.mp hgs
      cases d with
      | leaf l => simp [spliced] at hgs
      | node op' gs' =>
        have flat := (everywhere_node.mp (remade _ hd)).1.2
        rw [spliced] at hgs
        split at hgs
        · next same => subst same; exact flat gs hgs
        · next other => cases List.mem_singleton.mp hgs; exact other rfl

theorem filterMap_mergeLeaves (op : Connective) (hop : op = .and ∨ op = .or)
    (cs : List Condition) : (mergeLeaves op cs).filterMap (mergeable? op) =
      (fieldsOf (cs.filterMap (mergeable? op))).map
        (joined op (cs.filterMap (mergeable? op))) := by
  have others : (cs.filter fun c => (mergeable? op c).isNone).filterMap (mergeable? op) = [] := by
    rw [List.filterMap_eq_nil_iff]
    exact fun c hc => Option.isNone_iff_eq_none.mp (List.mem_filter.mp hc).2
  have again (f : Field) : mergeable? op (leaf (joined op (cs.filterMap (mergeable? op)) f)) =
      some (joined op (cs.filterMap (mergeable? op)) f) := by
    refine mergeable?_eq_some.mpr ⟨rfl, fun several => ?_⟩
    rw [joined_grouping (Connective.ne_of_groups hop).1, if_neg (by omega)]
  rw [mergeLeaves, List.filterMap_append, others, List.nil_append, List.filterMap_map]
  simp only [Function.comp_def, again, List.filterMap_eq_map']

theorem gathered_mergeFields {t : Condition} (h : t.Flat) : t.mergeFields.Gathered := by
  refine h.rebuild (fun _ => id) fun op cs ⟨keeps, alternating⟩ _ remade => ?_
  replace alternating := keepsNodes_mergeFields.alternating alternating
  generalize hds : cs.map (rebuild _) = ds at remade alternating
  have length : ds.length = cs.length := by rw [← hds, List.length_map]
  rw [← length] at keeps
  split
  · next few =>
    -- Only a negation is passed over, and its one child is apart from nothing.
    have one : ds.length ≤ 1 := by cases op <;> simp [Connective.Keeps] at keeps few ⊢ <;> omega
    refine everywhere_node.mpr ⟨⟨.inl keeps, alternating, ?_⟩, remade⟩
    have short : (ds.filterMap (mergeable? op)).length ≤ 1 :=
      Nat.le_trans (List.length_filterMap_le _ _) one
    match hls : ds.filterMap (mergeable? op) with
    | [] => simp [Apart, hls]
    | [l] => simp [Apart, hls]
    | _ :: _ :: _ => simp [hls] at short
  · next merges =>
    have hop : op = .and ∨ op = .or := by grind
    obtain ⟨shaped, merged⟩ := everywhere_mergeLeaves hop remade
    refine everywhere_node.mpr ⟨⟨?_, fun gs hgs => ?_, ?_⟩, merged⟩
    · refine (mergeLeaves_keeps shaped hop (by omega)).imp_left fun two => ?_
      rcases hop with rfl | rfl <;> exact two
    · rcases mem_mergeLeaves.mp hgs with ⟨hgs, _⟩ | ⟨f, _, e⟩
      · exact alternating gs hgs
      · cases e
    · rw [Apart, filterMap_mergeLeaves op hop, List.map_map]
      have fields : Leaf.field ∘ joined op (ds.filterMap (mergeable? op)) = id := by
        funext f
        exact Leaf.over_field
      rw [fields, List.map_id]
      exact nodup_fieldsOf _

theorem collapse_node (op : Connective) (cs : List Condition) :
    (node op cs).collapse = collapseNode op (cs.map collapse) := rebuild_node _ op cs

theorem collapseNode_of_keeps {op : Connective} {cs : List Condition} (keeps : op.Keeps cs.length)
    (negation : op = .not → Alternating op cs) : collapseNode op cs = node op cs := by
  unfold collapseNode
  split
  · exact absurd List.mem_cons_self (negation rfl _)
  · rfl
  · cases op <;> simp [Connective.Keeps] at keeps
    contradiction
  · rfl

/-- Collapsing keeps the connective at the root, or leaves a leaf with it as its grouping. -/
def RootKept : Condition → Prop
  | leaf _ => True
  | node op cs => (∃ ds, (node op cs).collapse = node op ds) ∨
      ∃ l, (node op cs).collapse = leaf l ∧ l.grouping = op ∧ 1 < l.operands.length

theorem RootKept.node_of_collapse {c : Condition} {op : Connective} {gs : List Condition}
    (h : c.RootKept) (e : c.collapse = node op gs) : ∃ gs', c = node op gs' := by
  cases c with
  | leaf l => cases e
  | node op' gs' =>
    rcases h with ⟨ds, e'⟩ | ⟨l, e', _⟩
    · rw [e'] at e
      cases e
      exact ⟨gs', rfl⟩
    · rw [e'] at e
      cases e

theorem RootKept.alternating {op : Connective} {cs : List Condition}
    (h : ∀ c ∈ cs, c.RootKept) (alternating : Alternating op cs) :
    Alternating op (cs.map collapse) := by
  intro gs hgs
  obtain ⟨c, hc, e⟩ := List.mem_map.mp hgs
  obtain ⟨gs', rfl⟩ := (h c hc).node_of_collapse e
  exact alternating gs' hc

/-- A leaf that a node is collapsed to has the connective of that node as its grouping, so its
parent does not join it. -/
theorem RootKept.mergeable?_eq {op : Connective} {c : Condition} (h : c.RootKept)
    (other : ∀ gs, c ≠ node op gs) : mergeable? op c.collapse = mergeable? op c := by
  cases c with
  | leaf l => rfl
  | node op' gs =>
    rcases h with ⟨ds, e⟩ | ⟨l, e, grouping, several⟩
    · rw [e]; rfl
    · have ne : l.grouping ≠ op := by
        rintro rfl
        exact other gs (by rw [grouping])
      rw [e, mergeable?, mergeable?, if_pos ⟨several, ne⟩]

theorem Gathered.rootKept {t : Condition} (h : t.Gathered) : t.RootKept := by
  induction h with
  | leaf _ => trivial
  | @node op cs hn children ih =>
    obtain ⟨keeps, alternating, _⟩ := hn
    rw [RootKept, collapse_node]
    rcases keeps with keeps | ⟨l, rfl, grouping, several⟩
    · left
      rw [← List.length_map collapse] at keeps
      exact ⟨_, collapseNode_of_keeps keeps fun _ => RootKept.alternating ih alternating⟩
    · right
      -- The grouping of the leaf is the connective of its node, so that is no negation.
      have hop := (everywhere_leaf.mp (children _ List.mem_cons_self)).several several
      refine ⟨l, ?_, grouping, several⟩
      rw [grouping] at hop
      rcases hop with rfl | rfl <;> rfl

theorem normal_collapse {t : Condition} (h : t.Gathered) : t.collapse.Normal := by
  refine h.rebuild (fun _ => id) fun op cs ⟨keeps, alternating, apart⟩ children remade => ?_
  show Normal (collapseNode op (cs.map collapse))
  rcases keeps with keeps | ⟨l, rfl, grouping, several⟩
  · have kept : ∀ c ∈ cs, c.RootKept := fun c hc => Gathered.rootKept (children c hc)
    have alternating' := RootKept.alternating kept alternating
    rw [← List.length_map collapse] at keeps
    rw [collapseNode_of_keeps keeps fun _ => alternating']
    refine everywhere_node.mpr ⟨⟨keeps, alternating', ?_⟩, remade⟩
    have same : (cs.map collapse).filterMap (mergeable? op) = cs.filterMap (mergeable? op) := by
      rw [List.filterMap_map]
      refine List.filterMap_congr fun c hc => ?_
      exact (kept c hc).mergeable?_eq fun gs e => alternating gs (e ▸ hc)
    rwa [Apart, same]
  · have shaped := everywhere_leaf.mp (children _ List.mem_cons_self)
    have hop := shaped.several several
    rw [grouping] at hop
    rcases hop with rfl | rfl <;> exact .leaf shaped

theorem normal_simplifyOnce {t : Condition} (h : t.Collapsed) : t.simplifyOnce.Normal :=
  normal_collapse (gathered_mergeFields (flat_flatten h))

theorem normal_simplifyRounds {t : Condition} : ∀ {n}, t.Collapsed → (simplifyRounds (n + 1) t).Normal
  | 0, h => by
    rw [simplifyRounds_succ]
    exact normal_simplifyOnce h
  | n + 1, h => by
    rw [simplifyRounds_succ]
    exact normal_simplifyRounds (normal_simplifyOnce h).collapsed

/-! ## The canonical order -/

/-- The children of every node are in canonical order. -/
def Ordered : Condition → Prop := Everywhere (fun _ => True) fun _ cs => arrange cs = cs

theorem normal_sorted {t : Condition} (h : t.Normal) : t.sorted.Normal := by
  refine h.rebuild (fun _ => id) fun op cs settled _ remade => ?_
  show Normal (node op (arrange (cs.map sorted)))
  have perm := arrange_perm (cs.map sorted)
  refine everywhere_node.mpr ⟨⟨?_, fun gs hgs => ?_, ?_⟩, fun d hd => ?_⟩
  · rw [perm.length_eq, List.length_map]
    exact settled.keeps
  · exact keepsNodes_sorted.alternating settled.alternating gs (mem_arrange.mp hgs)
  · rw [Apart, ((perm.filterMap _).map _).nodup_iff, List.filterMap_map]
    have same : mergeable? op ∘ sorted = mergeable? op :=
      funext fun c => keepsNodes_sorted.mergeable?_eq op c
    rw [same]
    exact settled.apart
  · exact remade d (mem_arrange.mp hd)

/-- Of elements taken key after key, those with one of the keys are taken as they come. -/
theorem filter_flatMap_filter {α κ : Type} [DecidableEq κ] (key : α → κ) (xs : List α) (k : κ) :
    ∀ {ks : List κ}, ks.Nodup → k ∈ ks →
      (ks.flatMap fun j => xs.filter (key · = j)).filter (key · = k) = xs.filter (key · = k)
  | [], _, h => absurd h List.not_mem_nil
  | j :: js, nodup, h => by
    obtain ⟨fresh, nodup⟩ := List.nodup_cons.mp nodup
    rw [List.flatMap_cons, List.filter_append, List.filter_filter]
    by_cases e : k = j
    · subst e
      have rest : (js.flatMap fun j => xs.filter (key · = j)).filter (key · = k) = [] := by
        simp only [List.filter_eq_nil_iff, List.mem_flatMap, List.mem_filter, decide_eq_true_eq]
        rintro x ⟨j, hj, _, rfl⟩ same
        exact fresh (same ▸ hj)
      rw [rest, List.append_nil]
      exact List.filter_congr fun x _ => by simp
    · have head : xs.filter (fun x => decide (key x = k) && decide (key x = j)) = [] := by
        rw [List.filter_eq_nil_iff]
        grind
      rw [head, List.nil_append]
      exact filter_flatMap_filter key xs k nodup ((List.mem_cons.mp h).resolve_left e)

theorem filter_arrange (r : Nat) (cs : List Condition) :
    (arrange cs).filter (·.rank = r) = cs.filter (·.rank = r) := by
  by_cases h : r < ranks
  · exact filter_flatMap_filter rank cs r List.nodup_range (List.mem_range.mpr h)
  · have none (ds : List Condition) : ds.filter (·.rank = r) = [] := by
      rw [List.filter_eq_nil_iff]
      intro d _ same
      exact h (of_decide_eq_true same ▸ rank_lt_ranks d)
    rw [none, none]

theorem arrange_arrange (cs : List Condition) : arrange (arrange cs) = arrange cs :=
  arrange_eq_of_ranks fun r => filter_arrange r cs

theorem ordered_sorted (t : Condition) : t.sorted.Ordered := by
  induction t using induct with
  | onLeaf l => exact .leaf trivial
  | onNode op cs ih =>
    rw [sorted_node]
    refine everywhere_node.mpr ⟨arrange_arrange _, fun d hd => ?_⟩
    obtain ⟨c, hc, rfl⟩ := List.mem_map.mp (mem_arrange.mp hd)
    exact ih c hc

theorem wellFormed_sorted {t : Condition} (wf : t.WellFormed) : t.sorted.WellFormed := by
  refine wf.rebuild (fun _ => id) fun op cs takes _ remade => everywhere_node.mpr ⟨?_, ?_⟩
  · rwa [(arrange_perm _).length_eq, List.length_map]
  · exact fun d hd => remade d (mem_arrange.mp hd)

/-- The shape of a rule is kept by any number of rounds. -/
theorem wellFormed_simplify {t : Condition} (wf : t.WellFormed) (n : Int) :
    (t.simplify n).WellFormed := by
  refine wellFormed_sorted ?_
  generalize n.toNat = k
  induction k generalizing t with
  | zero => exact wf
  | succ k ih =>
    rw [simplifyRounds_succ]
    exact ih ((collapsed_simplifyOnce wf).imp (fun _ => id) fun _ _ h => h.1.takes)

/-- Two rounds of simplification reach a normal form, and any further rounds keep it. -/
theorem normal_simplify {t : Condition} (wf : t.WellFormed) {n : Int} (hn : 2 ≤ n) :
    (t.simplify n).Normal ∧ (t.simplify n).Ordered := by
  refine ⟨normal_sorted ?_, ordered_sorted _⟩
  -- The first round collapses the tree, and the others keep it normal.
  obtain ⟨k, hk⟩ : ∃ k, n.toNat = k + 2 := ⟨n.toNat - 2, by omega⟩
  rw [hk, simplifyRounds_succ]
  exact normal_simplifyRounds (collapsed_simplifyOnce wf)

end Condition

end MailRules
