import MailRules.Proofs.Condition.Meaning

/-!
Simplification keeps the meaning of a condition.

Each law of simplification hands on the answers of the children: spliced children answer as the
node they come from, a joined leaf answers as the leaves it stands for, and the rest is a matter of
order. A negated grouping of operands is left out, as it is lost when its leaf is joined.

What is proved:
  1. `simplifying_sameMeaning`: a condition that can be interpreted keeps its meaning under every
     law, hence under any number of rounds.
  2. `simplify_keeps_unreadable`: a leaf that no matcher can read is not simplified away.
  3. `matcher_simplify`: so a condition and its simplification have matchers that accept the same
     messages, and a sensible condition without a matcher has no simplification with one.
-/

namespace MailRules

/-- A leaf that no matcher can read. -/
def Leaf.Unreadable (l : Leaf) : Prop := l.raw = true ∨ l.field = .unset ∨ l.field = .query

namespace Condition

/-- A condition with a matcher and without a negated grouping. -/
def Plain : Condition → Prop :=
  Everywhere (fun l => l.Interpretable ∧ l.grouping ≠ .not) fun op cs => op.Interprets cs.length

/-- The second condition is plain and means the same, if the first is plain. -/
def SameMeaning (t u : Condition) : Prop :=
  t.Plain → u.Plain ∧ ∀ m, u.holds m = t.holds m

theorem plain_iff {t : Condition} :
    t.Plain ↔ t.Interpretable ∧ ∀ l ∈ t.leaves, l.grouping ≠ .not := by
  rw [Plain, Interpretable, everywhere_iff_leaves, everywhere_iff_leaves (L := Leaf.Interpretable)]
  grind

/-! ## Each law keeps the meaning -/

theorem SameMeaning.node (op : Connective) {cs ds : List Condition}
    (h : List.Forall₂ SameMeaning cs ds) : SameMeaning (.node op cs) (.node op ds) := by
  intro plain
  obtain ⟨arity, children⟩ := everywhere_node.mp plain
  have both := (List.forall₂_and_left cs ds).mpr ⟨children, h⟩
  constructor
  · refine everywhere_node.mpr ⟨h.length_eq ▸ arity, fun d hd => ?_⟩
    obtain ⟨c, _, hc, same⟩ := exists_left_of_mem both hd
    exact (same hc).1
  · intro m
    rw [holds_node, holds_node]
    exact congrArg _ (map_eq_map_of_forall₂ both fun c d h => ((h.2 h.1).2 m).symm).symm

/-- A node whose children are handed on in another form, under a connective that takes any number
of them. -/
theorem SameMeaning.of_answers {op : Connective} (ne_not : op ≠ .not) {cs ds : List Condition}
    (plain : (∀ c ∈ cs, c.Plain) → ∀ d ∈ ds, d.Plain)
    (answers : (∀ c ∈ cs, c.Plain) →
      ∀ m, op.combine (ds.map (holds m)) = op.combine (cs.map (holds m))) :
    SameMeaning (.node op cs) (.node op ds) := by
  intro h
  obtain ⟨arity, children⟩ := everywhere_node.mp h
  refine ⟨everywhere_node.mpr ⟨?_, plain children⟩, fun m => ?_⟩
  · cases op <;> first | contradiction | exact arity
  · rw [holds_node, holds_node, answers children m]

theorem sameMeaning_splice {op : Connective} (cs : List Condition) (ne_not : op ≠ .not) :
    SameMeaning (.node op cs) (.node op (splice op cs)) := by
  apply SameMeaning.of_answers ne_not everywhere_splice
  intro _ m
  rw [splice_eq_flatMap, List.map_flatMap, Connective.combine_flatMap ne_not]
  refine congrArg _ (List.map_congr_left fun c _ => ?_)
  cases c with
  | leaf l => exact Connective.combine_singleton ne_not _
  | node op' gs =>
    simp only [spliced]
    split
    · next same => rw [same, holds_node]
    · exact Connective.combine_singleton ne_not _

/-- A leaf that may be joined answers as its operands do under the connective of its parent. -/
theorem holds_mergeable {op : Connective} (ne_not : op ≠ .not) {l : Leaf}
    (plain : l.Interpretable ∧ l.grouping ≠ .not) (h : 1 < l.operands.length → l.grouping = op)
    (m : Message) : l.holds m = op.combine (l.operands.map (l.field.holds m)) := by
  by_cases several : 1 < l.operands.length
  · rw [Leaf.holds, h several]
  · have := List.length_pos_iff.mpr plain.1.operands
    obtain ⟨s, hs⟩ := List.length_eq_one_iff.mp (by omega : l.operands.length = 1)
    rw [Leaf.holds, hs, List.map_cons, List.map_nil, Connective.combine_singleton plain.2,
      Connective.combine_singleton ne_not]

section Joined
variable {op : Connective} {ls : List Leaf} {f : Field}

theorem joined_plain (hop : op = .and ∨ op = .or)
    (plain : ∀ l ∈ ls, l.Interpretable ∧ l.grouping ≠ .not) (hf : f ∈ fieldsOf ls) :
    (joined op ls f).Interpretable ∧ (joined op ls f).grouping ≠ .not := by
  obtain ⟨l, hl, rfl⟩ := mem_fieldsOf.mp hf
  obtain ⟨set, ne_not⟩ := Connective.ne_of_groups hop
  have notRaw : (ls.filter (·.field = l.field)).any (·.raw) = false := by
    rw [List.any_eq_false]
    intro l' hl'
    rw [(plain l' (List.mem_of_mem_filter hl')).1.plain]
    simp
  have some := joined_operands_ne_nil op (fun l hl => (plain l hl).1.operands) hf
  simp only [joined, Leaf.over_operands] at some
  simp only [joined, notRaw]
  refine ⟨Leaf.over_interpretable hop some (plain l hl).1.named (plain l hl).1.tested, ?_⟩
  rw [Leaf.over_grouping set]
  split <;> simp [ne_not]

theorem holds_joined (hop : op = .and ∨ op = .or)
    (plain : ∀ l ∈ ls, l.Interpretable ∧ l.grouping ≠ .not)
    (alike : ∀ l ∈ ls, 1 < l.operands.length → l.grouping = op) (hf : f ∈ fieldsOf ls)
    (m : Message) :
    (joined op ls f).holds m =
      op.combine ((ls.filter (·.field = f)).map (Leaf.holds m)) := by
  obtain ⟨l, hl, rfl⟩ := mem_fieldsOf.mp hf
  obtain ⟨set, ne_not⟩ := Connective.ne_of_groups hop
  have some := (joined_plain hop plain hf).1.operands
  simp only [joined, Leaf.over_operands] at some ⊢
  rw [Leaf.holds_over hop some, List.map_flatMap, Connective.combine_flatMap ne_not]
  refine congrArg _ (List.map_congr_left fun l' hl' => ?_)
  obtain ⟨mine, same⟩ := List.mem_filter.mp hl'
  rw [holds_mergeable ne_not (plain l' mine) (alike l' mine), of_decide_eq_true same]

end Joined

theorem sameMeaning_merge {op : Connective} (cs : List Condition) (hop : op = .and ∨ op = .or) :
    SameMeaning (.node op cs) (.node op (mergeLeaves op cs)) := by
  have ne_not := (Connective.ne_of_groups hop).2
  have plain (children : ∀ c ∈ cs, c.Plain) :
      ∀ l ∈ cs.filterMap (mergeable? op), l.Interpretable ∧ l.grouping ≠ .not :=
    fun l hl => everywhere_leaf.mp (children _ (mem_mergeable.mp hl).1)
  apply SameMeaning.of_answers ne_not
  · intro children d hd
    rcases mem_mergeLeaves.mp hd with ⟨hd, _⟩ | ⟨f, hf, rfl⟩
    · exact children d hd
    · exact .leaf (joined_plain hop (plain children) hf)
  · intro children m
    -- The operands of joined leaves combine field by field, each field leaf by leaf.
    have joint : op.combine (((fieldsOf (cs.filterMap (mergeable? op))).map fun f =>
        leaf (joined op (cs.filterMap (mergeable? op)) f)).map (holds m)) =
        op.combine (((cs.filterMap (mergeable? op)).map leaf).map (holds m)) := by
      rw [List.map_map, List.map_map]
      calc _ = op.combine ((fieldsOf (cs.filterMap (mergeable? op))).map fun f =>
              op.combine (((cs.filterMap (mergeable? op)).filter (·.field = f)).map
                (Leaf.holds m))) := by
            refine congrArg _ (List.map_congr_left fun f hf => ?_)
            exact holds_joined hop (plain children) (fun l hl => (mem_mergeable.mp hl).2) hf m
        _ = op.combine (((fieldsOf (cs.filterMap (mergeable? op))).flatMap fun f =>
              (cs.filterMap (mergeable? op)).filter (·.field = f)).map (Leaf.holds m)) := by
            rw [List.map_flatMap, Connective.combine_flatMap ne_not]
        _ = _ := Connective.combine_perm ((gather_perm _).map _) op
    rw [mergeLeaves, List.map_append]
    refine (Connective.combine_append ne_not rfl joint).trans ?_
    rw [← List.map_append]
    exact Connective.combine_perm ((mergeable_perm op cs).map _) op

theorem sameMeaning_collapse (op : Connective) (cs : List Condition) :
    SameMeaning (.node op cs) (collapseNode op cs) := by
  intro plain
  obtain ⟨arity, children⟩ := everywhere_node.mp plain
  unfold collapseNode
  split
  · next c =>
    have inner := everywhere_node.mp (children _ List.mem_cons_self)
    refine ⟨inner.2 c List.mem_cons_self, fun m => ?_⟩
    simp [Connective.combine]
  · exact ⟨plain, fun m => rfl⟩
  · next _ ne_not =>
    refine ⟨children _ List.mem_cons_self, fun m => ?_⟩
    rw [holds_node, List.map_cons, List.map_nil, Connective.combine_singleton ne_not]
  · exact ⟨plain, fun m => rfl⟩

theorem sameMeaning_arrange (op : Connective) (cs : List Condition) :
    SameMeaning (.node op cs) (.node op (arrange cs)) := by
  intro plain
  obtain ⟨arity, children⟩ := everywhere_node.mp plain
  have perm := arrange_perm cs
  refine ⟨everywhere_node.mpr ⟨perm.length_eq ▸ arity, fun c hc => ?_⟩, fun m => ?_⟩
  · exact children c (perm.mem_iff.mp hc)
  · rw [holds_node, holds_node, Connective.combine_perm (perm.map _)]

theorem simplifying_sameMeaning : Simplifying SameMeaning where
  refl _ plain := ⟨plain, fun _ => rfl⟩
  trans h h' plain := by
    obtain ⟨plain', same⟩ := h plain
    obtain ⟨plain'', same'⟩ := h' plain'
    exact ⟨plain'', fun m => (same' m).trans (same m)⟩
  node := SameMeaning.node
  splice := sameMeaning_splice
  merge cs hop _ := sameMeaning_merge cs hop
  collapse := sameMeaning_collapse
  arrange := sameMeaning_arrange

/-! ## Conditions without a matcher -/

theorem leafLaw_unreadable :
    LeafLaw fun ks ls => (∃ l ∈ ks, l.Unreadable) → ∃ l ∈ ls, l.Unreadable where
  perm h := fun ⟨l, hl, bad⟩ => ⟨l, h.mem_iff.mp hl, bad⟩
  trans h h' := h' ∘ h
  append h h' := by
    intro ⟨l, hl, bad⟩
    rcases List.mem_append.mp hl with hl | hl
    · obtain ⟨k, hk, bad⟩ := h ⟨l, hl, bad⟩
      exact ⟨k, List.mem_append_left _ hk, bad⟩
    · obtain ⟨k, hk, bad⟩ := h' ⟨l, hl, bad⟩
      exact ⟨k, List.mem_append_right _ hk, bad⟩
  join := by
    intro op ls _ _ ⟨l, hl, bad⟩
    refine ⟨joined op ls l.field, List.mem_map_of_mem (mem_fieldsOf.mpr ⟨l, hl, rfl⟩), ?_⟩
    rcases bad with raw | field
    · left
      simp only [joined, Leaf.over_raw, List.any_eq_true, List.mem_filter]
      exact ⟨l, ⟨hl, by simp⟩, raw⟩
    · right
      simpa only [joined, Leaf.over_field] using field

theorem simplify_keeps_unreadable (t : Condition) (n : Int) (h : ∃ l ∈ t.leaves, l.Unreadable) :
    ∃ l ∈ (t.simplify n).leaves, l.Unreadable :=
  leafLaw_unreadable.simplifying.simplify t n h

theorem not_unreadable_of_interpretable {t : Condition} (h : t.Interpretable) :
    ¬ ∃ l ∈ t.leaves, l.Unreadable := by
  intro ⟨l, hl, bad⟩
  have plain := (everywhere_iff_leaves.mp h).1 l hl
  rcases bad with raw | unset | query
  · rw [plain.plain] at raw; cases raw
  · exact plain.named unset
  · exact plain.tested query

/-- A sensible condition has a matcher if each of its leaves can be read. -/
theorem WellFormed.interpretable {t : Condition} (wf : t.WellFormed)
    (h : ¬ ∃ l ∈ t.leaves, l.Unreadable) : t.Interpretable := by
  obtain ⟨shaped, arities⟩ := everywhere_iff_leaves.mp wf
  refine everywhere_iff_leaves.mpr ⟨fun l hl => ?_, arities.imp (fun _ => id) fun op cs => ?_⟩
  · have readable : ¬ l.Unreadable := fun bad => h ⟨l, hl, bad⟩
    simp only [Leaf.Unreadable, not_or] at readable
    obtain ⟨raw, named, tested⟩ := readable
    have shape := shaped l hl
    refine ⟨by simpa using raw, named, tested, shape.operands, fun ungrouped => ?_⟩
    have := List.length_pos_iff.mpr shape.operands
    by_contra several
    rcases shape.several (by omega) with e | e <;> simp [e] at ungrouped
  · cases op <;> simp [Connective.Takes, Connective.Interprets]

/-- **Simplification preserves meaning**, after any number of rounds: the matcher of a condition
without negated groupings and that of its simplification accept the same messages, and a
well-formed condition that has no matcher does not get one. -/
theorem matcher_simplify (t : Condition) (n : Int) :
    ((∀ l ∈ t.leaves, l.grouping ≠ .not) → ∀ k, t.matcher = .ok k →
      ∃ k', (t.simplify n).matcher = .ok k' ∧ ∀ m, k'.accepts m = k.accepts m) ∧
    (t.WellFormed → ∀ e, t.matcher = .error e → ∃ e', (t.simplify n).matcher = .error e') := by
  constructor
  · intro ungrouped k hk
    have meant := interpretable_of_matcher hk
    obtain ⟨plain, same⟩ := simplifying_sameMeaning.simplify t n (plain_iff.mpr ⟨meant, ungrouped⟩)
    obtain ⟨k', hk', accepts⟩ := matcher_of_interpretable (plain_iff.mp plain).1
    exact ⟨k', hk', fun m => by rw [accepts, same, accepts_of_matcher hk]⟩
  · intro wf e he
    -- The shape is in order, so it is a leaf that is refused, and the leaf stays.
    have refused := matcher_eq_error_iff.mp ⟨e, he⟩
    refine matcher_eq_error_iff.mpr fun meant => ?_
    have unreadable : ∃ l ∈ t.leaves, l.Unreadable := by
      by_contra none
      exact refused (wf.interpretable none)
    exact not_unreadable_of_interpretable meant (simplify_keeps_unreadable t n unreadable)

/-- A conjunction in which every law applies, and one with a leaf in the search language. -/
theorem matcher_simplify_nested :
    let sender (s : String) := leaf ⟨.sender, [s], .unset, false⟩
    let t := conj [sender "a", disj [conj [sender "b", neg (neg (sender "c"))]],
      leaf ⟨.sender, ["d", "e"], .or, false⟩]
    let u := conj [sender "a", leaf ⟨.sender, ["b"], .unset, true⟩]
    (∃ k k', t.matcher = .ok k ∧ (t.simplify 1).matcher = .ok k' ∧
      ∀ m, k'.accepts m = k.accepts m) ∧
    u.WellFormed ∧ (∃ e, u.matcher = .error e) ∧ ∃ e, (u.simplify 1).matcher = .error e := by
  intro sender t u
  have wf : u.WellFormed := by decide
  refine ⟨?_, wf, ⟨_, rfl⟩, (matcher_simplify u 1).2 wf _ rfl⟩
  obtain ⟨k', hk', same⟩ := (matcher_simplify t 1).1 (by decide) _ rfl
  exact ⟨_, k', rfl, hk', same⟩

end Condition

end MailRules
