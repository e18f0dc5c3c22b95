import MailRules.Condition.Simplify
import Mathlib.Data.List.Forall2

/-!
The shape of conditions, and relations that simplification keeps.

`leaves` lists the leaves of a tree, `Everywhere` says that a property of leaves and one of nodes
hold all over it, and `WellFormed` is the shape that a rule should have: no node without children,
one child under a negation, no leaf without operands, and a grouping where it is needed.

What is proved:
  1. `Rewriting.rebuild`: a relation that is kept in every context and that relates each node to
     what a step makes of it relates a tree to what the step makes of the whole tree.
  2. `arrange_perm`, `mergeable_perm`, `gather_perm`: reordering and joining hand on the children
     they are given, each as often.
  3. `Simplifying.simplify`: a relation kept by the three laws of logic and by reordering children
     relates a tree to its simplification, whatever the number of rounds. What simplification
     preserves is shown through this lemma, one law after the other.
  4. `LeafLaw.simplifying`: for what can be told by the leaves alone, joining them is the only law
     that needs an argument.
-/

namespace MailRules

/-- The shape of a leaf in a rule: it has operands, and a grouping exactly if there are several. -/
structure Leaf.WellFormed (l : Leaf) : Prop where
  operands : l.operands ≠ []
  lone : l.operands.length = 1 → l.grouping = .unset
  several : 1 < l.operands.length → l.grouping = .and ∨ l.grouping = .or

instance (l : Leaf) : Decidable l.WellFormed :=
  decidable_of_iff (l.operands ≠ [] ∧ (l.operands.length = 1 → l.grouping = .unset) ∧
      (1 < l.operands.length → l.grouping = .and ∨ l.grouping = .or))
    ⟨fun ⟨o, one, several⟩ => ⟨o, one, several⟩, fun h => ⟨h.operands, h.lone, h.several⟩⟩

namespace Leaf

variable {f : Field} {operands : List String} {op : Connective} {raw : Bool}

@[simp] theorem over_operands : (Leaf.over f operands op raw).operands = operands := by
  unfold Leaf.over; split <;> [rfl; split <;> rfl]

@[simp] theorem over_field : (Leaf.over f operands op raw).field = f := by
  unfold Leaf.over; split <;> [rfl; split <;> rfl]

@[simp] theorem over_raw : (Leaf.over f operands op raw).raw = raw := by
  unfold Leaf.over; split <;> [rfl; split <;> rfl]

theorem over_grouping (h : op ≠ .unset) :
    (Leaf.over f operands op raw).grouping = if operands.length ≤ 1 then .unset else op := by
  unfold Leaf.over; grind

end Leaf

theorem Connective.ne_of_groups {op : Connective} (h : op = .and ∨ op = .or) :
    op ≠ .unset ∧ op ≠ .not := by
  rcases h with rfl | rfl <;> simp

/-- Whether a node with the connective may have `n` children in a rule. -/
def Connective.Takes : Connective → Nat → Prop
  | .unset, _ => False
  | .and, n => 0 < n
  | .or, n => 0 < n
  | .not, n => n = 1

instance : ∀ (op : Connective) (n : Nat), Decidable (op.Takes n)
  | .unset, _ => instDecidableFalse
  | .and, n => Nat.decLt 0 n
  | .or, n => Nat.decLt 0 n
  | .not, n => Nat.decEq n 1

namespace Condition

mutual
def leaves : Condition → List Leaf
  | leaf l => [l]
  | node _ cs => leavesAll cs
def leavesAll : List Condition → List Leaf
  | [] => []
  | c :: cs => leaves c ++ leavesAll cs
end

/-- Every leaf of the tree is `L`, and every node with its children is `N`. -/
inductive Everywhere (L : Leaf → Prop) (N : Connective → List Condition → Prop) : Condition → Prop
  | leaf {l : Leaf} : L l → Everywhere L N (leaf l)
  | node {op : Connective} {cs : List Condition} :
      N op cs → (∀ c ∈ cs, Everywhere L N c) → Everywhere L N (node op cs)

/-- The shape of the condition of a rule. -/
def WellFormed : Condition → Prop :=
  Everywhere Leaf.WellFormed fun op cs => op.Takes cs.length

theorem leavesAll_eq_flatMap : ∀ cs, leavesAll cs = cs.flatMap leaves
  | [] => rfl
  | c :: cs => by rw [leavesAll, leavesAll_eq_flatMap cs, List.flatMap_cons]

@[simp] theorem leaves_leaf (l : Leaf) : (leaf l).leaves = [l] := rfl

@[simp] theorem leaves_node (op : Connective) (cs : List Condition) :
    (node op cs).leaves = cs.flatMap leaves := leavesAll_eq_flatMap cs

section Everywhere
variable {L L' : Leaf → Prop} {N N' : Connective → List Condition → Prop}

@[simp] theorem everywhere_leaf {l : Leaf} : Everywhere L N (leaf l) ↔ L l :=
  ⟨fun h => by cases h; assumption, .leaf⟩

@[simp] theorem everywhere_node {op : Connective} {cs : List Condition} :
    Everywhere L N (node op cs) ↔ N op cs ∧ ∀ c ∈ cs, Everywhere L N c :=
  ⟨fun h => by cases h with | node hn hc => exact ⟨hn, hc⟩, fun h => .node h.1 h.2⟩

mutual
/-- Whether every leaf is `L` and every node is `N` can be told by looking at all of them. -/
def decEverywhere [DecidablePred L] [∀ op cs, Decidable (N op cs)] :
    (t : Condition) → Decidable (Everywhere L N t)
  | leaf _ => decidable_of_iff _ everywhere_leaf.symm
  | node _ cs =>
    have := decEverywhereAll cs
    decidable_of_iff _ everywhere_node.symm
def decEverywhereAll [DecidablePred L] [∀ op cs, Decidable (N op cs)] :
    (cs : List Condition) → Decidable (∀ c ∈ cs, Everywhere L N c)
  | [] => isTrue fun _ h => absurd h List.not_mem_nil
  | c :: cs =>
    have := decEverywhere c
    have := decEverywhereAll cs
    decidable_of_iff _ List.forall_mem_cons.symm
end

instance (t : Condition) : Decidable t.WellFormed := decEverywhere t

theorem Everywhere.imp {t : Condition} (h : Everywhere L N t) (hL : ∀ l, L l → L' l)
    (hN : ∀ op cs, N op cs → N' op cs) : Everywhere L' N' t := by
  induction h with
  | leaf hl => exact .leaf (hL _ hl)
  | node hn _ ih => exact .node (hN _ _ hn) ih

theorem everywhere_iff_leaves {t : Condition} :
    Everywhere L N t ↔ (∀ l ∈ t.leaves, L l) ∧ Everywhere (fun _ => True) N t := by
  induction t using induct with
  | onLeaf l => simp
  | onNode op cs ih =>
    simp only [everywhere_node, leaves_node, List.mem_flatMap]
    constructor
    · intro ⟨hn, hc⟩
      refine ⟨?_, hn, fun c h => ((ih c h).mp (hc c h)).2⟩
      intro l ⟨c, h, hl⟩
      exact ((ih c h).mp (hc c h)).1 l hl
    · intro ⟨hl, hn, hc⟩
      exact ⟨hn, fun c h => (ih c h).mpr ⟨fun l m => hl l ⟨c, h, m⟩, hc c h⟩⟩

end Everywhere

/-! ## What the laws do with children

Each law and the canonical order hand on the children they are given, in another order or joined. -/

/-- Elements taken key after key are the elements. -/
theorem perm_flatMap_filter {α κ : Type} [DecidableEq κ] (key : α → κ) : ∀ {ks : List κ} {xs : List α},
    ks.Nodup → (∀ x ∈ xs, key x ∈ ks) → (ks.flatMap fun k => xs.filter (key · = k)).Perm xs
  | [], [], _, _ => .nil
  | [], x :: _, _, h => absurd (h x List.mem_cons_self) List.not_mem_nil
  | k :: ks, xs, hk, h => by
    obtain ⟨fresh, hks⟩ := List.nodup_cons.mp hk
    -- Those with the first key are taken out, and the others are taken key after key.
    have others : ∀ x ∈ xs.filter (key · ≠ k), key x ∈ ks := by
      intro x hx
      obtain ⟨hx, ne⟩ := List.mem_filter.mp hx
      exact (List.mem_cons.mp (h x hx)).resolve_left (by simpa using ne)
    have same : (ks.flatMap fun j => (xs.filter (key · ≠ k)).filter (key · = j)) =
        ks.flatMap fun j => xs.filter (key · = j) := by
      refine List.flatMap_congr fun j hj => ?_
      have ne : j ≠ k := fun e => fresh (e ▸ hj)
      rw [List.filter_filter]
      exact List.filter_congr fun x _ => by grind
    have rest := perm_flatMap_filter key hks others
    rw [same] at rest
    have parts := List.filter_append_perm (fun x => decide (key x = k)) xs
    simp only [← decide_not] at parts
    rw [List.flatMap_cons]
    exact (rest.append_left _).trans parts

theorem arrange_perm (cs : List Condition) : (arrange cs).Perm cs :=
  perm_flatMap_filter rank List.nodup_range fun c _ => List.mem_range.mpr (rank_lt_ranks c)

/-- What a child contributes when it is spliced. -/
def spliced (op : Connective) : Condition → List Condition
  | leaf l => [leaf l]
  | node op' gs => if op' = op then gs else [node op' gs]

theorem splice_eq_flatMap (op : Connective) : ∀ cs, splice op cs = cs.flatMap (spliced op)
  | [] => rfl
  | leaf l :: cs => by rw [splice, splice_eq_flatMap op cs]; rfl
  | node op' gs :: cs => by
    rw [splice, splice_eq_flatMap op cs, List.flatMap_cons, spliced]
    split <;> rfl

theorem mergeable?_eq_some {op : Connective} {c : Condition} {l : Leaf} :
    mergeable? op c = some l ↔ c = leaf l ∧ (1 < l.operands.length → l.grouping = op) := by
  cases c with
  | leaf l' => simp only [mergeable?]; grind
  | node op' cs => simp [mergeable?]

theorem everywhere_splice {L : Leaf → Prop} {N : Connective → List Condition → Prop}
    {op : Connective} {cs : List Condition} (h : ∀ c ∈ cs, Everywhere L N c) :
    ∀ d ∈ splice op cs, Everywhere L N d := by
  rw [splice_eq_flatMap]
  intro d hd
  obtain ⟨c, hc, hd⟩ := List.mem_flatMap.mp hd
  cases c with
  | leaf l => rw [List.mem_singleton.mp hd]; exact h _ hc
  | node op' gs =>
    rw [spliced] at hd
    split at hd
    · exact (everywhere_node.mp (h _ hc)).2 d hd
    · rw [List.mem_singleton.mp hd]; exact h _ hc

/-- The children that are joined and the others are the children. -/
theorem mergeable_perm (op : Connective) : ∀ cs : List Condition,
    (cs.filter (fun c => (mergeable? op c).isNone) ++
      (cs.filterMap (mergeable? op)).map leaf).Perm cs
  | [] => .nil
  | c :: cs => by
    have ih := mergeable_perm op cs
    cases h : mergeable? op c with
    | none => simpa [h] using ih
    | some l =>
      obtain ⟨rfl, _⟩ := mergeable?_eq_some.mp h
      simp only [List.filter_cons, h, Option.isNone_some, Bool.false_eq_true, if_false,
        List.filterMap_cons, List.map_cons]
      exact List.perm_middle.trans (ih.cons _)

theorem mem_fieldsOf {f : Field} : ∀ {ls : List Leaf}, f ∈ fieldsOf ls ↔ ∃ l ∈ ls, l.field = f
  | [] => by simp [fieldsOf]
  | l :: ls => by
    simp only [fieldsOf, List.mem_cons, List.mem_filter, mem_fieldsOf]
    grind

theorem nodup_fieldsOf : ∀ ls, (fieldsOf ls).Nodup
  | [] => .nil
  | l :: ls => List.nodup_cons.mpr ⟨by simp, (nodup_fieldsOf ls).filter _⟩

theorem gather_perm (ls : List Leaf) :
    ((fieldsOf ls).flatMap fun f => ls.filter (·.field = f)).Perm ls :=
  perm_flatMap_filter Leaf.field (nodup_fieldsOf ls) fun l hl => mem_fieldsOf.mpr ⟨l, hl, rfl⟩

theorem mem_mergeable {op : Connective} {cs : List Condition} {l : Leaf} :
    l ∈ cs.filterMap (mergeable? op) ↔
      leaf l ∈ cs ∧ (1 < l.operands.length → l.grouping = op) := by
  simp only [List.mem_filterMap, mergeable?_eq_some]
  grind

theorem mem_mergeLeaves {op : Connective} {cs : List Condition} {d : Condition} :
    d ∈ mergeLeaves op cs ↔ (d ∈ cs ∧ mergeable? op d = none) ∨
      ∃ f ∈ fieldsOf (cs.filterMap (mergeable? op)),
        d = leaf (joined op (cs.filterMap (mergeable? op)) f) := by
  simp only [mergeLeaves, List.mem_append, List.mem_filter, Option.isNone_iff_eq_none,
    List.mem_map, eq_comm (a := d)]

theorem joined_grouping {op : Connective} (h : op ≠ .unset) (ls : List Leaf) (f : Field) :
    (joined op ls f).grouping =
      if (joined op ls f).operands.length ≤ 1 then .unset else op := by
  rw [joined, Leaf.over_grouping h, Leaf.over_operands]

theorem joined_raw_eq_false {ls : List Leaf} (h : ∀ l ∈ ls, l.raw = false) (op : Connective)
    (f : Field) : (joined op ls f).raw = false := by
  rw [joined, Leaf.over_raw, List.any_eq_false]
  intro l hl
  rw [h l (List.mem_of_mem_filter hl)]
  exact Bool.false_ne_true

theorem joined_operands_ne_nil {ls : List Leaf} {f : Field} (op : Connective)
    (h : ∀ l ∈ ls, l.operands ≠ []) (hf : f ∈ fieldsOf ls) : (joined op ls f).operands ≠ [] := by
  obtain ⟨l, hl, rfl⟩ := mem_fieldsOf.mp hf
  rw [joined, Leaf.over_operands]
  intro empty
  have mine : l ∈ ls.filter (·.field = l.field) := by simp [hl]
  exact h l hl (List.flatMap_eq_nil_iff.mp empty l mine)

/-! ## Relations kept by simplification -/

/-- A preorder of conditions that is kept in every context. -/
structure Rewriting (R : Condition → Condition → Prop) : Prop where
  refl : ∀ t, R t t
  trans : ∀ {t u v}, R t u → R u v → R t v
  node : ∀ op {cs ds}, List.Forall₂ R cs ds → R (node op cs) (node op ds)

/-- A preorder of conditions that each law of simplification follows. -/
structure Simplifying (R : Condition → Condition → Prop) : Prop extends Rewriting R where
  splice : ∀ {op} cs, op ≠ .not → R (.node op cs) (.node op (splice op cs))
  merge : ∀ {op} cs, op = .and ∨ op = .or → 1 < cs.length →
    R (.node op cs) (.node op (mergeLeaves op cs))
  collapse : ∀ op cs, R (.node op cs) (collapseNode op cs)
  arrange : ∀ op cs, R (.node op cs) (.node op (arrange cs))

section
variable {R : Condition → Condition → Prop}

theorem Rewriting.rebuild (hR : Rewriting R) {f : Connective → List Condition → Condition}
    (step : ∀ op cs, R (.node op cs) (f op cs)) (t : Condition) : R t (t.rebuild f) := by
  induction t using induct with
  | onLeaf l => exact hR.refl _
  | onNode op cs ih =>
    rw [rebuild_node]
    refine hR.trans (hR.node op ?_) (step op _)
    exact List.forall₂_map_right_iff.mpr (List.forall₂_same.mpr ih)

theorem Simplifying.simplifyOnce (hR : Simplifying R) (t : Condition) : R t t.simplifyOnce := by
  have flattened : R t t.flatten := by
    apply hR.rebuild
    intro op cs
    by_cases h : op = .not
    · simp only [h, if_true]; exact hR.refl _
    · simp only [h, if_false]; exact hR.splice cs h
  have merged : R t.flatten t.flatten.mergeFields := by
    apply hR.rebuild
    intro op cs
    split
    · exact hR.refl _
    · exact hR.merge cs (by grind) (by omega)
  exact hR.trans (hR.trans flattened merged) (hR.rebuild hR.collapse _)

theorem Simplifying.simplifyRounds (hR : Simplifying R) : ∀ n t, R t (simplifyRounds n t)
  | 0, t => hR.refl t
  | n + 1, t => by
    rw [simplifyRounds_succ]
    exact hR.trans (hR.simplifyOnce t) (hR.simplifyRounds n _)

theorem Simplifying.simplify (hR : Simplifying R) (t : Condition) (n : Int) :
    R t (t.simplify n) :=
  hR.trans (hR.simplifyRounds _ t) (hR.rebuild hR.arrange _)

end

/-! ## Relations told by leaves -/

/-- A preorder of lists of leaves that allows for another order, and for leaves that are joined
under a connective. -/
structure LeafLaw (S : List Leaf → List Leaf → Prop) : Prop where
  perm : ∀ {ks ls}, ks.Perm ls → S ks ls
  trans : ∀ {ks ls ms}, S ks ls → S ls ms → S ks ms
  append : ∀ {ks ks' ls ls'}, S ks ks' → S ls ls' → S (ks ++ ls) (ks' ++ ls')
  join : ∀ {op ls}, op = .and ∨ op = .or → (∀ l ∈ ls, 1 < l.operands.length → l.grouping = op) →
    S ls ((fieldsOf ls).map (joined op ls))

theorem leaves_collapseNode (op : Connective) (cs : List Condition) :
    (collapseNode op cs).leaves = cs.flatMap leaves := by
  unfold collapseNode
  split <;> simp

theorem leaves_splice (op : Connective) (cs : List Condition) :
    (splice op cs).flatMap leaves = cs.flatMap leaves := by
  rw [splice_eq_flatMap, List.flatMap_assoc]
  refine List.flatMap_congr fun c _ => ?_
  cases c with
  | leaf l => simp [spliced]
  | node op' gs => simp only [spliced]; split <;> simp

theorem leaves_mergeLeaves (op : Connective) (cs : List Condition) :
    (mergeLeaves op cs).flatMap leaves =
      (cs.filter (fun c => (mergeable? op c).isNone)).flatMap leaves ++
        (fieldsOf (cs.filterMap (mergeable? op))).map (joined op (cs.filterMap (mergeable? op))) := by
  rw [mergeLeaves, List.flatMap_append, List.flatMap_map]
  simp [List.map_eq_flatMap]

/-- The leaves that may be joined under a node, among all the leaves below it. -/
theorem leaves_mergeable_perm (op : Connective) (cs : List Condition) :
    ((cs.filter (fun c => (mergeable? op c).isNone)).flatMap leaves ++
      cs.filterMap (mergeable? op)).Perm (cs.flatMap leaves) := by
  have := (mergeable_perm op cs).flatMap_right leaves
  rw [List.flatMap_append, List.flatMap_map] at this
  simpa using this

/-- What holds of all leaves is such a law if joined leaves have it. -/
theorem leafLaw_all {L : Leaf → Prop} (join : ∀ {op ls f}, op = .and ∨ op = .or →
      (∀ l ∈ ls, L l) → f ∈ fieldsOf ls → L (joined op ls f)) :
    LeafLaw fun ks ls => (∀ l ∈ ks, L l) → ∀ l ∈ ls, L l where
  perm same := fun h l hl => h l (same.mem_iff.mpr hl)
  trans first second := second ∘ first
  append first second := by
    intro h l hl
    rw [List.forall_mem_append] at h
    rcases List.mem_append.mp hl with hl | hl
    · exact first h.1 l hl
    · exact second h.2 l hl
  join hop _ := by
    intro h l hl
    obtain ⟨f, hf, rfl⟩ := List.mem_map.mp hl
    exact join hop h hf

/-- A law of leaves that simplification keeps. -/
theorem LeafLaw.simplifying {S : List Leaf → List Leaf → Prop} (hS : LeafLaw S) :
    Simplifying fun t u => S t.leaves u.leaves where
  refl t := hS.perm (List.Perm.refl _)
  trans := hS.trans
  node op cs ds h := by
    simp only [leaves_node]
    induction h with
    | nil => exact hS.perm (List.Perm.refl _)
    | cons head _ ih => exact hS.append head ih
  splice cs _ := by
    simp only [leaves_node, leaves_splice]
    exact hS.perm (List.Perm.refl _)
  merge {op} cs hop _ := by
    simp only [leaves_node, leaves_mergeLeaves]
    refine hS.trans (hS.perm (leaves_mergeable_perm op cs).symm) ?_
    exact hS.append (hS.perm (List.Perm.refl _))
      (hS.join hop fun l hl => (mem_mergeable.mp hl).2)
  collapse op cs := by
    simp only [leaves_node, leaves_collapseNode]
    exact hS.perm (List.Perm.refl _)
  arrange op cs := by
    simp only [leaves_node]
    exact hS.perm ((arrange_perm cs).flatMap_right _).symm

end Condition

end MailRules
