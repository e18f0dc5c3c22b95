import MailRules.Condition.Matcher
import MailRules.Proofs.Condition.Shape
import MailRules.Proofs.Outcome

/-!
What a condition means, told without building its matcher.

`Condition.holds` says of a message whether it meets a condition: the operands of a leaf are looked
for one by one, and answers are combined by the connective of the leaf or node. It gives an answer
for every tree. `Condition.Interpretable` says which trees make sense to a matcher.

What is proved:
  1. `matcher_of_interpretable`: an interpretable condition has a matcher, and it accepts exactly
     the messages that meet the condition.
  2. `interpretable_of_matcher`: no other condition has one.

With these, what simplification and splitting do to matchers is shown on `holds`, which has one
equation for leaves and one for nodes.
-/

namespace MailRules

/-- The answer of a connective to several answers. -/
def Connective.combine : Connective → List Bool → Bool
  | .unset, bs => bs.any id
  | .and, bs => bs.all id
  | .or, bs => bs.any id
  | .not, bs => !bs.any id

def Field.holds (m : Message) (f : Field) (operand : String) : Bool :=
  match f.matcher [] with
  | .ok test => (test operand).accepts m
  | .error _ => false

def Leaf.holds (m : Message) (l : Leaf) : Bool :=
  l.grouping.combine (l.operands.map (l.field.holds m))

/-- Whether a leaf has a matcher: it looks at a field that can be tested, for operands that are not
in the search language, and its grouping fits their number. -/
structure Leaf.Interpretable (l : Leaf) : Prop where
  plain : l.raw = false
  named : l.field ≠ .unset
  tested : l.field ≠ .query
  operands : l.operands ≠ []
  grouped : l.grouping = .unset ∨ l.grouping = .not → l.operands.length = 1

/-- Whether a node with the connective has a matcher for `n` children that have one. -/
def Connective.Interprets : Connective → Nat → Prop
  | .unset, _ => False
  | .and, _ => True
  | .or, _ => True
  | .not, n => n = 1

namespace Condition

mutual
def holds (m : Message) : Condition → Bool
  | leaf l => l.holds m
  | node op cs => op.combine (holdsAll m cs)
def holdsAll (m : Message) : List Condition → List Bool
  | [] => []
  | c :: cs => holds m c :: holdsAll m cs
end

def Interpretable : Condition → Prop :=
  Everywhere Leaf.Interpretable fun op cs => op.Interprets cs.length

theorem holdsAll_eq_map (m : Message) : ∀ cs, holdsAll m cs = cs.map (holds m)
  | [] => rfl
  | c :: cs => by rw [holdsAll, holdsAll_eq_map m cs, List.map_cons]

@[simp] theorem holds_leaf (m : Message) (l : Leaf) : (leaf l).holds m = l.holds m := rfl

@[simp] theorem holds_node (m : Message) (op : Connective) (cs : List Condition) :
    (node op cs).holds m = op.combine (cs.map (holds m)) := by
  rw [holds, holdsAll_eq_map]

end Condition

/-! ## How answers combine -/

namespace Connective

theorem combine_singleton {op : Connective} (h : op ≠ .not) (b : Bool) : op.combine [b] = b := by
  cases op <;> simp_all [combine]

theorem combine_perm {bs bs' : List Bool} (h : bs.Perm bs') (op : Connective) :
    op.combine bs = op.combine bs' := by
  cases op <;> simp [combine, h.all_eq, h.any_eq]

/-- Part of the answers may be combined first. A negation cannot be taken apart like that. -/
theorem combine_append {op : Connective} (h : op ≠ .not) {as as' bs bs' : List Bool}
    (ha : op.combine as = op.combine as') (hb : op.combine bs = op.combine bs') :
    op.combine (as ++ bs) = op.combine (as' ++ bs') := by
  cases op <;> simp_all [combine]

theorem combine_flatMap {α : Type} {op : Connective} (h : op ≠ .not) (answers : α → List Bool) :
    ∀ xs : List α, op.combine (xs.flatMap answers) = op.combine (xs.map fun x => op.combine (answers x))
  | [] => rfl
  | x :: xs => by
    rw [List.flatMap_cons, List.map_cons, ← List.singleton_append]
    refine combine_append h ?_ (combine_flatMap h answers xs)
    rw [combine_singleton h]

end Connective

/-! ## The matcher of a leaf -/

namespace Matcher

@[simp] theorem accepts_all (m : Message) (ks : List Matcher) :
    (all ks).accepts m = Connective.combine .and (ks.map (accepts m)) := by
  rw [accepts, acceptsAll_eq_all, Connective.combine, List.all_map]; rfl

@[simp] theorem accepts_any (m : Message) (ks : List Matcher) :
    (any ks).accepts m = Connective.combine .or (ks.map (accepts m)) := by
  rw [accepts, acceptsAny_eq_any, Connective.combine, List.any_map]; rfl

@[simp] theorem accepts_negation (m : Message) (k : Matcher) :
    (negation k).accepts m = Connective.combine .not [k.accepts m] := by
  simp [accepts, Connective.combine]

theorem grouped_eq_ok {op : Connective} {ks : List Matcher} (some : ks ≠ [])
    (fits : op = .unset ∨ op = .not → ks.length = 1) :
    ∃ k, grouped op ks = .ok k ∧ ∀ m, k.accepts m = op.combine (ks.map (accepts m)) := by
  match ks, some with
  | [k], _ =>
    cases op <;> refine ⟨_, rfl, fun m => ?_⟩ <;> simp [Connective.combine]
  | k :: k' :: ks, _ =>
    cases op with
    | unset => simp at fits
    | not => simp at fits
    | and => exact ⟨.all (k :: k' :: ks), rfl, fun m => accepts_all m _⟩
    | or => exact ⟨.any (k :: k' :: ks), rfl, fun m => accepts_any m _⟩

theorem fits_of_grouped {op : Connective} {ks : List Matcher} {k : Matcher}
    (h : grouped op ks = .ok k) : ks ≠ [] ∧ (op = .unset ∨ op = .not → ks.length = 1) := by
  match ks with
  | [] => cases op <;> simp [grouped] at h
  | [_] => simp
  | _ :: _ :: _ => cases op <;> simp [grouped] at h ⊢

end Matcher

theorem Field.matcher_eq_ok {f : Field} (named : f ≠ .unset) (tested : f ≠ .query)
    (operands : List String) :
    ∃ test, f.matcher operands = .ok test ∧ ∀ m s, (test s).accepts m = f.holds m s := by
  cases f <;> first | contradiction | exact ⟨_, rfl, fun m s => rfl⟩

theorem Field.named_of_matcher {f : Field} {operands : List String} {test : String → Matcher}
    (h : f.matcher operands = .ok test) : f ≠ .unset ∧ f ≠ .query := by
  cases f <;> simp_all [Field.matcher]

theorem Leaf.matcher_of_interpretable {l : Leaf} (h : l.Interpretable) :
    ∃ k, l.matcher = .ok k ∧ ∀ m, k.accepts m = l.holds m := by
  obtain ⟨test, ht, accepts⟩ := Field.matcher_eq_ok h.named h.tested l.operands
  have some : l.operands.map test ≠ [] := by simp [h.operands]
  have fits : l.grouping = .unset ∨ l.grouping = .not → (l.operands.map test).length = 1 := by
    simpa using h.grouped
  obtain ⟨k, hk, combined⟩ := Matcher.grouped_eq_ok some fits
  refine ⟨k, ?_, fun m => ?_⟩
  · simp only [Leaf.matcher, h.plain, ht, Except.bind]
    exact hk
  · rw [combined, Leaf.holds, List.map_map]
    exact congrArg _ (List.map_congr_left fun s _ => accepts m s)

theorem Leaf.interpretable_of_matcher {l : Leaf} {k : Matcher} (h : l.matcher = .ok k) :
    l.Interpretable := by
  unfold Leaf.matcher at h
  split at h
  · simp at h
  · next plain =>
    obtain ⟨test, ht, hk⟩ := bind_eq_ok.mp h
    obtain ⟨operands, grouped⟩ := Matcher.fits_of_grouped hk
    obtain ⟨named, tested⟩ := Field.named_of_matcher ht
    exact ⟨by simpa using plain, named, tested, by simpa using operands, by simpa using grouped⟩

/-! ## Leaves built over operands -/

section
variable {f : Field} {operands : List String} {op : Connective}

/-- A leaf that is built over operands answers as they do under the grouping asked for. -/
theorem Leaf.holds_over {raw : Bool} (hop : op = .and ∨ op = .or) (some : operands ≠ [])
    (m : Message) :
    (Leaf.over f operands op raw).holds m = op.combine (operands.map (f.holds m)) := by
  obtain ⟨set, ne_not⟩ := Connective.ne_of_groups hop
  rw [holds, over_operands, over_field, over_grouping set]
  split
  · next lone =>
    have := List.length_pos_iff.mpr some
    obtain ⟨s, rfl⟩ := List.length_eq_one_iff.mp (by omega : operands.length = 1)
    rw [List.map_cons, List.map_nil, Connective.combine_singleton (by simp),
      Connective.combine_singleton ne_not]
  · rfl

theorem Leaf.over_interpretable (hop : op = .and ∨ op = .or) (some : operands ≠ [])
    (named : f ≠ .unset) (tested : f ≠ .query) : (Leaf.over f operands op).Interpretable := by
  obtain ⟨set, ne_not⟩ := Connective.ne_of_groups hop
  refine ⟨over_raw, by simpa, by simpa, by simpa, ?_⟩
  rw [over_grouping set, over_operands]
  have := List.length_pos_iff.mpr some
  split
  · intro _; omega
  · simp [set, ne_not]

end

/-! ## The matcher of a condition -/

namespace Condition

theorem matchers_eq_ok {cs : List Condition} {ks : List Matcher} :
    matchers cs = .ok ks ↔ List.Forall₂ (fun c k => matcher c = .ok k) cs ks := by
  induction cs generalizing ks with
  | nil => cases ks <;> simp [matchers]
  | cons c cs ih =>
    rw [matchers]
    cases hc : matcher c with
    | error e => cases ks <;> simp [hc]
    | ok k =>
      simp only [map_eq_ok]
      cases ks <;> simp [hc, ih, and_comm]

theorem nodeMatcher_eq_ok {op : Connective} {ks : List Matcher} (h : op.Interprets ks.length) :
    ∃ k, nodeMatcher op ks = .ok k ∧ ∀ m, k.accepts m = op.combine (ks.map (Matcher.accepts m)) := by
  cases op with
  | unset => exact h.elim
  | and => exact ⟨.all ks, rfl, fun m => Matcher.accepts_all m ks⟩
  | or => exact ⟨.any ks, rfl, fun m => Matcher.accepts_any m ks⟩
  | not =>
    obtain ⟨k, rfl⟩ := List.length_eq_one_iff.mp h
    exact ⟨.negation k, rfl, fun m => Matcher.accepts_negation m k⟩

theorem interprets_of_nodeMatcher {op : Connective} {ks : List Matcher} {k : Matcher}
    (h : nodeMatcher op ks = .ok k) : op.Interprets ks.length := by
  cases op with
  | unset => simp [nodeMatcher] at h
  | and => trivial
  | or => trivial
  | not =>
    match ks with
    | [] => simp [nodeMatcher] at h
    | [_] => rfl
    | _ :: _ :: _ => simp [nodeMatcher] at h

theorem matcher_of_interpretable {t : Condition} (h : t.Interpretable) :
    ∃ k, t.matcher = .ok k ∧ ∀ m, k.accepts m = t.holds m := by
  induction h with
  | leaf hl => exact Leaf.matcher_of_interpretable hl
  | @node op cs hn _ ih =>
    obtain ⟨ks, hks⟩ := forall₂_of_exists ih
    have hn' : op.Interprets ks.length := hks.length_eq ▸ hn
    obtain ⟨k, hk, combined⟩ := nodeMatcher_eq_ok hn'
    have each : matchers cs = .ok ks := matchers_eq_ok.mpr (hks.imp fun _ _ h => h.1)
    refine ⟨k, by rw [matcher, each]; exact hk, fun m => ?_⟩
    have answers : cs.map (holds m) = ks.map (Matcher.accepts m) :=
      map_eq_map_of_forall₂ hks fun _ _ h => (h.2 m).symm
    rw [combined, holds_node, answers]

theorem interpretable_of_matcher {t : Condition} {k : Matcher} (h : t.matcher = .ok k) :
    t.Interpretable := by
  -- A node has a matcher only if each of its children has one.
  induction t using induct generalizing k with
  | onLeaf l => exact .leaf (Leaf.interpretable_of_matcher h)
  | onNode op cs ih =>
    rw [matcher] at h
    obtain ⟨ks, hks, hk⟩ := bind_eq_ok.mp h
    have each := matchers_eq_ok.mp hks
    refine .node (each.length_eq ▸ interprets_of_nodeMatcher hk) fun c hc => ?_
    obtain ⟨k', _, hk'⟩ := exists_right_of_mem each hc
    exact ih c hc hk'

theorem accepts_of_matcher {t : Condition} {k : Matcher} (h : t.matcher = .ok k) (m : Message) :
    k.accepts m = t.holds m := by
  obtain ⟨k', hk', accepts⟩ := matcher_of_interpretable (interpretable_of_matcher h)
  rw [h] at hk'
  rw [Except.ok.inj hk', accepts]

theorem matcher_eq_error_iff {t : Condition} :
    (∃ e, t.matcher = .error e) ↔ ¬ t.Interpretable := by
  constructor
  · intro ⟨e, he⟩ h
    obtain ⟨k, hk, _⟩ := matcher_of_interpretable h
    rw [he] at hk; cases hk
  · intro h
    cases he : t.matcher with
    | error e => exact ⟨e, rfl⟩
    | ok k => exact absurd (interpretable_of_matcher he) h

end Condition

end MailRules
