import MailRules.Proofs.Condition.Pieces

/-!
How big the pieces of a condition are.

A piece over the limit may still have something to divide (`Divisible`). Of a conjunction only the
largest disjunction is cut: if a single alternative of it with its siblings is over the limit, these
stay whole all the same, disjunctions or not. And the chunks of a disjunction of conditions are told
by the number of these, however large they are.

What is proved:
  1. `Piece.bounded`: a piece of an alternative is within the limit, or has nothing left to divide,
     or is made of the alternative in one of the two ways that `Bounded` lists.
  2. `split_bounded`: so is every piece of a condition. Nothing is said of the pieces that are
     `Overfull`: they hold several conditions of a disjunction, and are over the limit, though the
     siblings leave room for as many nodes.
-/

namespace MailRules.Condition

/-- Whether a tree is a disjunction of several alternatives. -/
def HasAlternatives (t : Condition) : Prop := t.rootConnective = .or ∧ 2 ≤ t.breadth

/-- Whether there is something left to divide: several alternatives, at the root or below a
conjunction at the root. -/
def Divisible (t : Condition) : Prop :=
  t.HasAlternatives ∨ ∃ cs, t = conj cs ∧ ∃ c ∈ cs, c.HasAlternatives

/-- What is known, for a limit, of the size of a piece of an alternative. -/
inductive Bounded (limit : Int) : Condition → Condition → Prop where
  | within {t p : Condition} : (p.size : Int) ≤ limit → Bounded limit t p
  | whole {t p : Condition} : ¬ p.Divisible → Bounded limit t p
  /-- The largest disjunction is cut completely: one of its alternatives is left, before the
  siblings, and these are not cut. -/
  | besideOne {before after : List Condition} {d chunk : Condition} :
      LargestBetween before d after → Chunk 1 d chunk →
      Bounded limit (conj (before ++ d :: after)) (conj (chunk :: (before ++ after)))
  /-- Alternatives that are conditions are counted, not measured. -/
  | counted {cs : List Condition} {p : Condition} : Chunk limit (disj cs) p →
      Bounded limit (disj cs) p

/-- A piece over the limit of an alternative whose largest disjunction is one of conditions: several
of them stand before the siblings, at most as many as there is room for nodes. -/
inductive Overfull (limit : Int) : Condition → Condition → Prop where
  | intro {before after ds run : List Condition} : LargestBetween before (disj ds) after →
      run <:+: ds → 2 ≤ run.length → 1 + sizeAll (before ++ after) + run.length ≤ limit →
      limit < (conj (disj run :: (before ++ after))).size →
      Overfull limit (conj (before ++ disj ds :: after)) (conj (disj run :: (before ++ after)))

theorem sizeAll_perm {cs ds : List Condition} (h : cs.Perm ds) : sizeAll cs = sizeAll ds := by
  induction h with
  | nil => rfl
  | cons c _ ih => rw [sizeAll, sizeAll, ih]
  | swap c d cs =>
    simp only [sizeAll]
    omega
  | trans _ _ ih ih' => exact ih.trans ih'

/-- The step is what the siblings and the node itself leave of the limit. -/
theorem innerStep_between (limit : Int) (before : List Condition) (d : Condition)
    (after : List Condition) : innerStep limit (conj (before ++ d :: after)) d =
      max 1 (limit - (1 + sizeAll (before ++ after))) := by
  have parts : sizeAll (before ++ d :: after) = d.size + sizeAll (before ++ after) :=
    sizeAll_perm List.perm_middle
  rw [innerStep, conj, size, parts]
  push_cast
  congr 1
  omega

theorem size_pos_of_hasAlternatives {c : Condition} (h : c.HasAlternatives) : 0 < c.size := by
  cases c with
  | leaf l => exact Nat.lt_of_lt_of_le Nat.two_pos h.2
  | node op cs =>
    rw [size]
    omega

theorem bounded_beside {limit : Int} {before after : List Condition} {d chunk : Condition}
    (between : LargestBetween before d after)
    (h : Chunk (innerStep limit (conj (before ++ d :: after)) d) d chunk)
    (fits : ¬ Overfull limit (conj (before ++ d :: after)) (conj (chunk :: (before ++ after)))) :
    Bounded limit (conj (before ++ d :: after)) (conj (chunk :: (before ++ after))) := by
  rw [innerStep_between] at h
  by_cases small : ((conj (chunk :: (before ++ after))).size : Int) ≤ limit
  · exact .within small
  refine .besideOne between ?_
  cases h with
  | @leaf l run some part few =>
    refine .leaf some part ?_
    -- With room for its operands the leaf would be within the limit.
    rw [conj, size, sizeAll, size, Leaf.over_operands] at small
    push_cast at small
    omega
  | @node op ds run some part few =>
    obtain rfl : op = .or := between.root
    refine .node some part ?_
    by_contra several
    exact fits (.intro between part (by omega) (by omega) (Int.not_le.mp small))

theorem Piece.bounded {limit : Int} {t p : Condition} (h : Piece limit t p)
    (fits : ¬ Overfull limit t p) : Bounded limit t p := by
  cases h with
  | small small => exact .within (by omega)
  | whole notOr none =>
    refine .whole ?_
    rintro (⟨root, _⟩ | ⟨cs, rfl, c, hc, several⟩)
    · exact notOr root
    · have empty := largestDisjunction?_eq_none (none cs rfl) c hc several.1
      exact absurd empty (Nat.ne_of_gt (size_pos_of_hasAlternatives several))
  | chunk root chunk =>
    cases chunk with
    | leaf some part few => exact .within (by rwa [size, Leaf.over_operands])
    | @node op cs run some part few =>
      obtain rfl : op = .or := root
      exact .counted (.node some part few)
  | beside between chunk => exact bounded_beside between chunk fits

/-- **Every piece is within the limit or cannot be divided, but for two kinds of pieces.** With a
limit of at least one a condition is split, alternative by alternative. A piece over the limit that
could still be divided is a single alternative of the largest disjunction of a conjunction, before
siblings that are not cut, or a run of the conditions of a disjunction, no more of them than the
limit. Pieces that are overfull are left out. -/
theorem split_bounded (t : Condition) {limit : Int} (hl : 1 ≤ limit) :
    ∃ pss, t.split limit = .ok pss.flatten ∧
      List.Forall₂ (fun c ps => c.splitBig limit = .ok ps ∧
        ∀ p ∈ ps, ¬ Overfull limit c p → Bounded limit c p) t.alternatives pss := by
  obtain ⟨pss, made, each⟩ := split_each hl t
  exact ⟨pss, made, each.imp fun _ _ ⟨cut, _, pieces⟩ => ⟨cut, fun p hp => (pieces p hp).bounded⟩⟩

/-- Two alternatives: a conjunction of two disjunctions, of which the second one stays whole, and a
disjunction. -/
theorem split_bounded_alternatives :
    let t := disj [conj [leaf ⟨.sender, ["a", "b"], .or, false⟩,
      leaf ⟨.recipient, ["c", "d"], .or, false⟩], leaf ⟨.cc, ["e", "f", "g", "h"], .or, false⟩]
    (1 : Int) ≤ 3 ∧ ∃ pss, t.split 3 = .ok pss.flatten ∧
      List.Forall₂ (fun c ps => c.splitBig 3 = .ok ps ∧
        ∀ p ∈ ps, ¬ Overfull 3 c p → Bounded 3 c p) t.alternatives pss :=
  ⟨by decide, split_bounded _ (by decide)⟩

/-- Pieces over the limit that could still be divided: a single alternative beside another
disjunction, and a run of conditions. -/
theorem split_over_limit :
    let t := conj [leaf ⟨.sender, ["a", "b"], .or, false⟩,
      leaf ⟨.recipient, ["c", "d"], .or, false⟩]
    let u := disj [disj [leaf ⟨.sender, ["a", "b"], .and, false⟩,
      leaf ⟨.recipient, ["c"], .unset, false⟩]]
    (t.WellFormed ∧ ∃ ps, t.split 3 = .ok ps ∧ ∃ p ∈ ps, 3 < p.size ∧ p.Divisible) ∧
      u.WellFormed ∧ ∃ ps, u.split 2 = .ok ps ∧ ∃ p ∈ ps, 2 < p.size ∧ p.Divisible := by
  intro t u
  refine ⟨⟨by decide, ?_⟩, by decide, ?_⟩
  · let pair := leaf ⟨.recipient, ["c", "d"], .or, false⟩
    exact ⟨[conj [leaf ⟨.sender, ["a"], .unset, false⟩, pair],
        conj [leaf ⟨.sender, ["b"], .unset, false⟩, pair]], by with_unfolding_all rfl,
      _, List.mem_cons_self, by decide, .inr ⟨_, rfl, pair, by simp, rfl, by decide⟩⟩
  · exact ⟨[disj [leaf ⟨.sender, ["a", "b"], .and, false⟩,
        leaf ⟨.recipient, ["c"], .unset, false⟩]], by with_unfolding_all rfl,
      _, List.mem_cons_self, by decide, .inl ⟨rfl, by decide⟩⟩

end MailRules.Condition
