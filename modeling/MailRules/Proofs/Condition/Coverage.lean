import MailRules.Condition.Split
import MailRules.Proofs.Condition.Meaning

/-!
Splitting a condition neither loses nor adds messages.

`Covers ps t` says that a message meets `t` exactly if it meets one of the pieces `ps`, and that the
pieces can be interpreted. Every stage of splitting has this property: the alternatives at the root,
the chunks of a disjunction, whose operands or children are those of the runs together
(`flatten_runsOf`), and the chunks of the largest disjunction of a conjunction, each with the
siblings, which stand before and after it (`exists_largestBetween`).

What is proved:
  1. `split_covers`: with a limit of at least one, splitting an interpretable condition gives
     pieces, and they cover it.
  2. `matcher_split`: the same, told by the matchers of the condition and of its pieces.
-/

namespace MailRules.Condition

/-- The pieces can be interpreted, and a message meets one of them exactly if it meets the
condition. -/
def Covers (ps : List Condition) (t : Condition) : Prop :=
  (∀ p ∈ ps, p.Interpretable) ∧ ∀ m, (disj ps).holds m = t.holds m

theorem holds_disj_iff {m : Message} {ps : List Condition} :
    (disj ps).holds m = true ↔ ∃ p ∈ ps, p.holds m = true := by
  simp [disj, Connective.combine]

theorem covers_self {t : Condition} (h : t.Interpretable) : Covers [t] t :=
  ⟨fun p hp => List.mem_singleton.mp hp ▸ h, fun m => by simp [disj, Connective.combine]⟩

theorem Covers.flatten {ts : List Condition} {pss : List (List Condition)}
    (h : List.Forall₂ (fun t ps => Covers ps t) ts pss) : Covers pss.flatten (disj ts) := by
  constructor
  · intro p hp
    obtain ⟨ps, hps, hp⟩ := List.mem_flatten.mp hp
    obtain ⟨t, _, covers⟩ := exists_left_of_mem h hps
    exact covers.1 p hp
  · intro m
    have each : ts.map (holds m) = pss.map fun ps => (disj ps).holds m :=
      map_eq_map_of_forall₂ h fun _ _ covers => (covers.2 m).symm
    rw [disj, disj, holds_node, holds_node, each, ← List.flatMap_id, List.map_flatMap,
      Connective.combine_flatMap (by simp)]
    exact congrArg _ (List.map_congr_left fun ps _ => (holds_node m .or ps).symm)

theorem alternatives_cover {t : Condition} (h : t.Interpretable) : Covers t.alternatives t := by
  match t, h with
  | leaf l, h => exact covers_self h
  | node .or cs, h => exact ⟨(everywhere_node.mp h).2, fun _ => rfl⟩
  | node .unset cs, h => exact covers_self h
  | node .and cs, h => exact covers_self h
  | node .not cs, h => exact covers_self h

/-! ## Chunks -/

theorem stepsOf_of_pos {α : Type} {step : Int} (h : 1 ≤ step) (xs : List α) :
    stepsOf step xs = .ok (runsOf step.toNat xs) := by
  rw [stepsOf, if_neg (by omega), if_neg (by omega)]

theorem ne_nil_of_mem_runsOf {α : Type} {n : Nat} {xs run : List α} (h : run ∈ runsOf n xs) :
    run ≠ [] := by
  induction xs using runsOf.induct n with
  | case1 => simp [runsOf_nil] at h
  | case2 x xs ih =>
    rw [runsOf_cons] at h
    rcases List.mem_cons.mp h with rfl | h
    · simp
    · exact ih h

theorem infix_of_mem_runsOf {α : Type} {n : Nat} {xs run : List α} (h : run ∈ runsOf n xs) :
    run <:+: xs := by
  have inside := List.infix_of_mem_flatten h
  rwa [flatten_runsOf] at inside

/-- Alternatives may be asked for run by run. -/
theorem combine_runsOf {α : Type} (n : Nat) (answer : α → Bool) (xs : List α) :
    Connective.combine .or ((runsOf n xs).map fun run => Connective.combine .or (run.map answer)) =
      Connective.combine .or (xs.map answer) := by
  rw [← Connective.combine_flatMap (by simp), ← List.map_flatMap]
  simp only [List.flatMap_id', flatten_runsOf]

theorem chunks_cover {t : Condition} (h : t.Interpretable) (root : t.rootConnective = .or)
    {step : Int} (hs : 1 ≤ step) : ∃ ps, t.chunks step = .ok ps ∧ Covers ps t := by
  cases t with
  | leaf l =>
    have hl := everywhere_leaf.mp h
    simp only [rootConnective] at root
    refine ⟨(runsOf step.toNat l.operands).map fun run => leaf (.over l.field run l.grouping l.raw),
      by rw [chunks, stepsOf_of_pos hs]; rfl, fun p hp => ?_, fun m => ?_⟩
    · obtain ⟨run, hrun, rfl⟩ := List.mem_map.mp hp
      rw [root, hl.plain]
      exact .leaf (Leaf.over_interpretable (.inr rfl) (ne_nil_of_mem_runsOf hrun) hl.named hl.tested)
    · rw [disj, holds_node, holds_leaf, Leaf.holds, root, List.map_map]
      refine Eq.trans ?_ (combine_runsOf step.toNat _ _)
      refine congrArg _ (List.map_congr_left fun run hrun => ?_)
      exact Leaf.holds_over (.inr rfl) (ne_nil_of_mem_runsOf hrun) m
  | node op cs =>
    obtain ⟨_, children⟩ := everywhere_node.mp h
    simp only [rootConnective] at root
    subst root
    refine ⟨(runsOf step.toNat cs).map (node .or),
      by rw [chunks, stepsOf_of_pos hs]; rfl, fun p hp => ?_, fun m => ?_⟩
    · obtain ⟨run, hrun, rfl⟩ := List.mem_map.mp hp
      exact .node trivial fun c hc => children c ((infix_of_mem_runsOf hrun).subset hc)
    · rw [disj, holds_node, holds_node, List.map_map]
      refine Eq.trans ?_ (combine_runsOf step.toNat _ _)
      exact congrArg _ (List.map_congr_left fun run _ => holds_node m .or run)

/-! ## Conjunctions -/

/-- A disjunction between the other children of a node, of which none is larger, and none before it
is as large. -/
structure LargestBetween (before : List Condition) (d : Condition) (after : List Condition) :
    Prop where
  root : d.rootConnective = .or
  before : ∀ c ∈ before, c.rootConnective = .or → c.size < d.size
  after : ∀ c ∈ after, c.rootConnective = .or → c.size ≤ d.size

theorem largestDisjunction?_eq_none {cs : List Condition} (h : largestDisjunction? cs = none) :
    ∀ c ∈ cs, c.rootConnective = .or → c.size = 0 := by
  induction cs with
  | nil => exact List.forall_mem_nil _
  | cons c cs ih =>
    rw [largestDisjunction?] at h
    split at h
    · split at h <;> simp at h
    · next none =>
      refine List.forall_mem_cons.mpr ⟨fun root => ?_, ih none⟩
      by_contra some
      rw [if_pos ⟨root, Nat.pos_of_ne_zero some⟩] at h
      simp at h

/-- The largest disjunction is taken out from between the other children. -/
theorem exists_largestBetween {cs rest : List Condition} {d : Condition}
    (h : largestDisjunction? cs = some (d, rest)) : ∃ before after,
      cs = before ++ d :: after ∧ rest = before ++ after ∧ LargestBetween before d after := by
  induction cs generalizing d rest with
  | nil => simp [largestDisjunction?] at h
  | cons c cs ih =>
    rw [largestDisjunction?] at h
    split at h
    · next d' rest' found =>
      obtain ⟨before, after, rfl, rfl, between⟩ := ih found
      split at h
      · next larger =>
        obtain ⟨rfl, rfl⟩ := Prod.mk.inj (Option.some.inj h)
        refine ⟨[], _, rfl, rfl, larger.1, List.forall_mem_nil _, fun c' hc' root => ?_⟩
        -- None of the later children is larger than `d'`, and `d'` is not larger than `c`.
        rcases List.mem_append.mp hc' with hc' | hc'
        · exact Nat.le_trans (Nat.le_of_lt (between.before c' hc' root)) larger.2
        · rcases List.mem_cons.mp hc' with rfl | hc'
          · exact larger.2
          · exact Nat.le_trans (between.after c' hc' root) larger.2
      · next smaller =>
        obtain ⟨rfl, rfl⟩ := Prod.mk.inj (Option.some.inj h)
        refine ⟨c :: before, after, rfl, rfl, between.root, ?_, between.after⟩
        refine List.forall_mem_cons.mpr ⟨fun root => ?_, between.before⟩
        exact Nat.lt_of_not_le fun larger => smaller ⟨root, larger⟩
    · next none =>
      split at h
      · next first =>
        obtain ⟨rfl, rfl⟩ := Prod.mk.inj (Option.some.inj h)
        refine ⟨[], _, rfl, rfl, first.1, List.forall_mem_nil _, fun c' hc' root => ?_⟩
        rw [largestDisjunction?_eq_none none c' hc' root]
        exact Nat.zero_le _
      · simp at h

theorem largestDisjunction?_eq_some {cs rest : List Condition} {d : Condition}
    (h : largestDisjunction? cs = some (d, rest)) :
    d.rootConnective = .or ∧ (d :: rest).Perm cs := by
  obtain ⟨before, after, rfl, rfl, between⟩ := exists_largestBetween h
  exact ⟨between.root, List.perm_middle.symm⟩

theorem innerStep_pos (limit : Int) (whole part : Condition) : 1 ≤ innerStep limit whole part :=
  Int.le_max_left _ _

/-- A conjunction with a disjunction asks for one of the conjunctions with an alternative. -/
theorem combine_distrib (bs bs' : List Bool) :
    Connective.combine .or (bs.map fun b => Connective.combine .and (b :: bs')) =
      Connective.combine .and (Connective.combine .or bs :: bs') := by
  induction bs with
  | nil => rfl
  | cons b bs ih =>
    simp only [Connective.combine, List.map_cons, List.any_cons, List.all_cons, id] at ih ⊢
    rw [ih, Bool.and_or_distrib_right]

theorem splitConjunction_covers {cs : List Condition} (h : (node .and cs).Interpretable)
    (limit : Int) : ∃ ps, (node .and cs).splitConjunction limit = .ok ps ∧ Covers ps (node .and cs) := by
  obtain ⟨_, children⟩ := everywhere_node.mp h
  rw [splitConjunction]
  split
  · exact ⟨_, rfl, covers_self h⟩
  · next d siblings found =>
    obtain ⟨root, perm⟩ := largestDisjunction?_eq_some found
    -- The pieces of the disjunction stand in for it, each beside all the siblings.
    have both : ∀ c ∈ d :: siblings, c.Interpretable := fun c hc => children c (perm.mem_iff.mp hc)
    obtain ⟨pieces, hp, meant, covers⟩ :=
      chunks_cover (both d List.mem_cons_self) root (innerStep_pos limit (node .and cs) d)
    refine ⟨_, by rw [hp]; rfl, fun p hp => ?_, fun m => ?_⟩
    · obtain ⟨piece, hpiece, rfl⟩ := List.mem_map.mp hp
      refine .node trivial fun c hc => ?_
      rcases List.mem_cons.mp hc with rfl | hc
      · exact meant _ hpiece
      · exact both c (List.mem_cons_of_mem d hc)
    · calc (disj (pieces.map fun piece => conj (piece :: siblings))).holds m
          = Connective.combine .or ((pieces.map (holds m)).map fun b =>
              Connective.combine .and (b :: siblings.map (holds m))) := by
            rw [disj, holds_node, List.map_map, List.map_map]
            exact congrArg _ (List.map_congr_left fun piece _ => holds_node m .and _)
        _ = Connective.combine .and ((disj pieces).holds m :: siblings.map (holds m)) := by
            rw [combine_distrib, disj, holds_node]
        _ = Connective.combine .and ((d :: siblings).map (holds m)) := by rw [covers, List.map_cons]
        _ = (node .and cs).holds m := by
            rw [holds_node, Connective.combine_perm (perm.map _)]

/-! ## The whole condition -/

theorem splitBig_covers {t : Condition} (h : t.Interpretable) {limit : Int} (hl : 1 ≤ limit) :
    ∃ ps, t.splitBig limit = .ok ps ∧ Covers ps t := by
  rw [splitBig]
  split
  · exact ⟨_, rfl, covers_self h⟩
  · split
    · next root => exact chunks_cover h root hl
    · next root =>
      cases t with
      | leaf l => exact ⟨_, rfl, covers_self h⟩
      | node op cs =>
        simp only [rootConnective] at root
        subst root
        exact splitConjunction_covers h limit
    · exact ⟨_, rfl, covers_self h⟩

theorem split_covers {t : Condition} (h : t.Interpretable) {limit : Int} (hl : 1 ≤ limit) :
    ∃ ps, t.split limit = .ok ps ∧ Covers ps t := by
  -- Each alternative is cut on its own, and the pieces are put together.
  obtain ⟨meant, answers⟩ := alternatives_cover h
  obtain ⟨pss, hpss⟩ := forall₂_of_exists fun c hc => splitBig_covers (meant c hc) hl
  have cut := mapM_of_forall₂ (hpss.imp fun _ _ h => h.1)
  obtain ⟨meant', covers⟩ := Covers.flatten (hpss.imp fun _ _ h => h.2)
  refine ⟨pss.flatten, by rw [split, cut]; rfl, meant', fun m => ?_⟩
  rw [covers, answers]

/-- **Splitting never loses or adds coverage.** With a limit of at least one, a condition with a
matcher is split into conditions with matchers, and it accepts a message exactly if one of them
does. -/
theorem matcher_split {t : Condition} {k : Matcher} {limit : Int} (hk : t.matcher = .ok k)
    (hl : 1 ≤ limit) :
    ∃ ps, t.split limit = .ok ps ∧ (∀ p ∈ ps, ∃ k', p.matcher = .ok k') ∧
      ∀ m, k.accepts m = true ↔ ∃ p ∈ ps, ∃ k', p.matcher = .ok k' ∧ k'.accepts m = true := by
  obtain ⟨ps, hps, meant, covers⟩ := split_covers (interpretable_of_matcher hk) hl
  refine ⟨ps, hps, fun p hp => ?_, fun m => ?_⟩
  · obtain ⟨k', hk', _⟩ := matcher_of_interpretable (meant p hp)
    exact ⟨k', hk'⟩
  · rw [accepts_of_matcher hk, ← covers, holds_disj_iff]
    constructor
    · intro ⟨p, hp, met⟩
      obtain ⟨k', hk', accepts⟩ := matcher_of_interpretable (meant p hp)
      exact ⟨p, hp, k', hk', by rw [accepts, met]⟩
    · intro ⟨p, hp, k', hk', met⟩
      exact ⟨p, hp, by rw [← accepts_of_matcher hk', met]⟩

/-- A conjunction whose larger disjunction, a leaf, is cut beside a smaller one. -/
theorem matcher_split_conjunction :
    let t := conj [disj [leaf ⟨.sender, ["a"], .unset, false⟩, neg (leaf ⟨.cc, ["b"], .not, false⟩)],
      leaf ⟨.has, ["c", "d", "e", "f", "g"], .or, false⟩]
    ∃ k ps, t.matcher = .ok k ∧ t.split 5 = .ok ps ∧ (∀ p ∈ ps, ∃ k', p.matcher = .ok k') ∧
      ∀ m, k.accepts m = true ↔ ∃ p ∈ ps, ∃ k', p.matcher = .ok k' ∧ k'.accepts m = true := by
  intro t
  have hk : ∃ k, t.matcher = .ok k := ⟨_, rfl⟩
  obtain ⟨k, hk⟩ := hk
  obtain ⟨ps, hps⟩ := matcher_split hk (by decide : (1 : Int) ≤ 5)
  exact ⟨k, ps, hk, hps⟩

end MailRules.Condition
