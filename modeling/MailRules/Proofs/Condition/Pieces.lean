import MailRules.Proofs.Condition.Coverage

/-!
How the pieces of a condition come about.

With a limit of at least one, splitting gives a result, and each piece is one of three: an
alternative of the condition as it stands, a chunk of an alternative that is a disjunction, or, of
an alternative that is a conjunction, a chunk of its largest disjunction in front of the other
children. What holds of all pieces is shown by these cases.

What is proved:
  1. `chunks_eq_ok`: a tree is cut into runs of its operands or children (`Chunk`).
  2. `split_each`: the pieces of a condition are those of its alternatives (`Piece`).
  3. `split_eq_ok`: a well-formed condition has a piece.
-/

namespace MailRules.Condition

/-- A tree over a run of the operands or children of another one, a step's worth of them. -/
inductive Chunk (step : Int) : Condition → Condition → Prop where
  | leaf {l : Leaf} {run : List String} : run ≠ [] → run <:+: l.operands →
      (run.length : Int) ≤ step → Chunk step (leaf l) (leaf (.over l.field run l.grouping l.raw))
  | node {op : Connective} {cs run : List Condition} : run ≠ [] → run <:+: cs →
      (run.length : Int) ≤ step → Chunk step (node op cs) (node op run)

/-- A piece made of an alternative of a condition. -/
inductive Piece (limit : Int) : Condition → Condition → Prop where
  | small {t : Condition} : (t.size : Int) < limit → Piece limit t t
  | whole {t : Condition} : t.rootConnective ≠ .or →
      (∀ cs, t = conj cs → largestDisjunction? cs = none) → Piece limit t t
  | chunk {t p : Condition} : t.rootConnective = .or → Chunk limit t p → Piece limit t p
  | beside {before after : List Condition} {d p : Condition} : LargestBetween before d after →
      Chunk (innerStep limit (conj (before ++ d :: after)) d) d p →
      Piece limit (conj (before ++ d :: after)) (conj (p :: (before ++ after)))

/-- The number of parts of a tree: operands or children. -/
def breadth : Condition → Nat
  | leaf l => l.operands.length
  | node _ cs => cs.length

/-! ## Chunks -/

theorem length_le_of_mem_runsOf {α : Type} {n : Nat} (hn : 1 ≤ n) {xs run : List α}
    (h : run ∈ runsOf n xs) : run.length ≤ n := by
  induction xs using runsOf.induct n with
  | case1 => simp [runsOf_nil] at h
  | case2 x xs ih =>
    rw [runsOf_cons] at h
    rcases List.mem_cons.mp h with rfl | h
    · rw [List.length_cons, List.length_take]
      omega
    · exact ih h

theorem runsOf_ne_nil {α : Type} {n : Nat} {xs : List α} (h : xs ≠ []) : runsOf n xs ≠ [] := by
  obtain ⟨x, xs, rfl⟩ := List.exists_cons_of_ne_nil h
  rw [runsOf_cons]
  exact List.cons_ne_nil _ _

theorem chunks_eq_ok {step : Int} (hs : 1 ≤ step) (t : Condition) : ∃ ps, t.chunks step = .ok ps ∧
    (0 < t.breadth → ps ≠ []) ∧ ∀ p ∈ ps, Chunk step t p := by
  have few {α : Type} {xs run : List α} (h : run ∈ runsOf step.toNat xs) :
      (run.length : Int) ≤ step := by
    have bound := length_le_of_mem_runsOf (by omega) h
    omega
  cases t with
  | leaf l =>
    refine ⟨_, by rw [chunks, stepsOf_of_pos hs]; rfl, fun some => ?_, fun p hp => ?_⟩
    · exact fun none => runsOf_ne_nil (List.length_pos_iff.mp some) (List.map_eq_nil_iff.mp none)
    · obtain ⟨run, hrun, rfl⟩ := List.mem_map.mp hp
      exact .leaf (ne_nil_of_mem_runsOf hrun) (infix_of_mem_runsOf hrun) (few hrun)
  | node op cs =>
    refine ⟨_, by rw [chunks, stepsOf_of_pos hs]; rfl, fun some => ?_, fun p hp => ?_⟩
    · exact fun none => runsOf_ne_nil (List.length_pos_iff.mp some) (List.map_eq_nil_iff.mp none)
    · obtain ⟨run, hrun, rfl⟩ := List.mem_map.mp hp
      exact .node (ne_nil_of_mem_runsOf hrun) (infix_of_mem_runsOf hrun) (few hrun)

/-! ## Pieces -/

theorem breadth_pos {t : Condition} (wf : t.WellFormed) : 0 < t.breadth := by
  cases wf with
  | leaf shaped => exact List.length_pos_iff.mpr shaped.operands
  | @node op cs takes _ =>
    rw [breadth]
    cases op <;> simp only [Connective.Takes] at takes <;> first | contradiction | omega

theorem splitConjunction_eq_ok (limit : Int) (cs : List Condition) :
    ∃ ps, (conj cs).splitConjunction limit = .ok ps ∧ ((conj cs).WellFormed → ps ≠ []) ∧
      ∀ p ∈ ps, Piece limit (conj cs) p := by
  rw [conj, splitConjunction]
  split
  · next none =>
    refine ⟨_, rfl, fun _ => List.cons_ne_nil _ _, fun p hp => ?_⟩
    obtain rfl := List.mem_singleton.mp hp
    refine .whole (by simp [rootConnective]) fun ds same => ?_
    cases same
    exact none
  · next d siblings found =>
    obtain ⟨pieces, made, some, chunk⟩ := chunks_eq_ok (innerStep_pos limit (node .and cs) d) d
    refine ⟨_, by rw [made]; rfl, fun wf none => ?_, fun p hp => ?_⟩
    · have mem : d ∈ cs := (largestDisjunction?_eq_some found).2.mem_iff.mp List.mem_cons_self
      have parts := breadth_pos ((everywhere_node.mp wf).2 d mem)
      exact some parts (List.map_eq_nil_iff.mp none)
    · obtain ⟨piece, hpiece, rfl⟩ := List.mem_map.mp hp
      obtain ⟨before, after, rfl, rfl, between⟩ := exists_largestBetween found
      exact .beside between (chunk piece hpiece)

theorem splitBig_eq_ok {limit : Int} (hl : 1 ≤ limit) (t : Condition) :
    ∃ ps, t.splitBig limit = .ok ps ∧ (t.WellFormed → ps ≠ []) ∧ ∀ p ∈ ps, Piece limit t p := by
  have itself (piece : Piece limit t t) : ∃ ps, Except.ok (ε := LimitError) [t] = .ok ps ∧
      (t.WellFormed → ps ≠ []) ∧ ∀ p ∈ ps, Piece limit t p :=
    ⟨_, rfl, fun _ => List.cons_ne_nil _ _, List.forall_mem_singleton.mpr piece⟩
  rw [splitBig]
  split
  · next small => exact itself (.small small)
  · split
    · next root =>
      obtain ⟨ps, made, some, chunk⟩ := chunks_eq_ok hl t
      exact ⟨ps, made, fun wf => some (breadth_pos wf), fun p hp => .chunk root (chunk p hp)⟩
    · next root =>
      cases t with
      | leaf l => exact itself (.whole (by simp [root]) fun _ other => by cases other)
      | node op cs =>
        simp only [rootConnective] at root
        subst root
        exact splitConjunction_eq_ok limit cs
    · next notOr notAnd =>
      refine itself (.whole notOr fun cs same => ?_)
      subst same
      exact absurd rfl notAnd

theorem wellFormed_alternatives {t : Condition} (wf : t.WellFormed) :
    t.alternatives ≠ [] ∧ ∀ c ∈ t.alternatives, c.WellFormed := by
  unfold alternatives
  split
  · exact ⟨List.length_pos_iff.mp (breadth_pos wf), (everywhere_node.mp wf).2⟩
  · exact ⟨List.cons_ne_nil _ _, List.forall_mem_singleton.mpr wf⟩

theorem split_each {limit : Int} (hl : 1 ≤ limit) (t : Condition) :
    ∃ pss, t.split limit = .ok pss.flatten ∧
      List.Forall₂ (fun c ps => c.splitBig limit = .ok ps ∧ (c.WellFormed → ps ≠ []) ∧
        ∀ p ∈ ps, Piece limit c p) t.alternatives pss := by
  obtain ⟨pss, each⟩ := forall₂_of_exists fun c (_ : c ∈ t.alternatives) => splitBig_eq_ok hl c
  have made := mapM_of_forall₂ (each.imp fun _ _ h => h.1)
  exact ⟨pss, by rw [split, made]; rfl, each⟩

/-- Splitting gives pieces, at least one of a well-formed condition, and each is made of an
alternative of the condition. -/
theorem split_eq_ok {limit : Int} (hl : 1 ≤ limit) (t : Condition) :
    ∃ ps, t.split limit = .ok ps ∧ (t.WellFormed → ps ≠ []) ∧
      ∀ p ∈ ps, ∃ c ∈ t.alternatives, Piece limit c p := by
  obtain ⟨pss, made, each⟩ := split_each hl t
  refine ⟨pss.flatten, made, fun wf none => ?_, fun p hp => ?_⟩
  · obtain ⟨ne, shaped⟩ := wellFormed_alternatives wf
    obtain ⟨c, hc⟩ := List.exists_mem_of_ne_nil _ ne
    obtain ⟨ps, hps, _, some, _⟩ := exists_right_of_mem each hc
    exact some (shaped c hc) (List.flatten_eq_nil_iff.mp none ps hps)
  · obtain ⟨ps, hps, hp⟩ := List.mem_flatten.mp hp
    obtain ⟨c, hc, _, _, pieces⟩ := exists_left_of_mem each hps
    exact ⟨c, hc, pieces p hp⟩

end MailRules.Condition
