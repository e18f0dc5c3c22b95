import MailRules.Proofs.Native.Writable

/-!
A configuration that can be resolved compiles, unless it marks messages as spam.

The conditions of resolved rules are writable, and so are their pieces, of which there is at least
one. So a rule is refused for its actions only, and these are refused only if they mark as spam.

What is proved:
  1. `Label.validate_eq_none_iff`: what it takes for labels to be valid.
  2. `ResolvedRule.compile_of_writable`: what becomes of a rule with a writable condition.
  3. `compileFrom_of_writable`: the errors in rules are those of the rules that mark as spam.
  4. `Config.compile_complete`: when a configuration compiles, and to what, and what the errors are.
-/

namespace MailRules

open Native

/-! ## Labels -/

namespace Label

/-- Names that labels may have together. -/
structure WellNamed (names : List String) : Prop where
  given : ∀ name ∈ names, name ≠ ""
  unslashed : ∀ name ∈ names, name.toList.head? ≠ some '/' ∧ name.toList.getLast? ≠ some '/'
  distinct : names.Nodup

theorem errors_eq_nil_iff {i : Nat} {seen : List String} {l : Label} : l.errors i seen = [] ↔
    l.name ≠ "" ∧ (l.name.toList.head? ≠ some '/' ∧ l.name.toList.getLast? ≠ some '/') ∧
      l.name ∉ seen := by
  rw [errors]
  split
  · next unnamed => simp [unnamed]
  · next named =>
    rw [List.append_eq_nil_iff]
    simp [slashed, named]

theorem errorsFrom_eq_nil_iff {ls : List Label} {i : Nat} {seen : List String} :
    errorsFrom i seen ls = [] ↔
      WellNamed (ls.map (·.name)) ∧ ∀ l ∈ ls, l.name ∉ seen := by
  induction ls generalizing i seen with
  | nil => simpa [errorsFrom] using WellNamed.mk (by simp) (by simp) List.nodup_nil
  | cons l ls ih =>
    rw [errorsFrom, List.append_eq_nil_iff, errors_eq_nil_iff]
    constructor
    · rintro ⟨⟨named, slashes, fresh⟩, rest⟩
      rw [if_neg named, ih] at rest
      obtain ⟨⟨given, unslashed, distinct⟩, apart⟩ := rest
      refine ⟨⟨List.forall_mem_cons.mpr ⟨named, given⟩,
        List.forall_mem_cons.mpr ⟨slashes, unslashed⟩, List.nodup_cons.mpr ⟨?_, distinct⟩⟩, ?_⟩
      · intro again
        obtain ⟨l', hl', same⟩ := List.mem_map.mp again
        exact apart l' hl' (same ▸ List.mem_cons_self)
      · exact List.forall_mem_cons.mpr
          ⟨fresh, fun l' hl' old => apart l' hl' (List.mem_cons_of_mem _ old)⟩
    · rintro ⟨⟨given, unslashed, distinct⟩, apart⟩
      obtain ⟨named, given⟩ := List.forall_mem_cons.mp given
      obtain ⟨slashes, unslashed⟩ := List.forall_mem_cons.mp unslashed
      obtain ⟨once, distinct⟩ := List.nodup_cons.mp distinct
      obtain ⟨fresh, apart⟩ := List.forall_mem_cons.mp apart
      refine ⟨⟨named, slashes, fresh⟩, ?_⟩
      rw [if_neg named, ih]
      refine ⟨⟨given, unslashed, distinct⟩, fun l' hl' old => ?_⟩
      rcases List.mem_cons.mp old with same | old
      · exact once (List.mem_map.mpr ⟨l', hl', same⟩)
      · exact apart l' hl' old

theorem validate_eq_none_iff {ls : List Label} :
    validate ls = none ↔ WellNamed (ls.map (·.name)) := by
  rw [validate, Failure.ofErrors_eq_none_iff, errorsFrom_eq_nil_iff]
  simp

end Label

/-! ## Rules -/

theorem Actions.exists_native {a : Actions} (h : a.markSpam ≠ some true) :
    ∃ as, a.native = .ok as := ⟨_, if_neg h⟩

theorem Actions.ne_nil_of_native {a : Actions} {as : List Action} (h : a.native = .ok as) :
    as ≠ [] := by
  rw [native] at h
  split at h
  · cases h
  · split at h <;> cases h <;> exact List.cons_ne_nil _ _

theorem Actions.native_eq_error {a : Actions} (h : a.markSpam = some true) :
    a.native = .error .marksSpam := if_pos h

theorem product_ne_nil {cs : List Criteria} {as : List Action} (hc : cs ≠ []) (ha : as ≠ []) :
    product cs as ≠ [] := by
  obtain ⟨c, cs, rfl⟩ := List.exists_cons_of_ne_nil hc
  obtain ⟨a, as, rfl⟩ := List.exists_cons_of_ne_nil ha
  exact List.cons_ne_nil _ _

theorem ResolvedRule.ne_nil_of_compile {limit : Int} {r : ResolvedRule} {fs : List Filter}
    (h : r.compile limit = .ok (.ok fs)) : fs ≠ [] := by
  obtain ⟨ps, cs, as, _, ne, hcs, has, rfl⟩ := compile_eq_ok_iff.mp h
  refine product_ne_nil (fun none => ne ?_) (Actions.ne_nil_of_native has)
  exact List.length_eq_zero_iff.mp (hcs.length_eq.trans (List.length_eq_zero_iff.mpr none))

theorem ResolvedRule.compile_of_writable {limit : Int} (hl : 1 ≤ limit) {r : ResolvedRule}
    (h : r.condition.Writable) :
    (r.actions.markSpam = some true → r.compile limit = .ok (.error .marksSpam)) ∧
      (r.actions.markSpam ≠ some true → ∃ fs, r.compile limit = .ok (.ok fs)) := by
  obtain ⟨ps, cut, some, pieces⟩ := Condition.split_eq_ok hl r.condition
  have ne := some (Condition.writable_iff.mp h).1
  have writable : ∀ p ∈ ps, p.Writable := by
    intro p hp
    obtain ⟨c, hc, piece⟩ := pieces p hp
    exact Condition.writable_of_piece piece (Condition.writable_alternatives h c hc)
  obtain ⟨cs, hcs⟩ := forall₂_of_exists fun p hp => criteria_eq_ok (writable p hp)
  constructor
  · intro spam
    have notEmpty : ¬ ps.isEmpty = true := by simpa using ne
    rw [compile, cut]
    show Except.ok (filtersOf r ps) = _
    rw [filtersOf, if_neg notEmpty, mapM_of_forall₂ hcs, Actions.native_eq_error spam]
    rfl
  · intro allowed
    obtain ⟨as, has⟩ := Actions.exists_native allowed
    exact ⟨product cs as, compile_eq_ok_iff.mpr ⟨ps, cs, as, cut, ne, hcs, has, rfl⟩⟩

/-- The errors of the actions that mark as spam, each under its index. -/
def spamErrors (index : Nat) (as : List Actions) : List CompileError :=
  ((as.zipIdx index).filter fun (a, _) => a.markSpam = some true).map fun (_, i) =>
    .inRule i .marksSpam

theorem spamErrors_cons (i : Nat) (a : Actions) (as : List Actions) : spamErrors i (a :: as) =
    if a.markSpam = some true then .inRule i .marksSpam :: spamErrors (i + 1) as
    else spamErrors (i + 1) as := by
  rw [spamErrors, List.zipIdx_cons, List.filter_cons]
  by_cases spam : a.markSpam = some true <;> simp [spam, spamErrors]

theorem compileFrom_of_writable {limit : Int} (hl : 1 ≤ limit) : ∀ {rs : List ResolvedRule}
    (i : Nat), (∀ r ∈ rs, r.condition.Writable) →
      ∃ fs, compileFrom limit i rs = .ok (fs, spamErrors i (rs.map (·.actions)))
  | [], _, _ => ⟨[], rfl⟩
  | r :: rs, i, h => by
    obtain ⟨here, rest⟩ := List.forall_mem_cons.mp h
    obtain ⟨fs, compiled⟩ := compileFrom_of_writable hl (i + 1) rest
    obtain ⟨refused, given⟩ := ResolvedRule.compile_of_writable hl here
    rw [List.map_cons, spamErrors_cons, compileFrom, compiled]
    by_cases spam : r.actions.markSpam = some true
    · rw [refused spam, if_pos spam]
      exact ⟨fs, rfl⟩
    · obtain ⟨gs, made⟩ := given spam
      rw [made, if_neg spam]
      exact ⟨gs ++ fs, rfl⟩

theorem spamErrors_eq_nil_iff {as : List Actions} : ∀ {i : Nat},
    spamErrors i as = [] ↔ ∀ a ∈ as, a.markSpam ≠ some true := by
  induction as with
  | nil => simp [spamErrors]
  | cons a as ih =>
    intro i
    rw [spamErrors_cons, List.forall_mem_cons]
    by_cases spam : a.markSpam = some true
    · simp [spam]
    · rw [if_neg spam, ih]
      simp [spam]

/-! ## Configurations -/

theorem Failure.errors_of_ofErrors {ε : Type} {es : List ε} {failure : Failure ε}
    (h : ofErrors es = some failure) : failure.errors = es.map fun e => some (.one e) := by
  match es with
  | [] => cases h
  | [e] =>
    cases h
    rfl
  | e :: e' :: es =>
    cases h
    rfl

namespace Config

/-- The resolved rules are those of the configuration, with their actions. -/
theorem actions_of_resolve {passes : Int} {c : Config} {rs : List ResolvedRule}
    (h : c.resolve passes = .ok rs) : rs.map (·.actions) = c.rules.map (·.actions) := by
  obtain ⟨_, resolved⟩ := resolve_eq_ok_iff.mp h
  refine (map_eq_map_of_forall₂ (forall₂_of_collect resolved) ?_).symm
  rintro rule r ⟨i, made⟩
  rw [Rule.resolve] at made
  split at made
  · cases made
  · cases made
    rfl

theorem compileFrom_of_resolve {b : Bounds} (hl : 1 ≤ b.limit) {c : Config}
    {rs : List ResolvedRule} (h : c.resolve b.passes = .ok rs) :
    ∃ fs, compileFrom b.limit 0 rs = .ok (fs, spamErrors 0 (c.rules.map (·.actions))) := by
  rw [← actions_of_resolve h]
  exact compileFrom_of_writable hl 0 (writable_of_resolve h)

theorem exists_compile_iff {c : Config} {b : Bounds} (hl : 1 ≤ b.limit) :
    (∃ k, c.compile b = .ok k) ↔ Label.WellNamed (c.labels.map (·.name)) ∧
      (∃ rs, c.resolve b.passes = .ok rs) ∧ ∀ r ∈ c.rules, r.actions.markSpam ≠ some true := by
  have names : (c.labels.map Label.ofDeclared).map (·.name) = c.labels.map (·.name) := by
    rw [List.map_map]
    rfl
  constructor
  · rintro ⟨k, h⟩
    obtain ⟨valid, resolved, compiled, _⟩ := compile_eq_ok_iff.mp h
    refine ⟨names ▸ Label.validate_eq_none_iff.mp valid, ⟨_, resolved⟩, ?_⟩
    obtain ⟨fs, outcome⟩ := compileFrom_of_resolve hl resolved
    rw [compileRules, outcome] at compiled
    simp only at compiled
    split at compiled
    · cases compiled
    · next noFailure =>
      have noSpam := spamErrors_eq_nil_iff.mp (Failure.ofErrors_eq_none_iff.mp noFailure)
      exact fun r hr => noSpam _ (List.mem_map_of_mem hr)
  · rintro ⟨labels, ⟨rs, resolved⟩, noSpam⟩
    obtain ⟨fs, outcome⟩ := compileFrom_of_resolve hl resolved
    rw [spamErrors_eq_nil_iff.mpr (List.forall_mem_map.mpr noSpam)] at outcome
    refine ⟨⟨rs, fs, c.labels.map .ofDeclared⟩, compile_eq_ok_iff.mpr ⟨?_, resolved, ?_, rfl⟩⟩
    · exact Label.validate_eq_none_iff.mpr (names ▸ labels)
    · rw [compileRules, outcome]
      rfl

theorem compile_eq_spam {c : Config} {b : Bounds} (hl : 1 ≤ b.limit)
    (labels : Label.WellNamed (c.labels.map (·.name))) {rs : List ResolvedRule}
    (resolved : c.resolve b.passes = .ok rs)
    (spam : ∃ r ∈ c.rules, r.actions.markSpam = some true) :
    ∃ failure, c.compile b = .error (.compile (.rules failure)) ∧
      failure.errors = (spamErrors 0 (c.rules.map (·.actions))).map fun e => some (.one e) := by
  have valid : Label.validate (c.labels.map Label.ofDeclared) = none := by
    rw [Label.validate_eq_none_iff, List.map_map]
    exact labels
  obtain ⟨fs, outcome⟩ := compileFrom_of_resolve hl resolved
  cases failed : Failure.ofErrors (spamErrors 0 (c.rules.map (·.actions))) with
  | none =>
    obtain ⟨r, hr, marks⟩ := spam
    have noSpam := spamErrors_eq_nil_iff.mp (Failure.ofErrors_eq_none_iff.mp failed)
    exact absurd marks (noSpam _ (List.mem_map_of_mem hr))
  | some failure =>
    refine ⟨failure, ?_, Failure.errors_of_ofErrors failed⟩
    simp only [compile, valid, resolved, compileRules, outcome, failed]

/-- **A configuration that can be resolved compiles unless it marks as spam.** If the limit is at
least one, a configuration compiles exactly if its labels are well named, its rules can be resolved
and none of them marks as spam. Then every filter has criteria, and every rule at least one filter.
If only the marks are wrong, there is one error for each rule with one, in the order of the
rules. -/
theorem compile_complete (c : Config) {b : Bounds} (hl : 1 ≤ b.limit) :
    ((∃ k, c.compile b = .ok k) ↔ Label.WellNamed (c.labels.map (·.name)) ∧
      (∃ rs, c.resolve b.passes = .ok rs) ∧ ∀ r ∈ c.rules, r.actions.markSpam ≠ some true) ∧
    (∀ k, c.compile b = .ok k → (∀ f ∈ k.filters, f.criteria.isEmpty = false) ∧
      k.rules.length = c.rules.length ∧ ∃ fss, k.filters = fss.flatten ∧
        List.Forall₂ (fun r fs => r.compile b.limit = .ok (.ok fs) ∧ fs ≠ []) k.rules fss) ∧
    (Label.WellNamed (c.labels.map (·.name)) → (∃ rs, c.resolve b.passes = .ok rs) →
      (∃ r ∈ c.rules, r.actions.markSpam = some true) →
        ∃ failure, c.compile b = .error (.compile (.rules failure)) ∧
          failure.errors = ((c.rules.zipIdx.filter fun (r, _) => r.actions.markSpam = some true).map
            fun (_, i) => some (.one (.inRule i .marksSpam)))) := by
  refine ⟨exists_compile_iff hl, fun k h => ?_, fun labels ⟨rs, resolved⟩ spam => ?_⟩
  · obtain ⟨_, resolved, compiled, _⟩ := compile_eq_ok_iff.mp h
    refine ⟨fun f hf => ?_, ?_, ?_⟩
    · obtain ⟨_, _, _, ps, _, ⟨p, _, written⟩, _⟩ := mem_filters_of_compile h hf
      exact (Condition.parts_of_criteria written).2
    · simpa using congrArg List.length (actions_of_resolve resolved)
    · obtain ⟨fss, each, flat⟩ := compileRules_eq_ok_iff.mp compiled
      exact ⟨fss, flat, each.imp fun _ _ made => ⟨made, ResolvedRule.ne_nil_of_compile made⟩⟩
  · obtain ⟨failure, failed, errors⟩ := compile_eq_spam hl labels resolved spam
    refine ⟨failure, failed, errors.trans ?_⟩
    simp [spamErrors, List.zipIdx_map, List.filter_map, Function.comp_def]

/-- A rule that compiles, and the same rule before one that marks as spam. -/
theorem compile_complete_spam :
    let rule : Rule :=
      ⟨{ conj := some [{ sender := some "a" }, { cc := some "b" }] }, { archive := true }⟩
    let c : Config := { labels := [{ name := "work" }], rules := [rule] }
    let d : Config :=
      { c with rules := [rule, ⟨{ sender := some "c" }, { markSpam := some true }⟩] }
    (1 : Int) ≤ 20 ∧
      (∃ k, c.compile ⟨20, 4⟩ = .ok k ∧ ∀ f ∈ k.filters, f.criteria.isEmpty = false) ∧
      ∃ failure, d.compile ⟨20, 4⟩ = .error (.compile (.rules failure)) ∧
        failure.errors = [some (.one (.inRule 1 .marksSpam))] := by
  intro rule c d
  have limit : (1 : Int) ≤ (Bounds.mk 20 4).limit := by decide
  have names : Label.WellNamed ["work"] := ⟨by simp, by decide, by simp⟩
  refine ⟨limit, ?_, ?_⟩
  · obtain ⟨compiles, filters, _⟩ := compile_complete c limit
    obtain ⟨k, hk⟩ := compiles.mpr ⟨names, ⟨_, rfl⟩, by decide⟩
    exact ⟨k, hk, (filters k hk).1⟩
  · obtain ⟨_, _, refused⟩ := compile_complete d limit
    exact refused names ⟨_, rfl⟩ ⟨_, List.mem_cons_of_mem _ List.mem_cons_self, rfl⟩

end Config

end MailRules
