import MailRules.Compile
import MailRules.Proofs.Outcome

/-!
What it takes for a configuration to compile.

A stage that works through a list and gathers errors gives a result if each element does, whatever
its index: an index is told in errors only. So a configuration compiles if its labels are valid, its
named filters and rules can be resolved, and each rule can be compiled, and its filters are those of
its rules, one after another.

What is proved:
  1. `forall_mem_resolveNamed`: what each named filter has, given that those before it have it, all
     of them have.
  2. `compileRules_eq_ok_iff`, `compile_eq_ok_iff`: when rules and configurations compile, and to
     what.
  3. `mem_filters_of_compile`: each filter of a compiled configuration is made of a piece of the
     condition of a rule and a native action of its actions.
-/

namespace MailRules

open Native

section
variable {α β ε : Type} {f : Nat → α → Except ε β}

theorem forall₂_of_collect : ∀ {xs : List α} {i : Nat} {ys : List β}, collect f i xs = (ys, []) →
    List.Forall₂ (fun x y => ∃ j, f j x = .ok y) xs ys
  | [], _, _, h => by
    cases h
    exact .nil
  | x :: xs, i, ys, h => by
    simp only [collect] at h
    split at h
    · next y hy =>
      obtain ⟨rfl, noErrors⟩ := Prod.mk.inj h
      exact .cons ⟨i, hy⟩ (forall₂_of_collect (Prod.ext rfl noErrors))
    · cases h

theorem collect_of_forall₂ : ∀ {xs : List α} {ys : List β} (i : Nat),
    List.Forall₂ (fun x y => ∀ j, f j x = .ok y) xs ys → collect f i xs = (ys, [])
  | [], _, _, .nil => rfl
  | _ :: _, _, i, .cons head tail => by rw [collect, collect_of_forall₂ (i + 1) tail, head i]

end

/-! ## Expressions -/

theorem Named.mem_of_find? : ∀ {named : Named} {name : String} {t : Condition},
    named.find? name = some t → (name, t) ∈ named
  | (n, u) :: named, name, t, h => by
    rw [Named.find?] at h
    split at h
    · next same =>
      cases h
      rw [same]
      exact List.mem_cons_self
    · exact List.mem_cons_of_mem _ (Named.mem_of_find? h)

/-- The names of a table are those under which a condition is found. -/
theorem Named.find?_eq_none_iff {name : String} : ∀ {named : Named},
    named.find? name = none ↔ name ∉ named.map Prod.fst
  | [] => by simp [Named.find?]
  | (n, c) :: named => by
    rw [Named.find?]
    split
    · next same => simp [same]
    · next ne => simp [Named.find?_eq_none_iff, Ne.symm ne]

namespace FilterExpr

theorem check_eq_ok_iff {path : String} {e : FilterExpr} {key : Key} :
    e.check path = .ok key ↔ e.given = [key] ∧ (e.escaped = true → key.escapable = true) := by
  rw [check]
  match e.given with
  | [] => simp
  | [k] =>
    by_cases misplaced : (e.escaped && !k.escapable) = true
    · simp only [misplaced, if_true]
      grind
    · simp only [misplaced]
      grind
  | k :: k' :: ks => simp

/-- What an expression stands for, by the key under which it says something. -/
theorem resolve_eq_ok_iff {named : Named} {path : String} {e : FilterExpr} {t : Condition} :
    e.resolve named path = .ok t ↔
      (e.check path = .ok .conj ∧
        ∃ ts, resolveList named path .conj e.conj = .ok ts ∧ .conj ts = t) ∨
      (e.check path = .ok .disj ∧
        ∃ ts, resolveList named path .disj e.disj = .ok ts ∧ .disj ts = t) ∨
      (e.check path = .ok .neg ∧
        ∃ u, resolveOption named (path ++ ".not") e.neg = .ok u ∧ .neg u = t) ∨
      (∃ f, e.check path = .ok (.field f) ∧
        .leaf (.over f [(e.text f).getD ""] .unset e.escaped) = t) ∨
      (e.check path = .ok .name ∧ named.find? (e.name.getD "") = some t) := by
  cases e
  rw [resolve]
  cases h : check path _ with
  | error err => simp
  | ok key =>
    cases key with
    | conj => simp [map_eq_ok]
    | disj => simp [map_eq_ok]
    | neg => simp [map_eq_ok]
    | field f => simp
    | name => simp; split <;> simp_all

/-- The condition of the expression has a property if those of the named filters have it. -/
def HandsOn (P : Condition → Prop) (e : FilterExpr) : Prop :=
  ∀ named path t, (∀ x ∈ named, P x.2) → e.resolve named path = .ok t → P t

end FilterExpr

theorem NamedFilter.resolve_eq_ok_iff {i : Nat} {named : Named} {f : NamedFilter} {t : Condition} :
    f.resolve i named = .ok t ↔ f.name ≠ "" ∧ f.name ∉ named.map Prod.fst ∧
      f.filter.resolve named (NamedFilter.path i ++ ".filter") = .ok t := by
  rw [resolve, ← Named.find?_eq_none_iff]
  split
  · next unnamed => simp [unnamed]
  · next named =>
    split
    · next repeated =>
      obtain ⟨u, hu⟩ := Option.isSome_iff_exists.mp repeated
      simp [hu]
    · next fresh => simp [named, mapError_eq_ok, Option.not_isSome_iff_eq_none.mp fresh]

/-- Named filters are resolved one after another: what each adds to a table in which all entries
have a property, if that has it as well, all entries have in the end. -/
theorem forall_mem_resolveNamed {P : String × Condition → Prop} : ∀ {fs : List NamedFilter}
    {i : Nat} {named : Named},
      (∀ f ∈ fs, ∀ i named t, (∀ x ∈ named, P x) → f.resolve i named = .ok t → P (f.name, t)) →
        (∀ x ∈ named, P x) → ∀ x ∈ (resolveNamed i named fs).named, P x
  | [], _, _, _, hn => hn
  | f :: fs, i, named, step, hn => by
    obtain ⟨here, rest⟩ := List.forall_mem_cons.mp step
    rw [resolveNamed]
    split
    · next t ht =>
      refine forall_mem_resolveNamed rest (List.forall_mem_append.mpr ⟨hn, ?_⟩)
      exact List.forall_mem_singleton.mpr (here i named t hn ht)
    · exact forall_mem_resolveNamed rest hn

/-! ## Rules -/

theorem ResolvedRule.compile_eq_ok_iff {limit : Int} {r : ResolvedRule} {fs : List Filter} :
    r.compile limit = .ok (.ok fs) ↔ ∃ ps cs as, r.condition.split limit = .ok ps ∧ ps ≠ [] ∧
      List.Forall₂ (fun p c => criteria p = .ok c) ps cs ∧ r.actions.native = .ok as ∧
        fs = product cs as := by
  constructor
  · intro h
    obtain ⟨ps, hps, compiled⟩ := map_eq_ok.mp h
    rw [ResolvedRule.filtersOf] at compiled
    split at compiled
    · cases compiled
    · next cut =>
      obtain ⟨cs, hcs, compiled⟩ := bind_eq_ok.mp compiled
      obtain ⟨as, has, compiled⟩ := bind_eq_ok.mp compiled
      cases compiled
      exact ⟨ps, cs, as, hps, by simpa using cut, forall₂_of_mapM hcs, has, rfl⟩
  · rintro ⟨ps, cs, as, hps, ne, hcs, has, rfl⟩
    have cut : ¬ ps.isEmpty = true := by simpa using ne
    rw [ResolvedRule.compile, hps]
    show Except.ok (ResolvedRule.filtersOf r ps) = _
    rw [ResolvedRule.filtersOf, if_neg cut, mapM_of_forall₂ hcs, has]
    rfl

theorem forall₂_of_compileFrom {limit : Int} : ∀ {rs : List ResolvedRule} {i : Nat}
    {fs : List Filter}, compileFrom limit i rs = .ok (fs, []) →
      ∃ fss, List.Forall₂ (fun r gs => r.compile limit = .ok (.ok gs)) rs fss ∧ fs = fss.flatten
  | [], _, _, h => by
    cases h
    exact ⟨[], .nil, rfl⟩
  | r :: rs, i, fs, h => by
    rw [compileFrom] at h
    obtain ⟨here, hr, h⟩ := bind_eq_ok.mp h
    obtain ⟨⟨filters, errors⟩, hrs, h⟩ := bind_eq_ok.mp h
    cases here with
    | error e => cases h
    | ok gs =>
      cases h
      obtain ⟨fss, compiled, rfl⟩ := forall₂_of_compileFrom hrs
      exact ⟨gs :: fss, .cons hr compiled, rfl⟩

theorem compileFrom_of_forall₂ {limit : Int} : ∀ {rs : List ResolvedRule}
    {fss : List (List Filter)} (i : Nat),
      List.Forall₂ (fun r gs => r.compile limit = .ok (.ok gs)) rs fss →
        compileFrom limit i rs = .ok (fss.flatten, [])
  | [], _, _, .nil => rfl
  | _ :: _, _, i, .cons head tail => by
    rw [compileFrom, head, compileFrom_of_forall₂ (i + 1) tail]
    rfl

theorem compileRules_eq_ok_iff {limit : Int} {rs : List ResolvedRule} {fs : List Filter} :
    compileRules limit rs = .ok fs ↔
      ∃ fss, List.Forall₂ (fun r gs => r.compile limit = .ok (.ok gs)) rs fss ∧
        fs = fss.flatten := by
  constructor
  · intro h
    rw [compileRules] at h
    split at h
    · cases h
    · next compiled =>
      split at h
      · cases h
      · next noFailure =>
        cases h
        rw [Failure.ofErrors_eq_none_iff.mp noFailure] at compiled
        exact forall₂_of_compileFrom compiled
  · rintro ⟨fss, compiled, rfl⟩
    rw [compileRules, compileFrom_of_forall₂ 0 compiled]
    rfl

/-! ## Configurations -/

namespace Config

theorem resolve_eq_ok_iff {passes : Int} {c : Config} {rs : List ResolvedRule} :
    c.resolve passes = .ok rs ↔ (resolveNamed 0 [] c.filters).errors = [] ∧
      collect (fun i r => r.resolve passes i (resolveNamed 0 [] c.filters).named) 0 c.rules =
        (rs, []) := by
  simp only [resolve]
  constructor
  · intro h
    split at h
    · cases h
    · next noFailure =>
      cases h
      obtain ⟨inFilters, inRules⟩ :=
        List.append_eq_nil_iff.mp (Failure.ofErrors_eq_none_iff.mp noFailure)
      exact ⟨inFilters, Prod.ext rfl inRules⟩
  · intro ⟨noErrors, resolved⟩
    simp only [noErrors, resolved, List.append_nil, Failure.ofErrors_eq_none_iff.mpr]

/-- What the conditions of all expressions have, if named filters with it are given, the conditions
of all rules have before they are simplified. -/
theorem condition_of_resolve {P : Condition → Prop} {passes : Int} {c : Config}
    (filters : ∀ f ∈ c.filters, f.filter.HandsOn P) (rules : ∀ r ∈ c.rules, r.filter.HandsOn P)
    {rs : List ResolvedRule} (h : c.resolve passes = .ok rs) :
    ∀ r ∈ rs, ∃ t, P t ∧ r.condition = t.simplify passes := by
  intro r hr
  obtain ⟨_, resolved⟩ := resolve_eq_ok_iff.mp h
  obtain ⟨rule, hrule, i, resolved⟩ := exists_left_of_mem (forall₂_of_collect resolved) hr
  rw [Rule.resolve] at resolved
  split at resolved
  · cases resolved
  · next t ht =>
    cases resolved
    have named : ∀ x ∈ (resolveNamed 0 [] c.filters).named, P x.2 := by
      refine forall_mem_resolveNamed (P := fun x => P x.2) ?_ (List.forall_mem_nil _)
      intro f hf i named t hn ht
      exact filters f hf named _ t hn (NamedFilter.resolve_eq_ok_iff.mp ht).2.2
    exact ⟨t, rules rule hrule _ _ t named ht, rfl⟩

theorem compile_eq_ok_iff {b : Bounds} {c : Config} {k : Compiled} :
    c.compile b = .ok k ↔ Label.validate (c.labels.map .ofDeclared) = none ∧
      c.resolve b.passes = .ok k.rules ∧ compileRules b.limit k.rules = .ok k.filters ∧
        k.labels = c.labels.map .ofDeclared := by
  simp only [compile]
  constructor
  · intro h
    split at h
    · cases h
    · next valid =>
      split at h
      · cases h
      · next resolved =>
        split at h
        · cases h
        · next compiled =>
          cases h
          exact ⟨valid, resolved, compiled, rfl⟩
  · intro ⟨valid, resolved, compiled, labels⟩
    rw [← labels] at valid ⊢
    simp only [valid, resolved, compiled]

theorem mem_filters_of_compile {b : Bounds} {c : Config} {k : Compiled} (h : c.compile b = .ok k)
    {f : Filter} (hf : f ∈ k.filters) : f.id = "" ∧
      ∃ r ∈ k.rules, ∃ ps, r.condition.split b.limit = .ok ps ∧
        (∃ p ∈ ps, criteria p = .ok f.criteria) ∧
          ∃ as, r.actions.native = .ok as ∧ f.action ∈ as := by
  obtain ⟨_, _, compiled, _⟩ := compile_eq_ok_iff.mp h
  obtain ⟨fss, each, flat⟩ := compileRules_eq_ok_iff.mp compiled
  rw [flat, List.mem_flatten] at hf
  obtain ⟨fs, hfs, hf⟩ := hf
  obtain ⟨r, hr, compiled⟩ := exists_left_of_mem each hfs
  obtain ⟨ps, cs, as, hps, _, hcs, has, rfl⟩ := ResolvedRule.compile_eq_ok_iff.mp compiled
  obtain ⟨d, hd, hf⟩ := List.mem_flatMap.mp hf
  obtain ⟨a, ha, rfl⟩ := List.mem_map.mp hf
  obtain ⟨p, hp, written⟩ := exists_left_of_mem hcs hd
  exact ⟨rfl, r, hr, ps, hps, ⟨p, hp, written⟩, as, has, ha⟩

end Config

end MailRules
