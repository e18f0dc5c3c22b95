import MailRules.Proofs.Compile.Complete
import MailRules.Proofs.Config.Grammar

/-!
Every error in a configuration is told, once and in order.

Named filters and rules are worked through to the end, whatever is wrong with some of them. A filter
in error is unknown to what comes after it, so that references to it are errors too, and a later
filter may have its name.

What is defined and proved:
  1. `Told`: one thing is told of each place of a list where there is anything to tell; one lemma
     for a place where there is (`Told.tell`), one for a place where there is not (`Told.skip`).
  2. `told_collect`: what `collect` gives, results and errors alike.
  3. `NamedFilter.Fault`, `Known`: what is wrong with a named filter, and the valid filters before a
     place; `told_resolveNamed`: the errors in named filters.
  4. `find?_ruleIndex_of_resolve`: the error in an expression leaves room for the index of its rule.
  5. `Config.resolve_reports`: when a configuration is resolved, and what is told otherwise.
-/

namespace MailRules

/-! ## One thing told of each place -/

section Told
variable {α β ε : Type}

/-- One thing is told of each of the places from `i` on that are `P`, in order; `R` says what. -/
def Told (P : Nat → Prop) (R : Nat → β → Prop) (ys : List β) (i : Nat := 0) : Prop :=
  ∃ places : List Nat, places.Pairwise (· < ·) ∧ (∀ j, j ∈ places ↔ i ≤ j ∧ P j) ∧
    List.Forall₂ R places ys

namespace Told

variable {i : Nat} {P P' : Nat → Prop} {R R' : Nat → β → Prop} {ys : List β}

theorem done (silent : ∀ j, i ≤ j → ¬ P j) : Told P R [] i :=
  ⟨[], .nil, fun j => by simpa using silent j, .nil⟩

theorem tell {y : β} (here : P i) (told : R i y) (rest : Told P R ys (i + 1)) :
    Told P R (y :: ys) i := by
  obtain ⟨places, ordered, exactly, each⟩ := rest
  refine ⟨i :: places, List.pairwise_cons.mpr ⟨fun j hj => ?_, ordered⟩, fun j => ?_,
    .cons told each⟩
  · exact ((exactly j).mp hj).1
  · rw [List.mem_cons, exactly]
    constructor
    · rintro (rfl | ⟨after, hj⟩)
      · exact ⟨Nat.le_refl j, here⟩
      · exact ⟨Nat.le_of_succ_le after, hj⟩
    · rintro ⟨at_i, hj⟩
      rcases Nat.eq_or_lt_of_le at_i with same | after
      · exact .inl same.symm
      · exact .inr ⟨after, hj⟩

theorem skip (silent : ¬ P i) (rest : Told P R ys (i + 1)) : Told P R ys i := by
  obtain ⟨places, ordered, exactly, each⟩ := rest
  refine ⟨places, ordered, fun j => ?_, each⟩
  rw [exactly]
  constructor
  · rintro ⟨after, hj⟩
    exact ⟨Nat.le_of_succ_le after, hj⟩
  · rintro ⟨at_i, hj⟩
    rcases Nat.eq_or_lt_of_le at_i with rfl | after
    · exact absurd hj silent
    · exact ⟨after, hj⟩

theorem imp (h : Told P R ys i) (places : ∀ j, P j ↔ P' j) (each : ∀ j y, R j y → R' j y) :
    Told P' R' ys i := by
  obtain ⟨js, ordered, exactly, told⟩ := h
  exact ⟨js, ordered, fun j => by rw [exactly, places], told.imp each⟩

/-- Nothing is told exactly if there is no place to tell it of. -/
theorem eq_nil_iff (h : Told P R ys) : ys = [] ↔ ∀ j, ¬ P j := by
  obtain ⟨places, _, exactly, each⟩ := h
  constructor
  · rintro rfl j hj
    cases each
    exact absurd ((exactly j).mpr ⟨Nat.zero_le j, hj⟩) List.not_mem_nil
  · intro silent
    cases each with
    | nil => rfl
    | @cons j _ _ _ _ _ => exact absurd ((exactly j).mp List.mem_cons_self).2 (silent j)

end Told

theorem told_collect_from {f : Nat → α → Except ε β} {Q : Nat → β → Prop} {R : Nat → ε → Prop} :
    ∀ {xs : List α} {i : Nat},
      (∀ j y, Q (i + j) y ↔ ∃ x, xs[j]? = some x ∧ f (i + j) x = .ok y) →
      (∀ j e, R (i + j) e ↔ ∃ x, xs[j]? = some x ∧ f (i + j) x = .error e) →
        Told (∃ y, Q · y) Q (collect f i xs).1 i ∧ Told (∃ e, R · e) R (collect f i xs).2 i
  | [], i, oks, errs => by
    constructor
    · refine .done fun j at_i ⟨y, told⟩ => ?_
      obtain ⟨k, rfl⟩ := Nat.exists_eq_add_of_le at_i
      simpa using (oks k y).mp told
    · refine .done fun j at_i ⟨e, told⟩ => ?_
      obtain ⟨k, rfl⟩ := Nat.exists_eq_add_of_le at_i
      simpa using (errs k e).mp told
  | x :: xs, i, oks, errs => by
    have next (j : Nat) : i + 1 + j = i + (j + 1) := by omega
    have oks' (j : Nat) (y : β) :
        Q (i + 1 + j) y ↔ ∃ x, xs[j]? = some x ∧ f (i + 1 + j) x = .ok y := by
      simpa [next] using oks (j + 1) y
    have errs' (j : Nat) (e : ε) :
        R (i + 1 + j) e ↔ ∃ x, xs[j]? = some x ∧ f (i + 1 + j) x = .error e := by
      simpa [next] using errs (j + 1) e
    obtain ⟨restOks, restErrs⟩ := told_collect_from oks' errs'
    have ok (y : β) : Q i y ↔ f i x = .ok y := by simpa using oks 0 y
    have err (e : ε) : R i e ↔ f i x = .error e := by simpa using errs 0 e
    rw [collect]
    cases result : f i x with
    | ok y =>
      have made := (ok y).mpr result
      exact ⟨restOks.tell ⟨y, made⟩ made, restErrs.skip (by simp [err, result])⟩
    | error e =>
      have refused := (err e).mpr result
      exact ⟨restOks.skip (by simp [ok, result]), restErrs.tell ⟨e, refused⟩ refused⟩

/-- The results and the errors of a list are those of its elements, each at its place. -/
theorem told_collect {f : Nat → α → Except ε β} {Q : Nat → β → Prop} {R : Nat → ε → Prop}
    {xs : List α} (oks : ∀ j y, Q j y ↔ ∃ x, xs[j]? = some x ∧ f j x = .ok y)
    (errs : ∀ j e, R j e ↔ ∃ x, xs[j]? = some x ∧ f j x = .error e) :
    Told (∃ y, Q · y) Q (collect f 0 xs).1 ∧ Told (∃ e, R · e) R (collect f 0 xs).2 :=
  told_collect_from (fun j y => by rw [Nat.zero_add, oks]) (fun j e => by rw [Nat.zero_add, errs])

end Told

/-! ## Named filters -/

/-- What is wrong with the named filter at an index, beside the valid ones declared before it. -/
inductive NamedFilter.Fault (i : Nat) (named : Named) (f : NamedFilter) : ConfigError → Prop
  | unnamed (empty : f.name = "") : Fault i named f (.unnamedFilter i (path i))
  | repeated (filled : f.name ≠ "") (bound : f.name ∈ named.map Prod.fst) :
      Fault i named f (.repeatedFilter (path i) f.name)
  | rejected (filled : f.name ≠ "") (fresh : f.name ∉ named.map Prod.fst) {cause : ConfigError}
      (refused : f.filter.resolve named (path i ++ ".filter") = .error cause) :
      Fault i named f (.inFilter f.name cause)

theorem NamedFilter.resolve_eq_error_iff {i : Nat} {named : Named} {f : NamedFilter}
    {err : ConfigError} : f.resolve i named = .error err ↔ f.Fault i named err := by
  constructor
  · intro h
    simp only [resolve] at h
    split at h
    · next empty =>
      cases h
      exact .unnamed empty
    · next filled =>
      split at h
      · next bound =>
        cases h
        refine .repeated filled ?_
        by_contra fresh
        simp [Named.find?_eq_none_iff.mpr fresh] at bound
      · next fresh =>
        rw [Option.not_isSome_iff_eq_none, Named.find?_eq_none_iff] at fresh
        cases refused : f.filter.resolve named (path i ++ ".filter") with
        | ok t =>
          rw [refused] at h
          cases h
        | error cause =>
          rw [refused] at h
          cases h
          exact .rejected filled fresh refused
  · rintro (empty | ⟨filled, bound⟩ | ⟨filled, fresh, refused⟩)
    · rw [resolve, if_pos empty]
    · rw [resolve, if_neg filled, if_pos]
      rw [← Option.ne_none_iff_isSome, ne_eq, Named.find?_eq_none_iff]
      exact not_not_intro bound
    · rw [resolve, if_neg filled, if_neg, refused]
      · rfl
      · simp [Named.find?_eq_none_iff.mpr fresh]

/-- The valid filters among the first ones of a list, by name, with their conditions. -/
inductive Known (fs : List NamedFilter) : Nat → Named → Prop
  | none : Known fs 0 []
  | valid {i : Nat} {named : Named} {f : NamedFilter} {t : Condition} (before : Known fs i named)
      (here : fs[i]? = some f) (resolved : f.resolve i named = .ok t) :
      Known fs (i + 1) (named ++ [(f.name, t)])
  | faulty {i : Nat} {named : Named} {f : NamedFilter} {err : ConfigError}
      (before : Known fs i named) (here : fs[i]? = some f) (fault : f.Fault i named err) :
      Known fs (i + 1) named

theorem Known.unique {fs : List NamedFilter} {i : Nat} {named : Named} (h : Known fs i named) :
    ∀ {named' : Named}, Known fs i named' → named' = named := by
  induction h with
  | none =>
    intro _ other
    cases other
    rfl
  | valid _ here resolved ih =>
    intro _ other
    cases other with
    | valid before' here' resolved' =>
      obtain rfl := ih before'
      obtain rfl := Option.some.inj (here'.symm.trans here)
      rw [Except.ok.inj (resolved'.symm.trans resolved)]
    | faulty before' here' fault =>
      obtain rfl := ih before'
      obtain rfl := Option.some.inj (here'.symm.trans here)
      rw [NamedFilter.resolve_eq_error_iff.mpr fault] at resolved
      cases resolved
  | faulty _ here fault ih =>
    intro _ other
    cases other with
    | valid before' here' resolved =>
      obtain rfl := ih before'
      obtain rfl := Option.some.inj (here'.symm.trans here)
      rw [NamedFilter.resolve_eq_error_iff.mpr fault] at resolved
      cases resolved
    | faulty before' _ _ => exact ih before'

namespace Config

/-- What is wrong with the named filter at a place, beside the valid ones before it. -/
def FilterFault (c : Config) (i : Nat) (err : ConfigError) : Prop :=
  ∃ named f, Known c.filters i named ∧ c.filters[i]? = some f ∧ f.Fault i named err

/-- What is wrong with the rule at a place, beside all valid named filters. -/
def RuleFault (c : Config) (i : Nat) (err : ConfigError) : Prop :=
  ∃ named r cause, Known c.filters c.filters.length named ∧ c.rules[i]? = some r ∧
    r.filter.resolve named (Rule.path i) = .error cause ∧ err = .inRule i cause

end Config

/-- Going on through the named filters from a place, with those known before it, tells what is wrong
with the filters from there on, and ends with all valid ones. -/
theorem told_resolveNamed {c : Config} : ∀ {fs : List NamedFilter} {i : Nat} {named : Named},
    (∀ j, c.filters[i + j]? = fs[j]?) → Known c.filters i named →
      Told (∃ err, c.FilterFault · err) c.FilterFault (resolveNamed i named fs).errors i ∧
        Known c.filters (i + fs.length) (resolveNamed i named fs).named
  | [], i, named, rest, known => by
    refine ⟨.done ?_, known⟩
    rintro j at_i ⟨err, _, f, _, here, _⟩
    obtain ⟨k, rfl⟩ := Nat.exists_eq_add_of_le at_i
    simp [rest k] at here
  | f :: fs, i, named, rest, known => by
    have here : c.filters[i]? = some f := rest 0
    have rest' (j : Nat) : c.filters[i + 1 + j]? = fs[j]? := by
      rw [show i + 1 + j = i + (j + 1) by omega, rest, List.getElem?_cons_succ]
    rw [resolveNamed, List.length_cons, Nat.add_comm fs.length 1, ← Nat.add_assoc]
    cases result : f.resolve i named with
    | ok t =>
      obtain ⟨told, all⟩ := told_resolveNamed rest' (known.valid here result)
      refine ⟨told.skip ?_, all⟩
      rintro ⟨err, named', f', known', here', fault⟩
      obtain rfl := known.unique known'
      obtain rfl := Option.some.inj (here'.symm.trans here)
      rw [NamedFilter.resolve_eq_error_iff.mpr fault] at result
      cases result
    | error err =>
      have fault := NamedFilter.resolve_eq_error_iff.mp result
      obtain ⟨told, all⟩ := told_resolveNamed rest' (known.faulty here fault)
      have wrong : c.FilterFault i err := ⟨named, f, known, here, fault⟩
      exact ⟨told.tell ⟨err, wrong⟩ wrong, all⟩

/-! ## The index of a rule -/

theorem Json.find?_overlay_of_eq_none {key : String} : ∀ {others base : Json.Fields},
    Json.find? key others = none → Json.find? key (Json.overlay base others) = Json.find? key base
  | [], _, _ => rfl
  | (k, v) :: others, base, absent => by
    rw [Json.find?] at absent
    split at absent
    · cases absent
    · next ne =>
      rw [Json.overlay, List.foldl_cons]
      exact (find?_overlay_of_eq_none absent).trans (Json.find?_put_of_ne (Ne.symm ne) v base)

namespace FilterExpr

theorem find?_ruleIndex_of_resolve (named : Named) (e : FilterExpr) :
    ∀ {path : String} {err : ConfigError}, e.resolve named path = .error err →
      Json.find? "rule_index" err.details = none := by
  induction e using induct with
  | step e ih =>
    intro path err h
    by_cases bad : e.Bad named
    · cases said : e.check path with
      | error err' =>
        rw [resolve_of_check_error said] at h
        cases h
        rw [check] at said
        split at said
        · cases said
          rfl
        · split at said <;> cases said
          rfl
        · cases said
          rfl
      | ok key =>
        obtain ⟨rfl, n, set, unknown⟩ := (bad_iff_of_check said).mp bad
        rw [resolve_of_name said set, unknown] at h
        cases h
        rfl
    · obtain ⟨before, x, after, parts, _, failed⟩ := error_of_not_bad bad h
      have hx : x ∈ e.parts path := by simp [parts]
      exact ih x.2 (mem_children_of_parts hx) failed

end FilterExpr

/-! ## Configurations -/

theorem Failure.errorsOf_ofErrors {ε : Type} (es : List ε) :
    errorsOf (ofErrors es) = es.map fun e => some (.one e) := by
  cases made : ofErrors es with
  | none =>
    rw [ofErrors_eq_none_iff.mp made]
    rfl
  | some failure => exact errors_of_ofErrors made

/-- A failure that lists errors, combined with further errors, lists them all one by one. -/
theorem Failure.combine_ofErrors {ε : Type} (es es' : List ε) :
    combine (ofErrors es :: es'.map fun e => some (.one e)) = ofErrors (es ++ es') := by
  have single : (es'.map fun e => some (one e)).flatMap errorsOf =
      es'.map fun e => some (one e) := by
    simp [List.flatMap_map, errorsOf, errors, ← List.map_eq_flatMap]
  rw [combine, List.flatMap_cons, errorsOf_ofErrors, single, ofErrors, List.map_append]

namespace Config

theorem find?_ruleIndex_of_ruleFault {c : Config} {i : Nat} {err : ConfigError}
    (h : c.RuleFault i err) : Json.find? "rule_index" err.details = some (.ofNat i) := by
  obtain ⟨named, r, cause, _, _, refused, rfl⟩ := h
  exact Json.find?_overlay_of_eq_none (FilterExpr.find?_ruleIndex_of_resolve named _ refused)

theorem told_resolve (passes : Int) (c : Config) :
    Told (∃ err, c.FilterFault · err) c.FilterFault (resolveNamed 0 [] c.filters).errors ∧
      Told (∃ err, c.RuleFault · err) c.RuleFault
        (collect (fun i r => r.resolve passes i (resolveNamed 0 [] c.filters).named) 0 c.rules).2 := by
  have all (j : Nat) : c.filters[0 + j]? = c.filters[j]? := by rw [Nat.zero_add]
  obtain ⟨inFilters, known⟩ := told_resolveNamed all .none
  rw [Nat.zero_add] at known
  refine ⟨inFilters, (told_collect (fun _ _ => Iff.rfl) fun j err => ?_).2⟩
  constructor
  · rintro ⟨named, r, cause, known', here, refused, rfl⟩
    obtain rfl := known.unique known'
    exact ⟨r, here, by rw [Rule.resolve, refused]⟩
  · rintro ⟨r, here, failed⟩
    rw [Rule.resolve] at failed
    split at failed
    · next cause refused =>
      cases failed
      exact ⟨_, r, cause, known, here, refused, rfl⟩
    · cases failed

/-- A configuration is resolved exactly if none of its named filters and rules is in error, and then
to one rule for each of its rules, with its actions. Otherwise the errors told are one for each
named filter in error and then one for each rule in error, both in order, and that of a rule has its
index. -/
theorem resolve_reports (passes : Int) (c : Config) :
    ((∃ rs, c.resolve passes = .ok rs) ↔
      (∀ i, ¬ ∃ err, c.FilterFault i err) ∧ ∀ i, ¬ ∃ err, c.RuleFault i err) ∧
    (∀ rs, c.resolve passes = .ok rs → rs.map (·.actions) = c.rules.map (·.actions)) ∧
    (∀ failure, c.resolve passes = .error failure → ∃ inFilters inRules,
      Told (∃ err, c.FilterFault · err) c.FilterFault inFilters ∧
      Told (∃ err, c.RuleFault · err) c.RuleFault inRules ∧
      failure.errors = (inFilters ++ inRules).map (fun err => some (.one err)) ∧
      Failure.combine (Failure.ofErrors inFilters :: inRules.map fun err => some (.one err)) =
        some failure) ∧
    ∀ i err, c.RuleFault i err → Json.find? "rule_index" err.details = some (.ofNat i) := by
  obtain ⟨inFilters, inRules⟩ := told_resolve passes c
  refine ⟨?_, fun _ => actions_of_resolve, ?_, fun _ _ => find?_ruleIndex_of_ruleFault⟩
  · rw [← inFilters.eq_nil_iff, ← inRules.eq_nil_iff]
    constructor
    · rintro ⟨rs, h⟩
      obtain ⟨noErrors, resolved⟩ := resolve_eq_ok_iff.mp h
      exact ⟨noErrors, by rw [resolved]⟩
    · rintro ⟨noErrors, resolved⟩
      exact ⟨_, resolve_eq_ok_iff.mpr ⟨noErrors, Prod.ext rfl resolved⟩⟩
  · intro failure h
    simp only [resolve] at h
    split at h
    · next made =>
      cases h
      exact ⟨_, _, inFilters, inRules, Failure.errors_of_ofErrors made,
        (Failure.combine_ofErrors _ _).trans made⟩
    · cases h

end Config

end MailRules
