import MailRules.Proofs.Config.Expression
import Mathlib.Data.List.Nodup

/-!
Named filters stand for their text.

A reference may be replaced by the filter it names, in which references are replaced in turn. Named
filters are resolved once each, against those declared before them, and so a configuration that can
be resolved has no reference that leads back to itself: each of its expressions is inlined in
exactly one way, and what it is inlined to is resolved, without any named filters, to the same
condition.

What is defined and proved:
  1. `FilterExpr.Inlines`, `Config.Inlined`: inlining, as a relation.
  2. `Within`: expressions that say the same, with related expressions inside; what is resolved is
     then the same if it is for those inside (`Within.resolve`).
  3. `expands_of_resolve`: an expression that is resolved against inlined filters is inlined itself.
  4. `expands_of_mem_resolveNamed`: all named filters are.
  5. `Config.resolve_inlined`: a configuration without its named filters is resolved to the same
     rules.
-/

namespace MailRules

namespace FilterExpr

/-- References are replaced by the filters they name, and references in these in turn. -/
inductive Inlines (filters : List NamedFilter) : FilterExpr → FilterExpr → Prop
  /-- An expression that is only a name stands for the filter with the name. -/
  | reference {e d : FilterExpr} {f : NamedFilter} (alone : e.given = [.name])
      (known : f ∈ filters) (named : e.name = some f.name) (inlined : Inlines filters f.filter d) :
      Inlines filters e d
  /-- Any other expression stays, with the expressions inside it inlined. -/
  | within {e : FilterExpr} {conj disj : Option (List FilterExpr)} {neg : Option FilterExpr}
      (other : e.given ≠ [.name]) (conjs : Option.Rel (List.Forall₂ (Inlines filters)) e.conj conj)
      (disjs : Option.Rel (List.Forall₂ (Inlines filters)) e.disj disj)
      (negs : Option.Rel (Inlines filters) e.neg neg) :
      Inlines filters e { e with conj := conj, disj := disj, neg := neg }

/-! ## Related expressions inside -/

/-- Expressions that say the same, with the expressions inside related one to one. -/
structure Within (R : FilterExpr → FilterExpr → Prop) (e d : FilterExpr) : Prop where
  conj : Option.Rel (List.Forall₂ R) e.conj d.conj
  disj : Option.Rel (List.Forall₂ R) e.disj d.disj
  neg : Option.Rel R e.neg d.neg
  same : d = { e with conj := d.conj, disj := d.disj, neg := d.neg }

theorem rel_iff_eq {α β : Type} {R S : α → β → Prop}
    (only : ∀ x y, R x y → ∀ y', S x y' ↔ y' = y) {x? : Option α} {y? : Option β}
    (h : Option.Rel R x? y?) (z? : Option β) : Option.Rel S x? z? ↔ z? = y? := by
  constructor
  · intro other
    cases h with
    | none => cases other; rfl
    | some r =>
      cases other with
      | some s => rw [(only _ _ r _).mp s]
  · rintro rfl
    cases h with
    | none => exact .none
    | some r => exact .some ((only _ _ r _).mpr rfl)

theorem exists_rel {α β : Type} {R : α → β → Prop} {x? : Option α}
    (h : ∀ x ∈ x?, ∃ y, R x y) : ∃ y?, Option.Rel R x? y? := by
  cases x? with
  | none => exact ⟨none, .none⟩
  | some x =>
    obtain ⟨y, r⟩ := h x rfl
    exact ⟨some y, .some r⟩

section
variable {R : FilterExpr → FilterExpr → Prop} {es? ds? : Option (List FilterExpr)}
  {x? y? : Option FilterExpr}

theorem givesList_eq (h : Option.Rel (List.Forall₂ R) es? ds?) :
    givesList ds? = givesList es? := by
  cases h with
  | none => rfl
  | some rs => cases rs <;> rfl

theorem isSome_eq (h : Option.Rel R x? y?) : y?.isSome = x?.isSome := by
  cases h <;> rfl

theorem forall₂_getD (h : Option.Rel (List.Forall₂ R) es? ds?) :
    List.Forall₂ R (es?.getD []) (ds?.getD []) := by
  cases h with
  | none => exact .nil
  | some rs => exact rs

theorem forall₂_toList (h : Option.Rel R x? y?) : List.Forall₂ R x?.toList y?.toList := by
  cases h with
  | none => exact .nil
  | some r => exact .cons r .nil

end

namespace Within

variable {R S : FilterExpr → FilterExpr → Prop} {e d : FilterExpr}

theorem exists_of_children (h : ∀ x ∈ e.children, ∃ y, R x y) : ∃ d, Within R e d := by
  have conjs : ∀ es ∈ e.conj, ∃ ds, List.Forall₂ R es ds := by
    intro es set
    refine forall₂_of_exists fun x hx => h x ?_
    simp [FilterExpr.children, Option.mem_def.mp set, hx]
  have disjs : ∀ es ∈ e.disj, ∃ ds, List.Forall₂ R es ds := by
    intro es set
    refine forall₂_of_exists fun x hx => h x ?_
    simp [FilterExpr.children, Option.mem_def.mp set, hx]
  have negs : ∀ x ∈ e.neg, ∃ y, R x y := by
    intro x set
    refine h x ?_
    simp [FilterExpr.children, Option.mem_def.mp set]
  obtain ⟨conj, hconj⟩ := exists_rel conjs
  obtain ⟨disj, hdisj⟩ := exists_rel disjs
  obtain ⟨neg, hneg⟩ := exists_rel negs
  exact ⟨{ e with conj := conj, disj := disj, neg := neg }, hconj, hdisj, hneg, rfl⟩

/-- If each expression inside has just one partner, so has the whole. -/
theorem iff_eq (only : ∀ x y, R x y → ∀ y', S x y' ↔ y' = y) (h : Within R e d)
    (d' : FilterExpr) : Within S e d' ↔ d' = d := by
  have conj := rel_iff_eq (S := List.Forall₂ S) (fun _ _ r => forall₂_iff_eq only r) h.conj
  have disj := rel_iff_eq (S := List.Forall₂ S) (fun _ _ r => forall₂_iff_eq only r) h.disj
  have neg := rel_iff_eq only h.neg
  constructor
  · intro h'
    rw [h'.same, h.same, (conj _).mp h'.conj, (disj _).mp h'.disj, (neg _).mp h'.neg]
  · rintro rfl
    exact ⟨(conj _).mpr rfl, (disj _).mpr rfl, (neg _).mpr rfl, h.same⟩

theorem text_eq (h : Within R e d) (f : Field) : d.text f = e.text f := by
  rw [h.same]
  cases f <;> rfl

theorem escaped_eq (h : Within R e d) : d.escaped = e.escaped := by
  rw [h.same]

theorem gives_eq (h : Within R e d) (key : Key) : d.gives key = e.gives key := by
  cases key with
  | conj => exact givesList_eq h.conj
  | disj => exact givesList_eq h.disj
  | neg => exact isSome_eq h.neg
  | field f => rw [gives, gives, h.text_eq]
  | name =>
    rw [h.same]
    rfl

theorem given_eq (h : Within R e d) : d.given = e.given := by
  rw [given, given, funext h.gives_eq]

theorem check_iff (h : Within R e d) {path path' : String} {key : Key} :
    d.check path' = .ok key ↔ e.check path = .ok key := by
  rw [check_eq_ok_iff, check_eq_ok_iff, h.given_eq, h.escaped_eq]

theorem children (h : Within R e d) : List.Forall₂ R e.children d.children :=
  List.rel_append (List.rel_append (forall₂_getD h.conj) (forall₂_getD h.disj))
    (forall₂_toList h.neg)

theorem parts (h : Within R e d) (p p' : String) :
    List.Forall₂ (fun x y => R x.2 y.2) (e.parts p) (d.parts p') := by
  have inside := h.children
  rw [← map_snd_parts p, ← map_snd_parts p'] at inside
  exact List.forall₂_map_right_iff.mp (List.forall₂_map_left_iff.mp inside)

/-- An expression that is no reference is resolved to the same condition if those inside are. -/
theorem resolve (h : Within R e d) {named named' : Named}
    (inside : ∀ x y, R x y → ∀ p t, x.resolve named p = .ok t →
      ∀ p', y.resolve named' p' = .ok t)
    (other : e.given ≠ [.name]) {p : String} {t : Condition} (he : e.resolve named p = .ok t)
    (p' : String) : d.resolve named' p' = .ok t := by
  obtain ⟨key, said⟩ := exists_check he
  have said' : d.check p' = .ok key := h.check_iff.mpr said
  cases joins : key.connective? with
  | some op =>
    rw [resolve_of_connective said joins] at he
    obtain ⟨ts, resolved, rfl⟩ := map_eq_ok.mp he
    -- the parts may be at other paths than before, so they are matched by position
    have resolved' : List.Forall₂ (fun y u => y.2.resolve named' y.1 = .ok u) (d.parts p') ts :=
      forall₂_of_common (fun x y u r hu => inside x.2 y.2 r x.1 u hu y.1) (h.parts p p')
        (forall₂_of_mapM resolved)
    rw [resolve_of_connective said' joins, mapM_of_forall₂ resolved']
    rfl
  | none =>
    rcases Key.cases_of_connective?_eq_none joins with ⟨f, rfl⟩ | rfl
    · cases says_of_check said with
      | field set _ =>
        rw [resolve_of_field said set] at he
        rw [resolve_of_field said' (h.text_eq f ▸ set), h.escaped_eq, he]
    · exact absurd (check_eq_ok_iff.mp said).1 other

end Within

/-! ## Expressions -/

/-- There is just one expression that the expression is inlined to, and this is resolved to the
condition without any named filters. -/
def Expands (filters : List NamedFilter) (e : FilterExpr) (t : Condition) : Prop :=
  ∃ d, (∀ d', Inlines filters e d' ↔ d' = d) ∧ ∀ p, d.resolve [] p = .ok t

theorem inlines_iff_within {filters : List NamedFilter} {e d : FilterExpr}
    (other : e.given ≠ [.name]) : Inlines filters e d ↔ Within (Inlines filters) e d := by
  constructor
  · intro h
    cases h with
    | reference alone _ _ _ => exact absurd alone other
    | within _ conjs disjs negs => exact ⟨conjs, disjs, negs, rfl⟩
  · intro h
    rw [h.same]
    exact .within other h.conj h.disj h.neg

theorem inlines_iff_of_name {filters : List NamedFilter}
    (distinct : (filters.map (·.name)).Nodup) {e d : FilterExpr} (alone : e.given = [.name])
    {f : NamedFilter} (known : f ∈ filters) (named : e.name = some f.name) :
    Inlines filters e d ↔ Inlines filters f.filter d := by
  constructor
  · intro h
    cases h with
    | reference _ known' named' inlined =>
      have same := Option.some.inj (named'.symm.trans named)
      rwa [List.inj_on_of_nodup_map distinct known' known same] at inlined
    | within other _ _ _ => exact absurd alone other
  · exact .reference alone known named

/-- An expression that is resolved against filters that are inlined is inlined itself. -/
theorem expands_of_resolve {filters : List NamedFilter}
    (distinct : (filters.map (·.name)).Nodup) {named : Named}
    (inlined : ∀ x ∈ named, ∃ f ∈ filters, f.name = x.1 ∧ f.filter.Expands filters x.2)
    (e : FilterExpr) : ∀ {p : String} {t : Condition}, e.resolve named p = .ok t →
      e.Expands filters t := by
  induction e using induct with
  | step e ih =>
    intro p t h
    by_cases alone : e.given = [.name]
    · obtain ⟨key, said⟩ := exists_check h
      obtain rfl : Key.name = key :=
        List.singleton_inj.mp (alone.symm.trans (check_eq_ok_iff.mp said).1)
      cases says_of_check said with
      | @name n set filled =>
        rw [resolve_of_name said set] at h
        split at h
        · next found =>
          cases h
          obtain ⟨f, hf, rfl, d, only, resolves⟩ := inlined _ (Named.mem_of_find? found)
          refine ⟨d, fun d' => ?_, resolves⟩
          rw [inlines_iff_of_name distinct alone hf set, only]
        · cases h
    · -- an expression inside may be resolved to one condition only, wherever it stands, since
      -- what it is inlined to is resolved to any of them
      have inside : ∀ x ∈ e.children, ∃ y, (∀ y', Inlines filters x y' ↔ y' = y) ∧
          ∀ p t, x.resolve named p = .ok t → ∀ p', y.resolve [] p' = .ok t := by
        intro x among
        rw [← map_snd_parts p] at among
        obtain ⟨⟨q, x⟩, hx, rfl⟩ := List.mem_map.mp among
        obtain ⟨u, hu⟩ := resolve_parts h _ hx
        have expands := @ih x (mem_children_of_parts hx)
        obtain ⟨y, only, _⟩ := expands hu
        refine ⟨y, only, fun q' u' hu' => ?_⟩
        obtain ⟨y', only', resolves⟩ := expands hu'
        rwa [(only y').mp ((only' y').mpr rfl)] at resolves
      obtain ⟨d, parts⟩ := Within.exists_of_children inside
      refine ⟨d, fun d' => ?_, parts.resolve (fun _ _ r => r.2) alone h⟩
      rw [inlines_iff_within alone]
      exact parts.iff_eq (fun _ _ r => r.1) d'

end FilterExpr

/-! ## Named filters -/

theorem nodup_names_of_resolveNamed : ∀ {fs : List NamedFilter} {i : Nat} {named : Named},
    (resolveNamed i named fs).errors = [] → (named.map Prod.fst).Nodup →
      (named.map Prod.fst ++ fs.map (·.name)).Nodup
  | [], _, _, _, distinct => by simpa using distinct
  | f :: fs, i, named, noErrors, distinct => by
    rw [resolveNamed] at noErrors
    split at noErrors
    · next t ht =>
      obtain ⟨_, fresh, _⟩ := NamedFilter.resolve_eq_ok_iff.mp ht
      -- the name is new to the table, which has the names of all filters before it
      have longer : ((named ++ [(f.name, t)]).map Prod.fst).Nodup := by
        rw [List.map_append]
        exact List.Nodup.append distinct (List.nodup_singleton f.name) (by simpa using fresh)
      simpa using nodup_names_of_resolveNamed noErrors longer
    · cases noErrors

/-- Each named filter is inlined, and what it is inlined to is resolved to its condition. -/
theorem expands_of_mem_resolveNamed {fs : List NamedFilter}
    (noErrors : (resolveNamed 0 [] fs).errors = []) :
    ∀ x ∈ (resolveNamed 0 [] fs).named, ∃ f ∈ fs, f.name = x.1 ∧ f.filter.Expands fs x.2 := by
  have distinct : (fs.map (·.name)).Nodup := nodup_names_of_resolveNamed noErrors .nil
  apply forall_mem_resolveNamed
  · intro f hf i named t inlined ht
    obtain ⟨_, _, resolved⟩ := NamedFilter.resolve_eq_ok_iff.mp ht
    exact ⟨f, hf, rfl, FilterExpr.expands_of_resolve distinct inlined f.filter resolved⟩
  · simp

/-! ## Configurations -/

/-- The filter of the rule is inlined, and nothing else of it changes. -/
def Rule.Inlined (filters : List NamedFilter) (r s : Rule) : Prop :=
  r.filter.Inlines filters s.filter ∧ s.actions = r.actions

/-- The configuration without its named filters, which are inlined in its rules. -/
structure Config.Inlined (c d : Config) : Prop where
  rules : List.Forall₂ (Rule.Inlined c.filters) c.rules d.rules
  same : d = { c with filters := [], rules := d.rules }

theorem Rule.inlined_of_expands {passes : Int} {i : Nat} {filters : List NamedFilter}
    {named : Named} {r : Rule} {resolved : ResolvedRule}
    (h : r.resolve passes i named = .ok resolved)
    (expands : ∀ {p t}, r.filter.resolve named p = .ok t → r.filter.Expands filters t) :
    ∃ s, (∀ s', Rule.Inlined filters r s' ↔ s' = s) ∧
      ∀ j, s.resolve passes j [] = .ok resolved := by
  rw [resolve] at h
  split at h
  · cases h
  · next t ht =>
    cases h
    obtain ⟨d, only, resolves⟩ := expands ht
    refine ⟨⟨d, r.actions⟩, fun s' => ?_, fun j => ?_⟩
    · cases s'
      rw [Inlined, only, mk.injEq]
    · rw [resolve, resolves]

/-- A configuration that can be resolved is inlined in exactly one way, and then resolved to the
same rules. -/
theorem Config.resolve_inlined {passes : Int} {c : Config} {rs : List ResolvedRule}
    (h : c.resolve passes = .ok rs) :
    ∃ d, (∀ d', c.Inlined d' ↔ d' = d) ∧ d.resolve passes = .ok rs := by
  obtain ⟨noErrors, resolved⟩ := resolve_eq_ok_iff.mp h
  have distinct : (c.filters.map (·.name)).Nodup := nodup_names_of_resolveNamed noErrors .nil
  have inlined := expands_of_mem_resolveNamed noErrors
  -- the rules with their filters inlined, each between a rule and what it is resolved to
  obtain ⟨ss, only, resolves⟩ := exists_between (forall₂_of_collect resolved)
    fun r _ ⟨_, hr⟩ => Rule.inlined_of_expands hr
      (FilterExpr.expands_of_resolve distinct inlined r.filter)
  refine ⟨{ c with filters := [], rules := ss }, fun d' => ?_, ?_⟩
  · constructor
    · intro h'
      rw [h'.same, (forall₂_iff_eq (fun _ _ r => r) only d'.rules).mp h'.rules]
    · rintro rfl
      exact ⟨(forall₂_iff_eq (fun _ _ r => r) only ss).mpr rfl, rfl⟩
  · exact resolve_eq_ok_iff.mpr ⟨rfl, collect_of_forall₂ 0 resolves⟩

/-- A rule that refers to a filter that refers to another, under a negation and beside it. -/
theorem Config.resolve_inlined_chain :
    let c : Config := {
      filters := [⟨"team", { sender := some "a" }⟩,
        ⟨"news", { conj := some [{ list := some "l" }, { neg := some { name := some "team" } }] }⟩]
      rules := [⟨{ disj := some [{ name := some "news" }, { name := some "team" }] },
        { archive := true }⟩] }
    let team : Condition := .leaf ⟨.sender, ["a"], .unset, false⟩
    let news : Condition := .conj [.leaf ⟨.list, ["l"], .unset, false⟩, .neg team]
    let rs : List ResolvedRule := [⟨.disj [team, news], { archive := true }⟩]
    c.resolve 10 = .ok rs ∧ ∃ d, (∀ d', c.Inlined d' ↔ d' = d) ∧ d.resolve 10 = .ok rs := by
  intro c team news rs
  have resolved : c.resolve 10 = .ok rs := by rfl
  exact ⟨resolved, resolve_inlined resolved⟩

end MailRules
