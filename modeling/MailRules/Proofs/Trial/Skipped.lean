import MailRules.Proofs.Condition.SameMeaning
import MailRules.Proofs.Config.Inlining
import MailRules.Proofs.Config.Reported
import MailRules.Proofs.Native.Writable
import MailRules.Trial

/-!
The rules that cannot be tried on messages.

A rule is left out if its filter, with named filters inlined, holds a query or text in the search
language at some depth. The decision is taken much later, on the simplified condition, where leaves
have been joined and nodes have gone: a leaf that cannot be read is never lost on the way, and none
comes up where there was none.

What is defined and proved:
  1. `FilterExpr.Unreadable`, and `unreadable_iff_of_resolve`: the leaves of the condition show it.
  2. `unreadable_simplify_iff`: simplification neither removes nor adds an unreadable leaf.
  3. `matcher_eq_error_iff_of_wellFormed`: nothing else stops a condition of a rule from being tried.
  4. `TrialRule.ofRules_skips`: the rules that are left out, and what is told of them.
-/

namespace MailRules

/-! ## Expressions -/

/-- The expression holds, at some depth, what cannot be tried on a message: a query, or text that is
already written in the search language. -/
inductive FilterExpr.Unreadable : FilterExpr → Prop
  | query {e : FilterExpr} (said : e.Says (.field .query)) : Unreadable e
  | escaped {e : FilterExpr} (escaped : e.escaped = true) : Unreadable e
  | inside {e x : FilterExpr} (among : x ∈ e.children) (unreadable : Unreadable x) : Unreadable e

namespace FilterExpr

variable {e : FilterExpr} {path : String} {key : Key}

theorem unreadable_iff : e.Unreadable ↔
    e.Says (.field .query) ∨ e.escaped = true ∨ ∃ x ∈ e.children, x.Unreadable := by
  constructor
  · rintro (said | escaped | ⟨among, unreadable⟩)
    · exact .inl said
    · exact .inr (.inl escaped)
    · exact .inr (.inr ⟨_, among, unreadable⟩)
  · rintro (said | escaped | ⟨x, among, unreadable⟩)
    · exact .query said
    · exact .escaped escaped
    · exact .inside among unreadable

theorem unreadable_iff_of_connective (h : e.check path = .ok key) {op : Connective}
    (joins : key.connective? = some op) : e.Unreadable ↔ ∃ x ∈ e.children, x.Unreadable := by
  have noQuery : ¬ e.Says (.field .query) := by
    intro said
    rw [← (says_iff_of_check h).mp said] at joins
    cases joins
  have plain : ¬ e.escaped = true := by
    intro escaped
    have escapable : key.escapable = true := (check_eq_ok_iff.mp h).2 escaped
    cases key <;> cases joins <;> cases escapable
  rw [unreadable_iff, or_iff_right noQuery, or_iff_right plain]

theorem unreadable_iff_of_field {f : Field} (h : e.check path = .ok (.field f)) :
    e.Unreadable ↔ f = .query ∨ e.escaped = true := by
  have childless : e.children = [] := by
    rw [← map_snd_parts path, parts_eq_nil h rfl, List.map_nil]
  rw [unreadable_iff, says_iff_of_check h, childless, Key.field.injEq, eq_comm]
  simp

/-- A leaf of the condition that an expression without references is resolved to is unreadable
exactly if the expression is. -/
theorem unreadable_iff_of_resolve (e : FilterExpr) : ∀ {path : String} {t : Condition},
    e.resolve [] path = .ok t → (e.Unreadable ↔ ∃ l ∈ t.leaves, l.Unreadable) := by
  induction e using induct with
  | step e ih =>
    intro path t h
    obtain ⟨key, said⟩ := exists_check h
    cases joins : key.connective? with
    | some op =>
      rw [resolve_of_connective said joins] at h
      obtain ⟨ts, resolved, rfl⟩ := map_eq_ok.mp h
      have each := forall₂_of_mapM resolved
      rw [unreadable_iff_of_connective said joins, ← map_snd_parts path]
      simp only [Condition.leaves_node, List.mem_flatMap, List.mem_map]
      constructor
      · rintro ⟨_, ⟨x, hx, rfl⟩, unreadable⟩
        obtain ⟨u, hu, made⟩ := exists_right_of_mem each hx
        obtain ⟨l, hl, bad⟩ := (ih x.2 (mem_children_of_parts hx) made).mp unreadable
        exact ⟨l, ⟨u, hu, hl⟩, bad⟩
      · rintro ⟨l, ⟨u, hu, hl⟩, bad⟩
        obtain ⟨x, hx, made⟩ := exists_left_of_mem each hu
        exact ⟨x.2, ⟨x, hx, rfl⟩, (ih x.2 (mem_children_of_parts hx) made).mpr ⟨l, hl, bad⟩⟩
    | none =>
      rcases Key.cases_of_connective?_eq_none joins with ⟨f, rfl⟩ | rfl
      · cases says_of_check said with
        | field set _ =>
          rw [resolve_of_field said set] at h
          cases h
          have named : f ≠ .unset := by
            rintro rfl
            cases set
          simp [unreadable_iff_of_field said, Leaf.Unreadable, named, or_comm]
      · cases says_of_check said with
        | name set _ =>
          rw [resolve_of_name said set] at h
          cases h

end FilterExpr

/-! ## Conditions -/

theorem Matcher.find?_ruleIndex_of_grouped {op : Connective} {ks : List Matcher}
    {err : MatcherError} (h : grouped op ks = .error err) :
    Json.find? "rule_index" err.details = none := by
  match ks with
  | [] => cases op <;> cases h <;> rfl
  | [_] => cases op <;> cases h
  | _ :: _ :: _ => cases op <;> cases h <;> rfl

theorem Leaf.find?_ruleIndex_of_matcher {l : Leaf} {err : MatcherError}
    (h : l.matcher = .error err) : Json.find? "rule_index" err.details = none := by
  rw [matcher] at h
  split at h
  · cases h
    rfl
  · cases field : l.field <;> rw [field] at h
    case unset | query => cases h; rfl
    all_goals exact Matcher.find?_ruleIndex_of_grouped h

namespace Condition

theorem leafLaw_readable :
    LeafLaw fun ks ls => (∀ l ∈ ks, ¬ l.Unreadable) → ∀ l ∈ ls, ¬ l.Unreadable := by
  apply leafLaw_all
  rintro op ls f _ readable hf (raw | field)
  · have plain : ∀ l ∈ ls, l.raw = false := by
      intro l hl
      simpa using fun h => readable l hl (.inl h)
    rw [joined_raw_eq_false plain] at raw
    cases raw
  · obtain ⟨l, hl, rfl⟩ := mem_fieldsOf.mp hf
    rw [joined, Leaf.over_field] at field
    exact readable l hl (.inr field)

/-- Simplification neither loses an unreadable leaf nor makes one. -/
theorem unreadable_simplify_iff (t : Condition) (n : Int) :
    (∃ l ∈ (t.simplify n).leaves, l.Unreadable) ↔ ∃ l ∈ t.leaves, l.Unreadable := by
  constructor
  · intro h
    by_contra none
    obtain ⟨l, hl, bad⟩ := h
    refine leafLaw_readable.simplifying.simplify t n ?_ l hl bad
    exact fun k hk bad => none ⟨k, hk, bad⟩
  · exact simplify_keeps_unreadable t n

/-- A sensible condition is refused exactly if it has an unreadable leaf. -/
theorem matcher_eq_error_iff_of_wellFormed {t : Condition} (wf : t.WellFormed) :
    (∃ e, t.matcher = .error e) ↔ ∃ l ∈ t.leaves, l.Unreadable := by
  rw [matcher_eq_error_iff]
  constructor
  · intro refused
    by_contra none
    exact refused (wf.interpretable none)
  · intro unreadable meant
    exact not_unreadable_of_interpretable meant unreadable

theorem find?_ruleIndex_of_nodeMatcher {op : Connective} {ks : List Matcher} {err : MatcherError}
    (h : nodeMatcher op ks = .error err) : Json.find? "rule_index" err.details = none := by
  match ks with
  | [] => cases op <;> cases h <;> rfl
  | [_] => cases op <;> cases h; rfl
  | _ :: _ :: _ => cases op <;> cases h <;> rfl

theorem exists_of_matchers_error : ∀ {cs : List Condition} {err : MatcherError},
    matchers cs = .error err → ∃ c ∈ cs, c.matcher = .error err
  | [], _, h => by cases h
  | c :: cs, err, h => by
    rw [matchers] at h
    cases first : c.matcher with
    | error err' =>
      rw [first] at h
      cases h
      exact ⟨c, List.mem_cons_self, first⟩
    | ok k =>
      rw [first] at h
      cases rest : matchers cs with
      | error err' =>
        rw [rest] at h
        cases h
        obtain ⟨d, hd, refused⟩ := exists_of_matchers_error rest
        exact ⟨d, List.mem_cons_of_mem c hd, refused⟩
      | ok ks =>
        rw [rest] at h
        cases h

theorem find?_ruleIndex_of_matcher (t : Condition) : ∀ {err : MatcherError},
    t.matcher = .error err → Json.find? "rule_index" err.details = none := by
  induction t using induct with
  | onLeaf l =>
    intro err h
    exact Leaf.find?_ruleIndex_of_matcher h
  | onNode op cs ih =>
    intro err h
    rw [matcher] at h
    cases children : matchers cs with
    | error err' =>
      rw [children] at h
      cases h
      obtain ⟨c, hc, refused⟩ := exists_of_matchers_error children
      exact ih c hc refused
    | ok ks =>
      rw [children] at h
      exact find?_ruleIndex_of_nodeMatcher h

end Condition

/-! ## Rules -/

/-- The filter of the rule at a place, with named filters inlined, cannot be tried on messages. -/
def Config.Untriable (c : Config) (i : Nat) : Prop :=
  ∃ r s, c.rules[i]? = some r ∧ Rule.Inlined c.filters r s ∧ s.filter.Unreadable

/-- A rule is resolved to one with its actions, whose condition is refused exactly if the filter of
the rule, which is inlined in one way only, cannot be tried. -/
theorem Rule.refused_iff_of_resolve {passes : Int} {i : Nat} {filters : List NamedFilter}
    {named : Named} {r : Rule} {resolved : ResolvedRule}
    (h : r.resolve passes i named = .ok resolved)
    (expands : ∀ {p t}, r.filter.resolve named p = .ok t → r.filter.Expands filters t) :
    resolved.actions = r.actions ∧ ∃ s, (∀ s', Inlined filters r s' ↔ s' = s) ∧
      ((∃ err, resolved.condition.matcher = .error err) ↔ s.filter.Unreadable) := by
  obtain ⟨s, only, resolves⟩ := inlined_of_expands h expands
  have same : s.actions = r.actions := ((only s).mpr rfl).2
  have made := resolves i
  rw [resolve] at made
  split at made
  · cases made
  · next t ht =>
    cases made
    have writable : t.Writable := FilterExpr.writable_of_resolve (List.forall_mem_nil _) ht
    have shaped : (t.simplify passes).WellFormed :=
      (Condition.writable_simplify writable passes).imp (fun _ l => l.shaped) fun _ _ => id
    refine ⟨same, s, only, ?_⟩
    rw [Condition.matcher_eq_error_iff_of_wellFormed shaped, Condition.unreadable_simplify_iff,
      ← FilterExpr.unreadable_iff_of_resolve s.filter ht]

/-- Each rule of a configuration is resolved like that. -/
theorem Config.refused_iff_of_resolve {passes : Int} {c : Config} {rs : List ResolvedRule}
    (h : c.resolve passes = .ok rs) : List.Forall₂ (fun rule r => r.actions = rule.actions ∧
      ∃ s, (∀ s', Rule.Inlined c.filters rule s' ↔ s' = s) ∧
        ((∃ err, r.condition.matcher = .error err) ↔ s.filter.Unreadable)) c.rules rs := by
  obtain ⟨noErrors, resolved⟩ := resolve_eq_ok_iff.mp h
  have distinct : (c.filters.map (·.name)).Nodup := nodup_names_of_resolveNamed noErrors .nil
  have inlined := expands_of_mem_resolveNamed noErrors
  refine (forall₂_of_collect resolved).imp ?_
  rintro rule r ⟨i, made⟩
  exact Rule.refused_iff_of_resolve made
    (FilterExpr.expands_of_resolve distinct inlined rule.filter)

/-- The conditions that are refused are those of the rules that cannot be tried. -/
theorem Config.refused_iff_untriable {c : Config} {rs : List ResolvedRule}
    (each : List.Forall₂ (fun rule r => r.actions = rule.actions ∧
      ∃ s, (∀ s', Rule.Inlined c.filters rule s' ↔ s' = s) ∧
        ((∃ err, r.condition.matcher = .error err) ↔ s.filter.Unreadable)) c.rules rs) {i : Nat} :
    (∃ r cause, rs[i]? = some r ∧ r.condition.matcher = .error cause) ↔ c.Untriable i := by
  constructor
  · rintro ⟨r, cause, hr, refused⟩
    obtain ⟨rule, hrule, _, s, only, iff⟩ := exists_left_of_getElem? each hr
    exact ⟨rule, s, hrule, (only s).mpr rfl, iff.mp ⟨cause, refused⟩⟩
  · rintro ⟨rule, s', hrule, inlined, unreadable⟩
    obtain ⟨r, hr, _, s, only, iff⟩ := exists_right_of_getElem? each hrule
    obtain rfl := (only s').mp inlined
    obtain ⟨cause, refused⟩ := iff.mpr unreadable
    exact ⟨r, cause, hr, refused⟩

namespace TrialRule

/-- A resolved rule is kept, with its actions, if it has a matcher, and told as an error if not. -/
theorem told_ofRules (rs : List ResolvedRule) :
    let kept (i : Nat) (t : TrialRule) := ∃ r, rs[i]? = some r ∧ t.actions = r.actions ∧
      r.condition.matcher = .ok t.matcher
    let refused (i : Nat) (err : MatcherError) := ∃ r cause, rs[i]? = some r ∧
      r.condition.matcher = .error cause ∧ err = .inRule i r.condition cause
    Told (∃ t, kept · t) kept (ofRules rs).1 ∧ Told (∃ err, refused · err) refused (ofRules rs).2 := by
  apply told_collect
  · intro i t
    refine exists_congr fun r => and_congr_right fun _ => ?_
    cases r.condition.matcher <;> cases t <;> simp [and_comm, eq_comm]
  · intro i err
    refine exists_congr fun r => ?_
    cases r.condition.matcher <;> simp [eq_comm]

theorem find?_ruleIndex_of_refused {rs : List ResolvedRule} {i : Nat} {err : MatcherError}
    (h : ∃ r cause, rs[i]? = some r ∧ r.condition.matcher = .error cause ∧
      err = .inRule i r.condition cause) :
    Json.find? "rule_index" err.details = some (.ofNat i) := by
  obtain ⟨r, cause, _, refused, rfl⟩ := h
  exact Json.find?_overlay_of_eq_none (Condition.find?_ruleIndex_of_matcher _ refused)

/-- The rules left out are those whose filters, with named filters inlined, hold a query or text in
the search language at some depth. Each of them is told as an error with its index, in order, and
the others keep their actions and their order. -/
theorem ofRules_skips {passes : Int} {c : Config} {rs : List ResolvedRule}
    (h : c.resolve passes = .ok rs) :
    (∀ r ∈ c.rules, ∃ s, ∀ s', Rule.Inlined c.filters r s' ↔ s' = s) ∧
    Told c.Untriable (fun i err => Json.find? "rule_index" err.details = some (.ofNat i) ∧
        ∃ r cause, rs[i]? = some r ∧ r.condition.matcher = .error cause ∧
          err = .inRule i r.condition cause) (ofRules rs).2 ∧
    Told (fun i => i < c.rules.length ∧ ¬ c.Untriable i) (fun i t => ∃ rule r,
        c.rules[i]? = some rule ∧ t.actions = rule.actions ∧
          rs[i]? = some r ∧ r.condition.matcher = .ok t.matcher) (ofRules rs).1 := by
  have each := Config.refused_iff_of_resolve h
  refine ⟨fun rule hrule => ?_, ?_⟩
  · obtain ⟨_, _, _, s, only, _⟩ := exists_right_of_mem each hrule
    exact ⟨s, only⟩
  have refused (i : Nat) :
      (∃ r cause, rs[i]? = some r ∧ r.condition.matcher = .error cause) ↔ c.Untriable i :=
    Config.refused_iff_untriable each
  obtain ⟨kept, told⟩ := told_ofRules rs
  constructor
  · refine told.imp (fun i => ?_) fun i err told => ⟨find?_ruleIndex_of_refused told, told⟩
    rw [← refused]
    constructor
    · rintro ⟨_, r, cause, hr, failed, _⟩
      exact ⟨r, cause, hr, failed⟩
    · rintro ⟨r, cause, hr, failed⟩
      exact ⟨_, r, cause, hr, failed, rfl⟩
  · refine kept.imp (fun i => ?_) fun i t ⟨r, hr, actions, made⟩ => ?_
    · rw [← refused]
      constructor
      · rintro ⟨t, r, hr, _, made⟩
        obtain ⟨rule, hrule, _⟩ := exists_left_of_getElem? each hr
        refine ⟨(List.getElem?_eq_some_iff.mp hrule).1, ?_⟩
        rintro ⟨r', cause, hr', failed⟩
        rw [Option.some.inj (hr'.symm.trans hr), made] at failed
        cases failed
      · rintro ⟨inside, notRefused⟩
        obtain ⟨r, hr, _⟩ := exists_right_of_getElem? each (List.getElem?_eq_getElem inside)
        cases made : r.condition.matcher with
        | ok k => exact ⟨⟨k, r.actions⟩, r, hr, rfl, made⟩
        | error cause => exact absurd ⟨r, cause, hr, made⟩ notRefused
    · obtain ⟨rule, hrule, same, _⟩ := exists_left_of_getElem? each hr
      exact ⟨rule, r, hrule, actions.trans same, hr, made⟩

/-- A rule that refers to a filter with text in the search language, one that can be tried, and one
with a query under a double negation. -/
theorem ofRules_skips_reference :
    let c : Config := {
      filters := [⟨"team", { sender := some "a OR b", escaped := true }⟩]
      rules := [⟨{ conj := some [{ subject := some "s" }, { name := some "team" }] },
          { archive := true }⟩,
        ⟨{ list := some "l" }, { star := true }⟩,
        ⟨{ neg := some { neg := some { query := some "q" } } }, { delete := true }⟩] }
    let rs : List ResolvedRule := [
      ⟨.conj [.leaf ⟨.sender, ["a OR b"], .unset, true⟩, .leaf ⟨.subject, ["s"], .unset, false⟩],
        { archive := true }⟩,
      ⟨.leaf ⟨.list, ["l"], .unset, false⟩, { star := true }⟩,
      ⟨.leaf ⟨.query, ["q"], .unset, false⟩, { delete := true }⟩]
    c.resolve 10 = .ok rs ∧ (ofRules rs).1.map (·.actions) = [{ star := true }] ∧
      (ofRules rs).2.length = 2 ∧ Told c.Untriable
        (fun i err => Json.find? "rule_index" err.details = some (.ofNat i)) (ofRules rs).2 := by
  intro c rs
  have resolved : c.resolve 10 = .ok rs := by rfl
  obtain ⟨_, told, _⟩ := ofRules_skips resolved
  exact ⟨resolved, by rfl, by rfl, told.imp (fun _ => Iff.rfl) fun _ _ => And.left⟩

end TrialRule

end MailRules
