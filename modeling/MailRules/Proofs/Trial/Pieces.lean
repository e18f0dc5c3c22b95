import MailRules.Proofs.Compile.Stages
import MailRules.Proofs.Condition.Coverage
import MailRules.Proofs.Trial.Effects

/-!
Trying rules tells what their compiled pieces do.

A rule is compiled into pieces, one for each pair of a piece of its condition and a native action of
its actions. The mail service applies the actions of every piece that matches a message, while a
trial merges the actions of every rule that does. Both do the same: a message matches a rule exactly
if it matches a piece of its condition (`split_covers`), and the native actions of a rule, declared
again, have the effects of its actions between them (`does_native`). That several pieces may match,
and apply their actions repeatedly, does not matter to what is merged (`mergeAll_congr`).

What is proved:
  1. `does_native`: actions that do not mark as spam have native actions with the same effects.
  2. `filters_of_pieces`: the filters of a rule are those of its pieces.
  3. `pieces_act_as_rules`: merging what the matching pieces declare fails exactly if trying the
     rules fails, and otherwise gives actions that agree.
-/

namespace MailRules

open Native

/-- A part of a rule that is compiled into one native filter. -/
structure Piece where
  condition : Condition
  action : Action

/-- The pieces of a rule, condition by condition. -/
def ResolvedRule.pieces (limit : Int) (r : ResolvedRule) : Except CompileFailure (List Piece) :=
  match r.condition.split limit with
  | .error e => .error (.limit e)
  | .ok cs =>
    match r.actions.native with
    | .error e => .error (.rules (.one e))
    | .ok as => .ok (cs.flatMap fun c => as.map fun a => ⟨c, a⟩)

/-- A piece as a rule to try: it matches the messages of its condition and does what its native
action declares. -/
def Piece.TriedAs (p : Piece) (t : TrialRule) : Prop :=
  p.condition.matcher = .ok t.matcher ∧ p.action.declared = .ok t.actions

/-! ## Native actions -/

namespace Actions

theorem declared_withLabel {a : Actions} (noSpam : a.markSpam ≠ some true) (label : String) :
    (a.withLabel label).declared =
      .ok { a with labels := if label = "" then [] else [label] } := by
  obtain ⟨archive, delete, markRead, star, spam, important, category, labels, forward⟩ := a
  rcases spam with _ | _ | _
  · rcases important with _ | _ | _ <;> rfl
  · rcases important with _ | _ | _ <;> rfl
  · exact absurd rfl noSpam

theorem declared_label (label : String) :
    Action.declared { label := label } = .ok { labels := if label = "" then [] else [label] } := rfl

/-- The effects of actions but for their labels, and a label. -/
theorem does_with_label (a : Actions) (label : String) (e : Effect) :
    Does { a with labels := if label = "" then [] else [label] } e ↔
      Does { a with labels := [] } e ∨ (label ≠ "" ∧ e = .label label) := by
  cases e <;> simp [Does]
  grind

theorem does_labels (a : Actions) (e : Effect) :
    a.Does e ↔ Does { a with labels := [] } e ∨ ∃ l ∈ a.labels, l ≠ "" ∧ e = .label l := by
  cases e <;> simp [Does]
  grind

theorem not_does_nothing (e : Effect) : ¬ Does {} e := by
  cases e <;> simp [Does, someText]

/-- Actions that do not mark as spam have native actions, and what these declare has the effects of
the actions between them. -/
theorem does_native {a : Actions} (noSpam : a.markSpam ≠ some true) :
    ∃ ns ds, a.native = .ok ns ∧ List.Forall₂ (fun (n : Action) d => n.declared = .ok d) ns ds ∧
      ∀ e, SomeDoes ds e ↔ a.Does e := by
  have single (l : String) (e : Effect) :
      Does { labels := if l = "" then [] else [l] } e ↔ l ≠ "" ∧ e = .label l := by
    rw [does_with_label {} l e]
    exact or_iff_right (not_does_nothing e)
  cases labels : a.labels with
  | nil =>
    refine ⟨[a.withLabel ""], [{ a with labels := [] }], ?_, ?_, fun e => ?_⟩
    · rw [native, if_neg noSpam, labels]
    · exact .cons (declared_withLabel noSpam "") .nil
    · rw [does_labels a e, labels]
      simp [SomeDoes]
  | cons label rest =>
    -- The first action has all effects but the other labels, which have one action each.
    refine ⟨a.withLabel label :: rest.map fun l => { label := l },
      { a with labels := if label = "" then [] else [label] } ::
        rest.map fun l => { labels := if l = "" then [] else [l] }, ?_, ?_, fun e => ?_⟩
    · rw [native, if_neg noSpam, labels]
    · refine .cons (declared_withLabel noSpam label) ?_
      rw [List.forall₂_map_left_iff, List.forall₂_map_right_iff, List.forall₂_same]
      exact fun l _ => declared_label l
    · rw [does_labels a e, labels]
      simp only [SomeDoes, List.mem_cons, exists_eq_or_imp, does_with_label a, List.mem_map,
        exists_exists_and_eq_and, single, or_assoc]

end Actions

/-! ## The pieces of a rule -/

theorem filters_of_pieces {limit : Int} {r : ResolvedRule} {fs : List Filter}
    (h : r.compile limit = .ok (.ok fs)) :
    ∃ ps, r.pieces limit = .ok ps ∧
      List.Forall₂ (fun (p : Piece) (f : Filter) =>
        criteria p.condition = .ok f.criteria ∧ f.action = p.action) ps fs := by
  obtain ⟨cs, written, as, hcs, _, hw, has, rfl⟩ := ResolvedRule.compile_eq_ok_iff.mp h
  refine ⟨cs.flatMap fun c => as.map fun a => ⟨c, a⟩, ?_, ?_⟩
  · simp only [ResolvedRule.pieces, hcs, has]
  · refine List.rel_flatMap hw fun c d hd => ?_
    rw [List.forall₂_map_left_iff, List.forall₂_map_right_iff, List.forall₂_same]
    exact fun a _ => ⟨hd, rfl⟩

/-- A rule with a matcher, cut into pieces that can be tried: together they do to a message what the
rule does. -/
theorem pieces_do_as_rule {r : ResolvedRule} {k : Matcher} {limit : Int} (hl : 1 ≤ limit)
    (hk : r.condition.matcher = .ok k) (noSpam : r.actions.markSpam ≠ some true) :
    ∃ ps ts, r.pieces limit = .ok ps ∧ List.Forall₂ Piece.TriedAs ps ts ∧
      ∀ m e, Actions.SomeDoes ((ts.filter (·.matcher.accepts m)).map (·.actions)) e ↔
        k.accepts m = true ∧ r.actions.Does e := by
  obtain ⟨cs, hcs, pieces, covers⟩ :=
    Condition.split_covers (Condition.interpretable_of_matcher hk) hl
  obtain ⟨ks, hks⟩ := forall₂_of_exists fun c hc => Condition.matcher_of_interpretable (pieces c hc)
  obtain ⟨ns, ds, hns, declared, does⟩ := Actions.does_native noSpam
  refine ⟨cs.flatMap fun c => ns.map fun n => ⟨c, n⟩, ks.flatMap fun k => ds.map fun d => ⟨k, d⟩,
    ?_, ?_, fun m e => ?_⟩
  · simp only [ResolvedRule.pieces, hcs, hns]
  · refine List.rel_flatMap hks fun c k hc => ?_
    rw [List.forall₂_map_left_iff, List.forall₂_map_right_iff]
    exact declared.imp fun n d hd => ⟨hc.1, hd⟩
  · -- Several pieces may match, but the same effects come from each of them.
    have matched : k.accepts m = true ↔ ∃ k ∈ ks, k.accepts m = true := by
      rw [Condition.accepts_of_matcher hk, ← covers, Condition.holds_disj_iff]
      constructor
      · intro ⟨c, hc, met⟩
        obtain ⟨k, hk, same⟩ := exists_right_of_mem hks hc
        exact ⟨k, hk, by rw [same.2, met]⟩
      · intro ⟨k, hk, met⟩
        obtain ⟨c, hc, same⟩ := exists_left_of_mem hks hk
        exact ⟨c, hc, by rw [← same.2, met]⟩
    rw [matched, ← does e]
    simp only [Actions.SomeDoes, List.mem_map, List.mem_filter, List.mem_flatMap]
    constructor
    · rintro ⟨_, ⟨_, ⟨⟨k, hk, d, hd, rfl⟩, met⟩, rfl⟩, de⟩
      exact ⟨⟨k, hk, met⟩, d, hd, de⟩
    · rintro ⟨⟨k, hk, met⟩, d, hd, de⟩
      exact ⟨d, ⟨⟨k, d⟩, ⟨⟨k, hk, d, hd, rfl⟩, met⟩, rfl⟩, de⟩

/-! ## All rules -/

theorem actionsFrom_eq_mergeAll (m : Message) (a : Actions) (ts : List TrialRule) :
    actionsFrom m a ts =
      (a.mergeAll ((ts.filter (·.matcher.accepts m)).map (·.actions))).mapError .amongRules := by
  induction ts generalizing a with
  | nil => rfl
  | cons t ts ih =>
    rw [actionsFrom]
    split
    · next met =>
      simp only [List.filter_cons, met, if_true, List.map_cons, Actions.mergeAll_cons]
      cases a.merge t.actions with
      | error e => rfl
      | ok b => exact ih b
    · next met =>
      simp only [Bool.not_eq_true] at met
      simp only [List.filter_cons, met, Bool.false_eq_true, if_false, ih]

/-- Rules with matchers are all tried, and what they do to a message is what those that match do. -/
theorem ofRules_of_matchers {rules : List ResolvedRule} {ks : List Matcher}
    (h : List.Forall₂ (fun r k => r.condition.matcher = .ok k) rules ks) :
    TrialRule.ofRules rules = (List.zipWith (fun r k => ⟨k, r.actions⟩) rules ks, []) := by
  rw [TrialRule.ofRules]
  generalize 0 = i
  induction h generalizing i with
  | nil => rfl
  | cons hk _ ih => simp only [collect, ih, hk, List.zipWith_cons_cons]

theorem someDoes_append {as bs : List Actions} {e : Effect} :
    Actions.SomeDoes (as ++ bs) e ↔ Actions.SomeDoes as e ∨ Actions.SomeDoes bs e := by
  simp only [Actions.SomeDoes, List.mem_append, or_and_right, exists_or]

/-- The pieces of several rules, which do together what the rules that match do. -/
theorem pieces_do_as_rules {rules : List ResolvedRule} {ks : List Matcher} {limit : Int}
    (hl : 1 ≤ limit) (hk : List.Forall₂ (fun r k => r.condition.matcher = .ok k) rules ks)
    (noSpam : ∀ r ∈ rules, r.actions.markSpam ≠ some true) :
    ∃ pss ts, rules.mapM (·.pieces limit) = .ok pss ∧ List.Forall₂ Piece.TriedAs pss.flatten ts ∧
      ∀ m e, Actions.SomeDoes ((ts.filter (·.matcher.accepts m)).map (·.actions)) e ↔
        Actions.SomeDoes (((TrialRule.ofRules rules).1.filter (·.matcher.accepts m)).map
          (·.actions)) e := by
  rw [ofRules_of_matchers hk]
  induction hk with
  | nil => exact ⟨[], [], rfl, .nil, fun m e => Iff.rfl⟩
  | @cons r k rules ks head _ ih =>
    obtain ⟨pss, ts, hpss, tried, does⟩ := ih fun r hr => noSpam r (List.mem_cons_of_mem _ hr)
    obtain ⟨ps, us, hps, tried', does'⟩ := pieces_do_as_rule hl head (noSpam r List.mem_cons_self)
    -- The pieces of the first rule come first, and do nothing if that rule does not match.
    refine ⟨ps :: pss, us ++ ts, ?_, ?_, fun m e => ?_⟩
    · simp only [List.mapM_cons, hps, hpss]; rfl
    · exact List.rel_append tried' tried
    · rw [List.filter_append, List.map_append, someDoes_append, does', does]
      simp only [List.zipWith_cons_cons, List.filter_cons]
      split
      · next met => simp [Actions.SomeDoes, met]
      · next met => simp [met]

/-- **Trying rules certifies what their compiled pieces do.** For rules with matchers that do not
mark as spam, merging what is declared by the pieces that match a message fails exactly if trying
the rules on it does, and otherwise gives actions that agree with those of the rules. -/
theorem pieces_act_as_rules {rules : List ResolvedRule} {limit : Int} (hl : 1 ≤ limit)
    (hk : ∀ r ∈ rules, ∃ k, r.condition.matcher = .ok k)
    (noSpam : ∀ r ∈ rules, r.actions.markSpam ≠ some true) :
    ∃ pss ts, rules.mapM (·.pieces limit) = .ok pss ∧ List.Forall₂ Piece.TriedAs pss.flatten ts ∧
      ∀ m, ((∃ e, Actions.mergeAll {} ((ts.filter (·.matcher.accepts m)).map (·.actions)) = .error e) ↔
          ∃ e, matchingActions (TrialRule.ofRules rules).1 m = .error e) ∧
        ∀ a b, Actions.mergeAll {} ((ts.filter (·.matcher.accepts m)).map (·.actions)) = .ok a →
          matchingActions (TrialRule.ofRules rules).1 m = .ok b → a.Agree b := by
  obtain ⟨ks, hks⟩ := forall₂_of_exists hk
  obtain ⟨pss, ts, hpss, tried, does⟩ := pieces_do_as_rules hl hks noSpam
  refine ⟨pss, ts, hpss, tried, fun m => ?_⟩
  obtain ⟨errors, results⟩ := Actions.mergeAll_congr (a := {}) (does m)
  simp only [matchingActions, actionsFrom_eq_mergeAll, mapError_eq_error, mapError_eq_ok]
  exact ⟨errors, results⟩

/-- A rule that is cut into three conditions and applies two labels, and a rule that contradicts it
on the messages that both match. -/
theorem pieces_act_as_rules_contradicting :
    let rules : List ResolvedRule :=
      [⟨.conj [.neg (.leaf ⟨.subject, ["spam"], .unset, false⟩),
          .leaf ⟨.sender, ["a", "b", "c"], .or, false⟩],
        { markSpam := some false, markImportant := some true, labels := ["x", "y", "x"] }⟩,
        ⟨.leaf ⟨.sender, ["a"], .unset, false⟩, { markImportant := some false }⟩]
    (∀ r ∈ rules, ∃ k, r.condition.matcher = .ok k) ∧
      (∀ r ∈ rules, r.actions.markSpam ≠ some true) ∧
      ∃ pss ts, rules.mapM (·.pieces 1) = .ok pss ∧ List.Forall₂ Piece.TriedAs pss.flatten ts ∧
        ∀ m, ((∃ e, Actions.mergeAll {} ((ts.filter (·.matcher.accepts m)).map (·.actions)) =
              .error e) ↔ ∃ e, matchingActions (TrialRule.ofRules rules).1 m = .error e) ∧
          ∀ a b, Actions.mergeAll {} ((ts.filter (·.matcher.accepts m)).map (·.actions)) = .ok a →
            matchingActions (TrialRule.ofRules rules).1 m = .ok b → a.Agree b := by
  intro rules
  have hk : ∀ r ∈ rules, ∃ k, r.condition.matcher = .ok k := by
    intro r hr
    simp only [rules, List.mem_cons, List.not_mem_nil, or_false] at hr
    rcases hr with rfl | rfl <;> exact ⟨_, rfl⟩
  have noSpam : ∀ r ∈ rules, r.actions.markSpam ≠ some true := by
    intro r hr
    simp only [rules, List.mem_cons, List.not_mem_nil, or_false] at hr
    rcases hr with rfl | rfl <;> simp
  exact ⟨hk, noSpam, pieces_act_as_rules (by decide) hk noSpam⟩

end MailRules
