import MailRules.Proofs.Sorting
import MailRules.Proofs.Trial.Pieces
import Mathlib.Data.List.Sort

/-!
The verdicts of trials do not depend on the order of the rules.

The actions of the rules that match a message are merged one after the other, and the merge may stop
at a conflict anywhere in between. What it comes to depends on the actions only: there is a conflict
exactly if two of the actions disagree, and otherwise the merged actions have the effects of all and
the labels of all, in ascending order.

What is proved:
  1. `ascending_sortedTexts`, `labels_mergeAll`: merged labels are in strictly ascending order and
     are those of all actions.
  2. `matchingActions_eq_error_iff`: trying rules on a message fails exactly if two of the rules
     that match disagree.
  3. `mergeAll_perm`, `matchingActions_of_perm`: rules in another order apply the same actions.
  4. `verdicts_perm`: so the verdicts on all trials are the same.
-/

namespace MailRules

/-! ## Labels -/

/-- Of texts in ascending order, equal ones are neighbours, so that each is kept once. -/
theorem ascending_once : ∀ {ss : List String}, ss.Pairwise (· ≤ ·) → (once ss).Pairwise (· < ·)
  | [], _ => .nil
  | [s], _ => List.pairwise_singleton _ s
  | s :: t :: rest, h => by
    obtain ⟨least, tail⟩ := List.pairwise_cons.mp h
    have ih := ascending_once tail
    rw [once]
    split
    · exact ih
    · next differ =>
      refine List.pairwise_cons.mpr ⟨fun u hu => ?_, ih⟩
      have first : s < t := Std.lt_of_le_of_ne (least t List.mem_cons_self) differ
      have above : t ≤ u := by
        rcases List.mem_cons.mp (mem_once.mp hu) with rfl | later
        · exact String.le_refl u
        · exact (List.pairwise_cons.mp tail).1 u later
      exact Std.lt_of_lt_of_le first above

theorem ascending_sortedTexts (ss : List String) : (sortedTexts ss).Pairwise (· < ·) :=
  ascending_once (sorted_mergeSort id ss)

namespace Actions

variable {a b c : Actions}

theorem labels_merge (h : a.merge b = .ok c) : c.labels = sortedTexts (a.labels ++ b.labels) := by
  obtain ⟨_, _, _, _, _, _, _, _, rfl⟩ := merge_eq_ok.mp h
  rfl

theorem labels_mergeAll {bs : List Actions} (h : mergeAll a bs = .ok c)
    (ascending : a.labels.Pairwise (· < ·)) :
    c.labels.Pairwise (· < ·) ∧ ∀ l, l ∈ c.labels ↔ ∃ x ∈ a :: bs, l ∈ x.labels := by
  induction bs generalizing a with
  | nil =>
    cases h
    exact ⟨ascending, by simp⟩
  | cons b bs ih =>
    rw [mergeAll_cons] at h
    obtain ⟨d, hd, hc⟩ := bind_eq_ok.mp h
    have merged := labels_merge hd
    obtain ⟨ordered, members⟩ := ih hc (merged ▸ ascending_sortedTexts _)
    refine ⟨ordered, fun l => ?_⟩
    rw [members]
    simp only [List.mem_cons, exists_eq_or_imp, merged, mem_sortedTexts, List.mem_append, or_assoc]

theorem Agree.eq (h : a.Agree b) (labels : a.labels = b.labels) : a = b := by
  have rest := h.1
  cases a
  cases b
  simp only [mk.injEq] at rest labels ⊢
  simp_all

/-! ## Conflicts -/

/-- Two actions that make one choice differently. An address that is empty is no choice. -/
inductive Disagree (a b : Actions) : Prop
  | markSpam {v w : Bool} : a.markSpam = some v → b.markSpam = some w → v ≠ w → Disagree a b
  | markImportant {v w : Bool} :
    a.markImportant = some v → b.markImportant = some w → v ≠ w → Disagree a b
  | category {v w : Category} : a.category = some v → b.category = some w → v ≠ w → Disagree a b
  | forward : a.forward ≠ "" → b.forward ≠ "" → a.forward ≠ b.forward → Disagree a b

theorem disagree_iff : a.Disagree b ↔ ∃ e e', a.Does e ∧ b.Does e' ∧ e.Clashes e' := by
  constructor
  · intro h
    cases h with
    | @markSpam v w hv hw ne => exact ⟨.markSpam v, .markSpam w, hv, hw, .markSpam ne⟩
    | @markImportant v w hv hw ne =>
      exact ⟨.markImportant v, .markImportant w, hv, hw, .markImportant ne⟩
    | @category v w hv hw ne => exact ⟨.category v, .category w, hv, hw, .category ne⟩
    | forward some some' ne =>
      exact ⟨.forward a.forward, .forward b.forward, someText_eq_some.mpr ⟨some, rfl⟩,
        someText_eq_some.mpr ⟨some', rfl⟩, .forward ne⟩
  · rintro ⟨e, e', ha, hb, clash⟩
    cases clash with
    | markSpam ne => exact .markSpam ha hb ne
    | markImportant ne => exact .markImportant ha hb ne
    | category ne => exact .category ha hb ne
    | forward ne =>
      obtain ⟨some, rfl⟩ := someText_eq_some.mp ha
      obtain ⟨some', rfl⟩ := someText_eq_some.mp hb
      exact .forward some some' ne

/-- Merging actions one after the other fails exactly if two of them disagree. -/
theorem mergeAll_eq_error_iff_disagree {as : List Actions} :
    (∃ e, mergeAll {} as = .error e) ↔ ∃ a ∈ as, ∃ b ∈ as, a.Disagree b := by
  rw [mergeAll_eq_error_iff]
  simp only [Conflicting, SomeDoes, List.mem_cons, exists_eq_or_imp, not_does_nothing, false_or,
    disagree_iff]
  constructor
  · rintro ⟨e, e', ⟨a, ha, da⟩, ⟨b, hb, db⟩, clash⟩
    exact ⟨a, ha, b, hb, e, e', da, db, clash⟩
  · rintro ⟨a, ha, b, hb, e, e', da, db, clash⟩
    exact ⟨e, e', ⟨a, ha, da⟩, ⟨b, hb, db⟩, clash⟩

/-- Actions in another order are merged to the same. -/
theorem mergeAll_perm {as bs : List Actions} (h : as.Perm bs) (hc : mergeAll {} as = .ok c) :
    mergeAll {} bs = .ok c := by
  have effects : ∀ e, SomeDoes as e ↔ SomeDoes bs e := by
    intro e
    simp only [SomeDoes, h.mem_iff]
  obtain ⟨errors, results⟩ := mergeAll_congr (a := {}) effects
  cases hd : mergeAll {} bs with
  | error e =>
    obtain ⟨e', failed⟩ := errors.mpr ⟨e, hd⟩
    rw [hc] at failed
    cases failed
  | ok d =>
    have none : ({} : Actions).labels.Pairwise (· < ·) := .nil
    obtain ⟨ascending, members⟩ := labels_mergeAll hc none
    obtain ⟨ascending', members'⟩ := labels_mergeAll hd none
    have labels : c.labels = d.labels := by
      refine ascending.eq_of_mem_iff ascending' fun l => ?_
      rw [members, members']
      simp only [List.mem_cons, h.mem_iff]
    rw [(results c d hc hd).eq labels]

end Actions

/-! ## Messages -/

/-- The actions of the rules that match a message. -/
def matched (rules : List TrialRule) (m : Message) : List Actions :=
  (rules.filter (·.matcher.accepts m)).map (·.actions)

theorem mem_matched {rules : List TrialRule} {m : Message} {a : Actions} :
    a ∈ matched rules m ↔ ∃ r ∈ rules, r.matcher.accepts m = true ∧ r.actions = a := by
  simp [matched, and_assoc]

theorem matchingActions_eq_error_iff {rules : List TrialRule} {m : Message} :
    (∃ e, matchingActions rules m = .error e) ↔
      ∃ a ∈ matched rules m, ∃ b ∈ matched rules m, a.Disagree b := by
  rw [matchingActions, actionsFrom_eq_mergeAll, mapError_eq_error]
  exact Actions.mergeAll_eq_error_iff_disagree

theorem matchingActions_of_perm {rules rules' : List TrialRule} (h : rules.Perm rules')
    {m : Message} {a : Actions} (ha : matchingActions rules m = .ok a) :
    matchingActions rules' m = .ok a := by
  rw [matchingActions, actionsFrom_eq_mergeAll, mapError_eq_ok] at ha ⊢
  exact Actions.mergeAll_perm ((h.filter _).map _) ha

theorem labels_of_matchingActions {rules : List TrialRule} {m : Message} {a : Actions}
    (ha : matchingActions rules m = .ok a) : a.labels.Pairwise (· < ·) ∧
      ∀ l, l ∈ a.labels ↔ ∃ b ∈ matched rules m, l ∈ b.labels := by
  rw [matchingActions, actionsFrom_eq_mergeAll, mapError_eq_ok] at ha
  obtain ⟨ascending, members⟩ := Actions.labels_mergeAll ha .nil
  refine ⟨ascending, fun l => ?_⟩
  rw [members]
  simp [matched]

/-! ## Trials -/

def TrialError.index : TrialError → Nat
  | conflict index _ _ => index
  | unexpected index _ _ _ _ => index

/-- The trial that failed, and the messages it failed on. -/
def FailedTrial.verdict (t : FailedTrial) : Nat × List Nat := (t.index, t.errors.map (·.index))

section
variable {rules rules' : List TrialRule} (h : rules.Perm rules')
include h

/-- A message that a trial fails on with the rules in one order it fails on in any other: there is
a conflict in both, or the same actions. -/
theorem tryMessage_perm (context : Int) (wanted : Actions) (i : Nat) (m : Message) :
    (Trial.tryMessage rules context wanted i m).map TrialError.index =
      (Trial.tryMessage rules' context wanted i m).map TrialError.index := by
  cases here : matchingActions rules m with
  | ok a => simp only [Trial.tryMessage, here, matchingActions_of_perm h here]
  | error e =>
    cases there : matchingActions rules' m with
    | ok a =>
      rw [matchingActions_of_perm h.symm there] at here
      cases here
    | error e' => simp only [Trial.tryMessage, here, there, Option.map_some, TrialError.index]

theorem errors_perm (context : Int) (t : Trial) :
    (t.errors rules context).map TrialError.index =
      (t.errors rules' context).map TrialError.index := by
  simp only [Trial.errors, List.map_filterMap, tryMessage_perm h]

theorem failed_perm (context : Int) (trials : List Trial) :
    (TrialReport.of rules context trials).failed.map FailedTrial.verdict =
      (TrialReport.of rules' context trials).failed.map FailedTrial.verdict := by
  simp only [TrialReport.of, List.map_filterMap]
  congr 1
  funext ⟨t, i⟩
  have same := errors_perm h context t
  match here : t.errors rules context, there : t.errors rules' context with
  | [], [] => rfl
  | [], _ :: _ => simp [here, there] at same
  | _ :: _, [] => simp [here, there] at same
  | e :: es, e' :: es' =>
    rw [here, there] at same
    simp only [Option.map_some, FailedTrial.verdict, same]

end

/-- **The verdicts of trials do not depend on the order of the rules.** Trying rules on a message
fails in any order exactly if two of the rules that match disagree, and otherwise gives the same
actions, with all labels of the rules that match in ascending order. So all trials pass in one order
if they do in the other, and otherwise the same trials fail on the same messages. -/
theorem verdicts_perm {rules rules' : List TrialRule} (h : rules.Perm rules') :
    (∀ m,
      ((∃ e, matchingActions rules m = .error e) ↔
        ∃ a ∈ matched rules m, ∃ b ∈ matched rules m, a.Disagree b) ∧
      ((∃ e, matchingActions rules m = .error e) ↔ ∃ e, matchingActions rules' m = .error e) ∧
      ∀ a, matchingActions rules m = .ok a → matchingActions rules' m = .ok a ∧
        a.labels.Pairwise (· < ·) ∧ ∀ l, l ∈ a.labels ↔ ∃ b ∈ matched rules m, l ∈ b.labels) ∧
    ∀ context trials,
      (TrialReport.of rules context trials).ok = (TrialReport.of rules' context trials).ok ∧
      (TrialReport.of rules context trials).failed.map FailedTrial.verdict =
        (TrialReport.of rules' context trials).failed.map FailedTrial.verdict := by
  refine ⟨fun m => ⟨matchingActions_eq_error_iff, ?_, fun a ha => ?_⟩, fun context trials => ?_⟩
  · have alike : ∀ a, a ∈ matched rules m ↔ a ∈ matched rules' m := by
      intro a
      simp only [mem_matched, h.mem_iff]
    simp only [matchingActions_eq_error_iff, alike]
  · exact ⟨matchingActions_of_perm h ha, labels_of_matchingActions ha⟩
  · have failed := failed_perm h context trials
    refine ⟨?_, failed⟩
    rw [TrialReport.ok, TrialReport.ok, ← List.isEmpty_map (f := FailedTrial.verdict), failed,
      List.isEmpty_map]

/-- Three rules of which two disagree on the messages that both match, and the same in reverse. -/
theorem verdicts_perm_reverse :
    let rules : List TrialRule :=
      [⟨.all [], { markImportant := some false, forward := "a", labels := ["x", "w", "x"] }⟩,
        ⟨.test (.words .subject "B"), { markImportant := some true }⟩,
        ⟨.negation (.any []), { star := true, labels := ["w", "v"] }⟩]
    rules.Perm rules.reverse ∧
      (∃ e, matchingActions rules.reverse { subject := "abc" } = .error e) ∧
      matchingActions rules.reverse {} = .ok
        { star := true, markImportant := some false, forward := "a", labels := ["v", "w", "x"] } ∧
      ∀ trials,
        (TrialReport.of rules 5 trials).ok = (TrialReport.of rules.reverse 5 trials).ok := by
  intro rules
  have perm : rules.Perm rules.reverse := (List.reverse_perm rules).symm
  obtain ⟨messages, reports⟩ := verdicts_perm perm
  refine ⟨perm, ?_, ?_, fun trials => (reports 5 trials).1⟩
  · obtain ⟨conflict, same, _⟩ := messages { subject := "abc" }
    have all : matched rules { subject := "abc" } = rules.map (·.actions) := by decide
    refine same.mp (conflict.mpr ?_)
    rw [all]
    exact ⟨_, List.mem_cons_self, _, List.mem_cons_of_mem _ List.mem_cons_self,
      .markImportant rfl rfl (by decide)⟩
  · have merged : matchingActions rules {} = .ok
        { star := true, markImportant := some false, forward := "a",
          labels := ["v", "w", "x"] } := by
      have labels : sortedTexts (sortedTexts ["x", "w", "x"] ++ ["w", "v"]) = ["v", "w", "x"] := by
        simp [sortedTexts, List.mergeSort, List.MergeSort.Internal.splitInTwo, once]
      rw [← labels]
      rfl
    exact ((messages {}).2.2 _ merged).1

end MailRules
