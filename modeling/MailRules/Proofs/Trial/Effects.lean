import MailRules.Proofs.Outcome
import MailRules.Trial

/-!
What actions do, effect by effect, and what merging makes of it.

Actions are a record of flags, choices and labels. Seen as the set of their effects they are merged
by union: `Actions.merge` gives actions with the effects of both, or an error if an effect of one
clashes with an effect of the other, which only choices do.

What is proved:
  1. `does_merge`, `merge_eq_error_iff`: what a merge that succeeds does, and when one fails.
  2. `does_mergeAll`, `mergeAll_eq_error_iff`: the same for a list of actions merged one after the
     other. It fails exactly if effects found anywhere in the list clash, and otherwise does what is
     found in the list, so that neither order nor repetition matters.
  3. `agree_of_does`: actions with the same effects are the same but for the order of their labels,
     repeated labels and labels without a name.
-/

namespace MailRules

/-- One thing that actions do to a message. -/
inductive Effect where
  | archive
  | delete
  | markRead
  | star
  | markSpam (b : Bool)
  | markImportant (b : Bool)
  | category (c : Category)
  | forward (address : String)
  | label (name : String)

/-- Effects that exclude each other: different values of one choice. -/
inductive Effect.Clashes : Effect → Effect → Prop
  | markSpam {b b' : Bool} : b ≠ b' → Clashes (.markSpam b) (.markSpam b')
  | markImportant {b b' : Bool} : b ≠ b' → Clashes (.markImportant b) (.markImportant b')
  | category {c c' : Category} : c ≠ c' → Clashes (.category c) (.category c')
  | forward {s s' : String} : s ≠ s' → Clashes (.forward s) (.forward s')

theorem mem_once {s : String} : ∀ {ss : List String}, s ∈ once ss ↔ s ∈ ss
  | [] => Iff.rfl
  | [_] => Iff.rfl
  | t :: t' :: rest => by
    rw [once]
    split
    · next same =>
      rw [mem_once, same]
      simp
    · rw [List.mem_cons, mem_once, ← List.mem_cons]

theorem mem_sortedTexts {s : String} {ss : List String} : s ∈ sortedTexts ss ↔ s ∈ ss := by
  rw [sortedTexts, mem_once, (List.mergeSort_perm ss _).mem_iff]

/-! ## Choices -/

section
variable {α : Type} [DecidableEq α] {name : String} {shown : α → String} {a b : Option α}

theorem mergeValue_eq_some {c : Option α} (h : mergeValue name shown a b = .ok c) (v : α) :
    c = some v ↔ a = some v ∨ b = some v := by
  match a, b with
  | none, b => cases h; simp
  | some x, none => cases h; simp
  | some x, some y =>
    rw [mergeValue] at h
    split at h
    · next same => cases h; simp [same]
    · cases h

theorem mergeValue_eq_error_iff : (∃ e, mergeValue name shown a b = .error e) ↔
    ∃ v w, a = some v ∧ b = some w ∧ v ≠ w := by
  match a, b with
  | none, b => simp [mergeValue]
  | some x, none => simp [mergeValue]
  | some x, some y =>
    rw [mergeValue]
    split <;> simp_all

end

theorem someText_eq_some {s t : String} : someText s = some t ↔ t ≠ "" ∧ s = t := by
  unfold someText
  split <;> grind

namespace Actions

/-- Whether the actions have an effect. Forwarding to nowhere and a label without a name are none. -/
def Does (a : Actions) : Effect → Prop
  | .archive => a.archive = true
  | .delete => a.delete = true
  | .markRead => a.markRead = true
  | .star => a.star = true
  | .markSpam b => a.markSpam = some b
  | .markImportant b => a.markImportant = some b
  | .category c => a.category = some c
  | .forward s => someText a.forward = some s
  | .label l => l ≠ "" ∧ l ∈ a.labels

/-- Actions that do the same, their labels being compared as sets of names that are not empty. -/
def Agree (a b : Actions) : Prop :=
  { a with labels := [] } = { b with labels := [] } ∧
    ∀ l, l ≠ "" → (l ∈ a.labels ↔ l ∈ b.labels)

/-- Actions merged into others one after the other. -/
def mergeAll (a : Actions) (as : List Actions) : Except ConflictError Actions := as.foldlM merge a

theorem agree_of_does {a b : Actions} (h : ∀ e, a.Does e ↔ b.Does e) : a.Agree b := by
  have flag {x y : Bool} (h : x = true ↔ y = true) : x = y := Bool.eq_iff_iff.mpr h
  have archive := flag (h .archive)
  have delete := flag (h .delete)
  have markRead := flag (h .markRead)
  have star := flag (h .star)
  have markSpam : a.markSpam = b.markSpam := Option.ext fun v => h (.markSpam v)
  have markImportant : a.markImportant = b.markImportant := Option.ext fun v => h (.markImportant v)
  have category : a.category = b.category := Option.ext fun v => h (.category v)
  have forward : a.forward = b.forward := by
    have texts : someText a.forward = someText b.forward := Option.ext fun v => h (.forward v)
    unfold someText at texts
    grind
  refine ⟨?_, fun l named => ?_⟩
  · simp only [archive, delete, markRead, star, markSpam, markImportant, category, forward]
  · have := h (.label l)
    simpa [Does, named] using this

/-! ## Two actions -/

variable {a b c : Actions}

theorem merge_eq_ok : a.merge b = .ok c ↔ ∃ spam important category forward,
    mergeValue "markSpam" shownFlag a.markSpam b.markSpam = .ok spam ∧
    mergeValue "markImportant" shownFlag a.markImportant b.markImportant = .ok important ∧
    mergeValue "category" Category.name a.category b.category = .ok category ∧
    mergeValue "forward" id (someText a.forward) (someText b.forward) = .ok forward ∧
    c = {
      archive := a.archive || b.archive
      delete := a.delete || b.delete
      markRead := a.markRead || b.markRead
      star := a.star || b.star
      markSpam := spam
      markImportant := important
      category := category
      labels := sortedTexts (a.labels ++ b.labels)
      forward := forward.getD "" } := by
  simp only [merge, bind, pure, Except.pure, bind_eq_ok, Except.ok.injEq]
  grind

theorem does_merge (h : a.merge b = .ok c) (e : Effect) : c.Does e ↔ a.Does e ∨ b.Does e := by
  obtain ⟨spam, important, category, forward, hs, hi, hc, hf, rfl⟩ := merge_eq_ok.mp h
  cases e with
  | archive => simp [Does]
  | delete => simp [Does]
  | markRead => simp [Does]
  | star => simp [Does]
  | markSpam v => exact mergeValue_eq_some hs v
  | markImportant v => exact mergeValue_eq_some hi v
  | category v => exact mergeValue_eq_some hc v
  | forward v =>
    simp only [Does]
    rw [← mergeValue_eq_some hf v]
    cases forward with
    | none => simp [someText]
    | some w =>
      have found := (mergeValue_eq_some hf w).mp rfl
      simp only [someText_eq_some] at found
      rw [someText_eq_some, Option.getD_some, Option.some.injEq]
      grind
  | label l =>
    simp only [Does, mem_sortedTexts, List.mem_append]
    grind

theorem merge_eq_error : (∃ e, a.merge b = .error e) ↔
    (∃ e, mergeValue "markSpam" shownFlag a.markSpam b.markSpam = .error e) ∨
    (∃ e, mergeValue "markImportant" shownFlag a.markImportant b.markImportant = .error e) ∨
    (∃ e, mergeValue "category" Category.name a.category b.category = .error e) ∨
    (∃ e, mergeValue "forward" id (someText a.forward) (someText b.forward) = .error e) := by
  simp only [merge, bind, pure]
  cases mergeValue "markSpam" shownFlag a.markSpam b.markSpam with
  | error e => simp [Except.bind]
  | ok spam =>
    cases mergeValue "markImportant" shownFlag a.markImportant b.markImportant with
    | error e => simp [Except.bind]
    | ok important =>
      cases mergeValue "category" Category.name a.category b.category with
      | error e => simp [Except.bind]
      | ok category =>
        cases mergeValue "forward" id (someText a.forward) (someText b.forward) with
        | error e => simp [Except.bind]
        | ok forward => simp [Except.bind, Except.pure]

theorem merge_eq_error_iff : (∃ e, a.merge b = .error e) ↔
    ∃ e e', a.Does e ∧ b.Does e' ∧ e.Clashes e' := by
  rw [merge_eq_error]
  simp only [mergeValue_eq_error_iff]
  constructor
  · -- The choices are merged in this order, and any of them may fail.
    rintro (⟨v, w, hv, hw, ne⟩ | ⟨v, w, hv, hw, ne⟩ | ⟨v, w, hv, hw, ne⟩ | ⟨v, w, hv, hw, ne⟩)
    · exact ⟨.markSpam v, .markSpam w, hv, hw, .markSpam ne⟩
    · exact ⟨.markImportant v, .markImportant w, hv, hw, .markImportant ne⟩
    · exact ⟨.category v, .category w, hv, hw, .category ne⟩
    · exact ⟨.forward v, .forward w, hv, hw, .forward ne⟩
  · intro ⟨e, e', ha, hb, clash⟩
    cases clash with
    | markSpam ne => exact .inl ⟨_, _, ha, hb, ne⟩
    | markImportant ne => exact .inr (.inl ⟨_, _, ha, hb, ne⟩)
    | category ne => exact .inr (.inr (.inl ⟨_, _, ha, hb, ne⟩))
    | forward ne => exact .inr (.inr (.inr ⟨_, _, ha, hb, ne⟩))

/-! ## Several actions -/

/-- Effects of some of the actions. -/
def SomeDoes (as : List Actions) (e : Effect) : Prop := ∃ a ∈ as, a.Does e

/-- Effects of some of the actions that exclude each other. -/
def Conflicting (as : List Actions) : Prop :=
  ∃ e e', SomeDoes as e ∧ SomeDoes as e' ∧ e.Clashes e'

/-- Actions hold one value of each choice. -/
theorem not_clashes_of_does {e e' : Effect} (h : a.Does e) (h' : a.Does e') : ¬ e.Clashes e' := by
  intro clash
  cases clash with
  | markSpam ne => exact ne (Option.some.inj (h.symm.trans h'))
  | markImportant ne => exact ne (Option.some.inj (h.symm.trans h'))
  | category ne => exact ne (Option.some.inj (h.symm.trans h'))
  | forward ne => exact ne (Option.some.inj (h.symm.trans h'))

theorem mergeAll_nil (a : Actions) : mergeAll a [] = .ok a := rfl

theorem mergeAll_cons (a b : Actions) (bs : List Actions) :
    mergeAll a (b :: bs) = (a.merge b).bind fun c => mergeAll c bs := List.foldlM_cons

theorem does_mergeAll {bs : List Actions} (h : mergeAll a bs = .ok c) (e : Effect) :
    c.Does e ↔ SomeDoes (a :: bs) e := by
  induction bs generalizing a with
  | nil => cases h; simp [SomeDoes]
  | cons b bs ih =>
    rw [mergeAll_cons] at h
    obtain ⟨d, hd, hc⟩ := bind_eq_ok.mp h
    rw [ih hc]
    simp only [SomeDoes, List.mem_cons, exists_eq_or_imp, does_merge hd, or_assoc]

/-- Merging one after the other fails exactly if there is a clash somewhere. A clash with what was
merged before is one with the actions it came from, and what was merged does not clash. -/
theorem mergeAll_eq_error_iff {bs : List Actions} :
    (∃ e, mergeAll a bs = .error e) ↔ Conflicting (a :: bs) := by
  induction bs generalizing a with
  | nil =>
    simp only [mergeAll_nil, reduceCtorEq, exists_false, false_iff]
    intro ⟨e, e', h, h', clash⟩
    simp only [SomeDoes, List.mem_singleton, exists_eq_left] at h h'
    exact not_clashes_of_does h h' clash
  | cons b bs ih =>
    rw [mergeAll_cons]
    cases hd : a.merge b with
    | error e =>
      obtain ⟨e, e', ha, hb, clash⟩ := merge_eq_error_iff.mp ⟨_, hd⟩
      refine iff_of_true ⟨_, rfl⟩ ⟨e, e', ⟨a, by simp, ha⟩, ⟨b, by simp, hb⟩, clash⟩
    | ok d =>
      -- What was merged stands for the two it came from, effect by effect.
      have same : ∀ e, SomeDoes (d :: bs) e ↔ SomeDoes (a :: b :: bs) e := by
        intro e
        simp only [SomeDoes, List.mem_cons, exists_eq_or_imp, does_merge hd, or_assoc]
      simp only [Except.bind, ih, Conflicting, same]

theorem conflicting_congr {as bs : List Actions} (h : ∀ e, SomeDoes as e ↔ SomeDoes bs e) :
    Conflicting as ↔ Conflicting bs := by
  simp only [Conflicting, h]

theorem mergeAll_congr {as bs : List Actions} (h : ∀ e, SomeDoes as e ↔ SomeDoes bs e) :
    ((∃ e, mergeAll a as = .error e) ↔ ∃ e, mergeAll a bs = .error e) ∧
    ∀ c d, mergeAll a as = .ok c → mergeAll a bs = .ok d → c.Agree d := by
  have all : ∀ e, SomeDoes (a :: as) e ↔ SomeDoes (a :: bs) e := by
    intro e
    simpa [SomeDoes] using or_congr_right (h e)
  constructor
  · rw [mergeAll_eq_error_iff, mergeAll_eq_error_iff, conflicting_congr all]
  · intro c d hc hd
    exact agree_of_does fun e => by rw [does_mergeAll hc, does_mergeAll hd, all]

end Actions

end MailRules
