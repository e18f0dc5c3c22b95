import MailRules.Native.Import
import MailRules.Proofs.Compile.Stages
import MailRules.Proofs.Condition.FixedPoint
import MailRules.Proofs.Native.Unambiguous

/-!
Native filters, imported and compiled again.

An imported filter asks for a text in each place of its criteria that is set, and so its condition
is a leaf or a conjunction of leaves over different fields, in canonical order. There is nothing in
it to simplify and nothing to cut, whatever the bounds, and its leaves are written where they came
from. What may change is how: a text that the import does not find to be quoted is plain, and a
plain text is quoted when it is compiled (`rewritten`).

What is proved:
  1. `simplify_condition`, `split_condition`, `criteria_condition`: the condition of criteria is
     simplified and cut to itself, and written as the criteria with each text rewritten.
  2. `declared_condition`, `native_of_declared`: criteria are declared as a filter that stands for
     their condition, and an action as actions that have it alone for a native action.
  3. `compile_ofNative`: an imported configuration compiles within any bounds, to the filters that
     were imported, rewritten.
  4. `compile_ofNative_eq_iff`: these are the filters themselves exactly if no text that the import
     takes to be plain needs quotes. One with a plus sign may, and one with a tab or a bracket.
-/

namespace MailRules

open Native

namespace Native

/-- A text as it is written again after it was imported. -/
def rewritten (text : String) : String := if isQuoted text then text else quote text

theorem rewritten_eq_self_iff {text : String} :
    rewritten text = text ↔ (isQuoted text = false → quote text = text) := by
  unfold rewritten
  split <;> simp_all

theorem rewritten_eq_empty_iff {text : String} : rewritten text = "" ↔ text = "" := by
  constructor
  · intro empty
    rw [rewritten, quote] at empty
    split at empty
    · exact empty
    · split at empty
      · have chars := congrArg String.toList empty
        simp at chars
      · exact empty
  · rintro rfl
    rfl

/-! ## What criteria ask for -/

def Place.field : Place → Field
  | sender => .sender
  | recipient => .recipient
  | subject => .subject
  | query => .query

theorem Place.field_inj {p p' : Place} (same : p.field = p'.field) : p = p' := by
  revert same
  cases p <;> cases p' <;> decide

/-- All places, in the canonical order of their fields. -/
def Place.all : List Place := [sender, recipient, subject, query]

namespace Criteria

theorem ext_text {a b : Criteria} (same : ∀ p, a.text p = b.text p) : a = b := by
  have sender : a.sender = b.sender := same .sender
  have recipient : a.recipient = b.recipient := same .recipient
  have subject : a.subject = b.subject := same .subject
  have query : a.query = b.query := same .query
  cases a
  cases b
  simp_all

/-- The places where the criteria say something. -/
def places (c : Criteria) : List Place := Place.all.filter fun p => c.text p ≠ ""

/-- The leaf for a place, as it is imported. -/
def leaf (c : Criteria) (p : Place) : Leaf :=
  ⟨p.field, [c.text p], .unset, p ≠ .query && isQuoted (c.text p)⟩

/-- What the criteria ask for, as it is imported. -/
def condition (c : Criteria) : Condition :=
  match c.places with
  | [p] => .leaf (c.leaf p)
  | ps => .conj (ps.map fun p => .leaf (c.leaf p))

/-- The criteria with each text written again. The query is in the search language anyway. -/
def rewritten (c : Criteria) : Criteria where
  sender := Native.rewritten c.sender
  recipient := Native.rewritten c.recipient
  subject := Native.rewritten c.subject
  query := c.query

theorem text_rewritten (c : Criteria) (p : Place) :
    c.rewritten.text p = if p = .query then c.text p else Native.rewritten (c.text p) := by
  cases p <;> rfl

theorem rewritten_eq_self_iff {c : Criteria} :
    c.rewritten = c ↔ ∀ p, p ≠ .query → Native.rewritten (c.text p) = c.text p := by
  constructor
  · intro same p other
    have text := text_rewritten c p
    rw [same, if_neg other] at text
    exact text.symm
  · intro same
    refine ext_text fun p => ?_
    rw [text_rewritten]
    split
    · rfl
    · next other => exact same p other

theorem mem_places {c : Criteria} {p : Place} : p ∈ c.places ↔ c.text p ≠ "" := by
  have mem : p ∈ Place.all := by cases p <;> decide
  simp [places, mem]

theorem nodup_places (c : Criteria) : c.places.Nodup :=
  List.Pairwise.filter _ (by decide : Place.all.Nodup)

theorem places_ne_nil {c : Criteria} (set : c.isEmpty = false) : c.places ≠ [] := by
  intro nowhere
  have empty : c = {} := ext_text fun p => by
    have unset : p ∉ c.places := by simp [nowhere]
    rw [mem_places, not_not] at unset
    rw [unset, text_empty]
  simp [isEmpty, empty] at set

/-- Either way the condition is one leaf, or a conjunction of at least two or of none. -/
theorem condition_cases (c : Criteria) :
    (∃ p, c.places = [p] ∧ c.condition = .leaf (c.leaf p)) ∨
      (c.places.length ≠ 1 ∧ c.condition = .conj (c.places.map fun p => .leaf (c.leaf p))) := by
  rw [condition]
  match c.places with
  | [] => exact .inr ⟨by simp, rfl⟩
  | [p] => exact .inl ⟨p, rfl, rfl⟩
  | p :: p' :: ps => exact .inr ⟨by simp, rfl⟩

/-! ## Nothing to simplify and nothing to cut -/

theorem leaf_wellFormed (c : Criteria) (p : Place) : (c.leaf p).WellFormed where
  operands := by simp [leaf]
  lone _ := rfl
  several := by simp [leaf]

theorem settled_leaves {c : Criteria} {ps : List Place} (two : 2 ≤ ps.length) (apart : ps.Nodup) :
    Condition.Settled .and (ps.map fun p => .leaf (c.leaf p)) where
  keeps := by rwa [List.length_map]
  alternating gs hgs := by simp at hgs
  apart := by
    have fields : ((ps.map fun p => Condition.leaf (c.leaf p)).filterMap
        (Condition.mergeable? .and)).map Leaf.field = ps.map Place.field := by
      rw [List.filterMap_map, List.map_filterMap, ← List.filterMap_eq_map]
      exact List.filterMap_congr fun p _ => by simp [Condition.mergeable?, leaf]
    rw [Condition.Apart, fields, List.Nodup, List.pairwise_map]
    exact apart.imp fun ne same => ne (Place.field_inj same)

theorem normal_condition {c : Criteria} (set : c.isEmpty = false) : c.condition.Normal := by
  rcases condition_cases c with ⟨p, _, one⟩ | ⟨several, all⟩
  · rw [one]
    exact .leaf (leaf_wellFormed c p)
  · have pos := List.length_pos_iff.mpr (places_ne_nil set)
    rw [all]
    refine .node (settled_leaves (by omega) (nodup_places c)) ?_
    exact List.forall_mem_map.mpr fun p _ => .leaf (leaf_wellFormed c p)

theorem ordered_condition (c : Criteria) : c.condition.Ordered := by
  rcases condition_cases c with ⟨p, _, one⟩ | ⟨_, all⟩
  · rw [one]
    exact .leaf trivial
  · rw [all]
    refine .node ?_ (List.forall_mem_map.mpr fun p _ => .leaf trivial)
    -- The places are in the order of the ranks of their fields.
    have ranks : Place.all.Pairwise fun p p' => p.field.rank ≤ p'.field.rank := by decide
    rw [Condition.arrange_eq_self_iff, Condition.InOrder, List.pairwise_map]
    refine (ranks.sublist List.filter_sublist).imp fun le => ?_
    simpa [Condition.rank, leaf, Connective.rank] using le

theorem simplify_condition {c : Criteria} (set : c.isEmpty = false) (passes : Int) :
    c.condition.simplify passes = c.condition := by
  rw [Condition.simplify_of_normal (normal_condition set),
    Condition.sorted_eq_self_iff.mpr (ordered_condition c)]

theorem largestDisjunction?_leaves {c : Criteria} : ∀ ps : List Place,
    Condition.largestDisjunction? (ps.map fun p => .leaf (c.leaf p)) = none
  | [] => rfl
  | p :: ps => by
    rw [List.map_cons, Condition.largestDisjunction?, largestDisjunction?_leaves ps]
    simp [Condition.rootConnective, leaf]

theorem split_condition (c : Criteria) (limit : Int) :
    c.condition.split limit = .ok [c.condition] := by
  have alone : c.condition.alternatives = [c.condition] := by
    rcases condition_cases c with ⟨p, _, one⟩ | ⟨_, all⟩
    · rw [one]; rfl
    · rw [all]; rfl
  have whole : c.condition.splitBig limit = .ok [c.condition] := by
    rw [Condition.splitBig]
    split
    · rfl
    · rcases condition_cases c with ⟨p, _, one⟩ | ⟨_, all⟩
      · rw [one]; rfl
      · rw [all]
        show Condition.splitConjunction limit (.node .and _) = _
        rw [Condition.splitConjunction, largestDisjunction?_leaves]
        rfl
  rw [Condition.split, alone, List.mapM_cons, whole]
  rfl

/-! ## Writing the condition -/

theorem parts_leaf (c : Criteria) (p : Place) :
    parts (.leaf (c.leaf p)) = .ok (only (c.rewritten.text p) p) := by
  have written : operandText (c.leaf p) = .ok (c.rewritten.text p) := by
    rw [operandText, text_rewritten, Native.rewritten]
    cases p <;> cases quoted : isQuoted (c.text _) <;> simp [leaf, Place.field, quoted]
  rw [parts, written]
  cases p <;> rfl

theorem partsAll_leaves (c : Criteria) : ∀ {ps : List Place}, ps.Nodup →
    ∃ k, partsAll (ps.map fun p => .leaf (c.leaf p)) = .ok k ∧
      ∀ p, k.text p = if p ∈ ps then c.rewritten.text p else ""
  | [], _ => ⟨{}, rfl, fun p => by simp [text_empty]⟩
  | p :: ps, apart => by
    obtain ⟨fresh, apart⟩ := List.nodup_cons.mp apart
    obtain ⟨k, hk, texts⟩ := partsAll_leaves c apart
    refine ⟨(only (c.rewritten.text p) p).join k, ?_, fun p' => ?_⟩
    · rw [List.map_cons, partsAll, parts_leaf, hk]
      rfl
    · rw [text_join, text_only, texts]
      by_cases here : p = p'
      · subst here
        simp [fresh, joinQueries_empty]
      · simp [here, Ne.symm here, empty_joinQueries]

theorem parts_condition {c : Criteria} (set : c.isEmpty = false) :
    parts c.condition = .ok c.rewritten := by
  have unset {p : Place} (h : p ∉ c.places) : c.rewritten.text p = "" := by
    rw [mem_places, not_not] at h
    rw [text_rewritten, h]
    cases p <;> rfl
  rcases condition_cases c with ⟨p, places, one⟩ | ⟨_, all⟩
  · rw [one, parts_leaf]
    refine congrArg _ (ext_text fun p' => ?_)
    rw [text_only]
    split
    · next here => rw [here]
    · next other => rw [unset (by simpa [places] using Ne.symm other)]
  · obtain ⟨k, hk, texts⟩ := partsAll_leaves c (nodup_places c)
    have whole : parts c.condition = partsAll (c.places.map fun p => .leaf (c.leaf p)) := by
      rw [all]
      cases places : c.places with
      | nil => exact absurd places (places_ne_nil set)
      | cons p ps => rfl
    rw [whole, hk]
    refine congrArg _ (ext_text fun p => ?_)
    rw [texts]
    split
    · rfl
    · next other => rw [unset other]

theorem isEmpty_rewritten {c : Criteria} (set : c.isEmpty = false) :
    c.rewritten.isEmpty = false := by
  rw [← Bool.not_eq_true] at set ⊢
  refine fun empty => set ?_
  have texts (p : Place) : c.rewritten.text p = "" := by rw [of_decide_eq_true empty, text_empty]
  refine decide_eq_true (ext_text fun p => ?_)
  have text := texts p
  rw [text_rewritten] at text
  rw [text_empty]
  split at text
  · exact text
  · exact rewritten_eq_empty_iff.mp text

theorem criteria_condition {c : Criteria} (set : c.isEmpty = false) :
    criteria c.condition = .ok c.rewritten := by
  rw [criteria, parts_condition set]
  simp [isEmpty_rewritten set]

end Criteria

end Native

/-! ## Declaring criteria -/

namespace FilterExpr

/-- The expression stands for the condition, wherever it is declared. -/
def StandsFor (e : FilterExpr) (t : Condition) : Prop :=
  ∀ named path, e.resolve named path = .ok t

theorem resolveAll_of_standsFor {named : Named} {path : String} {key : Key} :
    ∀ {es : List FilterExpr} {ts : List Condition} (i : Nat), List.Forall₂ StandsFor es ts →
      resolveAll named path key i es = .ok ts
  | [], _, _, .nil => rfl
  | _ :: _, _, i, .cons head tail => by
    rw [resolveAll, head, resolveAll_of_standsFor (i + 1) tail]
    rfl

theorem standsFor_conj {es : List FilterExpr} {ts : List Condition} (set : es ≠ [])
    (h : List.Forall₂ StandsFor es ts) : StandsFor { conj := some es } (.conj ts) := by
  intro named path
  have given : given { conj := some es } = [.conj] := by
    simp [FilterExpr.given, keys, Field.declarable, List.filter_cons, gives, givesList, givesText,
      text, set]
  exact resolve_eq_ok_iff.mpr
    (.inl ⟨check_eq_ok_iff.mpr ⟨given, by simp⟩, ts, resolveAll_of_standsFor 0 h, rfl⟩)

end FilterExpr

namespace Native

def Criteria.expr (c : Criteria) : Place → FilterExpr
  | .sender => { sender := some c.sender, escaped := isQuoted c.sender }
  | .recipient => { recipient := some c.recipient, escaped := isQuoted c.recipient }
  | .subject => { subject := some c.subject, escaped := isQuoted c.subject }
  | .query => { query := some c.query }

namespace Criteria

theorem expr_standsFor {c : Criteria} {p : Place} (set : c.text p ≠ "") :
    (c.expr p).StandsFor (.leaf (c.leaf p)) := by
  intro named path
  have given : (c.expr p).given = [.field p.field] := by
    cases p <;>
      simpa [expr, FilterExpr.given, FilterExpr.keys, Field.declarable, List.filter_cons,
        FilterExpr.gives, FilterExpr.givesList, FilterExpr.givesText, FilterExpr.text, Place.field,
        text] using set
  have escapable : (c.expr p).escaped = true → (Key.field p.field).escapable = true := by
    cases p <;> simp [expr, Key.escapable, Place.field]
  refine FilterExpr.resolve_eq_ok_iff.mpr (.inr (.inr (.inr (.inl
    ⟨p.field, FilterExpr.check_eq_ok_iff.mpr ⟨given, escapable⟩, ?_⟩))))
  cases p <;> rfl

theorem declaredField_eq (c : Criteria) (p : Place) {expr : String → Bool → FilterExpr}
    (h : expr (c.text p) (isQuoted (c.text p)) = c.expr p) :
    declaredField (c.text p) expr = ([p].filter fun p => c.text p ≠ "").map c.expr := by
  rw [declaredField]
  by_cases unset : c.text p = ""
  · simp [unset]
  · simp [unset, h]

theorem declared_eq (c : Criteria) : c.declared = match c.places.map c.expr with
    | [] => .error .nothingToImport
    | [e] => .ok e
    | es => .ok { conj := some es } := by
  have exprs := calc c.places.map c.expr
      = (([.sender] ++ [.recipient] ++ [.subject] ++ [.query] : List Place).filter
          fun p => c.text p ≠ "").map c.expr := rfl
    _ = declaredField c.sender (fun s e => { sender := some s, escaped := e })
          ++ declaredField c.recipient (fun s e => { recipient := some s, escaped := e })
          ++ declaredField c.subject (fun s e => { subject := some s, escaped := e })
          ++ declaredField c.query (fun s _ => { query := some s }) := by
        simp only [List.filter_append, List.map_append]
        refine congrArg₂ _ (congrArg₂ _ (congrArg₂ _ ?_ ?_) ?_) ?_
        · exact (declaredField_eq c .sender rfl).symm
        · exact (declaredField_eq c .recipient rfl).symm
        · exact (declaredField_eq c .subject rfl).symm
        · exact (declaredField_eq c .query rfl).symm
  rw [exprs]
  rfl

theorem declared_condition {c : Criteria} (set : c.isEmpty = false) :
    ∃ e, c.declared = .ok e ∧ e.StandsFor c.condition := by
  have stands : List.Forall₂ FilterExpr.StandsFor
      (c.places.map c.expr) (c.places.map fun p => .leaf (c.leaf p)) := by
    rw [List.forall₂_map_left_iff, List.forall₂_map_right_iff, List.forall₂_same]
    exact fun p hp => expr_standsFor (mem_places.mp hp)
  rw [declared_eq, condition]
  revert stands
  match places : c.places with
  | [] => exact absurd places (places_ne_nil set)
  | [p] => exact fun stands => ⟨_, rfl, (List.forall₂_cons.mp stands).1⟩
  | p :: p' :: ps => exact fun stands => ⟨_, rfl, FilterExpr.standsFor_conj (by simp) stands⟩

end Criteria

theorem Action.withLabel_of_declared {a : Action} {d : Actions} (h : a.declared = .ok d) :
    d.withLabel a.label = a := by
  obtain ⟨label, category, archive, delete, important, notImportant, read, notSpam, star, fwd⟩ := a
  rw [Action.declared] at h
  cases important <;> cases notImportant <;> cases notSpam <;> cases h <;> rfl

/-- An action is the one native action of the actions that it is declared as. -/
theorem Action.native_of_declared {a : Action} {d : Actions} (h : a.declared = .ok d) :
    d.native = .ok [a] := by
  have same := Action.withLabel_of_declared h
  rw [Action.declared] at h
  split at h
  · cases h
  · cases h
    rw [Actions.native, if_neg (by dsimp only; split <;> simp)]
    by_cases unset : a.label = ""
    · simp only [unset, if_true] at same ⊢
      rw [same]
    · simp only [unset, if_false, List.map_nil] at same ⊢
      rw [same]

theorem Action.declared_ok {a : Action}
    (decided : ¬ (a.markImportant = true ∧ a.markNotImportant = true)) :
    ∃ d, a.declared = .ok d := by
  rw [Action.declared, if_neg (by simpa using decided)]
  exact ⟨_, rfl⟩

/-! ## Filters -/

/-- The filter that an imported filter is compiled to. -/
def Filter.rewritten (f : Filter) : Filter :=
  { criteria := f.criteria.rewritten, action := f.action }

/-- A filter that can be imported: its criteria ask for something, and its action does not mark as
important and as not important. -/
structure Filter.Importable (f : Filter) : Prop where
  set : f.criteria.isEmpty = false
  decided : ¬ (f.action.markImportant = true ∧ f.action.markNotImportant = true)

instance (f : Filter) : Decidable f.Importable :=
  decidable_of_iff (f.criteria.isEmpty = false ∧
      ¬ (f.action.markImportant = true ∧ f.action.markNotImportant = true))
    ⟨fun ⟨set, decided⟩ => ⟨set, decided⟩, fun h => ⟨h.set, h.decided⟩⟩

/-- The rule that a filter is declared as, and what it is resolved to: a rule that compiles to the
filter rewritten, whatever the bounds. -/
structure Filter.DeclaredAs (f : Filter) (r : Rule) (s : ResolvedRule) : Prop where
  declared : f.declared = .ok r
  resolved : ∀ passes i named, r.resolve passes i named = .ok s
  compiled : ∀ limit, s.compile limit = .ok (.ok [f.rewritten])

theorem Filter.declaredAs {f : Filter} (h : f.Importable) : ∃ r s, f.DeclaredAs r s := by
  obtain ⟨e, he, stands⟩ := Criteria.declared_condition h.set
  obtain ⟨d, hd⟩ := Action.declared_ok h.decided
  refine ⟨⟨e, d⟩, ⟨f.criteria.condition, d⟩, ?_, fun passes i named => ?_, fun limit => ?_⟩
  · rw [Filter.declared, he, hd]
    rfl
  · simp only [Rule.resolve, stands named, Criteria.simplify_condition h.set]
  · exact ResolvedRule.compile_eq_ok_iff.mpr ⟨_, _, _, Criteria.split_condition _ limit, by simp,
      .cons (Criteria.criteria_condition h.set) .nil, Action.native_of_declared hd, rfl⟩

end Native

/-! ## Configurations -/

theorem compile_ofNative {fs : List Filter} (ls : List Label) (h : ∀ f ∈ fs, f.Importable)
    (valid : Label.validate (ls.map fun l => .ofDeclared l.declared) = none) :
    ∃ c, Config.ofNative fs ls = .ok c ∧ ∀ b, ∃ k, c.compile b = .ok k ∧
      k.filters = fs.map Filter.rewritten ∧ k.labels = ls.map fun l => .ofDeclared l.declared := by
  obtain ⟨rs, each⟩ := forall₂_of_exists
      (R := fun (f : Filter) (r : Rule × ResolvedRule) => f.DeclaredAs r.1 r.2) fun f hf => by
    obtain ⟨r, s, declared⟩ := Filter.declaredAs (h f hf)
    exact ⟨(r, s), declared⟩
  let c : Config := { author := .unknown, labels := ls.map Label.declared, rules := rs.map (·.1) }
  have imported : Config.ofNative fs ls = .ok c := by
    have collected : collect (fun i (f : Filter) =>
        f.declared.mapError (CompileError.inFilter i f.id)) 0 fs = (rs.map (·.1), []) :=
      collect_of_forall₂ 0 (List.forall₂_map_right_iff.mpr (each.imp fun _ _ as _ =>
        mapError_eq_ok.mpr as.declared))
    simp only [Config.ofNative, collected, c, Failure.ofErrors_eq_none_iff.mpr]
  have resolved (passes : Int) : c.resolve passes = .ok (rs.map (·.2)) := by
    refine Config.resolve_eq_ok_iff.mpr ⟨rfl, collect_of_forall₂ 0 ?_⟩
    rw [List.forall₂_map_left_iff, List.forall₂_map_right_iff, List.forall₂_same]
    intro r hr i
    obtain ⟨f, _, declared⟩ := exists_left_of_mem each hr
    exact declared.resolved passes i _
  have compiled (limit : Int) :
      compileRules limit (rs.map (·.2)) = .ok (fs.map Filter.rewritten) := by
    refine compileRules_eq_ok_iff.mpr ⟨fs.map fun f => [f.rewritten], ?_, ?_⟩
    · rw [List.forall₂_map_left_iff, List.forall₂_map_right_iff]
      exact each.flip.imp fun _ _ declared => declared.compiled limit
    · rw [← List.flatMap_def, List.map_eq_flatMap]
  have labels : c.labels.map Label.ofDeclared = ls.map fun l => .ofDeclared l.declared := by
    simp [c]
  refine ⟨c, imported, fun b => ⟨⟨rs.map (·.2), fs.map Filter.rewritten, _⟩, ?_, rfl, labels⟩⟩
  exact Config.compile_eq_ok_iff.mpr ⟨labels ▸ valid, resolved b.passes, compiled b.limit, rfl⟩

theorem Native.Filter.rewritten_eq_iff {f : Filter} : f.rewritten = { f with id := "" } ↔
    ∀ p, p ≠ .query → isQuoted (f.criteria.text p) = false →
      quote (f.criteria.text p) = f.criteria.text p := by
  have parts : f.rewritten = { f with id := "" } ↔ f.criteria.rewritten = f.criteria := by
    simp [Filter.rewritten]
  simp only [parts, Criteria.rewritten_eq_self_iff, Native.rewritten_eq_self_iff]

/-- **Imported filters compile again, and to themselves exactly if the import finds what needs
quotes.** Filters that can be imported are declared as a configuration that compiles within any
bounds, to as many filters in the same order. They are the filters that were imported, without their
ids, exactly if none has a text for a sender, recipient or subject that the import does not mark as
escaped and that is not left as it is by quoting it. -/
theorem compile_ofNative_eq_iff {fs : List Filter} (h : ∀ f ∈ fs, f.Importable) :
    ∃ c, Config.ofNative fs [] = .ok c ∧ ∀ b, ∃ k, c.compile b = .ok k ∧
      k.filters = fs.map Filter.rewritten ∧
      (k.filters = fs.map (fun f => { f with id := "" }) ↔ ∀ f ∈ fs, ∀ p, p ≠ .query →
        isQuoted (f.criteria.text p) = false →
          quote (f.criteria.text p) = f.criteria.text p) := by
  obtain ⟨c, imported, compiles⟩ := compile_ofNative [] h rfl
  refine ⟨c, imported, fun b => ?_⟩
  obtain ⟨k, compiled, filters, _⟩ := compiles b
  refine ⟨k, compiled, filters, ?_⟩
  rw [filters, List.map_inj_left]
  exact forall₂_congr fun f _ => Filter.rewritten_eq_iff

/-- Filters that come back: a plus sign in an address needs no quotes, a text in quotes is found to
be quoted, and the query is left alone. -/
theorem compile_ofNative_quoted :
    let fs : List Filter :=
      [⟨"1", { sender := "a+b@c", subject := "\"d+e\"", query := "cc:f -\x7bg (h i)\x7d" },
        { archive := true, markNotImportant := true, markNotSpam := true }⟩,
        ⟨"2", { recipient := "\x7bj \"k l\"\x7d" }, { label := "m", category := some .social }⟩]
    (∀ f ∈ fs, f.Importable) ∧ ∃ c, Config.ofNative fs [] = .ok c ∧ ∀ b, ∃ k, c.compile b = .ok k ∧
      k.filters = fs.map fun f => { f with id := "" } := by
  intro fs
  have importable : ∀ f ∈ fs, f.Importable := by decide
  have unchanged : ∀ f ∈ fs, ∀ p, p ≠ .query → isQuoted (f.criteria.text p) = false →
      quote (f.criteria.text p) = f.criteria.text p := by
    intro f hf p
    revert f
    cases p <;> decide
  obtain ⟨c, imported, compiles⟩ := compile_ofNative_eq_iff importable
  refine ⟨importable, c, imported, fun b => ?_⟩
  obtain ⟨k, compiled, _, same⟩ := compiles b
  exact ⟨k, compiled, same.mpr unchanged⟩

/-- A filter that does not come back: outside an address a plus sign is quoted, but the import does
not mark it as escaped. -/
theorem compile_ofNative_plus :
    let f : Filter := { criteria := { sender := "foo+bar" }, action := { archive := true } }
    f.Importable ∧ isQuoted f.criteria.sender = false ∧
      quote f.criteria.sender ≠ f.criteria.sender ∧
      ∃ c, Config.ofNative [f] [] = .ok c ∧ ∀ b, ∃ k, c.compile b = .ok k ∧
        k.filters = [{ f with criteria := { sender := "\"foo+bar\"" } }] ∧ k.filters ≠ [f] := by
  intro f
  have importable : ∀ g ∈ [f], g.Importable := by decide
  obtain ⟨c, imported, compiles⟩ := compile_ofNative [] importable rfl
  refine ⟨importable f List.mem_cons_self, by decide, by decide, c, imported, fun b => ?_⟩
  obtain ⟨k, compiled, filters, _⟩ := compiles b
  have quoted : [f].map Filter.rewritten =
      [{ f with criteria := { sender := "\"foo+bar\"" } }] := by decide
  rw [quoted] at filters
  exact ⟨k, compiled, filters, by rw [filters]; decide⟩

end MailRules
