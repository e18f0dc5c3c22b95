import MailRules.Proofs.Compile.Stages

/-!
Expressions, one step at a time.

`parts` lists the expressions inside an expression, each with its path, in document order. An
expression under a connective is resolved by resolving its parts, whichever connective it is
(`resolve_of_connective`), so a proof about expressions needs one case for the three of them, and
`induct` gives it what holds of the parts.

What is defined and proved:
  1. `Says`: what an expression says, told from its fields; `given` lists it (`mem_given_iff`).
  2. `parts`, `children` and `induct`.
  3. `resolve_of_connective`, `resolve_of_field`, `resolve_of_name`: what an admitted expression is
     resolved to, by its key.
  4. `resolve_induct`: the induction that goes with resolution.
-/

namespace MailRules

/-- The connective that a key stands for. -/
def Key.connective? : Key → Option Connective
  | conj => some .and
  | disj => some .or
  | neg => some .not
  | field _ => none
  | name => none

theorem Key.cases_of_connective?_eq_none {key : Key} (h : key.connective? = none) :
    (∃ f, key = .field f) ∨ key = .name := by
  cases key with
  | conj => cases h
  | disj => cases h
  | neg => cases h
  | field f => exact .inl ⟨f, rfl⟩
  | name => exact .inr rfl

namespace FilterExpr

/-! ## What an expression says -/

/-- The expression says something under the key. An empty text says nothing, and neither does an
empty list. -/
inductive Says (e : FilterExpr) : Key → Prop
  | conj {es : List FilterExpr} (set : e.conj = some es) (filled : es ≠ []) : Says e .conj
  | disj {es : List FilterExpr} (set : e.disj = some es) (filled : es ≠ []) : Says e .disj
  | neg {x : FilterExpr} (set : e.neg = some x) : Says e .neg
  | field {f : Field} {s : String} (set : e.text f = some s) (filled : s ≠ "") : Says e (.field f)
  | name {n : String} (set : e.name = some n) (filled : n ≠ "") : Says e .name

theorem givesList_eq_true_iff {es? : Option (List FilterExpr)} :
    givesList es? = true ↔ ∃ es, es? = some es ∧ es ≠ [] := by
  cases es? <;> simp [givesList]

theorem givesText_eq_true_iff {s? : Option String} :
    givesText s? = true ↔ ∃ s, s? = some s ∧ s ≠ "" := by
  cases s? <;> simp [givesText]

theorem gives_iff {e : FilterExpr} {key : Key} : e.gives key = true ↔ e.Says key := by
  constructor
  · intro h
    cases key with
    | conj => obtain ⟨es, set, filled⟩ := givesList_eq_true_iff.mp h; exact .conj set filled
    | disj => obtain ⟨es, set, filled⟩ := givesList_eq_true_iff.mp h; exact .disj set filled
    | neg => obtain ⟨x, set⟩ := Option.isSome_iff_exists.mp h; exact .neg set
    | field f => obtain ⟨s, set, filled⟩ := givesText_eq_true_iff.mp h; exact .field set filled
    | name => obtain ⟨n, set, filled⟩ := givesText_eq_true_iff.mp h; exact .name set filled
  · rintro (⟨set, filled⟩ | ⟨set, filled⟩ | set | ⟨set, filled⟩ | ⟨set, filled⟩)
    · exact givesList_eq_true_iff.mpr ⟨_, set, filled⟩
    · exact givesList_eq_true_iff.mpr ⟨_, set, filled⟩
    · exact Option.isSome_iff_exists.mpr ⟨_, set⟩
    · exact givesText_eq_true_iff.mpr ⟨_, set, filled⟩
    · exact givesText_eq_true_iff.mpr ⟨_, set, filled⟩

theorem mem_given_iff {e : FilterExpr} {key : Key} : key ∈ e.given ↔ e.Says key := by
  rw [given, List.mem_filter, gives_iff, and_iff_right_iff_imp]
  intro said
  cases said with
  | @field f s set _ =>
    cases f with
    | unset => cases set
    | _ => decide
  | _ => decide

theorem nodup_given (e : FilterExpr) : e.given.Nodup :=
  List.Pairwise.filter _ (show keys.Nodup by decide)

theorem given_eq_singleton_iff {e : FilterExpr} {key : Key} :
    e.given = [key] ↔ ∀ other, e.Says other ↔ other = key := by
  simp only [← mem_given_iff]
  constructor
  · intro h other
    rw [h, List.mem_singleton]
  · intro h
    have one : ∀ other ∈ e.given, other = key := fun other hother => (h other).mp hother
    match given : e.given with
    | [] => exact absurd ((h key).mpr rfl) (by simp [given])
    | [k] => rw [one k (by simp [given])]
    | k :: k' :: ks =>
      -- both would be the one key, but no key is listed twice
      have first := one k (by simp [given])
      have second := one k' (by simp [given])
      have distinct := nodup_given e
      simp [given, first, second] at distinct

instance (e : FilterExpr) (key : Key) : Decidable (e.Says key) :=
  decidable_of_iff _ mem_given_iff

/-! ## The expressions inside an expression -/

/-- Expressions of a list, each with its path. -/
def located (path : String) (key : Key) (index : Nat) (es : List FilterExpr) :
    List (String × FilterExpr) :=
  (es.zipIdx index).map fun (e, i) => (childPath path key i, e)

/-- The expressions that an expression is built from, each with its path, in document order. -/
def parts (path : String) (e : FilterExpr) : List (String × FilterExpr) :=
  located path .conj 0 (e.conj.getD []) ++ located path .disj 0 (e.disj.getD []) ++
    e.neg.toList.map fun x => (path ++ ".not", x)

def children (e : FilterExpr) : List FilterExpr :=
  e.conj.getD [] ++ e.disj.getD [] ++ e.neg.toList

theorem located_cons (path : String) (key : Key) (i : Nat) (e : FilterExpr)
    (es : List FilterExpr) :
    located path key i (e :: es) = (childPath path key i, e) :: located path key (i + 1) es := by
  simp [located, List.zipIdx_cons]

theorem map_snd_located (path : String) (key : Key) (i : Nat) (es : List FilterExpr) :
    (located path key i es).map Prod.snd = es := by
  simp [located, Function.comp_def]

theorem map_snd_parts (path : String) (e : FilterExpr) :
    (e.parts path).map Prod.snd = e.children := by
  simp [parts, children, map_snd_located, Function.comp_def]

theorem mem_children_of_parts {path : String} {e : FilterExpr} {x : String × FilterExpr}
    (h : x ∈ e.parts path) : x.2 ∈ e.children :=
  map_snd_parts path e ▸ List.mem_map_of_mem h

theorem sizeOf_lt_of_mem_children {e x : FilterExpr} (h : x ∈ e.children) :
    sizeOf x < sizeOf e := by
  cases e with
  | mk conj disj neg =>
    simp only [children, List.mem_append, Option.mem_toList] at h
    obtain (h | h) | h := h
    · cases conj with
      | none => cases h
      | some es =>
        have smaller : sizeOf x < sizeOf es := List.sizeOf_lt_of_mem h
        simp only [mk.sizeOf_spec, Option.some.sizeOf_spec] at smaller ⊢
        omega
    · cases disj with
      | none => cases h
      | some es =>
        have smaller : sizeOf x < sizeOf es := List.sizeOf_lt_of_mem h
        simp only [mk.sizeOf_spec, Option.some.sizeOf_spec] at smaller ⊢
        omega
    · cases h
      simp only [mk.sizeOf_spec, Option.some.sizeOf_spec]
      omega

/-- What holds of an expression if it holds of those it is built from holds of every expression. -/
theorem induct {P : FilterExpr → Prop} (step : ∀ e : FilterExpr, (∀ x ∈ e.children, P x) → P e)
    (e : FilterExpr) : P e :=
  -- by size: the expressions inside sit in optional lists, out of the reach of structural recursion
  step e fun x hx =>
    have := sizeOf_lt_of_mem_children hx
    induct step x
termination_by sizeOf e

/-! ## What an admitted expression is resolved to -/

section
variable {named : Named} {path : String} {e : FilterExpr} {key : Key}

theorem says_iff_of_check (h : e.check path = .ok key) {other : Key} :
    e.Says other ↔ other = key :=
  given_eq_singleton_iff.mp (check_eq_ok_iff.mp h).1 other

theorem says_of_check (h : e.check path = .ok key) : e.Says key := (says_iff_of_check h).mpr rfl

theorem not_gives_of_check (h : e.check path = .ok key) (other : Key) (ne : other ≠ key) :
    ¬ e.gives other = true := by
  intro gives
  exact ne ((says_iff_of_check h).mp (gives_iff.mp gives))

theorem getD_eq_nil {es? : Option (List FilterExpr)} (h : ¬ givesList es? = true) :
    es?.getD [] = [] := by
  cases es? with
  | none => rfl
  | some es => simpa [givesList] using h

/-- The parts of an admitted expression are those under its key, as it says nothing else. -/
theorem parts_of_conj (h : e.check path = .ok .conj) :
    ∃ es, e.conj = some es ∧ es ≠ [] ∧ ∀ p, e.parts p = located p .conj 0 es := by
  have disj := getD_eq_nil (not_gives_of_check h .disj nofun)
  have neg := Option.not_isSome_iff_eq_none.mp (not_gives_of_check h .neg nofun)
  cases says_of_check h with
  | conj set filled =>
    refine ⟨_, set, filled, fun p => ?_⟩
    rw [parts, disj, neg, set]
    simp [located]

theorem parts_of_disj (h : e.check path = .ok .disj) :
    ∃ es, e.disj = some es ∧ es ≠ [] ∧ ∀ p, e.parts p = located p .disj 0 es := by
  have conj := getD_eq_nil (not_gives_of_check h .conj nofun)
  have neg := Option.not_isSome_iff_eq_none.mp (not_gives_of_check h .neg nofun)
  cases says_of_check h with
  | disj set filled =>
    refine ⟨_, set, filled, fun p => ?_⟩
    rw [parts, conj, neg, set]
    simp [located]

theorem parts_of_neg (h : e.check path = .ok .neg) :
    ∃ x, e.neg = some x ∧ ∀ p, e.parts p = [(p ++ ".not", x)] := by
  have conj := getD_eq_nil (not_gives_of_check h .conj nofun)
  have disj := getD_eq_nil (not_gives_of_check h .disj nofun)
  cases says_of_check h with
  | neg set =>
    refine ⟨_, set, fun p => ?_⟩
    rw [parts, conj, disj, set]
    rfl

theorem parts_eq_nil (h : e.check path = .ok key) (leaf : key.connective? = none) (p : String) :
    e.parts p = [] := by
  have silent (other : Key) (joins : other.connective? ≠ none) : ¬ e.gives other = true := by
    refine not_gives_of_check h other ?_
    intro same
    exact joins (same ▸ leaf)
  have conj := getD_eq_nil (silent .conj nofun)
  have disj := getD_eq_nil (silent .disj nofun)
  have neg := Option.not_isSome_iff_eq_none.mp (silent .neg nofun)
  rw [parts, conj, disj, neg]
  rfl

theorem resolveAll_eq_mapM (named : Named) (path : String) (key : Key) :
    ∀ (i : Nat) (es : List FilterExpr), resolveAll named path key i es =
      (located path key i es).mapM fun x => x.2.resolve named x.1
  | _, [] => rfl
  | i, e :: es => by
    rw [resolveAll, located_cons, List.mapM_cons, resolveAll_eq_mapM named path key (i + 1) es]
    cases e.resolve named (childPath path key i) <;> rfl

theorem resolve_eq (named : Named) (path : String) (e : FilterExpr) :
    e.resolve named path = match e.check path with
      | .error err => .error err
      | .ok .conj => (resolveList named path .conj e.conj).map .conj
      | .ok .disj => (resolveList named path .disj e.disj).map .disj
      | .ok .neg => (resolveOption named (path ++ ".not") e.neg).map .neg
      | .ok (.field f) => .ok (.leaf (.over f [(e.text f).getD ""] .unset e.escaped))
      | .ok .name => match named.find? (e.name.getD "") with
        | some c => .ok c
        | none => .error (.unresolvedName path (e.name.getD "")) := by
  cases e
  exact resolve.eq_1 ..

theorem resolve_of_check_error {err : ConfigError} (h : e.check path = .error err) :
    e.resolve named path = .error err := by
  rw [resolve_eq, h]

theorem resolve_of_connective (h : e.check path = .ok key) {op : Connective}
    (joins : key.connective? = some op) : e.resolve named path =
      ((e.parts path).mapM fun x => resolve named x.1 x.2).map (.node op) := by
  rw [resolve_eq, h]
  cases key with
  | conj =>
    obtain ⟨es, set, _, parts⟩ := parts_of_conj h
    cases joins
    rw [parts, ← resolveAll_eq_mapM, set]
    rfl
  | disj =>
    obtain ⟨es, set, _, parts⟩ := parts_of_disj h
    cases joins
    rw [parts, ← resolveAll_eq_mapM, set]
    rfl
  | neg =>
    obtain ⟨x, set, parts⟩ := parts_of_neg h
    cases joins
    -- a negation joins a list of one
    rw [parts, set, List.mapM_cons]
    show (x.resolve named (path ++ ".not")).map Condition.neg = _
    cases x.resolve named (path ++ ".not") <;> rfl
  | field f => cases joins
  | name => cases joins

theorem resolve_of_field {f : Field} {s : String} (h : e.check path = .ok (.field f))
    (set : e.text f = some s) :
    e.resolve named path = .ok (.leaf ⟨f, [s], .unset, e.escaped⟩) := by
  simp only [resolve_eq, h, set]
  rfl

theorem resolve_of_name {n : String} (h : e.check path = .ok .name) (set : e.name = some n) :
    e.resolve named path = match named.find? n with
      | some c => .ok c
      | none => .error (.unresolvedName path n) := by
  simp only [resolve_eq, h, set]
  rfl

theorem exists_check {t : Condition} (h : e.resolve named path = .ok t) :
    ∃ key, e.check path = .ok key := by
  cases said : e.check path with
  | error err =>
    rw [resolve_of_check_error said] at h
    cases h
  | ok key => exact ⟨key, rfl⟩

theorem resolve_parts {t : Condition} (h : e.resolve named path = .ok t) :
    ∀ x ∈ e.parts path, ∃ u, x.2.resolve named x.1 = .ok u := by
  obtain ⟨key, said⟩ := exists_check h
  cases joins : key.connective? with
  | some op =>
    rw [resolve_of_connective said joins] at h
    obtain ⟨ts, resolved, _⟩ := map_eq_ok.mp h
    intro x hx
    obtain ⟨u, _, hu⟩ := exists_right_of_mem (forall₂_of_mapM resolved) hx
    exact ⟨u, hu⟩
  | none => simp [parts_eq_nil said joins]

/-- What holds of an expression and of what it is resolved to, if it does so under each key, given
that it holds of the expressions inside. -/
theorem resolve_induct {P : FilterExpr → Condition → Prop}
    (node : ∀ {e path key op ts}, e.check path = .ok key → key.connective? = some op →
      List.Forall₂ P e.children ts → P e (.node op ts))
    (leaf : ∀ {e f s}, e.text f = some s → s ≠ "" → P e (.leaf ⟨f, [s], .unset, e.escaped⟩))
    (reference : ∀ {e n t}, e.name = some n → n ≠ "" → named.find? n = some t → P e t)
    (e : FilterExpr) : ∀ {path : String} {t : Condition}, e.resolve named path = .ok t → P e t := by
  induction e using induct with
  | step e ih =>
    intro path t h
    obtain ⟨key, said⟩ := exists_check h
    cases joins : key.connective? with
    | some op =>
      rw [resolve_of_connective said joins] at h
      obtain ⟨ts, resolved, rfl⟩ := map_eq_ok.mp h
      apply node said joins
      -- the conditions belong to the parts, which are the expressions inside with their paths
      rw [← map_snd_parts path, List.forall₂_map_left_iff]
      have parts := (List.forall₂_and_left _ _).mpr ⟨fun x hx => hx, forall₂_of_mapM resolved⟩
      refine parts.imp ?_
      rintro x u ⟨hx, hu⟩
      exact ih x.2 (mem_children_of_parts hx) hu
    | none =>
      rcases Key.cases_of_connective?_eq_none joins with ⟨f, rfl⟩ | rfl
      · cases says_of_check said with
        | field set filled =>
          rw [resolve_of_field said set] at h
          cases h
          exact leaf set filled
      · cases says_of_check said with
        | name set filled =>
          rw [resolve_of_name said set] at h
          split at h
          · next found =>
            cases h
            exact reference set filled found
          · cases h

end

end FilterExpr

end MailRules
