import MailRules.Proofs.Config.Expression

/-!
Which expressions are resolved, to what, and which expression is told when one is not.

An expression is bad if it says nothing or several things, if it is escaped under a key that cannot
be, or if it refers to no known filter. Resolution goes through the expressions inside an
expression in document order (`visited`), does not look into one that is bad, and stops there.

What is defined and proved:
  1. `Bad`, and `Mirrors`: the condition that is built as the expression is.
  2. `bad_of_check_error`, `bad_iff_of_check`: one step refuses what is bad.
  3. `not_bad_of_visited`, `mirrors_of_resolve`: if there is a result, nothing visited is bad and
     the result mirrors the expression.
  4. `find?_visited`: if there is an error, it has the path of the first bad expression.
  5. `resolve_exact`: all of this together.
-/

namespace MailRules

theorem Key.escapable_iff {key : Key} : key.escapable = true ↔
    key ∈ [Key.field .sender, .field .recipient, .field .subject] := by
  cases key with
  | field f => cases f <;> decide
  | _ => decide

namespace FilterExpr

/-- The expression is not one of the grammar, whatever is inside it. -/
inductive Bad (named : Named) (e : FilterExpr) : Prop
  | empty (nothing : ∀ key, ¬ e.Says key)
  | several {key other : Key} (said : e.Says key) (also : e.Says other) (ne : key ≠ other)
  | misplacedEscape {key : Key} (escaped : e.escaped = true) (said : e.Says key)
      (misplaced : key ∉ [Key.field .sender, .field .recipient, .field .subject])
  | unresolved {n : String} (set : e.name = some n) (filled : n ≠ "")
      (unknown : n ∉ named.map Prod.fst)

/-- The condition is built as the expression is, with named conditions in place of references. -/
inductive Mirrors (named : Named) : FilterExpr → Condition → Prop
  | conj {e : FilterExpr} {es : List FilterExpr} {ts : List Condition} (set : e.conj = some es)
      (filled : es ≠ []) (children : List.Forall₂ (Mirrors named) es ts) :
      Mirrors named e (.node .and ts)
  | disj {e : FilterExpr} {es : List FilterExpr} {ts : List Condition} (set : e.disj = some es)
      (filled : es ≠ []) (children : List.Forall₂ (Mirrors named) es ts) :
      Mirrors named e (.node .or ts)
  | neg {e x : FilterExpr} {t : Condition} (set : e.neg = some x) (child : Mirrors named x t) :
      Mirrors named e (.node .not [t])
  | field {e : FilterExpr} {f : Field} {s : String} (set : e.text f = some s) (filled : s ≠ "") :
      Mirrors named e (.leaf ⟨f, [s], .unset, e.escaped⟩)
  | name {e : FilterExpr} {n : String} {t : Condition} (set : e.name = some n) (filled : n ≠ "")
      (found : named.find? n = some t) : Mirrors named e t

section
variable {named : Named} {path : String} {e : FilterExpr} {key : Key}

/-! ## One step -/

/-- An expression that says one thing is bad only if it refers to no known filter. -/
theorem bad_iff_of_check (h : e.check path = .ok key) :
    e.Bad named ↔ key = .name ∧ ∃ n ∈ e.name, named.find? n = none := by
  have only := @says_iff_of_check path e key h
  constructor
  · intro bad
    cases bad with
    | empty nothing => exact absurd (says_of_check h) (nothing key)
    | several said also ne => exact absurd ((only.mp said).trans (only.mp also).symm) ne
    | misplacedEscape escaped said misplaced =>
      rw [only.mp said] at misplaced
      exact absurd (Key.escapable_iff.mp ((check_eq_ok_iff.mp h).2 escaped)) misplaced
    | @unresolved n set filled unknown =>
      exact ⟨(only.mp (.name set filled)).symm, n, set, Named.find?_eq_none_iff.mpr unknown⟩
  · rintro ⟨rfl, n, set, unknown⟩
    cases says_of_check h with
    | @name n' set' filled =>
      have same : n = n' := Option.some.inj (set.symm.trans set')
      exact .unresolved set (same ▸ filled) (Named.find?_eq_none_iff.mp unknown)

theorem bad_of_check_error {err : ConfigError} (h : e.check path = .error err) :
    e.Bad named := by
  rw [check] at h
  cases said : e.given with
  | nil => exact .empty fun key hkey => by simpa [said] using mem_given_iff.mpr hkey
  | cons key rest =>
    have here : e.Says key := mem_given_iff.mp (by simp [said])
    cases rest with
    | nil =>
      by_cases misplaced : (e.escaped && !key.escapable) = true
      · obtain ⟨escaped, refused⟩ := Bool.and_eq_true_iff.mp misplaced
        exact .misplacedEscape escaped here fun among => by
          simp [Key.escapable_iff.mpr among] at refused
      · simp [said, misplaced] at h
    | cons other others =>
      have distinct := nodup_given e
      rw [said] at distinct
      have ne : key ≠ other := fun same => by simp [same] at distinct
      exact .several here (mem_given_iff.mp (by simp [said])) ne

instance (named : Named) (e : FilterExpr) : Decidable (e.Bad named) :=
  match h : e.check "" with
  | .error _ => isTrue (bad_of_check_error h)
  | .ok _ => decidable_of_iff _ (bad_iff_of_check h).symm

theorem find?_of_check_error {err : ConfigError} (h : e.check path = .error err) :
    Json.find? "path" err.details = some (.str path) := by
  rw [check] at h
  split at h
  · cases h
    rfl
  · split at h <;> cases h
    rfl
  · cases h
    rfl

/-! ## All expressions, in document order -/

/-- The expressions that are reached from an expression, each with its path, in document order: the
expression itself and, unless it is bad, those reached from its parts. -/
def visited (named : Named) (path : String) (e : FilterExpr) : List (String × FilterExpr) :=
  (path, e) :: if e.Bad named then [] else
    (e.parts path).attach.flatMap fun x => visited named x.1.1 x.1.2
termination_by sizeOf e
decreasing_by exact sizeOf_lt_of_mem_children (mem_children_of_parts x.2)

theorem visited_of_bad (bad : e.Bad named) : visited named path e = [(path, e)] := by
  rw [visited, if_pos bad]

theorem visited_of_not_bad (sound : ¬ e.Bad named) : visited named path e =
    (path, e) :: (e.parts path).flatMap fun x => visited named x.1 x.2 := by
  rw [visited, if_neg sound, List.flatMap_def, List.flatMap_def]
  congr 2
  exact List.attach_map_val (f := fun x : String × FilterExpr => visited named x.1 x.2)

theorem forall_mem_visited {P : String × FilterExpr → Prop} (sound : ¬ e.Bad named) :
    (∀ x ∈ visited named path e, P x) ↔
      P (path, e) ∧ ∀ y ∈ e.parts path, ∀ x ∈ visited named y.1 y.2, P x := by
  rw [visited_of_not_bad sound, List.forall_mem_cons]
  simp only [List.mem_flatMap]
  constructor
  · rintro ⟨here, rest⟩
    exact ⟨here, fun y hy x hx => rest x ⟨y, hy, hx⟩⟩
  · rintro ⟨here, rest⟩
    exact ⟨here, fun x ⟨y, hy, hx⟩ => rest y hy x hx⟩

/-! ## A result -/

theorem not_bad_of_resolve {t : Condition} (h : e.resolve named path = .ok t) :
    ¬ e.Bad named := by
  intro bad
  obtain ⟨key, said⟩ := exists_check h
  obtain ⟨rfl, n, set, unknown⟩ := (bad_iff_of_check said).mp bad
  rw [resolve_of_name said set, unknown] at h
  cases h

theorem not_bad_of_visited (named : Named) (e : FilterExpr) : ∀ {path : String} {t : Condition},
    e.resolve named path = .ok t → ∀ x ∈ visited named path e, ¬ x.2.Bad named := by
  induction e using induct with
  | step e ih =>
    intro path t h
    have sound := not_bad_of_resolve h
    refine (forall_mem_visited sound).mpr ⟨sound, fun y hy => ?_⟩
    obtain ⟨u, hu⟩ := resolve_parts h y hy
    exact ih y.2 (mem_children_of_parts hy) hu

theorem mirrors_of_children (h : e.check path = .ok key) {op : Connective}
    (joins : key.connective? = some op) {ts : List Condition}
    (mirrored : List.Forall₂ (Mirrors named) e.children ts) : Mirrors named e (.node op ts) := by
  rw [← map_snd_parts path] at mirrored
  cases key with
  | conj =>
    obtain ⟨es, set, filled, parts⟩ := parts_of_conj h
    cases joins
    rw [parts, map_snd_located] at mirrored
    exact .conj set filled mirrored
  | disj =>
    obtain ⟨es, set, filled, parts⟩ := parts_of_disj h
    cases joins
    rw [parts, map_snd_located] at mirrored
    exact .disj set filled mirrored
  | neg =>
    obtain ⟨x, set, parts⟩ := parts_of_neg h
    cases joins
    rw [parts] at mirrored
    obtain ⟨t, _, child, none, rfl⟩ := List.forall₂_cons_left_iff.mp mirrored
    cases none
    exact .neg set child
  | field f => cases joins
  | name => cases joins

theorem mirrors_of_resolve {t : Condition} (h : e.resolve named path = .ok t) :
    Mirrors named e t := by
  refine resolve_induct ?_ .field .name e h
  intro e path key op ts said joins children
  exact mirrors_of_children said joins children

/-! ## An error -/

theorem error_of_bad (bad : e.Bad named) (path : String) : ∃ err,
    e.resolve named path = .error err ∧ Json.find? "path" err.details = some (.str path) := by
  cases said : e.check path with
  | error err => exact ⟨err, resolve_of_check_error said, find?_of_check_error said⟩
  | ok key =>
    obtain ⟨rfl, n, set, unknown⟩ := (bad_iff_of_check said).mp bad
    refine ⟨.unresolvedName path n, ?_, rfl⟩
    rw [resolve_of_name said set, unknown]

/-- The error in an expression that is not bad is that of the first of its parts in error. -/
theorem error_of_not_bad (sound : ¬ e.Bad named) {err : ConfigError}
    (h : e.resolve named path = .error err) : ∃ before x after,
      e.parts path = before ++ x :: after ∧
        (∀ b ∈ before, ∃ t, resolve named b.1 b.2 = .ok t) ∧
          resolve named x.1 x.2 = .error err := by
  cases said : e.check path with
  | error err' => exact absurd (bad_of_check_error said) sound
  | ok key =>
    cases joins : key.connective? with
    | some op =>
      rw [resolve_of_connective said joins] at h
      cases resolved : (e.parts path).mapM fun x => resolve named x.1 x.2 with
      | error err' =>
        rw [resolved] at h
        cases h
        exact split_of_mapM_error resolved
      | ok ts =>
        rw [resolved] at h
        cases h
    | none =>
      rcases Key.cases_of_connective?_eq_none joins with ⟨f, rfl⟩ | rfl
      · cases says_of_check said with
        | field set _ =>
          rw [resolve_of_field said set] at h
          cases h
      · cases says_of_check said with
        | @name n set _ =>
          rw [resolve_of_name said set] at h
          split at h
          · cases h
          · next unknown =>
            exact absurd ((bad_iff_of_check said).mpr ⟨rfl, n, set, unknown⟩) sound

/-- If there is an error, it is told with the path of the first bad expression. -/
theorem find?_visited (named : Named) (e : FilterExpr) : ∀ {path : String} {err : ConfigError},
    e.resolve named path = .error err →
      ∃ x, (visited named path e).find? (fun x => x.2.Bad named) = some x ∧
        Json.find? "path" err.details = some (.str x.1) := by
  induction e using induct with
  | step e ih =>
    intro path err h
    by_cases bad : e.Bad named
    · obtain ⟨err', refused, told⟩ := error_of_bad bad path
      rw [refused] at h
      cases h
      exact ⟨(path, e), by simp [visited_of_bad bad, bad], told⟩
    · obtain ⟨before, y, after, parts, resolved, failed⟩ := error_of_not_bad bad h
      have hy : y ∈ e.parts path := by simp [parts]
      obtain ⟨x, first, told⟩ := ih y.2 (mem_children_of_parts hy) failed
      refine ⟨x, ?_, told⟩
      -- the parts before the one in error are resolved, so nothing in them is bad
      have clean : (before.flatMap fun b => visited named b.1 b.2).find?
          (fun x => x.2.Bad named) = none := by
        rw [List.find?_eq_none]
        intro z hz
        obtain ⟨b, hb, hz⟩ := List.mem_flatMap.mp hz
        obtain ⟨t, ht⟩ := resolved b hb
        simpa using not_bad_of_visited named b.2 ht z hz
      rw [visited_of_not_bad bad, List.find?_cons_of_neg (by simpa using bad), parts,
        List.flatMap_append, List.find?_append, clean, List.flatMap_cons, List.find?_append, first]
      rfl

end

/-- An expression is refused exactly if an expression reached from it is bad, and then with the path
of the first of these in document order; otherwise it is resolved to a condition that mirrors it. -/
theorem resolve_exact (named : Named) (path : String) (e : FilterExpr) :
    ((∃ err, e.resolve named path = .error err) ↔
      ∃ x ∈ visited named path e, x.2.Bad named) ∧
    (∀ err, e.resolve named path = .error err →
      ∃ x, (visited named path e).find? (fun x => x.2.Bad named) = some x ∧
        Json.find? "path" err.details = some (.str x.1)) ∧
    ((∀ x ∈ visited named path e, ¬ x.2.Bad named) →
      ∃ t, e.resolve named path = .ok t ∧ Mirrors named e t) := by
  cases result : e.resolve named path with
  | error err =>
    obtain ⟨x, first, told⟩ := find?_visited named e result
    have bad : x ∈ visited named path e ∧ x.2.Bad named :=
      ⟨List.mem_of_find?_eq_some first, by simpa using List.find?_some first⟩
    refine ⟨⟨fun _ => ⟨x, bad⟩, fun _ => ⟨err, rfl⟩⟩, ?_, ?_⟩
    · rintro _ ⟨⟩
      exact ⟨x, first, told⟩
    · intro sound
      exact absurd bad.2 (sound x bad.1)
  | ok t =>
    have sound := not_bad_of_visited named e result
    refine ⟨⟨?_, ?_⟩, ?_, fun _ => ⟨t, rfl, mirrors_of_resolve result⟩⟩
    · rintro ⟨err, ⟨⟩⟩
    · rintro ⟨x, hx, bad⟩
      exact absurd bad (sound x hx)
    · rintro err ⟨⟩

end FilterExpr

end MailRules
