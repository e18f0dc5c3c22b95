import Mathlib.Data.List.Forall2

/-!
Stages that give a result or an error, taken apart: what it takes for a stage that works on the
result of another, or on every element of a list, to give a result. Elements and their results are
paired by `List.Forall₂`.
-/

namespace MailRules

section Except
variable {ε α β : Type}

theorem bind_eq_ok {x : Except ε α} {f : α → Except ε β} {b : β} :
    x.bind f = .ok b ↔ ∃ a, x = .ok a ∧ f a = .ok b := by
  cases x <;> simp [Except.bind]

theorem map_eq_ok {x : Except ε α} {f : α → β} {b : β} :
    x.map f = .ok b ↔ ∃ a, x = .ok a ∧ f a = b := by
  cases x <;> simp [Except.map]

theorem bind_eq_error {x : Except ε α} {f : α → Except ε β} :
    (∃ e, x.bind f = .error e) ↔ (∃ e, x = .error e) ∨ ∃ a, x = .ok a ∧ ∃ e, f a = .error e := by
  cases x <;> simp [Except.bind]

theorem map_eq_error {x : Except ε α} {f : α → β} :
    (∃ e, x.map f = .error e) ↔ ∃ e, x = .error e := by
  cases x <;> simp [Except.map]

theorem mapError_eq_ok {δ : Type} {x : Except ε α} {f : ε → δ} {a : α} :
    x.mapError f = .ok a ↔ x = .ok a := by
  cases x <;> simp [Except.mapError]

theorem mapError_eq_error {δ : Type} {x : Except ε α} {f : ε → δ} :
    (∃ e, x.mapError f = .error e) ↔ ∃ e, x = .error e := by
  cases x <;> simp [Except.mapError]

theorem mapM_of_forall₂ {f : α → Except ε β} : ∀ {xs : List α} {ys : List β},
    List.Forall₂ (fun x y => f x = .ok y) xs ys → xs.mapM f = .ok ys
  | [], [], .nil => rfl
  | x :: xs, y :: ys, .cons hx hxs => by
    have tail := mapM_of_forall₂ hxs
    simp only [List.mapM_cons, hx, tail]
    rfl

theorem forall₂_of_mapM {f : α → Except ε β} : ∀ {xs : List α} {ys : List β},
    xs.mapM f = .ok ys → List.Forall₂ (fun x y => f x = .ok y) xs ys
  | [], ys, h => by cases h; exact .nil
  | x :: xs, ys, h => by
    rw [List.mapM_cons] at h
    obtain ⟨y, hy, h⟩ := bind_eq_ok.mp h
    obtain ⟨zs, hzs, h⟩ := bind_eq_ok.mp h
    cases h
    exact .cons hy (forall₂_of_mapM hzs)

theorem split_of_mapM_error {f : α → Except ε β} : ∀ {xs : List α} {e : ε},
    xs.mapM f = .error e → ∃ before x after, xs = before ++ x :: after ∧
      (∀ b ∈ before, ∃ y, f b = .ok y) ∧ f x = .error e
  | [], _, h => by cases h
  | x :: xs, e, h => by
    rw [List.mapM_cons] at h
    cases hx : f x with
    | error e' =>
      rw [hx] at h
      cases h
      exact ⟨[], x, xs, rfl, by simp, hx⟩
    | ok y =>
      rw [hx] at h
      cases hxs : xs.mapM f with
      | ok ys =>
        rw [hxs] at h
        cases h
      | error e' =>
        rw [hxs] at h
        cases h
        obtain ⟨before, z, after, rfl, resolved, hz⟩ := split_of_mapM_error hxs
        exact ⟨x :: before, z, after, rfl, List.forall_mem_cons.mpr ⟨⟨y, hx⟩, resolved⟩, hz⟩

end Except

section Forall₂
variable {α β γ : Type} {R : α → β → Prop} {xs : List α} {ys : List β}

theorem forall₂_of_exists : ∀ {xs : List α}, (∀ x ∈ xs, ∃ y, R x y) → ∃ ys, List.Forall₂ R xs ys
  | [], _ => ⟨[], .nil⟩
  | x :: xs, h => by
    obtain ⟨y, hy⟩ := h x List.mem_cons_self
    obtain ⟨ys, hys⟩ := forall₂_of_exists fun z hz => h z (List.mem_cons_of_mem x hz)
    exact ⟨y :: ys, .cons hy hys⟩

theorem exists_right_of_mem (h : List.Forall₂ R xs ys) {x : α} (hx : x ∈ xs) :
    ∃ y ∈ ys, R x y := by
  induction h with
  | nil => simp at hx
  | cons head _ ih =>
    rcases List.mem_cons.mp hx with rfl | hx
    · exact ⟨_, List.mem_cons_self, head⟩
    · obtain ⟨y, hy, r⟩ := ih hx
      exact ⟨y, List.mem_cons_of_mem _ hy, r⟩

theorem exists_left_of_mem (h : List.Forall₂ R xs ys) {y : β} (hy : y ∈ ys) :
    ∃ x ∈ xs, R x y :=
  exists_right_of_mem h.flip hy

theorem exists_right_of_getElem? (h : List.Forall₂ R xs ys) {i : Nat} {x : α}
    (hx : xs[i]? = some x) : ∃ y, ys[i]? = some y ∧ R x y := by
  obtain ⟨inside, rfl⟩ := List.getElem?_eq_some_iff.mp hx
  have inside' : i < ys.length := h.length_eq ▸ inside
  exact ⟨ys[i], List.getElem?_eq_getElem inside', h.get inside inside'⟩

theorem exists_left_of_getElem? (h : List.Forall₂ R xs ys) {i : Nat} {y : β}
    (hy : ys[i]? = some y) : ∃ x, xs[i]? = some x ∧ R x y :=
  exists_right_of_getElem? h.flip hy

theorem forall₂_imp_of_mem {S : α → β → Prop} (h : List.Forall₂ R xs ys)
    (weaken : ∀ x ∈ xs, ∀ y ∈ ys, R x y → S x y) : List.Forall₂ S xs ys := by
  induction h with
  | nil => exact .nil
  | cons head _ ih =>
    refine .cons (weaken _ List.mem_cons_self _ List.mem_cons_self head) (ih fun x hx y hy => ?_)
    exact weaken x (List.mem_cons_of_mem _ hx) y (List.mem_cons_of_mem _ hy)

theorem forall₂_prod {κ ι : Type} {K : κ → ι → Prop} :
    ∀ {xs : List (κ × α)} {ys : List (ι × β)},
      List.Forall₂ (fun x y => K x.1 y.1 ∧ R x.2 y.2) xs ys ↔
        List.Forall₂ K (xs.map (·.1)) (ys.map (·.1)) ∧ List.Forall₂ R (xs.map (·.2)) (ys.map (·.2))
  | [], [] => by simp
  | [], _ :: _ => by simp
  | _ :: _, [] => by simp
  | x :: xs, y :: ys => by
    rw [List.forall₂_cons, forall₂_prod, List.map_cons, List.map_cons, List.map_cons,
      List.map_cons, List.forall₂_cons, List.forall₂_cons]
    exact and_and_and_comm

/-- A third list between two, if there is an element between each two. -/
theorem exists_between {S : γ → β → Prop} {T : α → γ → Prop} (h : List.Forall₂ R xs ys)
    (between : ∀ x y, R x y → ∃ z, T x z ∧ S z y) :
    ∃ zs, List.Forall₂ T xs zs ∧ List.Forall₂ S zs ys := by
  induction h with
  | nil => exact ⟨[], .nil, .nil⟩
  | cons head _ ih =>
    obtain ⟨z, left, right⟩ := between _ _ head
    obtain ⟨zs, lefts, rights⟩ := ih
    exact ⟨z :: zs, .cons left lefts, .cons right rights⟩

theorem forall₂_of_common {S : α → γ → Prop} {T : β → γ → Prop}
    (common : ∀ x y z, R x y → S x z → T y z) : ∀ {xs : List α} {ys : List β} {zs : List γ},
      List.Forall₂ R xs ys → List.Forall₂ S xs zs → List.Forall₂ T ys zs
  | [], [], [], .nil, .nil => .nil
  | _ :: _, _ :: _, _ :: _, .cons r rs, .cons s ss =>
    .cons (common _ _ _ r s) (forall₂_of_common common rs ss)

/-- If an element has just one partner, so has a list of them. -/
theorem forall₂_iff_eq {S : α → β → Prop} (only : ∀ x y, R x y → ∀ y', S x y' ↔ y' = y)
    (h : List.Forall₂ R xs ys) : ∀ ys', List.Forall₂ S xs ys' ↔ ys' = ys := by
  induction h with
  | nil => exact fun ys' => List.forall₂_nil_left_iff
  | cons head _ ih =>
    intro ys'
    rw [List.forall₂_cons_left_iff]
    constructor
    · rintro ⟨y', zs', first, rest, rfl⟩
      rw [(only _ _ head y').mp first, (ih zs').mp rest]
    · rintro rfl
      exact ⟨_, _, (only _ _ head _).mpr rfl, (ih _).mpr rfl, rfl⟩

theorem map_eq_map_of_forall₂ (h : List.Forall₂ R xs ys) {f : α → γ} {g : β → γ}
    (agree : ∀ x y, R x y → f x = g y) : xs.map f = ys.map g := by
  induction h with
  | nil => rfl
  | cons head _ ih => rw [List.map_cons, List.map_cons, agree _ _ head, ih]

/-- A list paired with the elements of several lists falls into pieces, one paired with each. -/
theorem exists_pieces : ∀ {yss : List (List β)} {xs : List α}, List.Forall₂ R xs yss.flatten →
    ∃ xss, xss.flatten = xs ∧ List.Forall₂ (List.Forall₂ R) xss yss
  | [], xs, h => by
    cases h
    exact ⟨[], rfl, .nil⟩
  | ys :: yss, xs, h => by
    rw [List.flatten_cons] at h
    obtain ⟨xss, same, pieces⟩ := exists_pieces (List.forall₂_drop_append xs ys yss.flatten h)
    refine ⟨xs.take ys.length :: xss, ?_, .cons (List.forall₂_take_append xs ys _ h) pieces⟩
    rw [List.flatten_cons, same, List.take_append_drop]

end Forall₂

/-- A function that tells the elements of two lists apart tells the lists apart. -/
theorem eq_of_map_eq_map {α β : Type} {f : α → β} : ∀ {xs ys : List α},
    (∀ x ∈ xs, ∀ y ∈ ys, f x = f y → x = y) → xs.map f = ys.map f → xs = ys
  | [], [], _, _ => rfl
  | [], _ :: _, _, e => by cases e
  | _ :: _, [], _, e => by cases e
  | x :: xs, y :: ys, apart, e => by
    obtain ⟨head, tail⟩ := List.cons.inj e
    rw [apart x List.mem_cons_self y List.mem_cons_self head, eq_of_map_eq_map (fun a ha b hb =>
      apart a (List.mem_cons_of_mem x ha) b (List.mem_cons_of_mem y hb)) tail]

end MailRules
