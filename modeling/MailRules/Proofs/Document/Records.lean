import MailRules.Document.Reader
import MailRules.Proofs.Outcome

/-!
What a record makes of an object whose fields stand one by one under the names it knows.

A record is joined from fields, each looked up for itself among all fields of the object. A record
gives a value for fields that satisfy certain conditions, whatever order the fields are in and
whatever else is there (`Record.Gives`), and this is joined from its fields in turn. If the names of
the record have no spelling in common, then each field of the object is found under its own name and
none is left over (`pick?_of_paired`, `unknownKeys_of_paired`).

What is proved:
  1. `Reading.map_eq_read`, `Reading.apply_eq_read`, `items_eq_read`: when a reading gives a value.
  2. `Record.Gives.map`, `Record.Gives.seq`, `Record.gives_field`, `Record.gives_required`: what a
     record gives is told by its fields.
  3. `Record.Gives.runClosed_of_paired`: what it makes of an object with a field for each of its names.
-/

namespace MailRules.Document

/-! ## Readings that give a value -/

namespace Reading

variable {α β : Type}

theorem map_eq_read {f : α → β} {r : Reading α} {b : β} :
    r.map f = .read b ↔ ∃ a, r = .read a ∧ f a = b := by
  cases r <;> simp [map]

theorem apply_eq_read {f : Reading (α → β)} {r : Reading α} {b : β} :
    f.apply r = .read b ↔ ∃ g a, f = .read g ∧ r = .read a ∧ g a = b := by
  cases f <;> cases r <;> simp [apply]

theorem under_eq_read {step : String} {r : Reading α} {a : α} :
    under step r = .read a ↔ r = .read a := by
  cases r <;> simp [under]

theorem along_eq_read {issues : List Issue} {r : Reading α} {a : α} :
    r.along issues = .read a ↔ issues = [] ∧ r = .read a := by
  cases issues <;> cases r <;> simp [along]

end Reading

open Reading

theorem items_eq_read {α : Type} {item : Json → Reading α} :
    ∀ {i : Nat} {vs : List Json} {as : List α},
      items item i vs = .read as ↔ List.Forall₂ (fun v a => item v = .read a) vs as
  | i, [], as => by
    rw [items, List.forall₂_nil_left_iff, read.injEq, eq_comm]
  | i, v :: vs, as => by
    show (Reading.map List.cons (under _ (item v))).apply (items item (i + 1) vs) = .read as ↔ _
    simp only [apply_eq_read, map_eq_read, under_eq_read, items_eq_read,
      List.forall₂_cons_left_iff]
    constructor
    · intro ⟨_, as, ⟨a, head, rfl⟩, tail, joined⟩
      exact ⟨a, as, head, tail, joined.symm⟩
    · intro ⟨a, as, head, tail, joined⟩
      exact ⟨_, as, ⟨a, head, rfl⟩, tail, joined.symm⟩

theorem asList_eq_read {α : Type} {item : Json → Reading α} {v : Json} {as : List α} :
    asList item v = .read as ↔
      ∃ vs, v = .arr vs ∧ List.Forall₂ (fun v a => item v = .read a) vs as := by
  cases v <;> simp [asList, bad, items_eq_read]

/-! ## Looking fields up -/

section
variable {α : Type} {keys : List String} {ns : List Names} {fs : List (String × α)}

theorem pick?_eq_some {x : String × α} (h : pick? keys fs = some x) : x ∈ fs ∧ x.1 ∈ keys := by
  obtain ⟨key, known, found⟩ := List.exists_of_findSome?_eq_some h
  have same : x.1 = key := by simpa using List.find?_some found
  exact ⟨List.mem_of_find?_eq_some found, same ▸ known⟩

theorem pick?_of_only {x : String × α} (mem : x ∈ fs) (known : x.1 ∈ keys)
    (only : ∀ y ∈ fs, y.1 ∈ keys → y = x) : pick? keys fs = some x := by
  cases found : pick? keys fs with
  | none =>
    have missing := List.find?_eq_none.mp (List.findSome?_eq_none_iff.mp found x.1 known) x mem
    exact absurd (decide_eq_true rfl) missing
  | some y =>
    obtain ⟨mem', known'⟩ := pick?_eq_some found
    rw [only y mem' known']

/-- Fields that stand under the names one by one. -/
def Paired (ns : List Names) (fs : List (String × α)) : Prop :=
  List.Forall₂ (fun n x => x.1 ∈ n.all) ns fs

/-- Names of which no two have a spelling in common. -/
def Apart (ns : List Names) : Prop := (ns.flatMap Names.all).Nodup

instance : Decidable (Apart ns) := inferInstanceAs (Decidable (List.Nodup _))

theorem only_of_paired (apart : Apart ns) (h : Paired ns fs) :
    List.Forall₂ (fun n x => x ∈ fs ∧ x.1 ∈ n.all ∧ ∀ y ∈ fs, y.1 ∈ n.all → y = x) ns fs := by
  induction h with
  | nil => exact .nil
  | @cons n x ns fs head tail ih =>
    obtain ⟨_, rest, disjoint⟩ := List.nodup_append.mp (show (n.all ++ ns.flatMap Names.all).Nodup
      from apart)
    refine .cons ⟨List.mem_cons_self, head, fun y hy known => ?_⟩ ?_
    · rcases List.mem_cons.mp hy with same | later
      · exact same
      · obtain ⟨n', hn', known'⟩ := exists_left_of_mem tail later
        exact absurd rfl (disjoint _ known _ (List.mem_flatMap.mpr ⟨n', hn', known'⟩))
    · refine forall₂_imp_of_mem (ih rest) fun n' hn' z hz ⟨mem, known, only⟩ => ?_
      refine ⟨List.mem_cons_of_mem x mem, known, fun y hy known' => ?_⟩
      rcases List.mem_cons.mp hy with rfl | later
      · exact absurd rfl (disjoint _ head _ (List.mem_flatMap.mpr ⟨n', hn', known'⟩))
      · exact only y later known'

theorem pick?_of_paired (apart : Apart ns) (h : Paired ns fs) :
    List.Forall₂ (fun n x => pick? n.all fs = some x) ns fs :=
  (only_of_paired apart h).imp fun _ _ ⟨mem, known, only⟩ => pick?_of_only mem known only

end

/-! ## Records -/

namespace Record

variable {α β γ : Type}

theorem unknownKeys_of_paired {r : Record α β} {fs : List (String × α)} (apart : Apart r.names)
    (h : Paired r.names fs) : r.unknownKeys fs = [] := by
  rw [unknownKeys, List.filter_eq_nil_iff]
  intro key hkey
  obtain ⟨x, hx, rfl⟩ := List.mem_map.mp hkey
  obtain ⟨n, hn, found⟩ := exists_left_of_mem (pick?_of_paired apart h) hx
  have used : x.1 ∈ r.names.filterMap fun n => (pick? n.all fs).map (·.1) :=
    List.mem_filterMap.mpr ⟨n, hn, by rw [found]; rfl⟩
  simpa using used

/-- The record gives the value for fields that satisfy the conditions, one for each of its names. -/
structure Gives (r : Record α β) (ps : List (α → Prop)) (b : β) : Prop where
  length : r.names.length = ps.length
  run : ∀ fs, List.Forall₂ (fun n p => ∃ key v, pick? n.all fs = some (key, v) ∧ p v) r.names ps →
    r.run fs = .read b

theorem Gives.map {r : Record α β} {ps : List (α → Prop)} {b : β} (h : r.Gives ps b) (f : β → γ) :
    (f <$> r).Gives ps (f b) where
  length := h.length
  run fs found := map_eq_read.mpr ⟨b, h.run fs found, rfl⟩

theorem Gives.seq {f : Record α (β → γ)} {r : Record α β} {ps qs : List (α → Prop)} {g : β → γ}
    {b : β} (hf : f.Gives ps g) (h : r.Gives qs b) : (f <*> r).Gives (ps ++ qs) (g b) where
  length := by
    show (f.names ++ r.names).length = _
    rw [List.length_append, List.length_append, hf.length, h.length]
  run fs found := by
    have first := List.forall₂_take_append (f.names ++ r.names) ps qs found
    have second := List.forall₂_drop_append (f.names ++ r.names) ps qs found
    rw [← hf.length, List.take_left] at first
    rw [← hf.length, List.drop_left] at second
    exact apply_eq_read.mpr ⟨g, b, hf.run fs first, h.run fs second, rfl⟩

/-- A record of one field, whether that has to be there or not. -/
theorem gives_of_picked {r : Record α β} {n : Names} {b : β} {value : α → Reading β} {p : α → Prop}
    (names : r.names = [n])
    (run : ∀ fs key v, pick? n.all fs = some (key, v) → r.run fs = under key (value v))
    (h : ∀ v, p v → value v = .read b) : r.Gives [p] b where
  length := by rw [names, List.length_singleton, List.length_singleton]
  run fs found := by
    rw [names] at found
    obtain ⟨⟨key, v, picked, hv⟩, _⟩ := List.forall₂_cons.mp found
    rw [run fs key v picked, under_eq_read]
    exact h v hv

theorem gives_field {n : Names} {default b : β} {value : α → Reading β} {p : α → Prop}
    (h : ∀ v, p v → value v = .read b) : (field n default value).Gives [p] b :=
  gives_of_picked rfl (fun fs key v picked => by simp [field, picked]) h

theorem gives_required {n : Names} {b : β} {value : α → Reading β} {p : α → Prop}
    (h : ∀ v, p v → value v = .read b) : (required n value).Gives [p] b :=
  gives_of_picked rfl (fun fs key v picked => by simp [required, picked]) h

/-- An object with a field for each name, whose values satisfy the conditions. -/
theorem Gives.run_of_paired {r : Record α β} {ps : List (α → Prop)} {b : β} (h : r.Gives ps b)
    (apart : Apart r.names) {fs : List (String × α)} (paired : Paired r.names fs)
    (values : List.Forall₂ (fun x p => p x.2) fs ps) : r.run fs = .read b := by
  apply h.run
  refine forall₂_of_common (fun x n p known hv => ?_) (pick?_of_paired apart paired).flip values
  exact ⟨x.1, x.2, known, hv⟩

/-- So it is if no unknown keys are allowed, as there are none. -/
theorem Gives.runClosed_of_paired {r : Record α β} {ps : List (α → Prop)} {b : β} (h : r.Gives ps b)
    (apart : Apart r.names) {fs : List (String × α)} (paired : Paired r.names fs)
    (values : List.Forall₂ (fun x p => p x.2) fs ps) : r.runClosed fs = .read b := by
  rw [runClosed, unknownKeys_of_paired apart paired]
  exact along_eq_read.mpr ⟨rfl, h.run_of_paired apart paired values⟩

/-! ## What a record was made of -/

theorem map_run_eq_read {r : Record α β} {f : β → γ} {fs : List (String × α)} {c : γ} :
    (f <$> r).run fs = .read c ↔ ∃ b, r.run fs = .read b ∧ f b = c :=
  map_eq_read

theorem seq_run_eq_read {f : Record α (β → γ)} {r : Record α β} {fs : List (String × α)} {c : γ} :
    (f <*> r).run fs = .read c ↔ ∃ g b, f.run fs = .read g ∧ r.run fs = .read b ∧ g b = c :=
  apply_eq_read

theorem read_of_field {n : Names} {default b : β} {value : α → Reading β}
    {fs : List (String × α)} (h : (field n default value).run fs = .read b) :
    b = default ∨ ∃ x ∈ fs, value x.2 = .read b := by
  rw [field] at h
  dsimp only at h
  split at h
  · next key v picked => exact .inr ⟨(key, v), (pick?_eq_some picked).1, under_eq_read.mp h⟩
  · cases h
    exact .inl rfl

theorem read_of_required {n : Names} {b : β} {value : α → Reading β} {fs : List (String × α)}
    (h : (required n value).run fs = .read b) : ∃ x ∈ fs, value x.2 = .read b := by
  rw [required] at h
  dsimp only at h
  split at h
  · next key v picked => exact ⟨(key, v), (pick?_eq_some picked).1, under_eq_read.mp h⟩
  · cases h

theorem forall_of_list {n : Names} {item : Json → Reading β} {bs : List β} {P : β → Prop}
    {fs : List (String × Json)} (h : (field n [] (asList item)).run fs = .read bs)
    (each : ∀ v b, item v = .read b → P b) : ∀ b ∈ bs, P b := by
  rcases read_of_field h with rfl | ⟨x, _, same⟩
  · exact List.forall_mem_nil _
  · obtain ⟨vs, _, items⟩ := asList_eq_read.mp same
    intro b hb
    obtain ⟨v, _, one⟩ := exists_left_of_mem items hb
    exact each v b one

theorem run_of_runClosed {r : Record α β} {fs : List (String × α)} {b : β}
    (h : r.runClosed fs = .read b) : r.run fs = .read b :=
  (along_eq_read.mp h).2

theorem run_of_asClosed {r : Record Json β} {v : Json} {b : β} (h : r.asClosed v = .read b) :
    ∃ fs, v = .obj fs ∧ r.run fs = .read b := by
  cases v with
  | obj fs => exact ⟨fs, rfl, run_of_runClosed h⟩
  | _ => cases h

end Record

end MailRules.Document
