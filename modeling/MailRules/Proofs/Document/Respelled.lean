import MailRules.Document.Writer
import MailRules.Proofs.Document.Records

/-!
Written documents that are read back, with whichever of their names the fields are written.

Some fields have a second name (`secondNames`). A document is respelled if any of its keys that have
a second name are written with that, at any depth (`Respelled`). What is read back is said of a value
with all its respellings (`Recovers`), so that a part is read inside a document whatever is respelled
in it and around it.

What is proved:
  1. `recovers_text`, `recovers_flag`, `recovers_list`, `recovers_some`: texts, flags, lists and
     optional values are read back if what is in them is.
  2. `recovers_closed`, `recovers_open`: so is an object whose record has a name for each field, and
     the second names of those that have one (`Spelled`).
-/

namespace MailRules.Document

open Reading

/-! ## Respelled documents -/

/-- The fields with a second name. -/
def secondNames : List (String × String) :=
  [("and", "and_"), ("or", "or_"), ("not", "not_"), ("from", "from_"), ("list", "list_"),
    ("isEscaped", "is_escaped"), ("markRead", "mark_read"), ("markSpam", "mark_spam"),
    ("markImportant", "mark_important")]

/-- A key is kept, or written with its second name. -/
def KeyRespelled (key key' : String) : Prop := key' = key ∨ (key, key') ∈ secondNames

/-- A document with some of its keys written with their second names, at any depth. -/
inductive Respelled : Json → Json → Prop where
  | null : Respelled .null .null
  | bool (b : Bool) : Respelled (.bool b) (.bool b)
  | int (n : Int) : Respelled (.int n) (.int n)
  | float (x : Float) : Respelled (.float x) (.float x)
  | str (s : String) : Respelled (.str s) (.str s)
  | arr {items items' : List Json} (each : List.Forall₂ Respelled items items') :
      Respelled (.arr items) (.arr items')
  | obj {fields fields' : Json.Fields}
      (keys : List.Forall₂ KeyRespelled (fields.map (·.1)) (fields'.map (·.1)))
      (values : List.Forall₂ Respelled (fields.map (·.2)) (fields'.map (·.2))) :
      Respelled (.obj fields) (.obj fields')

/-- A document may be left as it is. -/
theorem Respelled.refl (v : Json) : Respelled v v := by
  induction size : sizeOf v using Nat.strongRecOn generalizing v with
  | ind n ih =>
    cases v with
    | null => exact .null
    | bool b => exact .bool b
    | int n => exact .int n
    | float x => exact .float x
    | str s => exact .str s
    | arr items =>
      refine .arr (List.forall₂_same.mpr fun v hv => ?_)
      exact ih (sizeOf v) (size ▸ Json.sizeOf_lt_arr hv) v rfl
    | obj fields =>
      refine .obj (List.forall₂_same.mpr fun _ _ => .inl rfl) (List.forall₂_same.mpr fun v hv => ?_)
      obtain ⟨x, hx, rfl⟩ := List.mem_map.mp hv
      exact ih (sizeOf x.2) (size ▸ Json.sizeOf_lt_obj hx) x.2 rfl

/-- The value is read from the document, however that is respelled. -/
def Recovers {α : Type} (read : Json → Reading α) (w : Json) (a : α) : Prop :=
  ∀ d, Respelled w d → read d = .read a

section
variable {α : Type} {read : Json → Reading α} {w : Json} {a : α}

theorem recovers_text (s : String) : Recovers asText (.str s) s := by
  intro d h
  cases h
  rfl

theorem recovers_flag (b : Bool) : Recovers asFlag (.bool b) b := by
  intro d h
  cases h
  rfl

theorem recovers_items {ws : List Json} {as : List α} (h : List.Forall₂ (Recovers read) ws as) :
    Recovers (asList read) (.arr ws) as := by
  intro d respelled
  cases respelled with
  | @arr _ items each =>
    refine asList_eq_read.mpr ⟨items, rfl, ?_⟩
    exact forall₂_of_common (fun _ _ _ same recovers => recovers _ same) each h

theorem recovers_list {written : α → Written} {as : List α}
    (h : ∀ a ∈ as, Recovers read (written a).full a) :
    Recovers (asList read) (Written.list (as.map written)).full as := by
  apply recovers_items
  rw [List.map_map, List.forall₂_map_left_iff]
  exact List.forall₂_same.mpr h

theorem recovers_texts (ss : List String) : Recovers (asList asText) (.ofTexts ss) ss := by
  apply recovers_items
  rw [List.forall₂_map_left_iff]
  exact List.forall₂_same.mpr fun s _ => recovers_text s

theorem recovers_null : Recovers (orNull read) .null none := by
  intro d h
  cases h
  rfl

theorem recovers_some (h : Recovers read w a) (some : w ≠ .null) :
    Recovers (orNull read) w (.some a) := by
  intro d respelled
  have same := h d respelled
  cases respelled with
  | null => exact absurd rfl some
  | _ => exact map_eq_read.mpr ⟨a, same, rfl⟩

theorem recovers_flag? (b : Option Bool) :
    Recovers (orNull asFlag) (match b with | none => .null | .some b => .bool b) b := by
  cases b with
  | none => exact recovers_null
  | some b => exact recovers_some (recovers_flag b) nofun

theorem recovers_text? (s : Option String) : Recovers (orNull asText) (.ofText? s) s := by
  cases s with
  | none => exact recovers_null
  | some s => exact recovers_some (recovers_text s) nofun

end

/-! ## Records -/

/-- Names of which no two have a spelling in common, and which have the second names of all fields
that have one. -/
structure Spelled (ns : List Names) : Prop where
  apart : Apart ns
  known : ∀ n ∈ ns, ∀ x ∈ secondNames, x.1 = n.main → x.2 ∈ n.others

instance (ns : List Names) : Decidable (Spelled ns) :=
  decidable_of_iff (Apart ns ∧ ∀ n ∈ ns, ∀ x ∈ secondNames, x.1 = n.main → x.2 ∈ n.others)
    ⟨fun ⟨apart, known⟩ => ⟨apart, known⟩, fun h => ⟨h.apart, h.known⟩⟩

theorem fields_of_respelled {entries : List Entry} {d : Json}
    (h : Respelled (Written.object entries).full d) :
    ∃ fields, d = .obj fields ∧ List.Forall₂ KeyRespelled (entries.map Entry.key) (fields.map (·.1)) ∧
      List.Forall₂ (fun e x => Respelled e.value.full x.2) entries fields := by
  change Respelled (.obj (entries.map fun e => (e.key, e.value.full))) d at h
  cases h with
  | @obj _ fields keys values =>
    rw [List.map_map] at keys values
    rw [List.forall₂_map_left_iff, List.forall₂_map_right_iff] at values
    exact ⟨fields, rfl, keys, values⟩

theorem paired_of_respelled {α : Type} {ns : List Names} (spelled : Spelled ns) {keys : List String}
    (main : ns.map Names.main = keys) {fields : List (String × α)}
    (h : List.Forall₂ KeyRespelled keys (fields.map (·.1))) : Paired ns fields := by
  subst main
  rw [List.forall₂_map_left_iff, List.forall₂_map_right_iff] at h
  refine forall₂_imp_of_mem h fun n hn x _ respelled => ?_
  rcases respelled with same | second
  · exact same ▸ List.mem_cons_self
  · exact List.mem_cons_of_mem _ (spelled.known n hn _ second rfl)

section
variable {β : Type} {r : Record Json β} {entries : List Entry} {b : β}
  (gives : r.Gives (entries.map fun e => Respelled e.value.full) b) (spelled : Spelled r.names)
  (main : r.names.map Names.main = entries.map Entry.key)
include gives spelled main

theorem recovers_closed : Recovers r.asClosed (Written.object entries).full b := by
  intro d h
  obtain ⟨fields, rfl, keys, values⟩ := fields_of_respelled h
  apply gives.runClosed_of_paired spelled.apart (paired_of_respelled spelled main keys)
  exact List.forall₂_map_right_iff.mpr values.flip

theorem recovers_open : Recovers r.asOpen (Written.object entries).full b := by
  intro d h
  obtain ⟨fields, rfl, keys, values⟩ := fields_of_respelled h
  apply gives.run_of_paired spelled.apart (paired_of_respelled spelled main keys)
  exact List.forall₂_map_right_iff.mpr values.flip

end

end MailRules.Document
