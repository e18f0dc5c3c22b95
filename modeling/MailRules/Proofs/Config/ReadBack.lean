import MailRules.Config.Reader
import MailRules.Config.Writer
import MailRules.Proofs.Config.Expression
import MailRules.Proofs.Document.Respelled

/-!
A configuration that was read is written as a document that is read as the same configuration,
however that document is respelled.

Expressions are read inside one another up to a depth. One that was read at a depth fits there
(`FilterExpr.Fits`), and what is written of it is read there again: a document is no deeper than the
expression that it stands for.

What is proved:
  1. `Author.recovers`, `Message.recovers`, `Actions.recovers` and so on: the flat parts of a
     configuration are read back.
  2. `FilterExpr.fits_of_readAt`: an expression that was read fits where it was read.
  3. `FilterExpr.recovers`: an expression that fits is read back.
  4. `Config.read_written`: so is every configuration that was read.
-/

namespace MailRules

open Document Document.Reading Document.Record

/-! ## Flat parts -/

theorem Author.recovers (a : Author) : Recovers Author.read a.written.full a := by
  apply recovers_open _ (by decide) rfl
  exact (gives_field (recovers_text a.name)).map Author.mk
    |>.seq (gives_field (recovers_text a.email))

theorem Color.recovers (c : Color) : Recovers Color.read c.written.full c := by
  apply recovers_open _ (by decide) rfl
  exact (gives_required (recovers_text c.background)).map Color.mk
    |>.seq (gives_required (recovers_text c.text))

theorem DeclaredLabel.recovers (l : DeclaredLabel) :
    Recovers DeclaredLabel.read l.written.full l := by
  have color : Recovers (orNull Color.read) (Written.optional (l.color.map (·.written))).full
      l.color := by
    cases l.color with
    | none => exact recovers_null
    | some c => exact recovers_some c.recovers nofun
  apply recovers_closed _ (by decide) rfl
  exact (gives_required (recovers_text l.name)).map DeclaredLabel.mk
    |>.seq (gives_field color)

theorem Message.recovers (m : Message) : Recovers Message.read m.written.full m := by
  apply recovers_closed _ (by decide) rfl
  exact (gives_field (recovers_text m.sender)).map Message.mk
    |>.seq (gives_field (recovers_texts m.recipients))
    |>.seq (gives_field (recovers_texts m.cc))
    |>.seq (gives_field (recovers_texts m.bcc))
    |>.seq (gives_field (recovers_texts m.replyTo))
    |>.seq (gives_field (recovers_texts m.lists))
    |>.seq (gives_field (recovers_text m.subject))
    |>.seq (gives_field (recovers_text m.body))

theorem recovers_category (c : Option Category) :
    Recovers (orNull Category.read) (.ofText? (c.map (·.name))) c := by
  cases c with
  | none => exact recovers_null
  | some c =>
    refine recovers_some (fun d h => ?_) nofun
    cases h
    simp only [Category.read, Category.ofName?_name]

theorem Actions.recovers (a : Actions) : Recovers Actions.read a.written.full a := by
  apply recovers_closed _ (by decide) rfl
  exact (gives_field (recovers_flag a.archive)).map Actions.mk
    |>.seq (gives_field (recovers_flag a.delete))
    |>.seq (gives_field (recovers_flag a.markRead))
    |>.seq (gives_field (recovers_flag a.star))
    |>.seq (gives_field (recovers_flag? a.markSpam))
    |>.seq (gives_field (recovers_flag? a.markImportant))
    |>.seq (gives_field (recovers_category a.category))
    |>.seq (gives_field (recovers_texts a.labels))
    |>.seq (gives_field (recovers_text a.forward))

theorem Trial.recovers (t : Trial) : Recovers Trial.read t.written.full t := by
  apply recovers_closed _ (by decide) rfl
  exact (gives_field (recovers_text t.name)).map Trial.mk
    |>.seq (gives_required (recovers_list fun m _ => m.recovers))
    |>.seq (gives_required t.actions.recovers)

/-! ## Expressions -/

namespace FilterExpr

/-- The fields of a written expression. -/
def entries (e : FilterExpr) : List Entry := [
  ⟨"and", writtenList e.conj, e.conj.isNone⟩, ⟨"or", writtenList e.disj, e.disj.isNone⟩,
  ⟨"not", writtenOption e.neg, e.neg.isNone⟩, .text? "from" e.sender, .text? "to" e.recipient,
  .text? "cc" e.cc, .text? "bcc" e.bcc, .text? "replyto" e.replyTo, .text? "subject" e.subject,
  .text? "list" e.list, .text? "has" e.has, .text? "query" e.query, .text? "name" e.name,
  .flag "isEscaped" e.escaped]

theorem written_eq (e : FilterExpr) : e.written = .object e.entries := by
  cases e
  rw [written]
  rfl

theorem writtenAll_eq_map : ∀ es, writtenAll es = es.map written
  | [] => by rw [writtenAll]; rfl
  | e :: es => by rw [writtenAll, writtenAll_eq_map es, List.map_cons]

theorem readItems_eq_items (depth : Nat) : ∀ (i : Nat) (vs : List Json),
    readItems depth i vs = items (readAt depth) i vs
  | _, [] => by rw [readItems, items]
  | i, v :: vs => by rw [readItems, items, readItems_eq_items depth (i + 1) vs]

theorem readOptional_eq (depth : Nat) (v : Json) :
    readOptional depth v = orNull (readAt depth) v := by
  cases v with
  | null => rw [readOptional]; rfl
  | obj fields =>
    rw [readOptional, orNull, readAt]
    · split <;> rfl
    · nofun
  | _ => rw [readOptional, orNull, readAt] <;> first | rfl | nofun

theorem readList_eq (depth : Nat) (v : Json) :
    readList depth v = orNull (asList (readAt depth)) v := by
  cases v with
  | null => rw [readList]; rfl
  | arr vs => rw [readList, readItems_eq_items]; rfl
  | _ => rw [readList] <;> first | rfl | nofun

/-- A value in an expression, and what it is read as if the expressions in it are inside `depth`
others. -/
def partAt (depth : Nat) (v : Json) : Part := ⟨v, readOptional depth v, readList depth v⟩

theorem readParts_eq_map (depth : Nat) : ∀ fields,
    readParts depth fields = fields.map fun x => (x.1, partAt depth x.2)
  | [] => by rw [readParts, List.map_nil]
  | x :: fields => by rw [readParts, readParts_eq_map depth fields, List.map_cons, partAt]

/-- An expression with room for itself and for the expressions in it, inside `depth` others. -/
inductive Fits : Nat → FilterExpr → Prop where
  | intro {depth : Nat} {e : FilterExpr} (inside : depth < depthLimit)
      (each : ∀ x ∈ e.children, Fits (depth + 1) x) : Fits depth e

/-! ### Expressions that were read -/

theorem orNull_eq_read {α : Type} {read : Json → Reading α} {v : Json} {a : α}
    (h : orNull read v = .read (some a)) : read v = .read a := by
  cases v with
  | null => cases h
  | _ =>
    obtain ⟨b, same, e⟩ := map_eq_read.mp h
    cases e
    exact same

/-- The parts of an expression, as the record of expressions sees them. -/
def partsAt (depth : Nat) (fields : Json.Fields) : List (String × Part) :=
  fields.map fun x => (x.1, partAt depth x.2)

theorem readAt_obj {depth : Nat} (inside : depth < depthLimit) (fields : Json.Fields) :
    readAt depth (.obj fields) = record.runClosed (partsAt (depth + 1) fields) := by
  rw [readAt, if_pos inside, readParts_eq_map, partsAt]

theorem exists_of_mem_partsAt {depth : Nat} {fields : Json.Fields} {x : String × Part}
    (h : x ∈ partsAt depth fields) :
    ∃ v, sizeOf v < sizeOf (Json.obj fields) ∧ x.2 = partAt depth v := by
  obtain ⟨y, hy, rfl⟩ := List.mem_map.mp h
  exact ⟨y.2, Json.sizeOf_lt_obj hy, rfl⟩

/-- An expression of a list that was read was read from a value inside the list. -/
theorem readAt_of_exprs {depth : Nat} {fields : Json.Fields} {es : Option (List FilterExpr)}
    (h : es = none ∨ ∃ x ∈ partsAt depth fields, x.2.asExprs = .read es) {e : FilterExpr}
    (he : e ∈ es.getD []) : ∃ w, sizeOf w < sizeOf (Json.obj fields) ∧ readAt depth w = .read e := by
  cases es with
  | none => cases he
  | some es =>
    obtain ⟨x, hx, same⟩ := h.resolve_left nofun
    obtain ⟨v, smaller, part⟩ := exists_of_mem_partsAt hx
    rw [part] at same
    have list : asList (readAt depth) v = .read es := orNull_eq_read (readList_eq depth v ▸ same)
    obtain ⟨vs, rfl, each⟩ := asList_eq_read.mp list
    obtain ⟨w, hw, one⟩ := exists_left_of_mem each he
    exact ⟨w, Nat.lt_trans (Json.sizeOf_lt_arr hw) smaller, one⟩

theorem readAt_of_expr {depth : Nat} {fields : Json.Fields} {e : FilterExpr}
    (h : ∃ x ∈ partsAt depth fields, x.2.asExpr = .read (some e)) :
    ∃ w, sizeOf w < sizeOf (Json.obj fields) ∧ readAt depth w = .read e := by
  obtain ⟨x, hx, same⟩ := h
  obtain ⟨v, smaller, part⟩ := exists_of_mem_partsAt hx
  rw [part] at same
  exact ⟨v, smaller, orNull_eq_read (readOptional_eq depth v ▸ same)⟩

theorem parts_of_run {fs : List (String × Part)} {e : FilterExpr} (h : record.run fs = .read e) :
    (e.conj = none ∨ ∃ x ∈ fs, x.2.asExprs = .read e.conj) ∧
      (e.disj = none ∨ ∃ x ∈ fs, x.2.asExprs = .read e.disj) ∧
      (e.neg = none ∨ ∃ x ∈ fs, x.2.asExpr = .read e.neg) := by
  -- The record reads the texts and the flag after the expressions.
  iterate 11
    obtain ⟨_, _, before, _, rfl⟩ := seq_run_eq_read.mp h
    clear h
    rename' before => h
  obtain ⟨_, _, before, neg, rfl⟩ := seq_run_eq_read.mp h
  obtain ⟨_, _, first, disj, rfl⟩ := seq_run_eq_read.mp before
  obtain ⟨_, conj, rfl⟩ := map_run_eq_read.mp first
  exact ⟨read_of_field conj, read_of_field disj, read_of_field neg⟩

/-- What an expression is built from was read from values inside the value of the expression. -/
theorem children_of_readAt {depth : Nat} {v : Json} {e : FilterExpr} (h : readAt depth v = .read e) :
    depth < depthLimit ∧
      ∀ x ∈ e.children, ∃ w, sizeOf w < sizeOf v ∧ readAt (depth + 1) w = .read x := by
  cases v with
  | obj fields =>
    have inside : depth < depthLimit := by
      by_contra deep
      rw [readAt, if_neg deep] at h
      cases h
    rw [readAt_obj inside] at h
    obtain ⟨conj, disj, neg⟩ := parts_of_run (run_of_runClosed h)
    refine ⟨inside, fun x hx => ?_⟩
    rw [children, List.mem_append, List.mem_append, Option.mem_toList] at hx
    rcases hx with (hx | hx) | hx
    · exact readAt_of_exprs conj hx
    · exact readAt_of_exprs disj hx
    · rw [hx] at neg
      exact readAt_of_expr (neg.resolve_left (Option.some_ne_none x))
  | _ => rw [readAt] at h <;> cases h

/-- An expression that was read inside others has room there. -/
theorem fits_of_readAt {depth : Nat} {v : Json} {e : FilterExpr} (h : readAt depth v = .read e) :
    Fits depth e := by
  induction size : sizeOf v using Nat.strongRecOn generalizing depth v e with
  | ind n ih =>
    obtain ⟨inside, inner⟩ := children_of_readAt h
    refine .intro inside fun x hx => ?_
    obtain ⟨w, smaller, same⟩ := inner x hx
    exact ih (sizeOf w) (size ▸ smaller) same rfl

/-! ### Expressions that are read back -/

/-- What is made of a value in an expression, however that is respelled. -/
def PartOf (depth : Nat) (w : Json) (part : Part) : Prop := ∃ v, Respelled w v ∧ part = partAt depth v

theorem gives_value {n : Names} {β : Type} {default b : β} {read : Json → Reading β} {w : Json}
    (depth : Nat) (h : Recovers read w b) :
    (Record.field n default fun p : Part => read p.value).Gives [PartOf depth w] b := by
  refine gives_field fun part hp => ?_
  obtain ⟨v, respelled, rfl⟩ := hp
  exact h v respelled

theorem gives_exprs {n : Names} {depth : Nat} {es : Option (List FilterExpr)}
    (h : ∀ x ∈ es.getD [], Recovers (readAt depth) x.written.full x) :
    (Record.field n none Part.asExprs).Gives [PartOf depth (writtenList es).full] es := by
  refine gives_field fun part hp => ?_
  obtain ⟨v, respelled, rfl⟩ := hp
  show readList depth v = .read es
  rw [readList_eq]
  cases es with
  | none => exact recovers_null v respelled
  | some es =>
    rw [writtenList, writtenAll_eq_map] at respelled
    exact recovers_some (recovers_list h) nofun v respelled

theorem gives_expr {n : Names} {depth : Nat} {e : Option FilterExpr}
    (h : ∀ x ∈ e.toList, Recovers (readAt depth) x.written.full x) :
    (Record.field n none Part.asExpr).Gives [PartOf depth (writtenOption e).full] e := by
  refine gives_field fun part hp => ?_
  obtain ⟨v, respelled, rfl⟩ := hp
  show readOptional depth v = .read e
  rw [readOptional_eq]
  cases e with
  | none =>
    rw [writtenOption] at respelled
    exact recovers_null v respelled
  | some e =>
    rw [writtenOption] at respelled
    refine recovers_some (h e (by simp)) ?_ v respelled
    rw [written_eq]
    nofun

theorem gives_entries {depth : Nat} {e : FilterExpr}
    (h : ∀ x ∈ e.children, Recovers (readAt depth) x.written.full x) :
    record.Gives (e.entries.map fun x => PartOf depth x.value.full) e := by
  have conj : ∀ x ∈ e.conj.getD [], Recovers (readAt depth) x.written.full x :=
    fun x hx => h x (List.mem_append_left _ (List.mem_append_left _ hx))
  have disj : ∀ x ∈ e.disj.getD [], Recovers (readAt depth) x.written.full x :=
    fun x hx => h x (List.mem_append_left _ (List.mem_append_right _ hx))
  have neg : ∀ x ∈ e.neg.toList, Recovers (readAt depth) x.written.full x :=
    fun x hx => h x (List.mem_append_right _ hx)
  cases e with
  | mk _ _ _ sender recipient cc bcc replyTo subject list has query name escaped =>
    exact (gives_exprs conj).map FilterExpr.mk
      |>.seq (gives_exprs disj)
      |>.seq (gives_expr neg)
      |>.seq (gives_value depth (recovers_text? sender))
      |>.seq (gives_value depth (recovers_text? recipient))
      |>.seq (gives_value depth (recovers_text? cc))
      |>.seq (gives_value depth (recovers_text? bcc))
      |>.seq (gives_value depth (recovers_text? replyTo))
      |>.seq (gives_value depth (recovers_text? subject))
      |>.seq (gives_value depth (recovers_text? list))
      |>.seq (gives_value depth (recovers_text? has))
      |>.seq (gives_value depth (recovers_text? query))
      |>.seq (gives_value depth (recovers_text? name))
      |>.seq (gives_value depth (recovers_flag escaped))

/-- **An expression is read back** where there is room for it. -/
theorem recovers {depth : Nat} {e : FilterExpr} (h : Fits depth e) :
    Recovers (readAt depth) e.written.full e := by
  induction h with
  | @intro depth e inside _ ih =>
    intro d respelled
    rw [written_eq] at respelled
    obtain ⟨fields, rfl, keys, values⟩ := fields_of_respelled respelled
    have spelled : Spelled record.names := by decide
    rw [readAt_obj inside]
    apply (gives_entries ih).runClosed_of_paired spelled.apart
    · have main : record.names.map Names.main = e.entries.map Entry.key := rfl
      apply paired_of_respelled spelled main
      rw [partsAt, List.map_map]
      exact keys
    · rw [partsAt, List.forall₂_map_left_iff, List.forall₂_map_right_iff]
      exact values.flip.imp fun x _ same => ⟨x.2, same, rfl⟩

end FilterExpr

/-! ## Configurations -/

theorem Rule.recovers {r : Rule} (h : r.filter.Fits 1) : Recovers Rule.read r.written.full r := by
  apply recovers_closed _ (by decide) rfl
  exact (gives_required (FilterExpr.recovers h)).map Rule.mk
    |>.seq (gives_required r.actions.recovers)

theorem NamedFilter.recovers {f : NamedFilter} (h : f.filter.Fits 1) :
    Recovers NamedFilter.read f.written.full f := by
  apply recovers_closed _ (by decide) rfl
  exact (gives_required (recovers_text f.name)).map NamedFilter.mk
    |>.seq (gives_required (FilterExpr.recovers h))

theorem Rule.fits_of_read {v : Json} {r : Rule} (h : Rule.read v = .read r) : r.filter.Fits 1 := by
  obtain ⟨fs, rfl, run⟩ := run_of_asClosed h
  obtain ⟨_, _, first, _, rfl⟩ := seq_run_eq_read.mp run
  obtain ⟨e, filter, rfl⟩ := map_run_eq_read.mp first
  obtain ⟨x, _, same⟩ := read_of_required filter
  exact FilterExpr.fits_of_readAt same

theorem NamedFilter.fits_of_read {v : Json} {f : NamedFilter} (h : NamedFilter.read v = .read f) :
    f.filter.Fits 1 := by
  obtain ⟨fs, rfl, run⟩ := run_of_asClosed h
  obtain ⟨_, e, name, filter, rfl⟩ := seq_run_eq_read.mp run
  obtain ⟨_, _, rfl⟩ := map_run_eq_read.mp name
  obtain ⟨x, _, same⟩ := read_of_required filter
  exact FilterExpr.fits_of_readAt same

namespace Config

theorem recovers {c : Config} (filters : ∀ f ∈ c.filters, f.filter.Fits 1)
    (rules : ∀ r ∈ c.rules, r.filter.Fits 1) : Recovers Config.read c.written.full c := by
  apply recovers_closed _ (by decide) rfl
  exact (gives_field (recovers_text c.version)).map Config.mk
    |>.seq (gives_field c.author.recovers)
    |>.seq (gives_field (recovers_list fun l _ => l.recovers))
    |>.seq (gives_field (recovers_list fun f hf => NamedFilter.recovers (filters f hf)))
    |>.seq (gives_field (recovers_list fun r hr => Rule.recovers (rules r hr)))
    |>.seq (gives_field (recovers_list fun t _ => t.recovers))

theorem fits_of_read {v : Json} {c : Config} (h : Config.read v = .read c) :
    (∀ f ∈ c.filters, f.filter.Fits 1) ∧ ∀ r ∈ c.rules, r.filter.Fits 1 := by
  obtain ⟨fs, rfl, run⟩ := run_of_asClosed h
  obtain ⟨_, _, toRules, _, rfl⟩ := seq_run_eq_read.mp run
  obtain ⟨_, rs, toFilters, rules, rfl⟩ := seq_run_eq_read.mp toRules
  obtain ⟨_, ns, toLabels, filters, rfl⟩ := seq_run_eq_read.mp toFilters
  obtain ⟨_, _, toAuthor, _, rfl⟩ := seq_run_eq_read.mp toLabels
  obtain ⟨_, _, toVersion, _, rfl⟩ := seq_run_eq_read.mp toAuthor
  obtain ⟨_, _, rfl⟩ := map_run_eq_read.mp toVersion
  exact ⟨forall_of_list filters fun _ _ => NamedFilter.fits_of_read,
    forall_of_list rules fun _ _ => Rule.fits_of_read⟩

/-- **A configuration that was read is written as a document that is read as the same
configuration**, and so is that document with any of its keys, at any depth, written with their
second names. -/
theorem read_written {v : Json} {c : Config} (h : Config.read v = .read c) :
    Config.read c.written.full = .read c ∧
      ∀ d, Respelled c.written.full d → Config.read d = .read c := by
  obtain ⟨filters, rules⟩ := fits_of_read h
  have back := recovers filters rules
  exact ⟨back _ (Respelled.refl _), back⟩

/-- A configuration with flags told by numbers and a nested expression. -/
theorem read_written_nested :
    let v : Json := .obj [("rules", .arr [.obj [("actions", .obj [("mark_read", .int 1)]),
      ("filter", .obj [("and", .arr [.obj [("from_", .str "a")],
        .obj [("not", .obj [("list", .str "b"), ("isEscaped", .int 0)])]])])]])]
    let c : Config := { rules := [⟨{ conj := some [{ sender := some "a" },
      { neg := some { list := some "b" } }] }, { markRead := true }⟩] }
    Config.read v = .read c ∧ Config.read c.written.full = .read c ∧
      ∀ d, Respelled c.written.full d → Config.read d = .read c := by
  intro v c
  have accepted : Config.read v = .read c := by rfl
  exact ⟨accepted, read_written accepted⟩

end Config

end MailRules
