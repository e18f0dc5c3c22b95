import MailRules.Native.Layout
import Mathlib.Data.List.DropRight

/-!
What a search laid out over several lines still tells.

The layout passes over blanks at the start of a search, after a bracket and after a colon, and what
is laid out is shown without the blanks at its end. Everything else is written down, so two searches
that take several lines are shown alike exactly if they are the same up to these blanks.

What is defined and proved:
  1. `withoutTail_append_cancel`: texts without their ends, cut after the same beginning.
  2. `kept`: the characters that are not passed over; the others leave no trace (`run_kept`).
  3. `Writes`: what is written for a character, and how it begins (`Writes.head`, `head_run`).
  4. `eq_of_written`, `written_eq_iff`: the characters can be told from what is written for them.
  5. `not_starred_run`: no line begins with a star and a blank.
  6. `indented_eq_iff`: when two searches are shown alike (`Respaced`).
-/

namespace MailRules.Native

/-! ## Texts without their ends -/

theorem withoutTail_append (xs ys : List Char) : withoutTail (xs ++ ys) =
    if withoutTail ys = [] then withoutTail xs else xs ++ withoutTail ys := by
  simp only [withoutTail, List.reverse_append, List.dropWhile_append, List.isEmpty_iff,
    List.reverse_eq_nil_iff]
  split <;> simp

theorem withoutTail_eq_nil_iff {cs : List Char} :
    withoutTail cs = [] ↔ ∀ c ∈ cs, c = ' ' ∨ c = '\n' := by
  rw [show withoutTail cs = cs.rdropWhile fun c => c = ' ' ∨ c = '\n' from rfl,
    List.rdropWhile_eq_nil_iff]
  simp

theorem withoutTail_isPrefix (cs : List Char) : withoutTail cs <+: cs :=
  List.rdropWhile_prefix _ cs

theorem eq_nil_of_withoutTail_eq_append {xs ys : List Char} (h : withoutTail xs = xs ++ ys) :
    ys = [] := by
  have shorter := (withoutTail_isPrefix xs).length_le
  rw [h, List.length_append] at shorter
  exact List.length_eq_zero_iff.mp (by omega)

theorem withoutTail_append_cancel {xs ys zs : List Char}
    (h : withoutTail (xs ++ ys) = withoutTail (xs ++ zs)) : withoutTail ys = withoutTail zs := by
  rw [withoutTail_append, withoutTail_append] at h
  by_cases left : withoutTail ys = []
  · by_cases right : withoutTail zs = []
    · rw [left, right]
    · rw [if_pos left, if_neg right] at h
      exact absurd (eq_nil_of_withoutTail_eq_append h) right
  · by_cases right : withoutTail zs = []
    · rw [if_neg left, if_pos right] at h
      exact absurd (eq_nil_of_withoutTail_eq_append h.symm) left
    · rw [if_neg left, if_neg right] at h
      exact List.append_cancel_left h

theorem withoutTail_append_congr (xs : List Char) {ys zs : List Char}
    (h : withoutTail ys = withoutTail zs) : withoutTail (xs ++ ys) = withoutTail (xs ++ zs) := by
  rw [withoutTail_append, withoutTail_append, h]

theorem withoutTail_cons_of_ne {c : Char} (blank : c ≠ ' ') (feed : c ≠ '\n') (cs : List Char) :
    withoutTail (c :: cs) = c :: withoutTail cs := by
  have single : withoutTail [c] = [c] := by simp [withoutTail, blank, feed]
  rw [← List.singleton_append, withoutTail_append, single]
  split
  · next none => rw [none]
  · rfl

theorem exists_withoutTail_eq_cons {c : Char} {cs : List Char} (some : withoutTail (c :: cs) ≠ []) :
    ∃ ds, withoutTail (c :: cs) = c :: ds := by
  rw [← List.singleton_append, withoutTail_append] at some ⊢
  split at some
  · next none =>
    rw [if_pos none]
    by_cases blank : c = ' ' ∨ c = '\n'
    · exact absurd (withoutTail_eq_nil_iff.mpr (by simpa using blank)) some
    · rw [not_or] at blank
      exact ⟨[], withoutTail_cons_of_ne blank.1 blank.2 []⟩
  · next ends =>
    rw [if_neg ends]
    exact ⟨_, rfl⟩

namespace Layout

/-! ## What is passed over -/

/-- What the character after the next one is read as. -/
def Mode.next (m : Mode) (c : Char) : Mode :=
  if m = .quoted then if c = '"' then .plain else .quoted
  else if c = ' ' then m
  else if c ∈ ['{', '(', '}', ')', ':'] then .skipping
  else if c = '"' then .quoted
  else .plain

/-- The characters of a search that the layout does not pass over. -/
def kept : Mode → List Char → List Char
  | _, [] => []
  | m, c :: cs => if m = .skipping ∧ c = ' ' then kept m cs else c :: kept (m.next c) cs

/-- There is nothing to pass over. -/
def Tight : Mode → List Char → Prop
  | _, [] => True
  | m, c :: cs => ¬ (m = .skipping ∧ c = ' ') ∧ Tight (m.next c) cs

theorem tight_kept : ∀ (m : Mode) (cs : List Char), Tight m (kept m cs)
  | _, [] => trivial
  | m, c :: cs => by
    rw [kept]
    split
    · exact tight_kept m cs
    · next taken => exact ⟨taken, tight_kept _ cs⟩

theorem mem_of_mem_kept {c : Char} : ∀ {m : Mode} {cs : List Char}, c ∈ kept m cs → c ∈ cs
  | m, d :: cs, h => by
    rw [kept] at h
    split at h
    · exact List.mem_cons_of_mem d (mem_of_mem_kept h)
    · rcases List.mem_cons.mp h with rfl | h
      · exact List.mem_cons_self
      · exact List.mem_cons_of_mem d (mem_of_mem_kept h)

theorem mode_step (s : State) (c : Char) : (step s c).2.mode = s.mode.next c := by
  simp only [step, Mode.next, List.mem_cons, List.not_mem_nil, or_false]
  grind

theorem step_passedOver {s : State} (h : s.mode = .skipping) : step s ' ' = ([], s) := by
  simp [step, h]

theorem step_blank {s : State} (h : s.mode = .plain) :
    step s ' ' = (newLine s.level, { s with broken := true }) := by
  simp [step, h]

theorem step_closing {s : State} (outside : s.mode ≠ .quoted) {c : Char}
    (bracket : c = '}' ∨ c = ')') :
    (step s c).1 = newLine (s.level - 1) ++ c :: newLine (s.level - 1) := by
  rcases bracket with rfl | rfl <;> simp [step, outside]

theorem run_cons (s : State) (c : Char) (cs : List Char) : run s (c :: cs) =
    ((step s c).1 ++ (run (step s c).2 cs).1, (run (step s c).2 cs).2) := rfl

/-- What is passed over leaves no trace. -/
theorem run_kept : ∀ (cs : List Char) (s : State), run s (kept s.mode cs) = run s cs
  | [], _ => rfl
  | c :: cs, s => by
    rw [kept]
    split
    · next passed =>
      obtain ⟨mode, rfl⟩ := passed
      rw [run_kept cs s, run_cons, step_passedOver mode]
      rfl
    · rw [run_cons, run_cons, ← mode_step, run_kept cs (step s c).2]

/-! ## What is written -/

inductive Writes (s : State) : Char → List Char → Prop
  | passedOver (skipping : s.mode = .skipping) : Writes s ' ' []
  | blank (plain : s.mode = .plain) : Writes s ' ' (newLine s.level)
  | opening {c : Char} (outside : s.mode ≠ .quoted) (bracket : c = '{' ∨ c = '(') :
      Writes s c (c :: newLine (s.level + 1))
  | closing {c : Char} (outside : s.mode ≠ .quoted) (bracket : c = '}' ∨ c = ')') :
      Writes s c (newLine (s.level - 1) ++ c :: newLine (s.level - 1))
  | itself {c : Char} (other : s.mode = .quoted ∨ c ∉ [' ', '{', '(', '}', ')']) : Writes s c [c]

theorem writes_step (s : State) (c : Char) : Writes s c (step s c).1 := by
  by_cases quoted : s.mode = .quoted
  · simp only [step, if_pos quoted]
    exact .itself (.inl quoted)
  by_cases blank : c = ' '
  · subst blank
    cases mode : s.mode with
    | skipping =>
      simp only [step, mode]
      exact .passedOver mode
    | plain =>
      simp only [step, mode]
      exact .blank mode
    | quoted => exact absurd mode quoted
  by_cases opening : c = '{' ∨ c = '('
  · simp only [step, if_neg quoted, if_neg blank, if_pos opening]
    exact .opening quoted opening
  by_cases closing : c = '}' ∨ c = ')'
  · simp only [step, if_neg quoted, if_neg blank, if_neg opening, if_pos closing]
    exact .closing quoted closing
  have alone : (step s c).1 = [c] := by
    simp only [step, if_neg quoted, if_neg blank, if_neg opening, if_neg closing]
    split
    · rfl
    · split <;> rfl
  rw [alone]
  exact .itself (.inr (by simp [blank, not_or.mp opening, not_or.mp closing]))

theorem Writes.blank_iff {s : State} {c : Char} {written : List Char} (h : Writes s c written) :
    (∀ d ∈ written, d = ' ' ∨ d = '\n') ↔ c = ' ' ∨ c = '\n' := by
  have line (level : Int) : ∀ d ∈ newLine level, d = ' ' ∨ d = '\n' := by
    simp +contextual [newLine, indentation]
  cases h with
  | passedOver _ => simp
  | blank _ => exact iff_of_true (line s.level) (.inl rfl)
  | opening _ _ => rw [List.forall_mem_cons, and_iff_left (line _)]
  | closing _ _ =>
    rw [List.forall_mem_append, List.forall_mem_cons, and_iff_right (line _),
      and_iff_left (line _)]
  | itself _ => exact List.forall_mem_singleton

theorem Writes.head {s : State} {c : Char} {written : List Char} (h : Writes s c written)
    (taken : ¬ (s.mode = .skipping ∧ c = ' ')) : ∃ rest,
      written = (if s.mode ≠ .quoted ∧ c ∈ [' ', '}', ')'] then '\n' else c) :: rest := by
  cases h with
  | passedOver skipping => exact absurd ⟨skipping, rfl⟩ taken
  | blank plain => exact ⟨indentation s.level, by simp [plain, newLine]⟩
  | opening outside bracket =>
    refine ⟨newLine (s.level + 1), ?_⟩
    rcases bracket with rfl | rfl <;> simp
  | closing outside bracket =>
    rcases bracket with rfl | rfl <;> simp [outside, newLine]
  | itself other =>
    refine ⟨[], ?_⟩
    rw [if_neg]
    rintro ⟨outside, among⟩
    have := other.resolve_left outside
    grind

/-- A blank and a closing bracket outside of quotes are told apart by what follows the new line. -/
theorem blank_ne_closing {level : Int} {d : Char} (bracket : d = '}' ∨ d = ')')
    {written rest : List Char} (after : ∀ rest, written ≠ d :: rest) :
    withoutTail (newLine level ++ written) ≠ withoutTail (newLine (level - 1) ++ d :: rest) := by
  intro h
  have deeper : newLine level =
      newLine (level - 1) ++ List.replicate (2 * level.toNat - 2 * (level - 1).toNat) ' ' := by
    rw [newLine, newLine, List.cons_append, indentation, indentation,
      List.replicate_append_replicate]
    congr 3
    omega
  rw [deeper, List.append_assoc] at h
  have h := withoutTail_append_cancel h
  rw [withoutTail_cons_of_ne (by grind) (by grind) rest] at h
  obtain ⟨tail, begins⟩ : ∃ tail,
      List.replicate (2 * level.toNat - 2 * (level - 1).toNat) ' ' ++ written = d :: tail := by
    obtain ⟨tail, ht⟩ := h ▸ withoutTail_isPrefix _
    exact ⟨_, ht.symm⟩
  cases blanks : 2 * level.toNat - 2 * (level - 1).toNat with
  | zero =>
    rw [blanks] at begins
    exact after tail begins
  | succ n =>
    rw [blanks, List.replicate_succ, List.cons_append] at begins
    have := (List.cons.inj begins).1
    grind

theorem withoutTail_run_eq_nil_iff : ∀ (s : State) (cs : List Char),
    withoutTail (run s cs).1 = [] ↔ withoutTail cs = []
  | _, [] => Iff.rfl
  | s, c :: cs => by
    rw [run_cons, withoutTail_eq_nil_iff, withoutTail_eq_nil_iff, List.forall_mem_append,
      List.forall_mem_cons, (writes_step s c).blank_iff, ← withoutTail_eq_nil_iff,
      ← withoutTail_eq_nil_iff, withoutTail_run_eq_nil_iff]

theorem head_run : ∀ {cs : List Char} {s : State} {d : Char} {rest : List Char},
    s.mode ≠ .quoted → (run s cs).1 = d :: rest → d ∉ [' ', '}', ')']
  | [], _, _, _, _, h => by cases h
  | c :: cs, s, d, rest, outside, h => by
    rw [run_cons] at h
    by_cases passed : s.mode = .skipping ∧ c = ' '
    · obtain ⟨skipping, rfl⟩ := passed
      rw [step_passedOver skipping] at h
      exact head_run outside h
    · obtain ⟨written, hw⟩ := (writes_step s c).head passed
      rw [hw] at h
      obtain ⟨rfl, _⟩ := List.cons.inj h
      by_cases special : c ∈ [' ', '}', ')']
      · simp [outside, special]
      · simp [outside, special]

theorem run_blank_ne_closing {s : State} (plain : s.mode = .plain) {d : Char}
    (bracket : d = '}' ∨ d = ')') (cs ds : List Char) :
    withoutTail (run s (' ' :: cs)).1 ≠ withoutTail (run s (d :: ds)).1 := by
  have outside : s.mode ≠ .quoted := by simp [plain]
  rw [run_cons, run_cons, step_blank plain, step_closing outside bracket, List.append_assoc]
  refine blank_ne_closing bracket fun rest begins => head_run ?_ begins ?_
  · exact outside
  · simpa using .inr bracket

theorem run_closing_unique {s : State} (outside : s.mode ≠ .quoted) {c d : Char}
    (bracket : c = '}' ∨ c = ')') (bracket' : d = '}' ∨ d = ')') {cs ds : List Char}
    (h : withoutTail (run s (c :: cs)).1 = withoutTail (run s (d :: ds)).1) : c = d := by
  rw [run_cons, run_cons, step_closing outside bracket, step_closing outside bracket',
    List.append_assoc, List.append_assoc] at h
  have after := withoutTail_append_cancel h
  rw [List.cons_append, List.cons_append, withoutTail_cons_of_ne (by grind) (by grind),
    withoutTail_cons_of_ne (by grind) (by grind)] at after
  exact (List.cons.inj after).1

theorem head_of_written {s : State} {c d : Char} (taken : ¬ (s.mode = .skipping ∧ c = ' '))
    (taken' : ¬ (s.mode = .skipping ∧ d = ' ')) {cs ds : List Char}
    (some : withoutTail (run s (c :: cs)).1 ≠ [])
    (h : withoutTail (run s (c :: cs)).1 = withoutTail (run s (d :: ds)).1) :
    (if s.mode ≠ .quoted ∧ c ∈ [' ', '}', ')'] then '\n' else c) =
      if s.mode ≠ .quoted ∧ d ∈ [' ', '}', ')'] then '\n' else d := by
  obtain ⟨rest, hc⟩ := (writes_step s c).head taken
  obtain ⟨rest', hd⟩ := (writes_step s d).head taken'
  have some' := h ▸ some
  rw [run_cons, hc, List.cons_append] at h some
  rw [run_cons, hd, List.cons_append] at h some'
  obtain ⟨tail, ht⟩ := exists_withoutTail_eq_cons some
  obtain ⟨tail', ht'⟩ := exists_withoutTail_eq_cons some'
  rw [ht, ht'] at h
  exact (List.cons.inj h).1

theorem eq_of_written {s : State} {c d : Char} (taken : ¬ (s.mode = .skipping ∧ c = ' '))
    (taken' : ¬ (s.mode = .skipping ∧ d = ' ')) (noFeed : c ≠ '\n') (noFeed' : d ≠ '\n')
    {cs ds : List Char} (some : withoutTail (run s (c :: cs)).1 ≠ [])
    (h : withoutTail (run s (c :: cs)).1 = withoutTail (run s (d :: ds)).1) : c = d := by
  have heads := head_of_written taken taken' some h
  by_cases special : s.mode ≠ .quoted ∧ c ∈ [' ', '}', ')']
  · by_cases special' : s.mode ≠ .quoted ∧ d ∈ [' ', '}', ')']
    · -- Both begin with a new line: what stands after it tells them apart.
      obtain ⟨outside, among⟩ := special
      have plain (blank : c = ' ' ∨ d = ' ') : s.mode = .plain := by
        cases mode : s.mode <;> grind
      rcases List.mem_cons.mp among with rfl | bracket
      · rcases List.mem_cons.mp special'.2 with rfl | bracket'
        · rfl
        · exact absurd h (run_blank_ne_closing (plain (.inl rfl)) (by simpa using bracket') cs ds)
      · rcases List.mem_cons.mp special'.2 with rfl | bracket'
        · exact absurd h.symm
            (run_blank_ne_closing (plain (.inr rfl)) (by simpa using bracket) ds cs)
        · exact run_closing_unique outside (by simpa using bracket) (by simpa using bracket') h
    · rw [if_pos special, if_neg special'] at heads
      exact absurd heads.symm noFeed'
  · by_cases special' : s.mode ≠ .quoted ∧ d ∈ [' ', '}', ')']
    · rw [if_neg special, if_pos special'] at heads
      exact absurd heads noFeed
    · rwa [if_neg special, if_neg special'] at heads

/-- What is written for two searches is the same, up to the blanks at the end, exactly if their
characters are. -/
theorem written_eq_iff : ∀ {cs ds : List Char} {s : State}, Tight s.mode cs → Tight s.mode ds →
    '\n' ∉ cs → '\n' ∉ ds →
      (withoutTail (run s cs).1 = withoutTail (run s ds).1 ↔ withoutTail cs = withoutTail ds)
  | [], ds, s, _, _, _, _ => by
    have vanishes : withoutTail [] = ([] : List Char) := rfl
    rw [show (run s []).1 = [] from rfl, vanishes, eq_comm, withoutTail_run_eq_nil_iff, eq_comm]
  | c :: cs, [], s, _, _, _, _ => withoutTail_run_eq_nil_iff s (c :: cs)
  | c :: cs, d :: ds, s, tight, tight', noFeed, noFeed' => by
    obtain ⟨taken, tight⟩ := tight
    obtain ⟨taken', tight'⟩ := tight'
    rw [← mode_step] at tight tight'
    by_cases vanish : withoutTail (c :: cs) = []
    · rw [vanish, (withoutTail_run_eq_nil_iff s (c :: cs)).mpr vanish, eq_comm,
        withoutTail_run_eq_nil_iff, eq_comm]
    by_cases same : c = d
    · subst same
      have rest := written_eq_iff tight tight' (by grind) (by grind)
      rw [run_cons, run_cons]
      exact ⟨fun h => withoutTail_append_congr [c] (rest.mp (withoutTail_append_cancel h)),
        fun h => withoutTail_append_congr _ (rest.mpr (@withoutTail_append_cancel [c] _ _ h))⟩
    · refine iff_of_false (fun h => same ?_) (fun h => same ?_)
      · have some := mt (withoutTail_run_eq_nil_iff s (c :: cs)).mp vanish
        exact eq_of_written taken taken' (by grind) (by grind) some h
      · obtain ⟨tail, ht⟩ := exists_withoutTail_eq_cons vanish
        obtain ⟨tail', ht'⟩ := exists_withoutTail_eq_cons (h ▸ vanish)
        rw [ht, ht'] at h
        exact (List.cons.inj h).1

/-! ## Lines that do not occur -/

theorem not_starred_newLine (level : Int) {cs : List Char} (within : ¬ ['\n', '*', ' '] <:+: cs)
    (first : ¬ ['*', ' '] <+: cs) : ¬ ['\n', '*', ' '] <:+: newLine level ++ cs := by
  rw [newLine, indentation]
  have deeper (n : Nat) : ¬ ['\n', '*', ' '] <:+: List.replicate n ' ' ++ cs := by
    induction n with
    | zero => exact within
    | succ n ih => simpa [List.replicate_succ, List.infix_cons_iff] using ih
  rw [List.cons_append, List.infix_cons_iff, not_or]
  refine ⟨?_, deeper _⟩
  cases 2 * level.toNat with
  | zero => simpa using first
  | succ n => simp [List.replicate_succ]

theorem not_starred_cons {c : Char} (feed : c ≠ '\n') {cs : List Char}
    (within : ¬ ['\n', '*', ' '] <:+: cs) : ¬ ['\n', '*', ' '] <:+: c :: cs := by
  rw [List.infix_cons_iff, not_or]
  exact ⟨by simpa using fun h => absurd h.symm feed, within⟩

theorem not_starred_run : ∀ {cs : List Char} (s : State), '\n' ∉ cs →
    ¬ ['\n', '*', ' '] <:+: (run s cs).1 ∧ (s.mode ≠ .quoted → ¬ ['*', ' '] <+: (run s cs).1)
  | [], _, _ => by simp [run]
  | c :: cs, s, noFeed => by
    rw [List.mem_cons, not_or] at noFeed
    have feed := Ne.symm noFeed.1
    obtain ⟨within, first⟩ := not_starred_run (step s c).2 noFeed.2
    rw [mode_step] at first
    rw [run_cons]
    have writes := writes_step s c
    generalize (step s c).1 = written at writes
    -- Outside of quotes what follows a new line does not begin with a star and a blank either.
    cases writes with
    | passedOver skipping =>
      rw [skipping] at first ⊢
      exact ⟨within, first⟩
    | blank plain =>
      rw [plain] at first
      exact ⟨not_starred_newLine _ within (first (by decide)), by simp [newLine]⟩
    | opening outside bracket =>
      have next : s.mode.next c = .skipping := by grind [Mode.next]
      refine ⟨not_starred_cons feed (not_starred_newLine _ within (first (by simp [next]))), ?_⟩
      rcases bracket with rfl | rfl <;> simp
    | closing outside bracket =>
      have next : s.mode.next c = .skipping := by grind [Mode.next]
      refine ⟨?_, by simp [newLine]⟩
      rw [List.append_assoc, List.cons_append]
      refine not_starred_newLine _ (not_starred_cons feed
        (not_starred_newLine _ within (first (by simp [next])))) ?_
      rcases bracket with rfl | rfl <;> simp
    | itself other =>
      refine ⟨not_starred_cons feed within, fun outside starred => ?_⟩
      obtain ⟨rfl, rest⟩ := List.cons_prefix_cons.mp starred
      obtain ⟨rest, hr⟩ := rest
      have after : (step s '*').2.mode ≠ .quoted := by
        rw [mode_step]
        simp [Mode.next, outside]
      exact absurd List.mem_cons_self (head_run after hr.symm)

/-- Whether a line is broken does not depend on the depths. -/
theorem broken_run : ∀ (cs : List Char) {s s' : State}, s.mode = s'.mode → s.broken = s'.broken →
    (run s cs).2.broken = (run s' cs).2.broken
  | [], _, _, _, broken => broken
  | c :: cs, s, s', mode, broken => by
    rw [run_cons, run_cons]
    refine broken_run cs ?_ ?_
    · rw [mode_step, mode_step, mode]
    · simp only [step, mode]
      grind

end Layout

def Wrapped (query : String) : Prop := (Layout.text 0 query).2 = true

/-- Two searches are the same, up to the blanks that a layout over several lines passes over or cuts
off at the end. -/
def Respaced (query query' : String) : Prop :=
  query = query' ∨ Wrapped query ∧ Wrapped query' ∧
    withoutTail (Layout.kept .skipping query.toList) =
      withoutTail (Layout.kept .skipping query'.toList)

theorem not_wrapped_empty : ¬ Wrapped "" := by simp [Wrapped, Layout.text, Layout.run]

theorem broken_text (level : Int) (query : String) :
    (Layout.text level query).2 = true ↔ Wrapped query :=
  Bool.eq_iff_iff.mp (Layout.broken_run query.toList rfl rfl)

theorem indented_of_not {query : String} (level : Int) (h : ¬ Wrapped query) :
    indented query level = query := by
  rw [← broken_text (level + 1), Bool.not_eq_true] at h
  rw [indented]
  split
  · rfl
  · next wrapped => rw [wrapped] at h; cases h

theorem toList_indented {query : String} (level : Int) (h : Wrapped query) :
    (indented query level).toList = '\n' :: withoutTail (Layout.indentation (level + 1) ++
      (Layout.run { level := level + 1 } query.toList).1) := by
  rw [← broken_text (level + 1)] at h
  rw [indented]
  split
  · next plain => rw [plain] at h; cases h
  · next text wrapped =>
    have written := congrArg (·.1.toList) wrapped
    simp only [Layout.text, String.toList_ofList] at written
    rw [String.toList_ofList, written]

theorem ne_indented {query query' : String} (level : Int) (noFeed : '\n' ∉ query.toList)
    (h : Wrapped query') : query ≠ indented query' level := by
  intro same
  have wrapped := toList_indented level h
  rw [← same] at wrapped
  rw [wrapped] at noFeed
  exact noFeed List.mem_cons_self

/-- No line of a search below its parameter begins with a star and a blank. -/
theorem not_starred_indented {query : String} (noFeed : '\n' ∉ query.toList) (level : Int) :
    ¬ ['\n', '*', ' '] <:+: (indented query level).toList := by
  by_cases wrapped : Wrapped query
  · rw [toList_indented level wrapped]
    obtain ⟨within, first⟩ := Layout.not_starred_run { level := level + 1 } noFeed
    intro starred
    refine Layout.not_starred_newLine (level + 1) within (first Layout.Mode.noConfusion)
      (starred.trans ?_)
    exact (List.cons_prefix_cons.mpr ⟨rfl, withoutTail_isPrefix _⟩).isInfix
  · rw [indented_of_not level wrapped]
    exact fun starred => noFeed (starred.subset List.mem_cons_self)

/-- When two searches are shown alike below their parameter. -/
theorem indented_eq_iff {query query' : String} (noFeed : '\n' ∉ query.toList)
    (noFeed' : '\n' ∉ query'.toList) (level : Int) :
    indented query level = indented query' level ↔ Respaced query query' := by
  by_cases wrapped : Wrapped query
  · by_cases wrapped' : Wrapped query'
    · have within {q : String} (noFeed : '\n' ∉ q.toList) :
          '\n' ∉ Layout.kept .skipping q.toList := mt Layout.mem_of_mem_kept noFeed
      have written := Layout.written_eq_iff (s := { level := level + 1 })
        (Layout.tight_kept .skipping query.toList) (Layout.tight_kept .skipping query'.toList)
        (within noFeed) (within noFeed')
      rw [Layout.run_kept query.toList { level := level + 1 },
        Layout.run_kept query'.toList { level := level + 1 }] at written
      rw [← String.toList_inj, toList_indented level wrapped, toList_indented level wrapped',
        List.cons.injEq, and_iff_right rfl]
      constructor
      · intro h
        exact .inr ⟨wrapped, wrapped', written.mp (withoutTail_append_cancel h)⟩
      · rintro (rfl | ⟨-, -, h⟩)
        · rfl
        · exact withoutTail_append_congr _ (written.mpr h)
    · rw [indented_of_not level wrapped']
      refine iff_of_false (ne_indented level noFeed' wrapped).symm ?_
      rintro (rfl | ⟨-, wrapped', -⟩) <;> contradiction
  · rw [indented_of_not level wrapped]
    by_cases wrapped' : Wrapped query'
    · refine iff_of_false (ne_indented level noFeed wrapped') ?_
      rintro (rfl | ⟨wrapped, -, -⟩) <;> contradiction
    · rw [indented_of_not level wrapped']
      exact ⟨.inl, fun h => h.resolve_right fun h => wrapped h.1⟩

end MailRules.Native
