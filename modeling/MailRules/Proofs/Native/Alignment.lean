import MailRules.Proofs.Native.Layout
import MailRules.Proofs.Text.Brackets

/-!
A layout moves blanks only, and puts closing brackets below their opening ones.

The layout adds blanks around the characters of a search and passes over some blanks of the search,
all of them outside of quotes. So what is left without the blanks outside of quotes is the same
before and after. Blanks do not matter to a reader of brackets, who finds the same brackets open in
the search and in its layout. The depth of the layout is told by the number of open brackets, and
each line starts with the blanks of the depth at which it begins. A closing bracket gets a line of
its own at the depth of its opening bracket, so the two lines are indented alike.

What is defined and proved:
  1. `solid`: a text without the blanks outside of quotes; `solid_run`: a layout has that of its
     search.
  2. `read_run`: the same brackets are open. `Follows`: they tell the depth (`Follows.run`).
  3. `lastLine`: the line that a text ends with. `Margin`: it is indented by its depth
     (`Margin.run`).
  4. `exists_split`: where a character of the layout comes from.
  5. `text_relaid`: what a layout keeps, how it is aligned (`Aligned`), and when there is none.
-/

namespace MailRules.Native

open Text

namespace Layout

theorem mem_indentation {level : Int} {c : Char} (h : c ∈ indentation level) : c = ' ' :=
  List.eq_of_mem_replicate h

theorem mem_newLine {level : Int} {c : Char} (h : c ∈ newLine level) : c = ' ' ∨ c = '\n' := by
  rcases List.mem_cons.mp h with feed | blank
  · exact .inr feed
  · exact .inl (mem_indentation blank)

/-- Whether the text goes on in quotes after a character. -/
theorem quoted_next (m : Mode) (c : Char) : decide (m.next c = .quoted) =
    if c = '"' then !decide (m = .quoted) else decide (m = .quoted) := by
  cases m <;> grind [Mode.next]

/-! ## What stays without blanks -/

/-- A text without the spaces and line feeds that are outside of quotes, given whether the text
starts inside. -/
def solid : Bool → List Char → List Char
  | _, [] => []
  | quoted, c :: cs =>
    if c = '"' then c :: solid (!quoted) cs
    else if !quoted ∧ (c = ' ' ∨ c = '\n') then solid quoted cs
    else c :: solid quoted cs

theorem solid_cons_congr {quoted : Bool} {c : Char} {cs ds : List Char}
    (h : solid (if c = '"' then !quoted else quoted) cs =
      solid (if c = '"' then !quoted else quoted) ds) :
    solid quoted (c :: cs) = solid quoted (c :: ds) := by
  unfold solid
  split
  · next quote =>
    rw [if_pos quote] at h
    rw [h]
  · next other =>
    rw [if_neg other] at h
    rw [h]

theorem solid_blanks {xs : List Char} (blank : ∀ c ∈ xs, c = ' ' ∨ c = '\n') (ys : List Char) :
    solid false (xs ++ ys) = solid false ys := by
  induction xs with
  | nil => rfl
  | cons c cs ih =>
    obtain ⟨first, others⟩ := List.forall_mem_cons.mp blank
    have other : c ≠ '"' := by
      rcases first with rfl | rfl <;> decide
    rw [List.cons_append, solid, if_neg other, if_pos ⟨rfl, first⟩, ih others]

/-- Blanks are all that is written for a character besides itself. -/
theorem Writes.solid {s : State} {c : Char} {written : List Char} (h : Writes s c written)
    (rest : List Char) : solid (s.mode = .quoted) (written ++ rest) =
      solid (s.mode = .quoted) (c :: rest) := by
  cases h with
  | passedOver skipping =>
    rw [skipping]
    rfl
  | blank plain =>
    rw [plain]
    exact solid_blanks (fun _ => mem_newLine) rest
  | opening outside bracket =>
    rw [decide_eq_false outside]
    apply solid_cons_congr
    rw [if_neg (ne_quote_of_bracket (.inl (isOpening_iff.mpr bracket)))]
    exact solid_blanks (fun _ => mem_newLine) rest
  | closing outside bracket =>
    rw [decide_eq_false outside, List.append_assoc, solid_blanks fun _ => mem_newLine]
    apply solid_cons_congr
    rw [if_neg (ne_quote_of_bracket (.inr (isClosing_iff.mpr bracket)))]
    exact solid_blanks (fun _ => mem_newLine) rest
  | itself other => rfl

theorem solid_run : ∀ (cs : List Char) (s : State),
    solid (s.mode = .quoted) (run s cs).1 = solid (s.mode = .quoted) cs
  | [], _ => rfl
  | c :: cs, s => by
    rw [run_cons, (writes_step s c).solid]
    apply solid_cons_congr
    rw [← quoted_next, ← mode_step]
    exact solid_run cs (step s c).2

/-! ## Which brackets are open -/

section
variable {fits : Char → Char → Bool} {n n' : Nesting}

theorem read_blanks {xs : List Char} (blank : ∀ c ∈ xs, c = ' ' ∨ c = '\n') :
    Nesting.read fits n xs = some n := by
  apply Nesting.read_of_neutral
  intro c hc
  rcases blank c hc with rfl | rfl <;> decide

theorem read_indentation (level : Int) (xs : List Char) :
    Nesting.read fits n (indentation level ++ xs) = Nesting.read fits n xs := by
  rw [Nesting.read_append, read_blanks fun _ h => .inl (mem_indentation h)]
  rfl

theorem Writes.read {s : State} {c : Char} {written : List Char} (h : Writes s c written) :
    Nesting.read fits n written = Nesting.step fits n c := by
  have alone (n : Nesting) (level : Int) :
      Nesting.read fits n (c :: newLine level) = Nesting.step fits n c := by
    rw [Nesting.read]
    cases Nesting.step fits n c with
    | none => rfl
    | some n' => exact read_blanks fun _ => mem_newLine
  cases h with
  | passedOver skipping => exact (Nesting.Reads.passed (by decide) (.inr rfl)).step.symm
  | blank plain =>
    rw [read_blanks fun _ => mem_newLine]
    exact (Nesting.Reads.passed (by decide) (.inr rfl)).step.symm
  | opening outside bracket => exact alone n _
  | closing outside bracket =>
    rw [Nesting.read_append, read_blanks fun _ => mem_newLine]
    exact alone n _
  | itself other => exact Option.bind_fun_some _

/-- The same brackets are open in a layout as in its search. -/
theorem read_run : ∀ (cs : List Char) (s : State) (n : Nesting),
    Nesting.read fits n (run s cs).1 = Nesting.read fits n cs
  | [], _, _ => rfl
  | c :: cs, s, n => by
    rw [run_cons, Nesting.read_append, (writes_step s c).read, Nesting.read]
    cases Nesting.step fits n c with
    | none => rfl
    | some n' => exact read_run cs (step s c).2 n'

/-- The layout is in quotes where a reader is, and as deep as there are brackets open. -/
structure Follows (base : Int) (n : Nesting) (s : State) : Prop where
  quoted : n.quoted = decide (s.mode = .quoted)
  level : s.level = base + n.opened.length

theorem level_idle {s : State} {c : Char} (idle : s.mode = .quoted ∨ isBracket c = false) :
    (step s c).2.level = s.level := by
  rw [isBracket_eq_false_iff, ← Bool.not_eq_true, ← Bool.not_eq_true, isOpening_iff,
    isClosing_iff] at idle
  unfold step
  grind

theorem step_opens {s : State} {c : Char} (outside : s.mode ≠ .quoted)
    (bracket : isOpening c = true) :
    step s c = (c :: newLine (s.level + 1), ⟨.skipping, s.level + 1, true⟩) := by
  rcases isOpening_iff.mp bracket with rfl | rfl <;> simp [step, outside]

theorem step_closes {s : State} {c : Char} (outside : s.mode ≠ .quoted)
    (bracket : isClosing c = true) : step s c =
      (newLine (s.level - 1) ++ c :: newLine (s.level - 1), ⟨.skipping, s.level - 1, true⟩) := by
  rcases isClosing_iff.mp bracket with rfl | rfl <;> simp [step, outside]

theorem Follows.step {base : Int} {s : State} {c : Char} (h : Follows base n s)
    (r : Nesting.Reads fits n c n') : Follows base n' (step s c).2 := by
  have quoted := h.quoted
  have level := h.level
  refine ⟨by rw [mode_step, quoted_next, r.quoted_eq, quoted], ?_⟩
  cases r with
  | quote q opened =>
    rw [level_idle (.inr rfl)]
    exact level
  | passed other idle =>
    rw [quoted, decide_eq_true_iff] at idle
    rw [level_idle idle]
    exact level
  | opening opened bracket =>
    rw [step_opens (of_decide_eq_false quoted.symm) bracket, level]
    show base + opened.length + 1 = base + (opened.length + 1 : ℕ)
    omega
  | closing opened bracket fit =>
    rw [step_closes (of_decide_eq_false quoted.symm) bracket, level]
    show base + (opened.length + 1 : ℕ) - 1 = base + opened.length
    omega

theorem Follows.run {base : Int} : ∀ {cs : List Char} {s : State} {n : Nesting},
    Follows base n s → Nesting.read fits n cs = some n' → Follows base n' (run s cs).2
  | [], _, _, h, r => by
    cases r
    exact h
  | c :: cs, s, n, h, r => by
    obtain ⟨next, first, rest⟩ := Option.bind_eq_some_iff.mp r
    rw [run_cons]
    exact (h.step (Nesting.reads_of_step first)).run rest

end

/-! ## How lines are indented -/

/-- The line that a text ends with, as far as it is written. -/
def lastLine (cs : List Char) : List Char := cs.rtakeWhile fun c => c ≠ '\n'

theorem lastLine_concat {c : Char} (feed : c ≠ '\n') (cs : List Char) :
    lastLine (cs ++ [c]) = lastLine cs ++ [c] :=
  List.rtakeWhile_concat_pos _ _ _ (by simpa using feed)

theorem lastLine_newLine (cs : List Char) (level : Int) :
    lastLine (cs ++ newLine level) = indentation level := by
  have line : ∀ c ∈ (indentation level).reverse, decide (c ≠ '\n') = true := by
    intro c hc
    rw [mem_indentation (List.mem_reverse.mp hc)]
    rfl
  unfold lastLine newLine List.rtakeWhile
  rw [List.reverse_append, List.reverse_cons, List.append_assoc, List.takeWhile_append_of_pos line,
    List.singleton_append, List.takeWhile_cons_of_neg (by simp), List.append_nil,
    List.reverse_reverse]

theorem lastLine_indentation (level : Int) : lastLine (indentation level) = indentation level := by
  apply List.rtakeWhile_eq_self_iff.mpr
  intro c hc
  rw [mem_indentation hc]
  rfl

theorem takeWhile_indentation (level : Int) :
    (indentation level).takeWhile (· = ' ') = indentation level :=
  List.takeWhile_eq_self_iff.mpr fun _ hc => by simpa using mem_indentation hc

/-- The line under way is indented by its depth, and has more than blanks if it is in quotes. -/
structure Margin (s : State) (written : List Char) : Prop where
  blanks : (lastLine written).takeWhile (· = ' ') = indentation s.level
  begun : s.mode = .quoted → ∃ c ∈ lastLine written, c ≠ ' '

theorem margin_newLine {s : State} {written : List Char} (outside : s.mode ≠ .quoted) :
    Margin s (written ++ newLine s.level) := by
  refine ⟨?_, fun inside => absurd inside outside⟩
  rw [lastLine_newLine, takeWhile_indentation]

/-- What a line starts with stays as it is when it has begun. -/
theorem takeWhile_concat {c : Char} {line : List Char} (begun : (∃ d ∈ line, d ≠ ' ') ∨ c ≠ ' ') :
    (line ++ [c]).takeWhile (· = ' ') = line.takeWhile (· = ' ') := by
  induction line with
  | nil =>
    have other : c ≠ ' ' := by simpa using begun
    exact List.takeWhile_cons_of_neg (by simpa using other)
  | cons d ds ih =>
    rw [List.cons_append, List.takeWhile_cons, List.takeWhile_cons]
    split
    · next blank =>
      rw [ih (by simpa [of_decide_eq_true blank] using begun)]
    · rfl

theorem Margin.step {s : State} {c : Char} {written : List Char} (h : Margin s written)
    (feed : c ≠ '\n') : Margin (Layout.step s c).2 (written ++ (Layout.step s c).1) := by
  have writes := writes_step s c
  generalize own : (Layout.step s c).1 = here at writes
  rw [← own]
  cases writes with
  | passedOver skipping =>
    rw [step_passedOver skipping, List.append_nil]
    exact h
  | blank plain =>
    rw [step_blank plain]
    exact margin_newLine (s := { s with broken := true }) (by simp [plain])
  | opening outside bracket =>
    rw [step_opens outside (isOpening_iff.mpr bracket)]
    show Margin ⟨.skipping, s.level + 1, true⟩ (written ++ c :: newLine (s.level + 1))
    rw [List.append_cons]
    exact margin_newLine Mode.noConfusion
  | closing outside bracket =>
    rw [step_closes outside (isClosing_iff.mpr bracket)]
    show Margin ⟨.skipping, s.level - 1, true⟩
      (written ++ (newLine (s.level - 1) ++ c :: newLine (s.level - 1)))
    rw [← List.append_assoc, List.append_cons]
    exact margin_newLine Mode.noConfusion
  | itself other =>
    have idle : s.mode = .quoted ∨ isBracket c = false := by
      refine other.imp_right fun none => ?_
      simp only [List.mem_cons, List.not_mem_nil, or_false, not_or] at none
      simp [isBracket, isOpening, isClosing, none]
    have begun : (∃ d ∈ lastLine written, d ≠ ' ') ∨ c ≠ ' ' := by
      refine other.imp h.begun fun none => ?_
      exact fun blank => none (blank ▸ List.mem_cons_self)
    rw [own]
    refine ⟨?_, fun _ => ?_⟩
    · rw [lastLine_concat feed, takeWhile_concat begun, level_idle idle, h.blanks]
    · rw [lastLine_concat feed]
      rcases begun with ⟨d, hd, solid⟩ | solid
      · exact ⟨d, List.mem_append_left _ hd, solid⟩
      · exact ⟨c, List.mem_append_right _ List.mem_cons_self, solid⟩

theorem Margin.run : ∀ {cs : List Char} {s : State} {written : List Char},
    Margin s written → '\n' ∉ cs → Margin (Layout.run s cs).2 (written ++ (Layout.run s cs).1)
  | [], s, written, h, _ => by
    rw [show Layout.run s [] = ([], s) from rfl, List.append_nil]
    exact h
  | c :: cs, s, written, h, noFeed => by
    rw [List.mem_cons, not_or] at noFeed
    rw [run_cons, ← List.append_assoc]
    exact (h.step (Ne.symm noFeed.1)).run noFeed.2

/-! ## Where characters come from -/

/-- The new line that a closing bracket gets. -/
def lead (s : State) (c : Char) : List Char :=
  if s.mode ≠ .quoted ∧ isClosing c = true then newLine (s.level - 1) else []

theorem mem_lead {s : State} {c d : Char} (h : d ∈ lead s c) : d = ' ' ∨ d = '\n' := by
  unfold lead at h
  split at h
  · exact mem_newLine h
  · exact absurd h List.not_mem_nil

theorem Writes.around {s : State} {c : Char} {written : List Char} (h : Writes s c written) :
    (c = ' ' ∧ ∀ d ∈ written, d = ' ' ∨ d = '\n') ∨
      ∃ trail, written = lead s c ++ c :: trail ∧ ∀ d ∈ trail, d = ' ' ∨ d = '\n' := by
  cases h with
  | passedOver skipping => exact .inl ⟨rfl, by simp⟩
  | blank plain => exact .inl ⟨rfl, fun _ => mem_newLine⟩
  | opening outside bracket =>
    refine .inr ⟨newLine (s.level + 1), ?_, fun _ => mem_newLine⟩
    rcases bracket with rfl | rfl <;> simp [lead, isClosing]
  | closing outside bracket =>
    refine .inr ⟨newLine (s.level - 1), ?_, fun _ => mem_newLine⟩
    rw [lead, if_pos ⟨outside, isClosing_iff.mpr bracket⟩]
  | itself other =>
    refine .inr ⟨[], ?_, by simp⟩
    rw [lead, if_neg]
    · rfl
    · intro closing
      obtain ⟨outside, bracket⟩ := closing
      apply other.resolve_left outside
      rcases isClosing_iff.mp bracket with rfl | rfl <;> decide

theorem exists_after {α : Type} {d : α} {xs ys before after : List α} (other : d ∉ xs)
    (h : xs ++ ys = before ++ d :: after) :
    ∃ rest, before = xs ++ rest ∧ ys = rest ++ d :: after := by
  rcases List.append_eq_append_iff.mp h with ⟨rest, same, own⟩ | ⟨rest, same, own⟩
  · exact ⟨rest, same, own⟩
  · cases rest with
    | nil => exact ⟨[], by simpa using same.symm, by simpa using own.symm⟩
    | cons e rest =>
      obtain ⟨rfl, _⟩ := List.cons_eq_cons.mp own
      rw [same] at other
      exact absurd (List.mem_append_right _ List.mem_cons_self) other

/-- A character of the layout that is no blank is one of the search. What is before it is the layout
of what is before it in the search, with a new line if it is a closing bracket. -/
theorem exists_split {d : Char} (solid : ¬ (d = ' ' ∨ d = '\n')) : ∀ {cs : List Char} {s : State}
    {before after : List Char}, (run s cs).1 = before ++ d :: after →
      ∃ cs₁ cs₂, cs = cs₁ ++ d :: cs₂ ∧
        before = (run s cs₁).1 ++ lead (run s cs₁).2 d
  | [], s, before, after, h => by
    exact absurd h.symm (List.append_ne_nil_of_right_ne_nil _ (List.cons_ne_nil _ _))
  | c :: cs, s, before, after, h => by
    have blank {xs : List Char} (all : ∀ e ∈ xs, e = ' ' ∨ e = '\n') : d ∉ xs :=
      fun hd => solid (all d hd)
    have later {before' : List Char} (h : (run (step s c).2 cs).1 = before' ++ d :: after) :
        ∃ cs₁ cs₂, c :: cs = cs₁ ++ d :: cs₂ ∧
          (step s c).1 ++ before' = (run s cs₁).1 ++ lead (run s cs₁).2 d := by
      obtain ⟨cs₁, cs₂, rfl, rfl⟩ := exists_split solid h
      exact ⟨c :: cs₁, cs₂, rfl, by rw [run_cons, List.append_assoc]⟩
    rw [run_cons] at h
    rcases (writes_step s c).around with ⟨_, all⟩ | ⟨trail, own, all⟩
    · obtain ⟨rest, rfl, others⟩ := exists_after (blank all) h
      exact later others
    · rw [own, List.append_assoc] at h
      obtain ⟨rest, rfl, others⟩ := exists_after (blank fun _ => mem_lead) h
      cases rest with
      | nil =>
        obtain ⟨rfl, _⟩ := List.cons_eq_cons.mp others
        exact ⟨[], cs, rfl, by rw [List.append_nil]; rfl⟩
      | cons e rest =>
        obtain ⟨rfl, tail⟩ := List.cons_eq_cons.mp others
        obtain ⟨rest, rfl, onwards⟩ := exists_after (blank all) tail
        obtain ⟨cs₁, cs₂, whole, first⟩ := later onwards
        refine ⟨cs₁, cs₂, whole, ?_⟩
        rw [← first, own, List.append_assoc, List.cons_append]

end Layout

/-! ## Layouts -/

open Layout

/-- Every closing bracket outside of quotes starts a line that is indented exactly like the line of
the bracket that it closes. -/
def Aligned (fits : Char → Char → Bool) (text : List Char) : Prop :=
  ∀ before c after, text = before ++ c :: after → isClosing c = true →
    Even (before.count '"') → ∃ earlier o, Opener fits before earlier o ∧ fits o c = true ∧
      lastLine before = (lastLine earlier).takeWhile (· = ' ')

theorem toList_text (level : Int) (query : String) : (Layout.text level query).1.toList =
    indentation level ++ (run { level := level } query.toList).1 :=
  String.toList_ofList

theorem read_text {fits : Char → Char → Bool} (level : Int) (query : String) :
    Nesting.read fits {} (Layout.text level query).1.toList =
      Nesting.read fits {} query.toList := by
  rw [toList_text, read_indentation]
  exact read_run _ _ _

/-- A character of a layout comes from the search, where the same brackets are open before it. -/
theorem text_split {level : Int} {query : String} {before after : List Char} {d : Char}
    (solid : ¬ (d = ' ' ∨ d = '\n'))
    (h : (Layout.text level query).1.toList = before ++ d :: after) : ∃ cs₁ cs₂,
      query.toList = cs₁ ++ d :: cs₂ ∧
      before = (indentation level ++ (run { level := level } cs₁).1) ++
        lead (run { level := level } cs₁).2 d ∧
      ∀ fits, Nesting.read fits {} before = Nesting.read fits {} cs₁ := by
  rw [toList_text] at h
  obtain ⟨rest, rfl, others⟩ := exists_after (fun hd => solid (.inl (mem_indentation hd))) h
  obtain ⟨cs₁, cs₂, whole, rfl⟩ := exists_split solid others
  refine ⟨cs₁, cs₂, whole, (List.append_assoc ..).symm, fun fits => ?_⟩
  rw [read_indentation, Nesting.read_append, read_run]
  cases Nesting.read fits {} cs₁ with
  | none => rfl
  | some n => exact read_blanks fun _ => mem_lead

theorem follows_start (level : Int) : Follows level {} { level := level } :=
  ⟨rfl, (Int.add_zero level).symm⟩

theorem margin_start (level : Int) : Margin { level := level } (indentation level) := by
  refine ⟨?_, Mode.noConfusion⟩
  rw [lastLine_indentation, takeWhile_indentation]

theorem aligned_text {fits : Char → Char → Bool} {level : Int} {query : String} {n : Nesting}
    (noFeed : '\n' ∉ query.toList) (read : Nesting.read fits {} query.toList = some n) :
    Aligned fits (Layout.text level query).1.toList := by
  intro before c after whole bracket outside
  rw [← read_text level, whole] at read
  obtain ⟨earlier, o, opened, opener, fit, first, first'⟩ :=
    Nesting.exists_opener read bracket outside
  refine ⟨earlier, o, opener, fit, ?_⟩
  have closing : lastLine before = indentation (level + opened.length) := by
    obtain ⟨cs₁, cs₂, _, written, same⟩ := text_split
      (by rcases isClosing_iff.mp bracket with rfl | rfl <;> decide) whole
    have follows := (follows_start level).run ((same fits).symm.trans first)
    have quoted := of_decide_eq_false follows.quoted.symm
    have depth : level + (opened.length + 1 : ℕ) - 1 = level + opened.length := by omega
    rw [written, lead, if_pos ⟨quoted, bracket⟩, lastLine_newLine, follows.level,
      List.length_cons, depth]
  have opening : (lastLine earlier).takeWhile (· = ' ') =
      indentation (level + opened.length) := by
    obtain ⟨within, inner, _⟩ := opener.between
    rw [inner, List.append_assoc, List.cons_append] at whole
    obtain ⟨cs₁, cs₂, own, written, same⟩ := text_split
      (by rcases isOpening_iff.mp opener.bracket with rfl | rfl <;> decide) whole
    have follows := (follows_start level).run ((same fits).symm.trans first')
    have noFeed₁ : '\n' ∉ cs₁ := fun feed => noFeed (own ▸ List.mem_append_left _ feed)
    have margin := (margin_start level).run noFeed₁
    have none : lead (run { level := level } cs₁).2 o = [] := by
      rw [lead, if_neg]
      intro closing
      exact Bool.noConfusion (opener.bracket.symm.trans (not_opening_of_closing closing.2))
    rw [written, none, List.append_nil, margin.blanks, follows.level]
  rw [closing, opening]

/-- **A layout moves blanks only.** A layout is the same text as its search up to blanks outside of
quotes, and a search that needs no second line is shown as it is. If the brackets of the search are
balanced outside of quotes, whichever kinds fit each other, the layout ends at the depth that it
started at, and every closing bracket starts a line that is indented like the line of its opening
bracket. -/
theorem text_relaid (level : Int) (query : String) :
    solid false (Layout.text level query).1.toList = solid false query.toList ∧
      ((Layout.text (level + 1) query).2 = false → indented query level = query) ∧
      ∀ fits quoted, '\n' ∉ query.toList →
        Nesting.read fits {} query.toList = some ⟨quoted, []⟩ →
          (run { level := level } query.toList).2.level = level ∧
            Aligned fits (Layout.text level query).1.toList := by
  refine ⟨?_, ?_, fun fits quoted noFeed balanced => ⟨?_, aligned_text noFeed balanced⟩⟩
  · rw [toList_text, solid_blanks fun _ h => .inl (mem_indentation h)]
    exact solid_run query.toList { level := level }
  · intro fitting
    apply indented_of_not
    rw [← broken_text (level + 1), fitting]
    exact Bool.false_ne_true
  · rw [((follows_start level).run balanced).level]
    exact Int.add_zero level

/-- Groups in a group, with a bracket in quotes, and a search on one line. -/
theorem text_relaid_nested :
    let query := "-\x7bfrom:(a \"b\x7d c\")  -(d)\x7d"
    let shown := "  -\x7b\n    from:(\n      a\n      \"b\x7d c\"\n    )\n    " ++
      "-(\n      d\n    )\n    \n  \x7d\n  "
    (Layout.text 1 query).1.toList = shown.toList ∧
      '\n' ∉ query.toList ∧ Nesting.read sameKind {} query.toList = some ⟨false, []⟩ ∧
      (run { level := 1 } query.toList).2.level = 1 ∧
      Aligned sameKind (Layout.text 1 query).1.toList ∧
      (Layout.text 2 "from:d").2 = false ∧ indented "from:d" 1 = "from:d" := by
  intro query shown
  have written : (Layout.text 1 query).1.toList = shown.toList := by
    rw [toList_text]
    decide
  have noFeed : '\n' ∉ query.toList := by decide
  have balanced : Nesting.read sameKind {} query.toList = some ⟨false, []⟩ := by decide
  have fitting : (Layout.text 2 "from:d").2 = false := by decide
  obtain ⟨ends, aligned⟩ := (text_relaid 1 query).2.2 sameKind false noFeed balanced
  exact ⟨written, noFeed, balanced, ends, aligned, fitting,
    (text_relaid 1 "from:d").2.1 fitting⟩

end MailRules.Native
