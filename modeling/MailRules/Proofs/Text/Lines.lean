import MailRules.Text.Whitespace
import Mathlib.Data.List.Basic

/-!
A text can be told from its lines, and lines from the text they make.

Reading takes a text apart at every kind of line end (`lines`), and what it gives joins back to the
text. Writing puts a line feed after each line (`ended`). Lines without line feeds can be told from
what is written, as a text has one part before its first line feed (`cut_first`).

What is proved:
  1. `cut_first`, `cut_last`, `blocks_unique`: how a list is cut at its separators.
  2. `lines_injective`: a text is known by its lines.
  3. `ended_injective`: lines are known by their text, and `ended_splitOn`: every text with a line
     feed after it is one of lines.
  4. `infix_of_mem_splitOn`: a line stands in the text after a line feed.
-/

namespace MailRules.Text

section
variable {α : Type} {sep : α} {xs ys us vs : List α}

theorem cut_first (hx : sep ∉ xs) (hu : sep ∉ us) (h : xs ++ sep :: ys = us ++ sep :: vs) :
    xs = us ∧ ys = vs := by
  rcases List.append_eq_append_iff.mp h with ⟨between, rfl, rest⟩ | ⟨between, rfl, rest⟩ <;>
    cases between <;> simp_all

theorem cut_last (hy : sep ∉ ys) (hv : sep ∉ vs) (h : xs ++ sep :: ys = us ++ sep :: vs) :
    xs = us ∧ ys = vs := by
  have backwards := congrArg List.reverse h
  simp only [List.reverse_append, List.reverse_cons, List.append_assoc, List.singleton_append]
    at backwards
  simpa [and_comm] using cut_first (by simpa using hy) (by simpa using hv) backwards

/-- Blocks that each have one separator, after a head of one length, are told apart. Of the first
block the head may be cut off, in part or as a whole. -/
theorem blocks_unique {β : Type} {head body : β → List α} (size : Nat) : ∀ {fs gs : List β}
    {xs ys : List α}, (∀ f ∈ fs ++ gs, (head f).length = size ∧ sep ∉ head f ∧ sep ∉ body f) →
      sep ∉ xs → sep ∉ ys →
      xs ++ fs.flatMap (fun f => head f ++ sep :: body f) =
        ys ++ gs.flatMap (fun f => head f ++ sep :: body f) →
      xs = ys ∧ List.Forall₂ (fun f g => head f = head g ∧ body f = body g) fs gs
  | [], [], xs, ys, _, _, _, h => by
    rw [List.flatMap_nil, List.append_nil, List.append_nil] at h
    exact ⟨h, .nil⟩
  | [], g :: gs, xs, ys, _, hx, _, h => by
    rw [List.flatMap_nil, List.append_nil] at h
    simp [h] at hx
  | f :: fs, [], xs, ys, _, _, hy, h => by
    rw [List.flatMap_nil, List.append_nil] at h
    simp [← h] at hy
  | f :: fs, g :: gs, xs, ys, parts, hx, hy, h => by
    obtain ⟨sizeF, headF, bodyF⟩ := parts f (by simp)
    obtain ⟨sizeG, headG, bodyG⟩ := parts g (by simp)
    rw [List.flatMap_cons, List.flatMap_cons, List.append_assoc, List.append_assoc,
      List.cons_append, List.cons_append, ← List.append_assoc, ← List.append_assoc] at h
    obtain ⟨before, after⟩ := cut_first (by simp [hx, headF]) (by simp [hy, headG]) h
    obtain ⟨sameXs, sameHead⟩ := List.append_inj' before (sizeF.trans sizeG.symm)
    obtain ⟨sameBody, rest⟩ := blocks_unique size
      (fun k hk => parts k (by grind)) bodyF bodyG after
    exact ⟨sameXs, .cons ⟨sameHead, sameBody⟩ rest⟩

end

/-! ## Lines read -/

theorem lines_injective {s t : String} (h : lines s = lines t) : s = t := by
  have parts : linesFrom [] s.toList = linesFrom [] t.toList :=
    List.map_injective_iff.mpr (fun _ _ => String.ofList_injective) h
  have whole := congrArg List.flatten parts
  rw [flatten_linesFrom, flatten_linesFrom] at whole
  exact String.toList_inj.mp whole

/-! ## Lines written -/

/-- Lines, each with a line feed at its end. -/
def ended (ls : List (List Char)) : List Char := ls.flatMap (· ++ ['\n'])

theorem ended_append (ls ms : List (List Char)) : ended (ls ++ ms) = ended ls ++ ended ms :=
  List.flatMap_append

theorem ended_cons (l : List Char) (ls : List (List Char)) :
    ended (l :: ls) = l ++ '\n' :: ended ls := by
  simp [ended]

theorem ended_injective : ∀ {ls ms : List (List Char)}, (∀ l ∈ ls, '\n' ∉ l) →
    (∀ m ∈ ms, '\n' ∉ m) → ended ls = ended ms → ls = ms
  | [], [], _, _, _ => rfl
  | [], m :: ms, _, _, h => by simp [ended] at h
  | l :: ls, [], _, _, h => by simp [ended] at h
  | l :: ls, m :: ms, hl, hm, h => by
    rw [ended_cons, ended_cons] at h
    obtain ⟨hl, hls⟩ := List.forall_mem_cons.mp hl
    obtain ⟨hm, hms⟩ := List.forall_mem_cons.mp hm
    obtain ⟨rfl, rest⟩ := cut_first hl hm h
    rw [ended_injective hls hms rest]

theorem ended_eq_intercalate : ∀ {ls : List (List Char)}, ls ≠ [] →
    ended ls = ['\n'].intercalate ls ++ ['\n']
  | [l], _ => by simp [ended]
  | l :: m :: ms, _ => by
    rw [ended_cons, ended_eq_intercalate (List.cons_ne_nil m ms), List.intercalate_cons_cons]
    simp

theorem ended_splitOn (cs : List Char) : ended (cs.splitOn '\n') = cs ++ ['\n'] := by
  rw [ended_eq_intercalate (List.splitOn_ne_nil _ cs), List.intercalate_splitOn]

theorem not_mem_of_mem_splitOn {sep : Char} : ∀ {cs l : List Char}, l ∈ cs.splitOn sep → sep ∉ l
  | [], l, h => by
    obtain rfl : l = [] := by simpa using h
    simp
  | c :: cs, l, h => by
    rw [List.splitOn_cons_eq_if_modifyHead] at h
    obtain ⟨m, ms, parts⟩ := List.exists_cons_of_ne_nil (List.splitOn_ne_nil sep cs)
    have first : sep ∉ m := not_mem_of_mem_splitOn (parts ▸ List.mem_cons_self)
    have later : ∀ k ∈ ms, sep ∉ k := fun k hk =>
      not_mem_of_mem_splitOn (parts ▸ List.mem_cons_of_mem m hk)
    rw [parts, List.modifyHead_cons] at h
    grind

theorem splitOn_append {sep : Char} : ∀ {xs : List Char} (cs : List Char), sep ∉ xs →
    ∃ l ls, (xs ++ cs).splitOn sep = (xs ++ l) :: ls
  | [], cs, _ => List.exists_cons_of_ne_nil (List.splitOn_ne_nil sep cs)
  | x :: xs, cs, h => by
    rw [List.mem_cons, not_or] at h
    obtain ⟨l, ls, parts⟩ := splitOn_append cs h.2
    refine ⟨l, ls, ?_⟩
    rw [List.cons_append, List.splitOn_cons_eq_if_modifyHead, parts]
    simp [Ne.symm h.1]

theorem splitOn_injective {sep : Char} {cs ds : List Char} (h : cs.splitOn sep = ds.splitOn sep) :
    cs = ds := by
  have whole := congrArg [sep].intercalate h
  rwa [List.intercalate_splitOn, List.intercalate_splitOn] at whole

theorem infix_of_mem_intercalate {l : List Char} : ∀ {ls : List (List Char)}, l ∈ ls →
    '\n' :: l <:+: '\n' :: ['\n'].intercalate ls
  | [m], h => by
    obtain rfl := List.mem_singleton.mp h
    simp
  | m :: k :: ks, h => by
    rw [List.intercalate_cons_cons, List.append_assoc, List.singleton_append]
    rcases List.mem_cons.mp h with rfl | h
    · exact (List.prefix_append _ _).isInfix
    · exact (infix_of_mem_intercalate h).trans (List.suffix_append ('\n' :: m) _).isInfix

/-- A line stands in the text after a line feed, if one is put in front. -/
theorem infix_of_mem_splitOn {cs l : List Char} (h : l ∈ cs.splitOn '\n') :
    '\n' :: l <:+: '\n' :: cs := by
  have inside := infix_of_mem_intercalate h
  rwa [List.intercalate_splitOn] at inside

end MailRules.Text
