import MailRules.Proofs.Text.Matching
import MailRules.Text.UnifiedDiff

/-!
A unified diff is empty exactly if it compares two equal sequences.

A diff without hunks comes from matching blocks that leave nothing out on either side. Blocks pair
equal lines, so the sequences are equal then; and equal sequences make one block, which is kept
as a whole and cut down to the context, so that no hunk is left.

What is proved:
  1. `hunksFrom_trimmed`: stretches make no hunk if there are none, or one that is kept.
  2. `eq_of_stretches`, `stretches_self`: this is so for the stretches of equal sequences only.
  3. `unifiedDiff_eq_empty_iff`.
-/

namespace MailRules.Text

/-! ## Hunks -/

theorem hunksFrom_ne_nil {n : Int} : ∀ {ss hunk : List Stretch}, 2 ≤ (hunk ++ ss).length →
    hunksFrom n hunk ss ≠ []
  | [], hunk, several => by
    match hunk with
    | [] => simp at several
    | [_] => simp at several
    | _ :: _ :: _ => simp [hunksFrom]
  | s :: ss, hunk, several => by
    rw [hunksFrom]
    split
    · exact List.cons_ne_nil _ _
    · refine hunksFrom_ne_nil ?_
      simpa [Nat.add_comm, Nat.add_left_comm] using several

theorem length_trimFirst (n : Int) (ss : List Stretch) : (trimFirst n ss).length = ss.length := by
  cases ss <;> rfl

theorem length_trimLast (n : Int) : ∀ ss : List Stretch, (trimLast n ss).length = ss.length
  | [] => rfl
  | [_] => rfl
  | _ :: t :: ss => congrArg Nat.succ (length_trimLast n (t :: ss))

/-- Trimmed stretches make no hunk exactly if there is only one of them, which is kept. -/
theorem hunksFrom_trimmed {n : Int} (hn : 0 ≤ n) {ss : List Stretch} (some : ss ≠ []) :
    hunksFrom n [] (trimLast n (trimFirst n ss)) = [] ↔ ∃ s, ss = [s] ∧ s.kept = true := by
  match ss with
  | [] => exact absurd rfl some
  | [s] =>
    by_cases kept : s.kept
    · have short : ¬ 2 * n < ((s.tail n).head n).leftEnd - ((s.tail n).head n).left := by
        simp only [Stretch.tail, Stretch.head]
        omega
      have cut : trimLast n (trimFirst n [s]) = [(s.tail n).head n] := by
        simp [trimFirst, trimLast, Stretch.tail, kept]
      have kept' : ((s.tail n).head n).kept = true := kept
      simp [cut, hunksFrom, short, kept', kept]
    · have whole : trimLast n (trimFirst n [s]) = [s] := by simp [trimFirst, trimLast, kept]
      simp [whole, hunksFrom, kept]
  | s :: t :: ss =>
    refine iff_of_false (hunksFrom_ne_nil ?_) (by simp)
    simp [length_trimLast, length_trimFirst]

/-! ## Stretches -/

/-- There is nothing but blocks up to the ends of both sides. -/
theorem stretchesFrom_eq_nil {leftEnd rightEnd : Nat} : ∀ {bs : List Block} {i j : Nat},
    (∀ b ∈ bs, 0 < b.size) → stretchesFrom i j leftEnd rightEnd bs = [] →
      bs = [] ∧ leftEnd ≤ i ∧ rightEnd ≤ j
  | [], i, j, _, h => by
    rw [stretchesFrom] at h
    split at h
    · cases h
    · exact ⟨rfl, by omega, by omega⟩
  | b :: bs, _, _, filled, h => by
    have some : b.size ≠ 0 := Nat.ne_of_gt (List.forall_mem_cons.mp filled).1
    simp only [stretchesFrom, List.append_eq_nil_iff, if_neg some] at h
    cases h.1.2

/-- The blocks of stretches of which none is replaced pair every line of either side. -/
theorem eq_of_stretches {left right : List String} {bs : List Block}
    (blocks : ∀ b ∈ bs, 0 < b.size ∧
      ∀ k < b.size, ∃ line, left[b.left + k]? = some line ∧ right[b.right + k]? = some line)
    (h : stretchesFrom 0 0 left.length right.length bs = [] ∨
      ∃ s, stretchesFrom 0 0 left.length right.length bs = [s] ∧ s.kept = true) :
    left = right := by
  have filled : ∀ b ∈ bs, 0 < b.size := fun b hb => (blocks b hb).1
  rcases h with none | ⟨s, only, kept⟩
  · obtain ⟨_, noLeft, noRight⟩ := stretchesFrom_eq_nil filled none
    rw [List.eq_nil_of_length_eq_zero (Nat.le_zero.mp noLeft),
      List.eq_nil_of_length_eq_zero (Nat.le_zero.mp noRight)]
  · match bs with
    | [] =>
      rw [stretchesFrom] at only
      split at only
      · obtain ⟨rfl, _⟩ := List.cons.inj only
        cases kept
      · cases only
    | b :: bs =>
      obtain ⟨⟨some, equal⟩, _⟩ := List.forall_mem_cons.mp blocks
      obtain ⟨_, filled⟩ := List.forall_mem_cons.mp filled
      rw [stretchesFrom, if_neg (by omega : ¬ b.size = 0)] at only
      split at only
      · -- a gap before the block would be a stretch beside it
        simp at only
      · next noGap =>
        obtain ⟨_, rest⟩ := List.cons.inj only
        obtain ⟨_, toLeft, toRight⟩ := stretchesFrom_eq_nil filled rest
        refine List.ext_getElem? fun k => ?_
        rcases Nat.lt_or_ge k b.size with inside | outside
        · obtain ⟨line, here, there⟩ := equal k inside
          rw [show b.left + k = k by omega] at here
          rw [show b.right + k = k by omega] at there
          rw [here, there]
        · rw [List.getElem?_eq_none (by omega), List.getElem?_eq_none (by omega)]

theorem stretches_self (lines : List String) :
    let ss := stretchesFrom 0 0 lines.length lines.length
      (matchingBlocks lines lines (rareAnchors lines))
    ss = [] ∨ ∃ s, ss = [s] ∧ s.kept = true := by
  intro ss
  by_cases empty : lines = []
  · left
    subst empty
    have none : matchingBlocks [] [] (rareAnchors []) = [] := by
      rw [matchingBlocks, List.length_nil, Pair.blocksWithin_eq_nil rfl (by omega)]
      rfl
    simp [ss, none, stretchesFrom]
  · right
    have some : lines.length ≠ 0 := by simpa using empty
    simp [ss, matchingBlocks_self (faithful_rareAnchors lines) empty, stretchesFrom, some]

/-! ## Diffs -/

theorem hunks_eq_nil_iff {n : Int} (hn : 0 ≤ n) {left right : List String} :
    hunks n left right = [] ↔ left = right := by
  have cut {ss : List Stretch} : hunksFrom n [] (trimLast n (trimFirst n
      (if ss.isEmpty then [⟨true, 0, 1, 0, 1⟩] else ss))) = [] ↔
        ss = [] ∨ ∃ s, ss = [s] ∧ s.kept = true := by
    rw [hunksFrom_trimmed hn (by split <;> simp_all)]
    cases ss with
    | nil => simp
    | cons s ss => simp
  rw [hunks, cut]
  constructor
  · exact eq_of_stretches (matches_matchingBlocks (faithful_rareAnchors right))
  · rintro rfl
    exact stretches_self left

/-- A diff is empty exactly if it compares equal sequences, whatever the context. -/
theorem unifiedDiff_eq_empty_iff {n : Int} (hn : 0 ≤ n) (a b : String) {left right : List String} :
    unifiedDiff a b n left right = "" ↔ left = right := by
  rw [← hunks_eq_nil_iff hn, unifiedDiff]
  split
  · next none => simp [none]
  · next some =>
    refine iff_of_false ?_ some
    simp

end MailRules.Text
