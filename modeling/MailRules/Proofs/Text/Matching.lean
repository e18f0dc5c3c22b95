import MailRules.Text.Matching
import Mathlib.Data.List.Basic

/-!
What the matching blocks of two sequences are.

Every block pairs equal lines, however it was found. And a sequence matched with itself makes one
block of all its lines: the longest block between anchors lies on the diagonal, because the line
itself is among the places of a line and the earliest of the longest blocks is taken, and from there
it grows over the lines that are no anchors.

What is defined and proved:
  1. `Anchors.Faithful`, `faithful_rareAnchors`: a line that is an anchor is one wherever it stands.
  2. `Pair.run`, `lengthsAt_endsAt`: the lengths that a scan goes by, as a recursion on both places.
  3. `scan_induct`: what each line of a scan preserves, the whole scan preserves.
  4. `matches_matchingBlocks`: blocks pair equal lines.
  5. `matchingBlocks_self`: a sequence matched with itself.
-/

namespace MailRules.Text

/-! ## Anchors -/

/-- Each line that is an anchor comes with all the places where it stands, in ascending order. -/
def Anchors.Faithful (m : Anchors) (lines : List String) : Prop :=
  ∀ (line : String) (js : List Nat), m[line]? = some js →
    js.Pairwise (· < ·) ∧ ∀ j, j ∈ js ↔ lines[j]? = some line

/-- The places of lines among the first `k`, last first. -/
def PlacedBefore (lines : List String) (k : Nat) (m : Anchors) : Prop :=
  ∀ line, (m.getD line []).Pairwise (· > ·) ∧
    ∀ j, j ∈ m.getD line [] ↔ j < k ∧ lines[j]? = some line

theorem PlacedBefore.insert {lines : List String} {k : Nat} {m : Anchors} {line : String}
    (h : PlacedBefore lines k m) (here : lines[k]? = some line) :
    PlacedBefore lines (k + 1) (m.insert line (k :: m.getD line [])) := by
  intro other
  obtain ⟨descending, exactly⟩ := h other
  rw [Std.HashMap.getD_insert]
  split
  · next same =>
    obtain rfl : line = other := beq_iff_eq.mp same
    refine ⟨List.pairwise_cons.mpr ⟨fun j hj => ((exactly j).mp hj).1, descending⟩, fun j => ?_⟩
    rw [List.mem_cons, exactly]
    grind
  · next differ =>
    refine ⟨descending, fun j => ?_⟩
    rw [exactly]
    grind

theorem placedBefore_foldl {lines : List String} : ∀ {rest : List String} {k : Nat} {m : Anchors},
    (∀ j, lines[k + j]? = rest[j]?) → PlacedBefore lines k m → PlacedBefore lines (k + rest.length)
      ((rest.zipIdx k).foldl (fun m (line, i) => m.insert line (i :: m.getD line [])) m)
  | [], _, _, _, h => h
  | line :: rest, k, m, ahead, h => by
    have next (j : Nat) : lines[k + 1 + j]? = rest[j]? := by
      rw [show k + 1 + j = k + (j + 1) by omega, ahead, List.getElem?_cons_succ]
    have placed := placedBefore_foldl next (h.insert (ahead 0))
    rwa [show k + 1 + rest.length = k + (line :: rest).length by
      rw [List.length_cons]; omega] at placed

theorem faithful_anchors (lines : List String) : (anchors lines).Faithful lines := by
  intro line js found
  have none : PlacedBefore lines 0 (∅ : Anchors) := by
    intro other
    simp
  have placed := placedBefore_foldl (fun j => by rw [Nat.zero_add]) none line
  rw [anchors, Std.HashMap.getElem?_map] at found
  obtain ⟨places, before, rfl⟩ := Option.map_eq_some_iff.mp found
  rw [Std.HashMap.getD_eq_getD_getElem?, before] at placed
  refine ⟨List.pairwise_reverse.mpr placed.1, fun j => ?_⟩
  rw [List.mem_reverse]
  refine (placed.2 j).trans (and_iff_right_of_imp fun here => ?_)
  have := (List.getElem?_eq_some_iff.mp here).1
  omega

/-- Leaving out common lines leaves none of them at some of its places. -/
theorem faithful_rareAnchors (lines : List String) : (rareAnchors lines).Faithful lines := by
  intro line js found
  simp only [rareAnchors] at found
  split at found
  · exact faithful_anchors lines line js found
  · rw [Std.HashMap.getElem?_filter] at found
    obtain ⟨before, _⟩ := Option.pfilter_eq_some_iff.mp found
    exact faithful_anchors lines line js before

/-! ## Runs of equal lines -/

namespace Pair

variable {p : Pair} {alo ahi blo bhi : Nat}

/-- The lines that a block pairs are equal. -/
def Matches (p : Pair) (b : Block) : Prop :=
  ∀ k < b.size, ∃ line, p.left[b.left + k]? = some line ∧ p.right[b.right + k]? = some line

/-- The places within a range on the right that a line on the left is looked for at. -/
def places (p : Pair) (blo bhi i : Nat) : List Nat :=
  ((p.left[i]?.bind (p.anchors[·]?)).getD []).filter fun j => blo ≤ j && j < bhi

/-- How many lines on either side are equal and anchors, of the `k` lines from `alo` on and the
lines before the place `j`, going back from there. -/
def run (p : Pair) (alo blo bhi : Nat) : (k j : Nat) → Nat
  | 0, _ => 0
  | _, 0 => 0
  | k + 1, j + 1 => if j ∈ p.places blo bhi (alo + k) then p.run alo blo bhi k j + 1 else 0

/-- The lengths of the runs that end with the last of the `k` lines from `alo` on. -/
def endsAt (p : Pair) (alo blo bhi : Nat) : Nat → List (Nat × Nat)
  | 0 => []
  | k + 1 => (p.places blo bhi (alo + k)).map fun j => (j, p.run alo blo bhi (k + 1) (j + 1))

theorem mem_places (faithful : p.anchors.Faithful p.right.toList) {i j : Nat} :
    j ∈ p.places blo bhi i ↔ (blo ≤ j ∧ j < bhi) ∧ ∃ line js,
      p.left[i]? = some line ∧ p.anchors[line]? = some js ∧ p.right[j]? = some line := by
  rw [places, List.mem_filter, and_comm]
  refine and_congr (by simp) ?_
  constructor
  · intro h
    cases found : p.left[i]?.bind (p.anchors[·]?) with
    | none =>
      rw [found] at h
      cases h
    | some js =>
      rw [found] at h
      obtain ⟨line, here, known⟩ := Option.bind_eq_some_iff.mp found
      exact ⟨line, js, here, known, by simpa using ((faithful line js known).2 j).mp h⟩
  · rintro ⟨line, js, here, known, there⟩
    rw [here, Option.bind_some, known, Option.getD_some]
    exact ((faithful line js known).2 j).mpr (by simpa using there)

theorem ascending_places (faithful : p.anchors.Faithful p.right.toList) (i : Nat) :
    (p.places blo bhi i).Pairwise (· < ·) := by
  refine List.Pairwise.filter _ ?_
  cases found : p.left[i]?.bind (p.anchors[·]?) with
  | none => exact .nil
  | some js =>
    obtain ⟨line, _, known⟩ := Option.bind_eq_some_iff.mp found
    exact (faithful line js known).1

end Pair

/-- The length that is known to end at the place before `j`. -/
def lengthBefore (before : List (Nat × Nat)) (j : Nat) : Nat :=
  ((before.find? fun e => e.1 + 1 = j).map (·.2)).getD 0

theorem find?_dropWhile {α : Type} {P Q : α → Bool} : ∀ {xs : List α},
    (∀ x, Q x = true → P x = false) → (xs.dropWhile Q).find? P = xs.find? P
  | [], _ => rfl
  | x :: xs, apart => by
    rw [List.dropWhile_cons]
    split
    · next dropped => rw [find?_dropWhile apart, List.find?_cons_of_neg (by simp [apart x dropped])]
    · rfl

/-- The length that ends before a place is at the head of the list, if it is there at all, once
those that end earlier are dropped. -/
theorem lengthBefore_cons {q n j : Nat} {es : List (Nat × Nat)}
    (ascending : ((q, n) :: es).Pairwise fun d e => d.1 < e.1) (dropped : j ≤ q + 1) :
    lengthBefore ((q, n) :: es) j = if q + 1 = j then n else 0 := by
  rw [lengthBefore]
  split
  · next here => simp [here]
  · next other =>
    have later : es.find? (fun e => e.1 + 1 = j) = none := by
      rw [List.find?_eq_none]
      intro e he
      have := (List.pairwise_cons.mp ascending).1 e he
      simp
      omega
    simp [other, later]

theorem lengthsAt_eq : ∀ {before : List (Nat × Nat)} {js : List Nat},
    before.Pairwise (fun d e => d.1 < e.1) → js.Pairwise (· < ·) →
      lengthsAt before js = js.map fun j => (j, lengthBefore before j + 1)
  | _, [], _, _ => rfl
  | before, j :: js, ascending, later => by
    obtain ⟨above, later⟩ := List.pairwise_cons.mp later
    have kept := ascending.sublist (List.dropWhile_sublist fun e => e.1 + 1 < j)
    have head : ∀ e ∈ (before.dropWhile fun e => e.1 + 1 < j).head?, j ≤ e.1 + 1 := by
      intro e he
      have notBelow := List.head?_dropWhile_not (fun e : Nat × Nat => e.1 + 1 < j) before
      rw [Option.mem_def.mp he] at notBelow
      simpa using notBelow
    -- what is dropped ends too early for `j`, and so for every later place
    have same (i : Nat) (hi : j ≤ i) :
        lengthBefore (before.dropWhile fun e => e.1 + 1 < j) i = lengthBefore before i := by
      rw [lengthBefore, lengthBefore, find?_dropWhile]
      intro e below
      simp at below ⊢
      omega
    have rest : (js.map fun i => (i, lengthBefore (before.dropWhile fun e => e.1 + 1 < j) i + 1)) =
        js.map fun i => (i, lengthBefore before i + 1) :=
      List.map_congr_left fun i hi => by rw [same i (Nat.le_of_lt (above i hi))]
    rw [lengthsAt, lengthsAt_eq kept later, rest, List.map_cons, ← same j (Nat.le_refl j)]
    match atHead : before.dropWhile fun e => e.1 + 1 < j with
    | [] =>
      rw [atHead]
      rfl
    | (q, n) :: es =>
      rw [atHead] at kept head ⊢
      rw [lengthBefore_cons kept (head (q, n) rfl)]
      by_cases here : q + 1 = j <;> simp [here]

namespace Pair

variable {p : Pair} {alo ahi blo bhi : Nat}

theorem ascending_endsAt (faithful : p.anchors.Faithful p.right.toList) (k : Nat) :
    (p.endsAt alo blo bhi k).Pairwise fun d e => d.1 < e.1 := by
  cases k with
  | zero => exact .nil
  | succ k => exact List.pairwise_map.mpr (ascending_places faithful _)

theorem lengthBefore_endsAt (k j : Nat) :
    lengthBefore (p.endsAt alo blo bhi k) j = p.run alo blo bhi k j := by
  match k, j with
  | 0, _ => simp [lengthBefore, endsAt, run]
  | k + 1, 0 =>
    have none : (p.endsAt alo blo bhi (k + 1)).find? (fun e => e.1 + 1 = 0) = none := by simp
    rw [lengthBefore, none, run]
    · rfl
    · omega
  | k + 1, j + 1 =>
    cases found : (p.endsAt alo blo bhi (k + 1)).find? fun e => e.1 + 1 = j + 1 with
    | none =>
      have unknown : j ∉ p.places blo bhi (alo + k) := by
        intro known
        have listed := List.mem_map_of_mem
          (f := fun i => (i, p.run alo blo bhi (k + 1) (i + 1))) known
        simpa using List.find?_eq_none.mp found _ listed
      rw [lengthBefore, found, run, if_neg unknown]
      rfl
    | some e =>
      obtain ⟨i, known, rfl⟩ := List.mem_map.mp (List.mem_of_find?_eq_some found)
      obtain rfl : i = j := by simpa using List.find?_some found
      rw [lengthBefore, found]
      rfl

theorem lengthsAt_endsAt (faithful : p.anchors.Faithful p.right.toList) (k : Nat) :
    lengthsAt (p.endsAt alo blo bhi k) (p.places blo bhi (alo + k)) =
      p.endsAt alo blo bhi (k + 1) := by
  rw [lengthsAt_eq (ascending_endsAt faithful k) (ascending_places faithful _), endsAt]
  refine List.map_congr_left fun j hj => ?_
  rw [lengthBefore_endsAt, run, if_pos hj]

theorem scan_cons (i : Nat) (is : List Nat) (ends : List (Nat × Nat)) (best : Block) :
    p.scan blo bhi (i :: is) ends best =
      p.scan blo bhi is (lengthsAt ends (p.places blo bhi i))
        (longer i best (lengthsAt ends (p.places blo bhi i))) := rfl

/-- What the lines of a range preserve, one after another, the whole scan preserves. -/
theorem scan_induct (faithful : p.anchors.Faithful p.right.toList) {I : Nat → Block → Prop}
    (step : ∀ k best, I k best →
      I (k + 1) (longer (alo + k) best (p.endsAt alo blo bhi (k + 1)))) :
    ∀ {n k : Nat} {best : Block}, I k best →
      I (k + n) (p.scan blo bhi (List.range' (alo + k) n) (p.endsAt alo blo bhi k) best)
  | 0, _, _, start => start
  | n + 1, k, best, start => by
    have rest := scan_induct faithful step (n := n) (step k best start)
    rw [List.range'_succ, scan_cons, lengthsAt_endsAt faithful]
    rwa [show k + (n + 1) = k + 1 + n by omega, Nat.add_assoc alo k 1]

/-! ## Blocks pair equal lines -/

theorem matches_run (faithful : p.anchors.Faithful p.right.toList) : ∀ {k j : Nat},
    p.run alo blo bhi k j ≤ k ∧ p.run alo blo bhi k j ≤ j ∧
      p.Matches ⟨alo + k - p.run alo blo bhi k j, j - p.run alo blo bhi k j, p.run alo blo bhi k j⟩
  | 0, _ => by simp [run, Matches]
  | _ + 1, 0 => by simp [run, Matches]
  | k + 1, j + 1 => by
    obtain ⟨withinLeft, withinRight, equal⟩ := matches_run faithful (k := k) (j := j)
    rw [run]
    split
    · next known =>
      obtain ⟨_, line, _, here, _, there⟩ := (mem_places faithful).mp known
      refine ⟨by omega, by omega, ?_⟩
      -- the block starts where it did, and is one line longer
      generalize p.run alo blo bhi k j = n at *
      intro i hi
      rw [show alo + (k + 1) - (n + 1) = alo + k - n by omega,
        show j + 1 - (n + 1) = j - n by omega]
      rcases Nat.lt_succ_iff_lt_or_eq.mp hi with inside | rfl
      · exact equal i inside
      · exact ⟨line, by rwa [show alo + k - i + i = alo + k by omega],
          by rwa [show j - i + i = j by omega]⟩
    · simp [Matches]

theorem longer_cases (i : Nat) : ∀ (best : Block) (ends : List (Nat × Nat)),
    longer i best ends = best ∨ ∃ e ∈ ends, longer i best ends = ⟨i + 1 - e.2, e.1 + 1 - e.2, e.2⟩
  | _, [] => .inl rfl
  | best, (j, n) :: ends => by
    rw [longer]
    rcases longer_cases i (if best.size < n then ⟨i + 1 - n, j + 1 - n, n⟩ else best) ends with
      same | ⟨e, he, found⟩
    · rw [same]
      split
      · exact .inr ⟨(j, n), List.mem_cons_self, rfl⟩
      · exact .inl rfl
    · exact .inr ⟨e, List.mem_cons_of_mem _ he, found⟩

theorem matches_longer (faithful : p.anchors.Faithful p.right.toList) {k : Nat} {best : Block}
    (h : p.Matches best) : p.Matches (longer (alo + k) best (p.endsAt alo blo bhi (k + 1))) := by
  rcases longer_cases (alo + k) best (p.endsAt alo blo bhi (k + 1)) with same | ⟨e, he, found⟩
  · rwa [same]
  · obtain ⟨j, _, rfl⟩ := List.mem_map.mp he
    rw [found]
    exact (matches_run faithful).2.2

theorem same_iff {i j : Nat} : p.same i j = true ↔
    ∃ line, p.left[i]? = some line ∧ p.right[j]? = some line := by
  rw [same]
  cases p.left[i]? with
  | none => simp
  | some line =>
    cases p.right[j]? with
    | none => simp
    | some line' =>
      rw [beq_iff_eq]
      grind

theorem matches_growBack : ∀ {most : Nat} {b : Block}, most ≤ b.left → most ≤ b.right →
    p.Matches b → p.Matches (p.growBack most b)
  | 0, _, _, _, h => h
  | most + 1, b, left, right, h => by
    rw [growBack]
    split
    · next equal =>
      refine matches_growBack (by simp; omega) (by simp; omega) ?_
      rintro (_ | k) hk
      · exact same_iff.mp equal
      · obtain ⟨line, here, there⟩ := h k (Nat.lt_of_succ_lt_succ hk)
        refine ⟨line, ?_, ?_⟩
        · rwa [show b.left - 1 + (k + 1) = b.left + k by omega]
        · rwa [show b.right - 1 + (k + 1) = b.right + k by omega]
    · exact h

theorem matches_growOn : ∀ {most : Nat} {b : Block}, p.Matches b → p.Matches (p.growOn most b)
  | 0, _, h => h
  | most + 1, b, h => by
    rw [growOn]
    split
    · next equal =>
      refine matches_growOn fun k hk => ?_
      rcases Nat.lt_succ_iff_lt_or_eq.mp hk with inside | rfl
      · exact h k inside
      · exact same_iff.mp equal
    · exact h

theorem matches_longest (faithful : p.anchors.Faithful p.right.toList) (alo ahi blo bhi : Nat) :
    p.Matches (p.longest alo ahi blo bhi) := by
  have start : p.Matches ⟨alo, blo, 0⟩ := fun k hk => absurd hk (Nat.not_lt_zero k)
  have scanned : p.Matches (p.scan blo bhi (List.range' (alo + 0) (ahi - alo))
      (p.endsAt alo blo bhi 0) ⟨alo, blo, 0⟩) :=
    scan_induct faithful (I := fun _ b => p.Matches b) (fun _ _ => matches_longer faithful) start
  exact matches_growOn (matches_growBack (by omega) (by omega) scanned)

theorem blocksWithin_of_longest {i j n : Nat} (found : p.longest alo ahi blo bhi = ⟨i, j, n⟩)
    (inside : 0 < n ∧ alo ≤ i ∧ i + n ≤ ahi) : p.blocksWithin alo ahi blo bhi =
      p.blocksWithin alo i blo j ++ ⟨i, j, n⟩ :: p.blocksWithin (i + n) ahi (j + n) bhi := by
  rw [blocksWithin]
  simp only [found, dif_pos inside]

theorem blocksWithin_eq_nil {i j n : Nat} (found : p.longest alo ahi blo bhi = ⟨i, j, n⟩)
    (outside : ¬ (0 < n ∧ alo ≤ i ∧ i + n ≤ ahi)) : p.blocksWithin alo ahi blo bhi = [] := by
  rw [blocksWithin]
  simp only [found, dif_neg outside]

theorem matches_blocksWithin (faithful : p.anchors.Faithful p.right.toList)
    (alo ahi blo bhi : Nat) : ∀ b ∈ p.blocksWithin alo ahi blo bhi, p.Matches b ∧ 0 < b.size := by
  induction alo, ahi, blo, bhi using blocksWithin.induct p with
  | case1 alo ahi blo bhi i j n found inside before after =>
    rw [blocksWithin_of_longest found inside]
    have here : p.Matches ⟨i, j, n⟩ := found ▸ matches_longest faithful alo ahi blo bhi
    exact List.forall_mem_append.mpr ⟨before, List.forall_mem_cons.mpr ⟨⟨here, inside.1⟩, after⟩⟩
  | case2 alo ahi blo bhi i j n found outside =>
    rw [blocksWithin_eq_nil found outside]
    exact List.forall_mem_nil _

end Pair

theorem matches_joinBlocks {p : Pair} : ∀ {bs : List Block},
    (∀ b ∈ bs, p.Matches b ∧ 0 < b.size) → ∀ b ∈ joinBlocks bs, p.Matches b ∧ 0 < b.size
  | [], _ => List.forall_mem_nil _
  | b :: bs, h => by
    obtain ⟨⟨equal, filled⟩, others⟩ := List.forall_mem_cons.mp h
    have rest := matches_joinBlocks others
    rw [joinBlocks]
    split
    · exact List.forall_mem_singleton.mpr ⟨equal, filled⟩
    · next c cs joined =>
      rw [joined] at rest
      obtain ⟨⟨equal', filled'⟩, rest⟩ := List.forall_mem_cons.mp rest
      split
      · next adjacent =>
        refine List.forall_mem_cons.mpr ⟨⟨fun k hk => ?_, by simp; omega⟩, rest⟩
        rcases Nat.lt_or_ge k b.size with first | second
        · exact equal k first
        · obtain ⟨line, here, there⟩ := equal' (k - b.size) (by simp at hk; omega)
          refine ⟨line, ?_, ?_⟩
          · rwa [show b.left + k = c.left + (k - b.size) by omega]
          · rwa [show b.right + k = c.right + (k - b.size) by omega]
      · exact List.forall_mem_cons.mpr
          ⟨⟨equal, filled⟩, List.forall_mem_cons.mpr ⟨⟨equal', filled'⟩, rest⟩⟩

theorem matches_matchingBlocks {left right : List String} {m : Anchors}
    (faithful : m.Faithful right) : ∀ b ∈ matchingBlocks left right m, 0 < b.size ∧
      ∀ k < b.size, ∃ line, left[b.left + k]? = some line ∧ right[b.right + k]? = some line := by
  intro b hb
  obtain ⟨equal, filled⟩ := matches_joinBlocks
    (Pair.matches_blocksWithin (p := ⟨left.toArray, right.toArray, m⟩) faithful _ _ _ _) b hb
  exact ⟨filled, fun k hk => by simpa using equal k hk⟩

/-! ## A sequence matched with itself -/

theorem size_le_longer (i : Nat) : ∀ (best : Block) (ends : List (Nat × Nat)),
    best.size ≤ (longer i best ends).size ∧ ∀ e ∈ ends, e.2 ≤ (longer i best ends).size
  | best, [] => ⟨Nat.le_refl _, List.forall_mem_nil _⟩
  | best, (j, n) :: ends => by
    rw [longer]
    by_cases better : best.size < n
    · rw [if_pos better]
      obtain ⟨grown, rest⟩ := size_le_longer i ⟨i + 1 - n, j + 1 - n, n⟩ ends
      exact ⟨Nat.le_trans (Nat.le_of_lt better) grown, List.forall_mem_cons.mpr ⟨grown, rest⟩⟩
    · rw [if_neg better]
      obtain ⟨grown, rest⟩ := size_le_longer i best ends
      exact ⟨grown, List.forall_mem_cons.mpr ⟨Nat.le_trans (Nat.not_lt.mp better) grown, rest⟩⟩

/-- Where no earlier place is left, the line itself is the first place or none. -/
theorem own_first {i n j length size : Nat} {ends : List (Nat × Nat)}
    (later : ∀ e ∈ ends, j < e.1) (reached : i ≤ j)
    (own : (i, n) ∈ (j, length) :: ends ∨ n ≤ size) : (i = j ∧ n = length) ∨ n ≤ size := by
  refine own.imp_left fun among => ?_
  rcases List.mem_cons.mp among with same | among
  · exact Prod.mk.inj same
  · exact absurd (later _ among) (Nat.not_lt.mpr reached)

/-- The block stays on the diagonal if no place before the line itself has a longer one, and none
after it has one longer than the line itself. -/
theorem longer_diagonal {i n : Nat} : ∀ {ends : List (Nat × Nat)} {best : Block},
    ends.Pairwise (fun d e => d.1 < e.1) → best.left = best.right →
    (∀ e ∈ ends, e.1 < i → e.2 ≤ best.size) → (∀ e ∈ ends, i < e.1 → e.2 ≤ n) →
    ((∃ e ∈ ends, i < e.1) → (i, n) ∈ ends ∨ n ≤ best.size) →
      (longer i best ends).left = (longer i best ends).right
  | [], _, _, diagonal, _, _, _ => diagonal
  | (j, length) :: ends, best, ascending, diagonal, before, after, own => by
    obtain ⟨later, ascending⟩ := List.pairwise_cons.mp ascending
    obtain ⟨before, before'⟩ := List.forall_mem_cons.mp before
    obtain ⟨after, after'⟩ := List.forall_mem_cons.mp after
    rw [longer]
    rcases Nat.lt_trichotomy j i with below | rfl | above
    · rw [if_neg (Nat.not_lt.mpr (before below))]
      refine longer_diagonal ascending diagonal before' after' ?_
      rintro ⟨e, he, above⟩
      refine (own ⟨e, List.mem_cons_of_mem _ he, above⟩).imp_left fun among => ?_
      exact List.mem_of_ne_of_mem (by simp; omega) among
    · -- this is the line itself, and only places after it are left
      have noneBefore : ∀ e ∈ ends, e.1 < j → e.2 ≤ max best.size length := fun e he below =>
        absurd below (Nat.not_lt.mpr (Nat.le_of_lt (later e he)))
      have longEnough : (∃ e ∈ ends, j < e.1) → n ≤ max best.size length := by
        rintro ⟨e, he, above⟩
        rcases own_first later (Nat.le_refl j) (own ⟨e, List.mem_cons_of_mem _ he, above⟩) with
          ⟨_, rfl⟩ | short
        · exact Nat.le_max_right _ _
        · exact Nat.le_trans short (Nat.le_max_left _ _)
      split
      · next better =>
        rw [Nat.max_eq_right (Nat.le_of_lt better)] at noneBefore longEnough
        exact longer_diagonal ascending rfl noneBefore after' fun some => .inr (longEnough some)
      · next worse =>
        rw [Nat.max_eq_left (Nat.not_lt.mp worse)] at noneBefore longEnough
        exact longer_diagonal ascending diagonal noneBefore after' fun some =>
          .inr (longEnough some)
    · have longEnough : n ≤ best.size := by
        have own' := own_first later (Nat.le_of_lt above) (own ⟨_, List.mem_cons_self, above⟩)
        exact own'.resolve_left fun same => absurd same.1 (Nat.ne_of_lt above)
      rw [if_neg (Nat.not_lt.mpr (Nat.le_trans (after above) longEnough))]
      exact longer_diagonal ascending diagonal before' after' fun _ => .inr longEnough

namespace Pair

/-- A sequence to be matched with itself. -/
def self (lines : List String) (m : Anchors) : Pair := ⟨lines.toArray, lines.toArray, m⟩

theorem same_self {lines : List String} {m : Anchors} {i : Nat} (h : i < lines.length) :
    (self lines m).same i i = true := by
  rw [same_iff]
  simp [self, h]

theorem growBack_self {lines : List String} {m : Anchors} : ∀ {most i n : Nat}, most ≤ i →
    i ≤ lines.length →
      (self lines m).growBack most ⟨i, i, n⟩ = ⟨i - most, i - most, n + most⟩
  | 0, _, _, _, _ => rfl
  | most + 1, i, n, inside, bound => by
    have equal : (self lines m).same (i - 1) (i - 1) = true := same_self (by omega)
    simp only [growBack, equal, if_true]
    rw [growBack_self (by omega) (by omega), Nat.sub_sub, Nat.add_assoc, Nat.add_comm 1 most]

theorem growOn_self {lines : List String} {m : Anchors} : ∀ {most n : Nat},
    n + most ≤ lines.length → (self lines m).growOn most ⟨0, 0, n⟩ = ⟨0, 0, n + most⟩
  | 0, _, _ => rfl
  | most + 1, n, bound => by
    have equal : (self lines m).same (0 + n) (0 + n) = true := same_self (by omega)
    simp only [growOn, equal, if_true]
    rw [growOn_self (by omega), Nat.add_assoc, Nat.add_comm 1 most]

theorem mem_endsAt_self {lines : List String} {m : Anchors} {k : Nat} {e : Nat × Nat} :
    e ∈ (self lines m).endsAt 0 0 lines.length (k + 1) ↔
      e.1 ∈ (self lines m).places 0 lines.length k ∧
        e.2 = (self lines m).run 0 0 lines.length (k + 1) (e.1 + 1) := by
  rw [endsAt, Nat.zero_add, List.mem_map]
  constructor
  · rintro ⟨j, hj, rfl⟩
    exact ⟨hj, rfl⟩
  · rintro ⟨known, length⟩
    exact ⟨e.1, known, Prod.ext rfl length.symm⟩

/-- What holds of the longest block after `k` lines of a sequence matched with itself. -/
structure Diagonal (lines : List String) (m : Anchors) (k : Nat) (b : Block) : Prop where
  diagonal : b.left = b.right
  within : b.left + b.size ≤ k
  longest : ∀ k' ≤ k, ∀ e ∈ (self lines m).endsAt 0 0 lines.length k', e.2 ≤ b.size

section
variable {lines : List String} {m : Anchors} (faithful : m.Faithful lines)
include faithful

theorem mem_places_self {i j : Nat} : j ∈ (self lines m).places 0 lines.length i ↔
    ∃ line js, lines[i]? = some line ∧ m[line]? = some js ∧ lines[j]? = some line := by
  rw [mem_places (p := self lines m) faithful]
  simp only [self, List.getElem?_toArray, Nat.zero_le, true_and]
  refine and_iff_right_of_imp ?_
  rintro ⟨line, js, _, _, there⟩
  exact (List.getElem?_eq_some_iff.mp there).1

/-- The places of the lines of a sequence in the sequence itself. -/
theorem places_comm {i j : Nat} (h : j ∈ (self lines m).places 0 lines.length i) :
    i ∈ (self lines m).places 0 lines.length j := by
  obtain ⟨line, js, here, known, there⟩ := (mem_places_self faithful).mp h
  exact (mem_places_self faithful).mpr ⟨line, js, there, known, here⟩

theorem places_diagonal {i j : Nat} (h : j ∈ (self lines m).places 0 lines.length i) :
    i ∈ (self lines m).places 0 lines.length i := by
  obtain ⟨line, js, here, known, _⟩ := (mem_places_self faithful).mp h
  exact (mem_places_self faithful).mpr ⟨line, js, here, known, here⟩

theorem run_comm : ∀ k j : Nat, (self lines m).run 0 0 lines.length k j =
    (self lines m).run 0 0 lines.length j k
  | 0, 0 => rfl
  | 0, _ + 1 => rfl
  | _ + 1, 0 => rfl
  | k + 1, j + 1 => by
    rw [run, run, run_comm k j, Nat.zero_add, Nat.zero_add]
    exact if_congr ⟨places_comm faithful, places_comm faithful⟩ rfl rfl

theorem run_le_diagonal : ∀ k j : Nat, (self lines m).run 0 0 lines.length k j ≤
    (self lines m).run 0 0 lines.length k k
  | 0, _ => by simp [run]
  | _ + 1, 0 => by simp [run]
  | k + 1, j + 1 => by
    rw [run, run, Nat.zero_add]
    split
    · next known =>
      rw [if_pos (places_diagonal faithful known)]
      exact Nat.succ_le_succ (run_le_diagonal k j)
    · exact Nat.zero_le _

theorem Diagonal.next {k : Nat} {best : Block} (h : Diagonal lines m k best) :
    Diagonal lines m (k + 1)
      (longer (0 + k) best ((self lines m).endsAt 0 0 lines.length (k + 1))) := by
  rw [Nat.zero_add]
  obtain ⟨grown, longest⟩ :=
    size_le_longer k best ((self lines m).endsAt 0 0 lines.length (k + 1))
  refine ⟨?_, ?_, ?_⟩
  · refine longer_diagonal (ascending_endsAt (p := self lines m) faithful _) h.diagonal
      (n := (self lines m).run 0 0 lines.length (k + 1) (k + 1)) ?_ ?_ ?_
    · -- an earlier place was as long when its own line was looked at
      intro e he below
      obtain ⟨known, length⟩ := mem_endsAt_self.mp he
      rw [length, run_comm faithful]
      exact h.longest (e.1 + 1) below (k, _) (mem_endsAt_self.mpr ⟨places_comm faithful known, rfl⟩)
    · intro e he _
      rw [(mem_endsAt_self.mp he).2]
      exact run_le_diagonal faithful _ _
    · rintro ⟨e, he, _⟩
      have known := places_diagonal faithful (mem_endsAt_self.mp he).1
      exact .inl (mem_endsAt_self.mpr ⟨known, rfl⟩)
  · rcases longer_cases k best ((self lines m).endsAt 0 0 lines.length (k + 1)) with
      same | ⟨e, he, found⟩
    · rw [same]
      exact Nat.le_succ_of_le h.within
    · rw [found, (mem_endsAt_self.mp he).2]
      have : (self lines m).run 0 0 lines.length (k + 1) (e.1 + 1) ≤ k + 1 :=
        (matches_run faithful).1
      simp only
      omega
  · intro k' hk' e he
    rcases Nat.le_succ_iff.mp hk' with before | rfl
    · exact Nat.le_trans (h.longest k' before e he) grown
    · exact longest e he

theorem longest_self : (self lines m).longest 0 lines.length 0 lines.length =
    ⟨0, 0, lines.length⟩ := by
  have start : Diagonal lines m 0 ⟨0, 0, 0⟩ := by
    refine ⟨rfl, Nat.le_refl 0, fun k hk e he => ?_⟩
    rw [Nat.le_zero.mp hk] at he
    cases he
  have scanned := scan_induct (p := self lines m) faithful (fun _ _ h => h.next faithful)
    (n := lines.length) start
  rw [longest, Nat.sub_zero]
  change Diagonal lines m (0 + lines.length)
    ((self lines m).scan 0 lines.length (List.range' 0 lines.length) [] ⟨0, 0, 0⟩) at scanned
  generalize (self lines m).scan 0 lines.length (List.range' 0 lines.length) [] ⟨0, 0, 0⟩ = b
    at scanned ⊢
  obtain ⟨i, j, n⟩ := b
  obtain ⟨diagonal, within, _⟩ := scanned
  obtain rfl : i = j := diagonal
  simp only [Nat.zero_add] at within
  simp only [Nat.sub_zero, Nat.min_self]
  rw [growBack_self (Nat.le_refl i) (by omega)]
  simp only [Nat.sub_self, Nat.zero_add]
  rw [growOn_self (by omega)]
  congr 1
  omega

end

end Pair

/-- A sequence matched with itself makes one block of all its lines. -/
theorem matchingBlocks_self {lines : List String} {m : Anchors} (faithful : m.Faithful lines)
    (some : lines ≠ []) : matchingBlocks lines lines m = [⟨0, 0, lines.length⟩] := by
  have length : 0 < lines.length := List.length_pos_iff.mpr some
  have found := Pair.longest_self faithful
  have none (n blo bhi : Nat) : (Pair.self lines m).blocksWithin n n blo bhi = [] :=
    Pair.blocksWithin_eq_nil rfl (by omega)
  have whole := Pair.blocksWithin_of_longest found ⟨length, Nat.zero_le 0, by omega⟩
  rw [none, Nat.zero_add, none] at whole
  exact congrArg joinBlocks whole

end MailRules.Text
