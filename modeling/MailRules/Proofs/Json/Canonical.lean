import MailRules.Condition.Json
import MailRules.Proofs.Native.SameContents
import MailRules.Proofs.Sorting
import Mathlib.Data.List.Perm.Basic

/-!
The canonical text of a value tells it, up to the order of the fields of its objects.

Two values are the same up to the order of fields if they are built alike, and the fields of one
object can be put in an order in which they pair up with those of the other (`Same`). The relation
is stated without the order that the canonical text puts fields in.

What is proved:
  1. `canonical_of_same`: values that are the same up to the order of fields have one canonical
     text. Fields in ascending order of distinct keys stand in one order only.
  2. `same_of_arranged_eq`: and the other way, through the reader, which finds an arranged value.
  3. `arranged_toJson_injective`: a condition is told by its JSON value, even if arranged.
  4. `canonical_injective`: so canonical texts tell values, contents of filters, and conditions in
     canonical order.
-/

namespace MailRules

namespace Json

/-- Two values are equal up to the order of fields, at every depth. -/
inductive Same : Json → Json → Prop where
  | null : Same .null .null
  | bool (b : Bool) : Same (.bool b) (.bool b)
  | int (n : Int) : Same (.int n) (.int n)
  | float (x : Float) : Same (.float x) (.float x)
  | str (s : String) : Same (.str s) (.str s)
  | arr {items items' : List Json} (each : List.Forall₂ Same items items') :
      Same (.arr items) (.arr items')
  | obj {fields reordered fields' : Fields} (perm : reordered.Perm fields')
      (keys : fields.map (·.1) = reordered.map (·.1))
      (values : List.Forall₂ Same (fields.map (·.2)) (reordered.map (·.2))) :
      Same (.obj fields) (.obj fields')

/-! ## From values to texts -/

theorem arrange_eq_of_perm {α : Type} {xs ys : List (String × α)} (perm : xs.Perm ys)
    (distinct : (ys.map (·.1)).Nodup) : Layout.canonical.arrange xs = Layout.canonical.arrange ys := by
  have sorted : (Layout.canonical.arrange xs).Pairwise fun a b => a.1 ≤ b.1 :=
    sorted_mergeSort Prod.fst xs
  have same : (Layout.canonical.arrange xs).Perm ys := (arrange_perm .canonical xs).trans perm
  exact (mergeSort_eq_of_sorted same distinct sorted).symm

theorem map_eq_map_iff {α β γ : Type} {f : α → γ} {g : β → γ} {xs : List α} {ys : List β} :
    xs.map f = ys.map g ↔ List.Forall₂ (fun x y => f x = g y) xs ys := by
  rw [← List.forall₂_eq_eq_eq, List.forall₂_map_left_iff, List.forall₂_map_right_iff]

theorem render_of_same {v : Json} (h : Exact v) :
    ∀ {w : Json}, Same v w → ∀ depth, render .canonical depth v = render .canonical depth w := by
  induction h with
  | null => intro w same depth; cases same; rfl
  | bool b => intro w same depth; cases same; rfl
  | int n => intro w same depth; cases same; rfl
  | str s => intro w same depth; cases same; rfl
  | @arr items _ ih =>
    intro w same depth
    cases same with
    | @arr _ items' each =>
      have texts : items.map (render .canonical (depth + 1)) =
          items'.map (render .canonical (depth + 1)) :=
        map_eq_map_iff.mpr (forall₂_imp_of_mem each fun v hv w _ same => ih v hv same _)
      rw [render, render, renderItems_eq_map, renderItems_eq_map, texts]
  | @obj fields distinct _ ih =>
    intro w same depth
    cases same with
    | @obj _ reordered fields' perm keys values =>
      rw [← List.forall₂_eq_eq_eq] at keys
      have each := forall₂_prod.mpr ⟨keys, values⟩
      let text (field : String × Json) := (field.1, render .canonical (depth + 1) field.2)
      have texts : fields.map text = reordered.map text :=
        map_eq_map_iff.mpr (forall₂_imp_of_mem each fun x hx y _ same =>
          Prod.ext same.1 (ih x hx same.2 _))
      have distinct : ((fields.map text).map (·.1)).Nodup := by
        rw [List.map_map]
        exact distinct
      have inOrder : Layout.canonical.arrange (fields.map text) =
          Layout.canonical.arrange (fields'.map text) :=
        (arrange_eq_of_perm (texts ▸ perm.symm.map text) distinct).symm
      rw [render, render, renderFields_eq_map, renderFields_eq_map, inOrder]

/-! ## From texts to values -/

theorem exists_perm_of_map_perm {α β : Type} {f : α → β} {xs ys : List α}
    (h : (xs.map f).Perm (ys.map f)) :
    ∃ zs, List.Forall₂ (fun x z => f x = f z) xs zs ∧ zs.Perm ys := by
  have pairs : List.Forall₂ (fun b y => b = f y) (ys.map f) ys := by
    rw [List.forall₂_map_left_iff]
    exact List.forall₂_same.mpr fun _ _ => rfl
  obtain ⟨zs, each, perm⟩ := List.perm_comp_forall₂ h pairs
  exact ⟨zs, List.forall₂_map_left_iff.mp each, perm⟩

theorem same_of_arranged_eq {v : Json} (h : Exact v) :
    ∀ {w : Json}, Exact w → v.arranged = w.arranged → Same v w := by
  induction h with
  | null =>
    intro w hw e
    cases hw <;> cases e
    exact .null
  | bool b =>
    intro w hw e
    cases hw <;> cases e
    exact .bool b
  | int n =>
    intro w hw e
    cases hw <;> cases e
    exact .int n
  | str s =>
    intro w hw e
    cases hw <;> cases e
    exact .str s
  | @arr items _ ih =>
    intro w hw e
    cases hw with
    | @arr items' each =>
      simp only [arranged, Json.arr.injEq, arrangedItems_eq_map] at e
      exact .arr (forall₂_imp_of_mem (map_eq_map_iff.mp e) fun v hv w hw => ih v hv (each w hw))
    | _ => cases e
  | @obj fields distinct _ ih =>
    intro w hw e
    cases hw with
    | @obj fields' _ each =>
      simp only [arranged, Json.obj.injEq, arrangedFields_eq_map] at e
      let part (field : String × Json) := (field.1, field.2.arranged)
      have moved : (fields.map part).Perm (fields'.map part) := by
        have perm := arrange_perm .canonical (fields.map part)
        rw [e] at perm
        exact perm.symm.trans (arrange_perm .canonical (fields'.map part))
      obtain ⟨reordered, pairs, perm⟩ := exists_perm_of_map_perm moved
      have same : List.Forall₂ (fun x y => x.1 = y.1 ∧ Same x.2 y.2) fields reordered := by
        refine forall₂_imp_of_mem pairs fun x hx y hy alike => ?_
        obtain ⟨key, value⟩ := Prod.ext_iff.mp alike
        exact ⟨key, ih x hx (each y (perm.mem_iff.mp hy)) value⟩
      obtain ⟨keys, values⟩ := forall₂_prod.mp same
      rw [List.forall₂_eq_eq_eq] at keys
      exact .obj perm keys values
    | _ => cases e

theorem length_of_arranged_eq {fields fields' : Fields}
    (h : (Json.obj fields).arranged = (Json.obj fields').arranged) :
    fields.length = fields'.length := by
  have length (fields : Fields) :
      (Layout.canonical.arrange (arrangedFields fields)).length = fields.length := by
    rw [(arrange_perm .canonical _).length_eq, arrangedFields_eq_map, List.length_map]
  simp only [arranged, Json.obj.injEq] at h
  rw [← length fields, h, length fields']

theorem canonical_eq_iff {v w : Json} (hv : Exact v) (hw : Exact w) :
    v.canonical = w.canonical ↔ Same v w :=
  ⟨fun e => same_of_arranged_eq hv hw (arranged_eq_of_canonical_eq hv hw e),
    fun same => render_of_same hv same 0⟩

end Json

/-! ## Conditions -/

namespace Condition

open Json (Exact arranged arrangedFields_eq)

theorem exact_toJson (t : Condition) : Exact t.toJson := by
  induction t using induct with
  | onLeaf l =>
    rw [toJson, leafJson]
    refine .obj (by simp) fun field mem => ?_
    simp only [List.mem_cons, List.not_mem_nil, or_false] at mem
    rcases mem with rfl | rfl | rfl | rfl
    · exact .str _
    · exact .str _
    · refine .arr fun v hv => ?_
      obtain ⟨s, _, rfl⟩ := List.mem_map.mp hv
      exact .str s
    · exact .bool _
  | onNode op cs ih =>
    rw [toJson, toJsonAll_eq_map]
    refine .obj (by simp) fun field mem => ?_
    simp only [List.mem_cons, List.not_mem_nil, or_false] at mem
    rcases mem with rfl | rfl
    · exact .str _
    · refine .arr fun v hv => ?_
      obtain ⟨c, hc, rfl⟩ := List.mem_map.mp hv
      exact ih c hc

theorem toJson_leaf_ne_node (l : Leaf) (op : Connective) (cs : List Condition) :
    (leaf l).toJson.arranged ≠ (node op cs).toJson.arranged := by
  intro h
  rw [toJson, toJson, leafJson] at h
  exact absurd (Json.length_of_arranged_eq h) (by simp)

/-- A condition is told by its JSON value, however the fields of that are arranged. -/
theorem arranged_toJson_injective {s t : Condition} (h : s.toJson.arranged = t.toJson.arranged) :
    s = t := by
  induction s using induct generalizing t with
  | onLeaf l =>
    cases t with
    | node op cs => exact absurd h (toJson_leaf_ne_node l op cs)
    | leaf l' =>
      rw [toJson, toJson, leafJson, leafJson] at h
      have fields := arrangedFields_eq h rfl (by simp)
      simp only [Json.arrangedFields, Json.arranged, Json.ofTexts, Json.arrangedItems_eq_map,
        List.map_map, List.cons.injEq, Prod.mk.injEq, true_and, and_true, Json.str.injEq,
        Json.arr.injEq, Json.bool.injEq] at fields
      obtain ⟨field, grouping, operands, raw⟩ := fields
      have field : l.field = l'.field := Field.name_injective field
      have grouping : l.grouping = l'.grouping := Connective.name_injective grouping
      have operands : l.operands = l'.operands :=
        eq_of_map_eq_map (fun a _ b _ e => by simpa [Json.arranged] using e) operands
      cases l
      cases l'
      simp_all
  | onNode op cs ih =>
    cases t with
    | leaf l => exact absurd h.symm (toJson_leaf_ne_node l op cs)
    | node op' cs' =>
      rw [toJson, toJson, toJsonAll_eq_map, toJsonAll_eq_map] at h
      have fields := arrangedFields_eq h rfl (by simp)
      simp only [Json.arrangedFields, Json.arranged, Json.arrangedItems_eq_map, List.map_map,
        List.cons.injEq, Prod.mk.injEq, true_and, and_true, Json.str.injEq,
        Json.arr.injEq] at fields
      rw [Connective.name_injective fields.1,
        eq_of_map_eq_map (fun c hc d _ => ih c hc) fields.2]

end Condition

/-! ## Identities -/

/-- **Canonical texts tell what they are made of.** Values without doubles in which no object has a
key twice have one canonical text exactly if they are equal up to the order of fields; filters have
one content exactly if their criteria and actions are equal, whatever their ids; and conditions have
one canonical text exactly if they are equal in canonical order. -/
theorem canonical_injective :
    (∀ v w : Json, v.Exact → w.Exact → (v.canonical = w.canonical ↔ v.Same w)) ∧
    (∀ f g : Native.Filter, f.content = g.content ↔
      f.criteria = g.criteria ∧ f.action = g.action) ∧
    ∀ s t : Condition, s.canonicalText = t.canonicalText ↔ s.sorted = t.sorted := by
  refine ⟨fun v w hv hw => Json.canonical_eq_iff hv hw, fun f g => ⟨fun e => ?_, fun e => ?_⟩,
    fun s t => ⟨fun e => ?_, fun e => ?_⟩⟩
  · exact Prod.ext_iff.mp (Native.contents_eq_of_content_eq e)
  · rw [Native.Filter.content, Native.Filter.content, e.1, e.2]
  · apply Condition.arranged_toJson_injective
    exact Json.arranged_eq_of_canonical_eq (Condition.exact_toJson _) (Condition.exact_toJson _) e
  · rw [Condition.canonicalText, Condition.canonicalText, e]

/-- An object and the same with its fields in another order have one text. -/
theorem canonical_injective_reordered :
    let v := Json.obj [("b", .arr [.null, .bool true]), ("a", .str "é\n")]
    let w := Json.obj [("a", .str "é\n"), ("b", .arr [.null, .bool true])]
    v.Exact ∧ w.Exact ∧ v.canonical = w.canonical := by
  intro v w
  have items : (Json.arr [.null, .bool true]).Exact :=
    .arr (List.forall_mem_cons.mpr ⟨.null, List.forall_mem_singleton.mpr (.bool true)⟩)
  have left : v.Exact := .obj (by decide)
    (List.forall_mem_cons.mpr ⟨items, List.forall_mem_singleton.mpr (.str _)⟩)
  have right : w.Exact := .obj (by decide)
    (List.forall_mem_cons.mpr ⟨.str _, List.forall_mem_singleton.mpr items⟩)
  have same : v.Same w := by
    refine .obj (.swap _ _ []) rfl (.cons (.arr ?_) (.cons (.str _) .nil))
    exact .cons .null (.cons (.bool true) .nil)
  exact ⟨left, right, (canonical_injective.1 v w left right).mpr same⟩

end MailRules
