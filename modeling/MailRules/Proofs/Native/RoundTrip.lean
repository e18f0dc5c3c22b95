import MailRules.Proofs.Condition.EveryLeaf
import MailRules.Proofs.Config.Expression
import MailRules.Proofs.Native.Imported

/-!
Compiled filters, imported, compile to themselves.

The import tells from a text alone whether to write it again as it is. A text that was compiled for
a sender, recipient or subject holds a quote if an operand in it was quoted, and a space if there
are several operands in it, in a group or side by side. Otherwise it is a lone operand that needs no
quotes, and is not given any (`rewritten_of_operandText`).

Only a leaf that is taken to be in the search language already, a raw leaf, could bring another text
there. Raw leaves come from expressions that are marked as escaped. If there are none, no stage of
compilation makes one.

What is proved:
  1. `noRaw_of_resolve`: expressions that are not escaped stand for conditions without raw leaves.
  2. `rewritten_of_criteria`: the criteria of such a condition are the same when written again.
  3. `importable_of_compile`: compiled filters can be imported.
  4. `ofNative_compile`: compiling, importing and compiling again gives the same filters and labels.
-/

namespace MailRules

open Native

/-! ## Escaped expressions -/

namespace FilterExpr

mutual
/-- Whether neither the expression nor any below it is marked as escaped. -/
def unescaped : FilterExpr → Bool
  | ⟨conj, disj, neg, _, _, _, _, _, _, _, _, _, _, escaped⟩ =>
    !escaped && unescapedList conj && unescapedList disj && unescapedOption neg
def unescapedOption : Option FilterExpr → Bool
  | none => true
  | some e => unescaped e
def unescapedList : Option (List FilterExpr) → Bool
  | none => true
  | some es => unescapedAll es
def unescapedAll : List FilterExpr → Bool
  | [] => true
  | e :: es => unescaped e && unescapedAll es
end

end FilterExpr

/-- No filter of the configuration, in its rules or under a name, is marked as escaped anywhere. -/
structure Config.Unescaped (c : Config) : Prop where
  filters : ∀ f ∈ c.filters, f.filter.unescaped = true
  rules : ∀ r ∈ c.rules, r.filter.unescaped = true

instance (c : Config) : Decidable c.Unescaped :=
  decidable_of_iff ((∀ f ∈ c.filters, f.filter.unescaped = true) ∧
      ∀ r ∈ c.rules, r.filter.unescaped = true)
    ⟨fun ⟨filters, rules⟩ => ⟨filters, rules⟩, fun h => ⟨h.filters, h.rules⟩⟩

namespace FilterExpr

open Condition

theorem unescapedAll_eq_all : ∀ es : List FilterExpr, unescapedAll es = es.all unescaped
  | [] => rfl
  | e :: es => by rw [unescapedAll, unescapedAll_eq_all es, List.all_cons]

theorem unescapedList_eq_all (es? : Option (List FilterExpr)) :
    unescapedList es? = (es?.getD []).all unescaped := by
  cases es? with
  | none => rfl
  | some es => exact unescapedAll_eq_all es

theorem unescapedOption_eq_all (e? : Option FilterExpr) :
    unescapedOption e? = e?.toList.all unescaped := by
  cases e? with
  | none => rfl
  | some e => simp [unescapedOption]

theorem unescaped_iff {e : FilterExpr} : e.unescaped = true ↔
    e.escaped = false ∧ ∀ x ∈ e.children, x.unescaped = true := by
  cases e
  rw [unescaped, unescapedList_eq_all, unescapedList_eq_all, unescapedOption_eq_all, children]
  simp [or_imp, forall_and, and_assoc]

theorem noRaw_of_resolve {named : Named} {path : String} (hn : ∀ x ∈ named, x.2.NoRaw)
    {e : FilterExpr} {t : Condition} (plain : e.unescaped = true)
    (h : e.resolve named path = .ok t) : t.NoRaw := by
  refine resolve_induct (P := fun e t => e.unescaped = true → t.NoRaw) ?_ ?_ ?_ e h plain
  · intro e path key op ts _ _ children plain
    refine everyLeaf_node.mpr fun t ht => ?_
    obtain ⟨x, hx, noRaw⟩ := exists_left_of_mem children ht
    exact noRaw ((unescaped_iff.mp plain).2 x hx)
  · intro e f s _ _ plain
    exact everyLeaf_leaf.mpr (unescaped_iff.mp plain).1
  · intro e n t _ _ found _
    exact hn _ (Named.mem_of_find? found)

end FilterExpr

theorem Config.Unescaped.noRaw {c : Config} (h : c.Unescaped) {passes : Int}
    {rs : List ResolvedRule} (hrs : c.resolve passes = .ok rs) : ∀ r ∈ rs, r.condition.NoRaw := by
  intro r hr
  obtain ⟨t, plain, same⟩ := Config.condition_of_resolve (P := Condition.NoRaw)
    (fun f hf _ _ _ hn => FilterExpr.noRaw_of_resolve hn (h.filters f hf))
    (fun r hr _ _ _ hn => FilterExpr.noRaw_of_resolve hn (h.rules r hr)) hrs r hr
  rw [same]
  exact Condition.noRaw_simplify plain passes

/-! ## Texts that are read as they were written -/

namespace Native

theorem isQuoted_append (a b : String) : isQuoted (a ++ b) = (isQuoted a || isQuoted b) := by
  simp [isQuoted]

theorem rewritten_of_isQuoted {text : String} (h : isQuoted text = true) :
    rewritten text = text := by
  rw [rewritten, if_pos h]

theorem rewritten_quote (s : String) : rewritten (quote s) = quote s := by
  by_cases needed : needsQuotes s = true
  · refine rewritten_of_isQuoted ?_
    rw [quote, if_pos needed, isQuoted_append, isQuoted_append]
    simp [isQuoted]
  · have same : quote s = s := by rw [quote, if_neg needed]
    rw [same]
    exact rewritten_eq_self_iff.mpr fun _ => same

theorem rewritten_joinQueries {a b : String} (ha : rewritten a = a) (hb : rewritten b = b) :
    rewritten (joinQueries a b) = joinQueries a b := by
  rw [joinQueries]
  split
  · exact hb
  · split
    · exact ha
    · refine rewritten_of_isQuoted ?_
      rw [isQuoted_append, isQuoted_append]
      simp [isQuoted]

theorem isQuoted_intercalate {s s' : String} {ss : List String} :
    isQuoted (String.intercalate " " (s :: s' :: ss)) = true := by
  rw [String.intercalate_cons_cons, isQuoted_append, isQuoted_append]
  simp [isQuoted]

theorem isQuoted_of_group {op : Connective} {text written : String} (quoted : isQuoted text = true)
    (h : group op text = .ok written) : isQuoted written = true := by
  cases op <;> cases h <;> simp [isQuoted_append, quoted]

theorem rewritten_of_operandText {l : Leaf} {text : String} (plain : l.raw = false)
    (tested : l.field ≠ .query) (h : operandText l = .ok text) : rewritten text = text := by
  have quotes : l.field ≠ .query ∧ (!l.raw) = true := ⟨tested, by rw [plain]; rfl⟩
  simp only [operandText, if_pos quotes] at h
  cases operands : l.operands with
  | nil =>
    rw [operands] at h
    cases h
    rfl
  | cons s ss =>
    rw [operands] at h
    cases ss with
    | nil =>
      cases h
      exact rewritten_quote s
    | cons s' ss =>
      rw [if_pos (by simp)] at h
      exact rewritten_of_isQuoted (isQuoted_of_group isQuoted_intercalate h)

/-! ## Criteria -/

theorem Criteria.rewritten_only {text : String} {p : Place}
    (h : p ≠ .query → Native.rewritten text = text) : (only text p).rewritten = only text p := by
  refine rewritten_eq_self_iff.mpr fun p' other => ?_
  rw [text_only]
  split
  · next here => exact h (here ▸ other)
  · rfl

theorem Criteria.rewritten_join {a b : Criteria} (ha : a.rewritten = a) (hb : b.rewritten = b) :
    (a.join b).rewritten = a.join b := by
  rw [rewritten_eq_self_iff] at ha hb ⊢
  intro p other
  rw [text_join]
  exact rewritten_joinQueries (ha p other) (hb p other)

theorem fieldCriteria_eq_ok {field : Field} {text : String} {c : Criteria}
    (h : fieldCriteria field text = .ok c) :
    ∃ p q, c = .only q p ∧ (p ≠ .query → q = text ∧ field ≠ .query) := by
  cases field with
  | unset => cases h
  | sender => cases h; exact ⟨.sender, text, rfl, by simp⟩
  | recipient => cases h; exact ⟨.recipient, text, rfl, by simp⟩
  | subject => cases h; exact ⟨.subject, text, rfl, by simp⟩
  | _ => cases h; exact ⟨.query, _, rfl, by simp⟩

theorem rewritten_of_partsAll : ∀ {ts : List Condition},
    (∀ t ∈ ts, ∀ {c : Criteria}, parts t = .ok c → c.rewritten = c) →
      ∀ {c : Criteria}, partsAll ts = .ok c → c.rewritten = c
  | [], _, c, hc => by
    cases hc
    rfl
  | t :: ts, h, c, hc => by
    obtain ⟨first, rest⟩ := List.forall_mem_cons.mp h
    rw [partsAll] at hc
    split at hc
    · cases hc
    · next d hd =>
      obtain ⟨e, he, rfl⟩ := map_eq_ok.mp hc
      exact Criteria.rewritten_join (first hd) (rewritten_of_partsAll rest he)

theorem rewritten_of_parts {t : Condition} (h : t.NoRaw) :
    ∀ {c : Criteria}, parts t = .ok c → c.rewritten = c := by
  induction t using Condition.induct with
  | onLeaf l =>
    intro c hc
    obtain ⟨text, written, placed⟩ := bind_eq_ok.mp hc
    obtain ⟨p, q, rfl, direct⟩ := fieldCriteria_eq_ok placed
    refine Criteria.rewritten_only fun other => ?_
    obtain ⟨rfl, tested⟩ := direct other
    exact rewritten_of_operandText (Condition.everyLeaf_leaf.mp h) tested written
  | onNode op cs ih =>
    intro c hc
    have children := Condition.everyLeaf_node.mp h
    match op, cs with
    | _, [] => simp [parts] at hc
    | .and, d :: ds =>
      rw [parts] at hc
      exact rewritten_of_partsAll (fun e he => ih e he (children e he)) hc
    | .or, d :: ds =>
      obtain ⟨text, _, rfl⟩ := map_eq_ok.mp hc
      rfl
    | .not, [d] =>
      obtain ⟨text, _, rfl⟩ := map_eq_ok.mp hc
      rfl
    | .not, _ :: _ :: _ => cases hc
    | .unset, _ :: _ => cases hc

theorem rewritten_of_criteria {t : Condition} (h : t.NoRaw) {c : Criteria}
    (hc : criteria t = .ok c) : c.rewritten = c ∧ c.isEmpty = false := by
  obtain ⟨written, set⟩ := Condition.parts_of_criteria hc
  exact ⟨rewritten_of_parts h written, set⟩

end Native

/-! ## Compiled configurations -/

theorem Actions.decided_of_native {a : Actions} {ns : List Action} (h : a.native = .ok ns) :
    ∀ n ∈ ns, ¬ (n.markImportant = true ∧ n.markNotImportant = true) := by
  have first (label : String) : ¬ ((a.withLabel label).markImportant = true ∧
      (a.withLabel label).markNotImportant = true) := by
    simp only [withLabel, decide_eq_true_eq]
    rintro ⟨yes, no⟩
    rw [yes] at no
    cases no
  rw [native] at h
  split at h
  · cases h
  · cases h
    split
    · simpa using first ""
    · next label labels _ => simpa using first label

/-- A compiled filter has no id, can be imported, and is written again as it is. -/
theorem importable_of_compile {c : Config} (h : c.Unescaped) {b : Bounds} {k : Compiled}
    (hk : c.compile b = .ok k) : ∀ f ∈ k.filters, f.Importable ∧ f.rewritten = f := by
  intro f hf
  obtain ⟨id, r, hr, ps, hps, ⟨p, hp, written⟩, ns, hns, hn⟩ := Config.mem_filters_of_compile hk hf
  obtain ⟨_, resolved, _⟩ := Config.compile_eq_ok_iff.mp hk
  have plain := Condition.noRaw_of_split (h.noRaw resolved r hr) hps p hp
  obtain ⟨same, set⟩ := rewritten_of_criteria plain written
  refine ⟨⟨set, Actions.decided_of_native hns _ hn⟩, ?_⟩
  rw [Filter.rewritten, same, ← id]

/-- **Compiling, importing and compiling again is the identity.** If no filter of a configuration is
marked as escaped and it compiles, its filters and labels are imported as a configuration that
compiles within any bounds, to the same filters and labels in the same order. -/
theorem ofNative_compile {c : Config} (h : c.Unescaped) {b : Bounds} {k : Compiled}
    (hk : c.compile b = .ok k) : ∃ i, Config.ofNative k.filters k.labels = .ok i ∧
      ∀ b', ∃ k', i.compile b' = .ok k' ∧ k'.filters = k.filters ∧ k'.labels = k.labels := by
  have importable := importable_of_compile h hk
  obtain ⟨valid, _, _, labels⟩ := Config.compile_eq_ok_iff.mp hk
  have redeclared : (k.labels.map fun l => .ofDeclared l.declared) = k.labels := by
    rw [labels, List.map_map]
    rfl
  have unchanged : k.filters.map Filter.rewritten = k.filters := by
    rw [List.map_congr_left fun f hf => (importable f hf).2, List.map_id']
  obtain ⟨i, imported, compiles⟩ := compile_ofNative k.labels
    (fun f hf => (importable f hf).1) (by rw [redeclared, labels, valid])
  refine ⟨i, imported, fun b' => ?_⟩
  obtain ⟨k', compiled, filters, sameLabels⟩ := compiles b'
  exact ⟨k', compiled, filters.trans unchanged, sameLabels.trans redeclared⟩

/-- A configuration with a named filter, a double negation, operands that need quotes, two labels
and a disjunction that is cut. -/
theorem ofNative_compile_named :
    let c : Config := {
      labels := [⟨"x", none⟩, ⟨"y/z", some ⟨"#4a86e8", "#ffffff"⟩⟩]
      filters := [⟨"some", { disj := some [{ sender := some "a+b" },
        { neg := some { neg := some { sender := some "c d" } } }] }⟩]
      rules := [
        ⟨{ conj := some [{ neg := some { list := some "e" } }, { name := some "some" },
            { conj := some [{ subject := some "f\tg" }, { recipient := some "h+i@j" }] }] },
          { markImportant := some true, labels := ["x", "y/z"] }⟩,
        ⟨{ disj := some [{ cc := some "k" }, { subject := some "l" }, { query := some "m n" }] },
          { archive := true, markSpam := some false }⟩] }
    c.Unescaped ∧ ∃ k i, c.compile ⟨20, 4⟩ = .ok k ∧ Config.ofNative k.filters k.labels = .ok i ∧
      ∀ b, ∃ k', i.compile b = .ok k' ∧ k'.filters = k.filters ∧ k'.labels = k.labels := by
  intro c
  have unescaped : c.Unescaped := by decide
  obtain ⟨k, compiled⟩ : ∃ k, c.compile ⟨20, 4⟩ = .ok k := ⟨_, rfl⟩
  obtain ⟨i, imported, same⟩ := ofNative_compile unescaped compiled
  exact ⟨unescaped, k, i, compiled, imported, same⟩

end MailRules
