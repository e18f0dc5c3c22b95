import MailRules.Condition
import MailRules.Json.Text

/-!
Conditions in canonical order and as JSON.

The canonical order of the children of a node: leaves before nodes, leaves by grouping and then by
field, nodes by connective. Children of the same rank keep their relative order.

`Condition.sorted` arranges a whole tree. A list of children is arranged by taking, rank after rank,
the children of that rank, so the result depends on nothing but the sequence of children of each
rank (`arrange_eq_of_ranks`), and it has the children it was given (`mem_arrange`).
-/

namespace MailRules.Condition

/-- The place of a tree among its siblings. -/
def rank : Condition → Nat
  | leaf l => l.grouping.rank * Field.all.length + l.field.rank
  | node op _ => Connective.all.length * Field.all.length + op.rank

def ranks : Nat := Connective.all.length * Field.all.length + Connective.all.length

/-- Siblings in canonical order. -/
def arrange (cs : List Condition) : List Condition :=
  (List.range ranks).flatMap fun r => cs.filter (·.rank = r)

/-- The tree with the children of every node in canonical order. -/
def sorted (t : Condition) : Condition := t.rebuild fun op cs => .node op (arrange cs)

theorem rank_lt_ranks (t : Condition) : t.rank < ranks := by
  have fields : Field.all.length = 10 := rfl
  have connectives : Connective.all.length = 4 := rfl
  cases t with
  | leaf l =>
    have hf := l.field.rank_lt
    have hg := l.grouping.rank_lt
    simp only [rank, ranks, fields, connectives] at *
    omega
  | node op _ =>
    have h := op.rank_lt
    simp only [rank, ranks, fields, connectives] at *
    omega

theorem mem_arrange {t : Condition} {cs : List Condition} : t ∈ arrange cs ↔ t ∈ cs := by
  simp only [arrange, List.mem_flatMap, List.mem_range, List.mem_filter, decide_eq_true_eq]
  exact ⟨fun ⟨_, _, h, _⟩ => h, fun h => ⟨_, rank_lt_ranks t, h, rfl⟩⟩

theorem arrange_eq_of_ranks {cs ds : List Condition}
    (h : ∀ r, cs.filter (·.rank = r) = ds.filter (·.rank = r)) : arrange cs = arrange ds := by
  simp only [arrange, h]

theorem sorted_leaf (l : Leaf) : sorted (leaf l) = leaf l := rfl

theorem sorted_node (op : Connective) (cs : List Condition) :
    sorted (node op cs) = node op (arrange (cs.map sorted)) := by
  rw [sorted, rebuild_node]; rfl

/-! ## Conditions as JSON -/

def leafJson (l : Leaf) : Json :=
  .obj [("function", .str l.field.name), ("grouping", .str l.grouping.name),
    ("args", .ofTexts l.operands), ("isRaw", .bool l.raw)]

mutual
def toJson : Condition → Json
  | leaf l => leafJson l
  | node op cs => .obj [("operation", .str op.name), ("children", .arr (toJsonAll cs))]
def toJsonAll : List Condition → List Json
  | [] => []
  | c :: cs => toJson c :: toJsonAll cs
end

/-- The canonical text of a condition: the same for conditions that differ in the order of siblings
of different ranks only. -/
def canonicalText (t : Condition) : String := t.sorted.toJson.canonical

theorem toJsonAll_eq_map : ∀ cs, toJsonAll cs = cs.map toJson
  | [] => rfl
  | c :: cs => by rw [toJsonAll, toJsonAll_eq_map cs, List.map_cons]

end MailRules.Condition
