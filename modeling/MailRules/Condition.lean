/-!
Conditions: what a rule asks of a message.

A condition is a tree. Its leaves match one field of a message against one or more operands, and its
nodes join conditions with a logical connective. The type also holds trees that no rule should have
(a negation of two children, a leaf without a field): the stages that cannot make sense of one
refuse it, the others carry it through unchanged.

`Condition.rebuild` remakes a tree from the leaves up and is the one recursion that every change of
a tree is built on (`rebuildAll_eq_map`); `Condition.induct` is the induction that goes with it.
-/

namespace MailRules

/-- A logical connective: of the children of a node, or of the operands of a leaf. -/
inductive Connective where
  | unset
  | and
  | or
  | not
  deriving DecidableEq

namespace Connective

/-- The place of the connective in the canonical order. -/
def rank : Connective → Nat
  | unset => 0
  | and => 1
  | or => 2
  | not => 3

/-- The word for the connective in written trees and in messages. -/
def name : Connective → String
  | unset => "none"
  | and => "and"
  | or => "or"
  | not => "not"

def all : List Connective := [unset, and, or, not]

def ofName? (name : String) : Option Connective := all.find? (·.name = name)

theorem rank_lt (c : Connective) : c.rank < all.length := by cases c <;> decide

theorem name_injective {a b : Connective} (h : a.name = b.name) : a = b := by
  revert h
  cases a <;> cases b <;> decide

end Connective

/-- The part of a message that a leaf looks at. -/
inductive Field where
  | unset
  | sender
  | recipient
  | cc
  | bcc
  | replyTo
  | subject
  | list
  | has
  | query
  deriving DecidableEq

namespace Field

/-- The place of the field in the canonical order. -/
def rank : Field → Nat
  | unset => 0
  | sender => 1
  | recipient => 2
  | cc => 3
  | bcc => 4
  | replyTo => 5
  | subject => 6
  | list => 7
  | has => 8
  | query => 9

/-- The name of the field, which is also its prefix in a search. -/
def name : Field → String
  | unset => "none"
  | sender => "from"
  | recipient => "to"
  | cc => "cc"
  | bcc => "bcc"
  | replyTo => "replyto"
  | subject => "subject"
  | list => "list"
  | has => "has"
  | query => "query"

def all : List Field := [unset, sender, recipient, cc, bcc, replyTo, subject, list, has, query]

def ofName? (name : String) : Option Field := all.find? (·.name = name)

theorem rank_lt (f : Field) : f.rank < all.length := by cases f <;> decide

theorem name_injective {f g : Field} (h : f.name = g.name) : f = g := by
  revert h
  cases f <;> cases g <;> decide

end Field

/-- A test of one field against operands. A raw leaf holds operands that are already written in the
search language. -/
structure Leaf where
  field : Field
  operands : List String
  grouping : Connective := .unset
  raw : Bool := false
  deriving DecidableEq

/-- The leaf over the given operands. A lone operand needs no grouping; several are alternatives
unless a grouping is asked for. -/
def Leaf.over (field : Field) (operands : List String) (grouping : Connective := .unset)
    (raw : Bool := false) : Leaf :=
  if operands.length ≤ 1 then ⟨field, operands, .unset, raw⟩
  else if grouping = .unset then ⟨field, operands, .or, raw⟩
  else ⟨field, operands, grouping, raw⟩

/-- What a rule asks of a message. -/
inductive Condition where
  | leaf (l : Leaf)
  | node (op : Connective) (children : List Condition)

namespace Condition

/-- All of the conditions hold. -/
def conj (children : List Condition) : Condition := .node .and children

/-- Some of the conditions hold. -/
def disj (children : List Condition) : Condition := .node .or children

/-- The condition does not hold. -/
def neg (child : Condition) : Condition := .node .not [child]

def isLeaf : Condition → Bool
  | leaf _ => true
  | node _ _ => false

/-- The connective at the root; for a leaf, the grouping of its operands. -/
def rootConnective : Condition → Connective
  | leaf l => l.grouping
  | node op _ => op

/-- The field of a lone leaf. -/
def rootField : Condition → Field
  | leaf l => l.field
  | node _ _ => .unset

mutual
/-- The size of a tree: every operand and every node counts as one. -/
def size : Condition → Nat
  | leaf l => l.operands.length
  | node _ cs => 1 + sizeAll cs
def sizeAll : List Condition → Nat
  | [] => 0
  | c :: cs => size c + sizeAll cs
end

mutual
/-- Remakes a tree from the leaves up: `f` makes each node anew from its connective and its remade
children. -/
def rebuild (f : Connective → List Condition → Condition) : Condition → Condition
  | leaf l => leaf l
  | node op cs => f op (rebuildAll f cs)
def rebuildAll (f : Connective → List Condition → Condition) : List Condition → List Condition
  | [] => []
  | c :: cs => rebuild f c :: rebuildAll f cs
end

mutual
def decEq : (a b : Condition) → Decidable (a = b)
  | leaf l, leaf l' => decidable_of_iff (l = l') (by simp)
  | leaf _, node _ _ => isFalse (by simp)
  | node _ _, leaf _ => isFalse (by simp)
  | node op cs, node op' cs' =>
    have := decEqAll cs cs'
    decidable_of_iff (op = op' ∧ cs = cs') (by simp)
def decEqAll : (as bs : List Condition) → Decidable (as = bs)
  | [], [] => isTrue rfl
  | [], _ :: _ => isFalse (by simp)
  | _ :: _, [] => isFalse (by simp)
  | a :: as, b :: bs =>
    have := decEq a b
    have := decEqAll as bs
    decidable_of_iff (a = b ∧ as = bs) (by simp)
end

instance : DecidableEq Condition := decEq

/-- Induction on trees: a node may use what holds of each of its children. -/
theorem induct {P : Condition → Prop} (onLeaf : ∀ l, P (leaf l))
    (onNode : ∀ op cs, (∀ c ∈ cs, P c) → P (node op cs)) : ∀ t, P t
  | leaf l => onLeaf l
  | node op cs => onNode op cs (fun c _ => induct onLeaf onNode c)

theorem rebuildAll_eq_map (f : Connective → List Condition → Condition) :
    ∀ cs, rebuildAll f cs = cs.map (rebuild f)
  | [] => rfl
  | c :: cs => by rw [rebuildAll, rebuildAll_eq_map f cs, List.map_cons]

theorem rebuild_node (f : Connective → List Condition → Condition) (op : Connective)
    (cs : List Condition) : rebuild f (node op cs) = f op (cs.map (rebuild f)) := by
  rw [rebuild, rebuildAll_eq_map]

theorem sizeAll_append : ∀ cs ds, sizeAll (cs ++ ds) = sizeAll cs + sizeAll ds
  | [], ds => by simp [sizeAll]
  | c :: cs, ds => by simp only [List.cons_append, sizeAll, sizeAll_append cs ds]; omega

end Condition

end MailRules
