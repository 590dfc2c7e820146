import CMinusFrontEnd.Tree.Label

/-!
# Syntax trees

A `Tree` is a chain of sibling nodes, possibly without any. Each node has three child slots, and
a slot holds a tree again, so that an empty slot is one that holds the absent tree. Child slots
and the sibling link are alike in this: both lead from a node to a tree.

Trees are values. Moving a tree into a slot takes nothing away from any other tree; which trees
there are, and that a tree that was moved is no longer one of them, is the business of
`CMinusFrontEnd.Session`.
-/

namespace CMinusFrontEnd

/-! ## Trees -/

/-- A chain of sibling nodes with their subtrees. -/
inductive Tree where
  /-- the tree without nodes -/
  | absent
  /-- a node with its three child slots, followed by its siblings -/
  | node (label : Label) (first second third : Tree) (next : Tree)
deriving DecidableEq

/-- A child slot of a node. -/
inductive Slot where
  | first
  | second
  | third
deriving DecidableEq

/-- Every slot, in order. -/
def Slot.all : List Slot := [first, second, third]

/-- The slot with this index, counted from zero. -/
def Slot.ofIndex? (index : Nat) : Option Slot := all[index]?

theorem Slot.ofIndex?_eq_none_iff {index : Nat} : ofIndex? index = none ↔ 3 ≤ index :=
  List.getElem?_eq_none_iff

namespace Tree

/-- A single node without subtrees. -/
def leaf (label : Label) : Tree := node label absent absent absent absent

/-- Whether there is no node. -/
def isAbsent : Tree → Bool
  | absent => true
  | node .. => false

/-- The label of the first node. -/
def label? : Tree → Option Label
  | absent => none
  | node label .. => some label

/-- The tree in a slot of the first node. -/
def child : Tree → Slot → Tree
  | absent, _ => absent
  | node _ first _ _ _, .first => first
  | node _ _ second _ _, .second => second
  | node _ _ _ third _, .third => third

/-- The siblings behind the first node. -/
def next : Tree → Tree
  | absent => absent
  | node _ _ _ _ next => next

/-! ## Changing the first node -/

/-- Changes the label of the first node. -/
def mapLabel (f : Label → Label) : Tree → Tree
  | absent => absent
  | node label first second third next => node (f label) first second third next

/-- Puts a tree into a slot of the first node, in place of what was there. -/
def withChild : Tree → Slot → Tree → Tree
  | absent, _, _ => absent
  | node label _ second third next, .first, v => node label v second third next
  | node label first _ third next, .second, v => node label first v third next
  | node label first second _ next, .third, v => node label first second v next

/-- Replaces the siblings behind the first node. -/
def withNext : Tree → Tree → Tree
  | absent, _ => absent
  | node label first second third _, v => node label first second third v

@[simp] theorem label?_withChild (t : Tree) (s : Slot) (v : Tree) :
    (t.withChild s v).label? = t.label? := by
  cases t <;> cases s <;> rfl

@[simp] theorem next_withChild (t : Tree) (s : Slot) (v : Tree) :
    (t.withChild s v).next = t.next := by
  cases t <;> cases s <;> rfl

/-- The slot of a node has what was put there. The absent tree has no slots. -/
theorem child_withChild_self {t : Tree} (h : t ≠ absent) (s : Slot) (v : Tree) :
    (t.withChild s v).child s = v := by
  cases t with
  | absent => exact absurd rfl h
  | node => cases s <;> rfl

theorem child_withChild_of_ne {s s' : Slot} (h : s' ≠ s) (t v : Tree) :
    (t.withChild s v).child s' = t.child s' := by
  cases t with
  | absent => rfl
  | node => cases s <;> cases s' <;> simp_all [child, withChild]

/-- Puts a tree into the slot with an index, and answers with the tree that was there and with
the changed tree. There are three slots; any other index is an error, which names the line of the
node. An absent tree has no slots, and its line is taken to be 0. -/
def setChild (t : Tree) (index : Nat) (v : Tree) : Except Error (Tree × Tree) :=
  match t, Slot.ofIndex? index with
  | node .., some s => .ok (t.child s, t.withChild s v)
  | node label .., none => .error (.childIndexOutOfRange index label.line)
  | absent, _ => .error (.childIndexOutOfRange index 0)

/-- Links a tree behind the last sibling. -/
def append : Tree → Tree → Tree
  | absent, v => v
  | node label first second third next, v => node label first second third (next.append v)

/-- A chain of `count` equal nodes without subtrees. -/
def chain (label : Label) : Nat → Tree
  | 0 => absent
  | count + 1 => node label absent absent absent (chain label count)

/-- Makes the tree the child, in a slot, of a new node. -/
def wrap (t : Tree) (label : Label) (s : Slot) : Tree := (leaf label).withChild s t

/-- The tree wrapped `count` times. -/
def wrapTimes (t : Tree) (label : Label) (s : Slot) : Nat → Tree
  | 0 => t
  | count + 1 => (t.wrapTimes label s count).wrap label s

/-! ## Walking through a tree -/

/-- The nodes of a chain, each as the tree that starts with it. -/
def siblings : Tree → List Tree
  | absent => []
  | node label first second third next =>
    node label first second third next :: next.siblings

/-- The trees in the slots of the first node that are not empty. -/
def children (t : Tree) : List Tree :=
  (Slot.all.map t.child).filter fun c => !c.isAbsent

/-- The labels of all nodes: each node before its slots, and these before its siblings. -/
def labels : Tree → List Label
  | absent => []
  | node label first second third next =>
    label :: (first.labels ++ second.labels ++ third.labels ++ next.labels)

end Tree

end CMinusFrontEnd
