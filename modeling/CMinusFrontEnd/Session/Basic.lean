import CMinusFrontEnd.Tree.Path

/-!
# Sessions

A session holds a line counter and a number of trees, each under a name of its own. A tree that is
linked into another one leaves its name: a session never holds a tree twice.

This file has the state and what a session shows of a node. What can be done in a session is in
`CMinusFrontEnd.Session.Step`.
-/

namespace CMinusFrontEnd

/-- A line counter and named trees. -/
structure Session where
  /-- the line on which new nodes are made -/
  line : Count
  /-- the trees with their names; no name occurs twice -/
  trees : List (Text × Tree)

/-- A node of a session, by the name of its tree and the path to it. -/
structure Place where
  /-- the name of the tree -/
  tree : Text
  /-- the path from the first node of the tree -/
  path : Path

namespace Session

/-- A session without trees, at line 1. -/
def start : Session := ⟨1, []⟩

/-! ## Names -/

/-- The tree with this name. -/
def tree? (s : Session) (name : Text) : Option Tree := s.trees.lookup name

/-- Gives up a name and the tree that it has. -/
def release (s : Session) (name : Text) : Session :=
  { s with trees := s.trees.filter fun entry => entry.1 != name }

/-- Gives a tree a name, in place of any other tree of this name. -/
def store (s : Session) (name : Text) (t : Tree) : Session :=
  { s with trees := (name, t) :: (s.release name).trees }

/-- Gives a tree a name if there is a tree and a name. -/
def keep (s : Session) (name : Option Text) (t : Tree) : Session :=
  match name with
  | some name => if t.isAbsent then s else s.store name t
  | none => s

/-! ## Nodes -/

/-- The tree that starts at a place, if there is a node. -/
def node? (s : Session) (place : Place) : Option Tree :=
  match s.tree? place.tree with
  | some t =>
    let node := t.subtree place.path
    if node.isAbsent then none else some node
  | none => none

/-- Replaces the tree that starts at a place. -/
def replace (s : Session) (place : Place) (node : Tree) : Session :=
  match s.tree? place.tree with
  | some t => s.store place.tree (t.modify (fun _ => node) place.path)
  | none => s

end Session

/-! ## Views -/

/-- What is shown of a node: its label, the constructs in its slots, and the length of the chain
that starts with it. -/
structure View where
  /-- the label -/
  label : Label
  /-- the construct in each slot that is not empty -/
  slots : List (Option NodeKind)
  /-- the number of nodes in the chain -/
  siblings : Nat
deriving DecidableEq

/-- The view of the first node of a tree. -/
def Tree.view? (t : Tree) : Option View :=
  t.label?.map fun label =>
    { label
      slots := Slot.all.map fun s => (t.child s).label?.map Label.kind
      siblings := t.siblings.length }

end CMinusFrontEnd
