import CMinusFrontEnd.Tree.Basic

/-!
# Paths in a tree

A `Path` leads from the first node of a tree along child slots and sibling links. What it leads
to is again a tree, the one that starts there; a path that leaves the tree leads to the absent
tree. `Tree.modify` changes what a path leads to and leaves everything else as it is.
-/

namespace CMinusFrontEnd

/-- A step from a node to a tree. -/
inductive Link where
  /-- into a child slot -/
  | child (slot : Slot)
  /-- on to the siblings -/
  | next
deriving DecidableEq

/-- The steps from the first node of a tree. -/
abbrev Path := List Link

/-- Nodes with their paths, as they are seen from before a link that leads to them. -/
def Link.lead (link : Link) (found : List (Path × Label)) : List (Path × Label) :=
  found.map fun (path, label) => (link :: path, label)

namespace Tree

/-- The tree that a link of the first node leads to. -/
def follow (t : Tree) : Link → Tree
  | .child s => t.child s
  | .next => t.next

/-- Replaces the tree that a link of the first node leads to. -/
def redirect (t : Tree) : Link → Tree → Tree
  | .child s, v => t.withChild s v
  | .next, v => t.withNext v

/-- The tree that a path leads to. -/
def subtree : Tree → Path → Tree
  | t, [] => t
  | t, link :: path => (t.follow link).subtree path

/-- Changes the tree that a path leads to. -/
def modify (f : Tree → Tree) : Tree → Path → Tree
  | t, [] => f t
  | t, link :: path => t.redirect link ((t.follow link).modify f path)

/-- Every node with the path that leads to it: each node before its slots, and these before its
siblings. -/
def places : Tree → List (Path × Label)
  | absent => []
  | node label first second third next =>
    ([], label) ::
      ((Link.child .first).lead first.places ++ (Link.child .second).lead second.places ++
        (Link.child .third).lead third.places ++ Link.next.lead next.places)

end Tree

end CMinusFrontEnd
