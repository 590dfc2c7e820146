import CMinusFrontEnd.Proofs.Edits

/-!
# Chains of siblings

A tree is a chain of nodes, and a chain is as good as the list of its nodes, each taken without the
link to the next one (`Tree.members_injective`). Linking a tree behind a chain is then nothing but
putting two lists together (`Tree.members_append`), and what is known of lists is known of chains.

In the tree itself only one link changes, the one that ends the chain (`Tree.chainEnd`). Whatever is
reached without it stays as it was, the child subtrees of the chain among it.
-/

namespace CMinusFrontEnd.Tree

/-! ## Members of a chain -/

/-- A node with what is in its slots, but without the siblings behind it. -/
def alone (t : Tree) : Tree := t.withNext absent

@[simp] theorem label?_alone (t : Tree) : t.alone.label? = t.label? := by
  cases t <;> rfl

@[simp] theorem child_alone (t : Tree) (s : Slot) : t.alone.child s = t.child s := by
  cases t <;> cases s <;> rfl

/-- The nodes of a chain in order, each without the link to the next one. -/
def members (t : Tree) : List Tree := t.siblings.map alone

@[simp] theorem members_absent : members absent = [] := rfl

@[simp] theorem members_node (label : Label) (first second third next : Tree) :
    members (node label first second third next) =
      node label first second third absent :: next.members := rfl

/-- A chain is known by its members, that is, by its nodes with the links to their siblings cut. So
two trees are shown to be equal by comparing lists. -/
theorem members_injective {t u : Tree} (h : t.members = u.members) : t = u := by
  induction t generalizing u with
  | absent =>
    cases u with
    | absent => rfl
    | node => cases h
  | node label first second third next _ _ _ ih =>
    cases u with
    | absent => cases h
    | node label' first' second' third' next' =>
      rw [members_node, members_node] at h
      obtain ⟨hhead, htail⟩ := List.cons.inj h
      obtain ⟨rfl, rfl, rfl, rfl, -⟩ := node.inj hhead
      rw [ih htail]

/-! ## Linking a tree behind a chain -/

/-- The nodes that a chain yields with a tree behind it: its own, each with the tree at the end of
its siblings, and then those of the tree. -/
theorem siblings_append (t u : Tree) :
    (t.append u).siblings = (t.siblings.map fun node => node.append u) ++ u.siblings := by
  induction t with
  | absent => rfl
  | node label first second third next _ _ _ ih =>
    rw [append, siblings, ih, siblings, List.map_cons, List.cons_append, append]

theorem ne_absent_of_mem_siblings {t member : Tree} (h : member ∈ t.siblings) :
    member ≠ absent := by
  induction t with
  | absent => cases h
  | node label first second third next _ _ _ ih =>
    rcases List.mem_cons.1 h with rfl | hnext
    · exact Tree.noConfusion
    · exact ih hnext

/-- The first node of a chain is the same with a tree behind the chain, apart from its link. Even
for a chain of one node this is the only link that changes. -/
theorem alone_append {t : Tree} (h : t ≠ absent) (u : Tree) : (t.append u).alone = t.alone := by
  cases t with
  | absent => exact absurd rfl h
  | node => rfl

/-- The members of a chain with a tree behind it are its own members and then those of the tree. By
induction on the chain, as the walk to its end goes from sibling to sibling. -/
theorem members_append (t u : Tree) : (t.append u).members = t.members ++ u.members := by
  have hown : ∀ node ∈ t.siblings, (node.append u).alone = node.alone := fun node hnode =>
    alone_append (ne_absent_of_mem_siblings hnode) u
  rw [members, siblings_append, List.map_append, List.map_map]
  exact congrArg (· ++ u.members) (List.map_congr_left hown)

/-- The members of a chain with several trees behind it, linked one after the other. Whether a tree
is a chain itself does not matter. -/
theorem members_foldl_append (t : Tree) (us : List Tree) :
    (us.foldl append t).members = t.members ++ us.flatMap members := by
  induction us generalizing t with
  | nil => rw [List.foldl_nil, List.flatMap_nil, List.append_nil]
  | cons u us ih =>
    rw [List.foldl_cons, ih, members_append, List.append_assoc, List.flatMap_cons]

/-- It does not matter which trees are linked first. The links need not be followed once more: chains
with the same members are the same. -/
theorem append_assoc (t u v : Tree) : (t.append u).append v = t.append (u.append v) := by
  apply members_injective
  calc ((t.append u).append v).members
      = t.members ++ u.members ++ v.members := by rw [members_append, members_append]
    _ = t.members ++ (u.members ++ v.members) := List.append_assoc _ _ _
    _ = (t.append (u.append v)).members := by rw [members_append, members_append]

/-! ## The link that changes -/

/-- The path along the siblings of a chain to the link that leads to none. -/
def chainEnd : Tree → Path
  | absent => []
  | node _ _ _ _ next => .next :: next.chainEnd

/-- Linking a tree behind a chain is walking to the end of the chain and putting the tree there. So
all that is known of changes at a path holds of it. -/
theorem append_eq_modify (t u : Tree) : t.append u = t.modify (fun _ => u) t.chainEnd := by
  induction t with
  | absent => rfl
  | node label first second third next _ _ _ ih =>
    rw [append, ih]
    rfl

/-- Behind the end of the chain there is the linked tree, and all other paths lead to the same nodes
as before. -/
theorem agreeBut_append (t u : Tree) : AgreeBut t (t.append u) t.chainEnd u where
  inside q := by
    induction t with
    | absent => rfl
    | node label first second third next _ _ _ ih => exact ih
  outside q hq := by
    rw [append_eq_modify]
    exact label?_subtree_modify hq (fun _ => u) t

/-- **Chains are lists.** Linking a tree behind a chain puts the members of the two chains together,
leaves every child subtree of the chain alone, and in the tree changes nothing but the link that ends
the chain. It does not matter whether trees are linked one after the other or are linked to each other
first, so trees that are linked in turn have their members in the chain in the order of the calls. -/
theorem append_concatenates :
    (∀ t u : Tree,
      (t.append u).members = t.members ++ u.members ∧
      (t.append u).siblings = (t.siblings.map fun node => node.append u) ++ u.siblings ∧
      (∀ node ∈ t.siblings,
        (node.append u).label? = node.label? ∧ ∀ s, (node.append u).child s = node.child s) ∧
      AgreeBut t (t.append u) t.chainEnd u) ∧
    (∀ t u v : Tree, (t.append u).append v = t.append (u.append v)) ∧
    ∀ (t : Tree) (us : List Tree), (us.foldl append t).members = t.members ++ us.flatMap members := by
  refine ⟨fun t u => ⟨members_append t u, siblings_append t u, ?_, agreeBut_append t u⟩,
    append_assoc, members_foldl_append⟩
  intro node hnode
  have halone := alone_append (ne_absent_of_mem_siblings hnode) u
  refine ⟨?_, fun s => ?_⟩
  · rw [← label?_alone, halone, label?_alone]
  · rw [← child_alone, halone, child_alone]

/-- A function with a parameter, behind which two variables are linked at once and then a third. -/
theorem append_concatenates_declarations :
    let function : Tree := (leaf (.fresh (.declaration .ofFunction) 1)).withChild .first
      (leaf (.fresh (.declaration .ofParameter) 1))
    let pair : Tree := chain (.fresh (.declaration .ofVariable) 2) 2
    let last : Tree := leaf (.fresh (.declaration .ofVariable) 3)
    let t := [pair, last].foldl append function
    t.members = function.members ++ [pair, last].flatMap members ∧
    t.siblings.length = 4 ∧ t.child .first = function.child .first ∧
    t = function.append (pair.append last) := by
  intro function pair last t
  have htogether : t = function.append (pair.append last) :=
    append_concatenates.2.1 function pair last
  have hmem : function ∈ function.siblings := List.mem_cons_self
  obtain ⟨-, -, hown, -⟩ := append_concatenates.1 function (pair.append last)
  refine ⟨append_concatenates.2.2 function [pair, last], rfl, ?_, htogether⟩
  rw [htogether]
  exact (hown function hmem).2 .first

end CMinusFrontEnd.Tree
