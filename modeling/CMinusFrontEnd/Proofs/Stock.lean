import CMinusFrontEnd.Proofs.Edits
import Mathlib.Algebra.BigOperators.Group.Multiset.Basic
import Mathlib.Tactic.Abel

/-!
# The stock of a tree

The stock of a tree is the multiset of its nodes, where of each node only its construct and its
line are taken: these two a node has from the start and keeps for good. Every node of the tree
counts, whether it is reached through child slots or through siblings.

A change at one place changes the stock by what goes out and what comes in there. This is said with
the nodes that are left aside, those outside the place: `Tree.exists_stock_modify`.
-/

namespace CMinusFrontEnd

/-- The constructs and lines of a number of nodes. -/
abbrev Stock := Multiset (NodeKind × Count)

/-- The construct and the line of a node. -/
def Label.origin (l : Label) : NodeKind × Count := (l.kind, l.line)

/-- The stock of nodes with these labels. -/
def Stock.ofLabels (labels : List Label) : Stock := labels.map Label.origin

@[simp] theorem Stock.ofLabels_nil : ofLabels [] = 0 := rfl

@[simp] theorem Stock.ofLabels_cons (l : Label) (labels : List Label) :
    ofLabels (l :: labels) = {l.origin} + ofLabels labels := rfl

@[simp] theorem Stock.ofLabels_append (labels labels' : List Label) :
    ofLabels (labels ++ labels') = ofLabels labels + ofLabels labels' := by
  simp only [ofLabels, List.map_append, Multiset.coe_add]

namespace Tree

/-- The stock of all nodes of a tree. -/
def stock (t : Tree) : Stock := .ofLabels t.labels

@[simp] theorem stock_absent : absent.stock = 0 := rfl

@[simp] theorem stock_node (label : Label) (first second third next : Tree) :
    (node label first second third next).stock =
      {label.origin} + (first.stock + second.stock + third.stock + next.stock) := by
  simp only [stock, labels, Stock.ofLabels_cons, Stock.ofLabels_append]

/-! ## Changes of the first node -/

/-- A change that leaves the construct and the line of a node alone changes no stock. -/
theorem stock_mapLabel {f : Label → Label} (hf : ∀ l, (f l).origin = l.origin) (t : Tree) :
    (t.mapLabel f).stock = t.stock := by
  cases t with
  | absent => rfl
  | node => rw [mapLabel, stock_node, stock_node, hf]

/-- What a link leads to goes out and another tree comes in. The rest of the nodes is left aside,
and it is the same whatever comes in. -/
theorem exists_stock_redirect {t : Tree} (h : t ≠ absent) (link : Link) :
    ∃ aside, t.stock = aside + (t.follow link).stock ∧
      ∀ v, (t.redirect link v).stock = aside + v.stock := by
  obtain ⟨aside, haside⟩ : ∃ aside, ∀ v, (t.redirect link v).stock = aside + v.stock := by
    cases t with
    | absent => exact absurd rfl h
    | node label first second third next =>
      cases link with
      | child s =>
        cases s with
        | first =>
          refine ⟨{label.origin} + second.stock + third.stock + next.stock, fun v => ?_⟩
          rw [redirect, withChild, stock_node]
          abel
        | second =>
          refine ⟨{label.origin} + first.stock + third.stock + next.stock, fun v => ?_⟩
          rw [redirect, withChild, stock_node]
          abel
        | third =>
          refine ⟨{label.origin} + first.stock + second.stock + next.stock, fun v => ?_⟩
          rw [redirect, withChild, stock_node]
          abel
      | next =>
        refine ⟨{label.origin} + first.stock + second.stock + third.stock, fun v => ?_⟩
        rw [redirect, withNext, stock_node]
        abel
  -- what the link leads to now is one of the trees that could be put there
  refine ⟨aside, ?_, haside⟩
  rw [← haside, redirect_follow]

/-! ## Changes at a path -/

/-- What a path leads to goes out and another tree comes in; the rest of the nodes is left aside. -/
theorem exists_stock_modify {t : Tree} {path : Path} (h : t.subtree path ≠ absent) :
    ∃ aside, t.stock = aside + (t.subtree path).stock ∧
      ∀ v, (t.modify (fun _ => v) path).stock = aside + v.stock := by
  induction path generalizing t with
  | nil => exact ⟨0, (zero_add _).symm, fun v => (zero_add _).symm⟩
  | cons link path ih =>
    obtain ⟨outside, hold, hnew⟩ := exists_stock_redirect (ne_absent_of_subtree h) link
    obtain ⟨aside, hold', hnew'⟩ := ih h
    refine ⟨outside + aside, ?_, fun v => ?_⟩
    · rw [hold, hold', subtree, add_assoc]
    · rw [modify, hnew, hnew', add_assoc]

/-! ## New nodes -/

/-- Appending loses no sibling, on either side. -/
theorem stock_append (t v : Tree) : (t.append v).stock = t.stock + v.stock := by
  induction t with
  | absent => rw [append, stock_absent, zero_add]
  | node label first second third next _ _ _ ih =>
    rw [append, stock_node, stock_node, ih]
    abel

/-- A chain of new nodes has as many nodes as were asked for. -/
theorem stock_chain (label : Label) (count : Nat) :
    (chain label count).stock = Stock.ofLabels (List.replicate count label) := by
  induction count with
  | zero => rfl
  | succ count ih =>
    rw [chain, stock_node, ih, List.replicate_succ, Stock.ofLabels_cons, stock_absent]
    abel

theorem stock_wrap (t : Tree) (label : Label) (s : Slot) :
    (t.wrap label s).stock = t.stock + {label.origin} := by
  cases s <;> rw [wrap, leaf, withChild, stock_node, stock_absent] <;> abel

/-- Wrapping again and again adds one node each time. -/
theorem stock_wrapTimes (t : Tree) (label : Label) (s : Slot) (count : Nat) :
    (t.wrapTimes label s count).stock =
      t.stock + Stock.ofLabels (List.replicate count label) := by
  induction count with
  | zero => rw [wrapTimes, List.replicate_zero, Stock.ofLabels_nil, add_zero]
  | succ count ih =>
    rw [wrapTimes, stock_wrap, ih, List.replicate_succ, Stock.ofLabels_cons]
    abel

end Tree

end CMinusFrontEnd
