import CMinusFrontEnd.Proofs.Printing

/-!
# Walking through a tree with two loops

`Printer.outline` follows the shape of a tree: slots and the sibling link lead from a node to a tree, and
each of them is gone into. There is another way to read the same program. One loop runs over the nodes
of a chain. Behind the line of a node a second loop runs over the slots that are not empty, and calls
the program again, one step deeper. That both are one program is `Printer.outline_eq_forM`.

Each call begins with a sum, the indentation of its chain. Only the sum of the first call can leave the
range of counts. Any other call stands behind the line of a node, and this line has been indented, by at
least a step. So it makes no difference what a sum does that leaves the range further down
(`Printer.outline_eq_chainBy`).
-/

namespace CMinusFrontEnd

namespace Printer

/-! ## One loop in the other -/

/-- A loop that leaves out the absent trees is one with a check in each turn. -/
theorem forM_filter_cons (c : Tree) (cs : List Tree) (p : Tree → Printer Unit) :
    forM ((c :: cs).filter fun c => !c.isAbsent) p = (do
      ifPresent c (p c)
      forM (cs.filter fun c => !c.isAbsent) p) := by
  rw [ifPresent]
  cases hc : c.isAbsent with
  | false =>
    rw [List.filter_cons_of_pos (by simp [hc]), List.forM_cons]
    rfl
  | true =>
    rw [List.filter_cons_of_neg (by simp [hc]), if_pos rfl, pure_bind]

/-- A loop over the slots that are not empty goes into one slot after the other, and it asks of each
whether it is empty. -/
theorem forM_children (t : Tree) (p : Tree → Printer Unit) :
    forM t.children p = (do
      ifPresent (t.child .first) (p (t.child .first))
      ifPresent (t.child .second) (p (t.child .second))
      ifPresent (t.child .third) (p (t.child .third))) := by
  have hslots : t.children =
      [t.child .first, t.child .second, t.child .third].filter fun c => !c.isAbsent := rfl
  rw [hslots, forM_filter_cons, forM_filter_cons, forM_filter_cons, List.filter_nil, List.forM_nil]
  simp only [bind_pure_unit]

/-- A chain is printed by a loop over its nodes, where the program goes from one node to its
sibling. -/
theorem chain_eq_forM (step indent : Count) (t : Tree) :
    chain step indent t = forM t.siblings fun node => (do
      spaces indent
      forM node.label? label
      forM node.children (outline step indent)) := by
  induction t with
  | absent => rfl
  | node l first second third next _ _ _ ihnext =>
    rw [chain, ihnext, Tree.siblings, List.forM_cons, forM_children]
    simp only [bind_assoc]
    rfl

/-- **Two loops.** An outline is printed by a loop over the nodes of the chain. In this loop there is
another one, over the slots of the node that are not empty, and it prints their outlines. -/
theorem outline_eq_forM (step depth : Count) (t : Tree) :
    outline step depth t = (do
      let indent ← deeper depth step
      forM t.siblings fun node => (do
        spaces indent
        forM node.label? label
        forM node.children (outline step indent))) := by
  simp only [← chain_eq_forM]
  rfl

/-! ## Sums further down -/

/-- Prints a chain of siblings as `chain` does, but has the indentation of what is below a line from
`below`. -/
def chainBy (below : Count → Printer Count) (indent : Count) : Tree → Printer Unit
  | .absent => pure ()
  | .node l first second third next => do
    spaces indent
    label l
    ifPresent first do
      let indent ← below indent
      chainBy below indent first
    ifPresent second do
      let indent ← below indent
      chainBy below indent second
    ifPresent third do
      let indent ← below indent
      chainBy below indent third
    chainBy below indent next

/-- Whether a program adds a step, as long as the sum is a count. -/
def AddsInRange (step : Count) (below : Count → Printer Count) : Prop :=
  ∀ indent sum : Count, sum.toNat = indent.toNat + step.toNat → below indent = pure sum

theorem deeper_eq_pure {step indent sum : Count} (hsum : sum.toNat = indent.toNat + step.toNat) :
    deeper indent step = pure sum := by
  rw [deeper, Count.plus?_eq_some_iff.2 hsum]

/-- Spaces that can be written leave room for one more step, because a width is small compared with
the range of the additions. -/
theorem exists_sum {step indent : Count} (hstep : step.toNat ≤ indent.toNat)
    (hindent : indent.toNat ≤ Writing.maxSpaces) :
    ∃ sum : Count, sum.toNat = indent.toNat + step.toNat := by
  have hmax : Writing.maxSpaces + Writing.maxSpaces < UInt64.size := by decide
  exact ⟨.ofNat (indent.toNat + step.toNat), UInt64.toNat_ofNat_of_lt' (by omega)⟩

/-- Behind a line that could be indented a sum does not leave the range. So it makes no difference
there whether the addition stops at an overflow or wraps around. -/
theorem chain_eq_chainBy {step indent : Count} {below : Count → Printer Count}
    (hbelow : AddsInRange step below) (hstep : step.toNat ≤ indent.toNat) (t : Tree) :
    chain step indent t = chainBy below indent t := by
  induction t generalizing indent with
  | absent => rfl
  | node l first second third next ihfirst ihsecond ihthird ihnext =>
    rw [chain, chainBy]
    by_cases hindent : indent.toNat ≤ Writing.maxSpaces
    · obtain ⟨sum, hsum⟩ := exists_sum hstep hindent
      have hdeep : step.toNat ≤ sum.toNat := hsum ▸ Nat.le_add_left _ _
      rw [hbelow indent sum hsum, deeper_eq_pure hsum]
      simp only [pure_bind, ihfirst hdeep, ihsecond hdeep, ihthird hdeep, ihnext hstep]
    · -- the line is not even begun
      rw [spaces, if_neg hindent]
      rfl

/-- **Sums stay in the range.** Apart from the first sum of all it does not matter what becomes of a
sum that leaves the range, since there is none. -/
theorem outline_eq_chainBy {step : Count} {below : Count → Printer Count}
    (hbelow : AddsInRange step below) (depth : Count) (t : Tree) :
    outline step depth t = (do
      let indent ← deeper depth step
      chainBy below indent t) := by
  rw [outline]
  cases hindent : Count.plus? depth step.toNat with
  | none =>
    rw [deeper, hindent]
    rfl
  | some indent =>
    have hsum := Count.plus?_eq_some_iff.1 hindent
    have hstep : step.toNat ≤ indent.toNat := hsum ▸ Nat.le_add_left _ _
    simp only [deeper_eq_pure hsum, pure_bind, chain_eq_chainBy hbelow hstep]

end Printer

end CMinusFrontEnd
