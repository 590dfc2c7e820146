import CMinusFrontEnd.Proofs.OutlineRows

/-!
# Outlines without a fault

An outline ends without a fault if its first step is a count and no line is indented too far. Which
line that would be does not matter: every node is at a level, and all that counts is the
indentation of this level. So what is known of the outline of a tree is known of every part of
it, wherever that part stands.

In the middle of an outline a sum can leave the range of counts only below a line that has been
indented, and then the line below would be indented too far as well.
-/

namespace CMinusFrontEnd

/-- Spaces are written without a fault if a width can be that large. -/
theorem Writing.fault?_spaces_eq_none_iff {count : Count} {rest : Writing} :
    (spaces count rest).fault? = none ↔ count.toNat ≤ maxSpaces ∧ rest.fault? = none := by
  rw [spaces]
  split
  next h => exact ⟨fun hrest => ⟨h, hrest⟩, fun hrest => hrest.2⟩
  next h =>
    refine iff_of_false (fun hfault => ?_) (fun hrest => h hrest.1)
    cases hfault

namespace Tree

/-- Whether every line of a tree can be indented, with the first chain at the level `level`. -/
def FitsFrom (step depth : Count) (level : Nat) (t : Tree) : Prop :=
  ∀ row ∈ t.leveled level, depth.toNat + row.1 * step.toNat ≤ Writing.maxSpaces

variable {step depth indent : Count} {level : Nat}

theorem fitsFrom_absent : FitsFrom step depth level absent := by
  intro row hrow
  cases hrow

/-- A tree fits if its first node does, the slots one level below and the siblings beside it. -/
theorem fitsFrom_node {label : Label} {first second third next : Tree} :
    FitsFrom step depth level (node label first second third next) ↔
      depth.toNat + level * step.toNat ≤ Writing.maxSpaces ∧
      FitsFrom step depth (level + 1) first ∧ FitsFrom step depth (level + 1) second ∧
      FitsFrom step depth (level + 1) third ∧ FitsFrom step depth level next := by
  simp only [FitsFrom, leveled, List.forall_mem_cons, List.forall_mem_append, and_assoc]

theorem FitsFrom.le {t : Tree} (h : FitsFrom step depth level t) (ht : t ≠ absent) :
    depth.toNat + level * step.toNat ≤ Writing.maxSpaces := by
  cases t with
  | absent => exact absurd rfl ht
  | node => exact (fitsFrom_node.1 h).1

/-- Below a line whose indentation cannot be computed there is room for no node: such a depth is
more than a width can be. -/
theorem fitsFrom_of_overflow (hindent : indent.toNat = depth.toNat + level * step.toNat)
    (hover : Count.plus? indent step.toNat = none) (t : Tree) :
    FitsFrom step depth (level + 1) t ↔ t.isAbsent = true := by
  cases t with
  | absent => exact iff_of_true fitsFrom_absent rfl
  | node =>
    refine iff_of_false (fun h => ?_) Bool.false_ne_true
    have hdeep := (fitsFrom_node.1 h).1
    have hsize := Count.plus?_eq_none_iff.1 hover
    have hmax : Writing.maxSpaces < UInt64.size := by decide
    rw [Nat.succ_mul] at hdeep
    omega

/-- There are two faults, a width out of range and an overflow in the addition. A depth that
overflows is out of range for a width, and so one bound is enough for both. -/
theorem fault?_outlineFrom_eq_none_iff {t : Tree} {rest : Writing}
    (hindent : indent.toNat = depth.toNat + level * step.toNat) :
    (outlineFrom step indent t rest).fault? = none ↔
      FitsFrom step depth level t ∧ rest.fault? = none := by
  induction t generalizing indent level rest with
  | absent => exact ⟨fun h => ⟨fitsFrom_absent, h⟩, fun h => h.2⟩
  | node label first second third next ihfirst ihsecond ihthird ihnext =>
    rw [outlineFrom, Writing.fault?_spaces_eq_none_iff, Writing.fault?, fitsFrom_node, hindent]
    cases hdeeper : Count.plus? indent step.toNat with
    | some deeper =>
      have hlevel : deeper.toNat = depth.toNat + (level + 1) * step.toNat := by
        rw [Count.plus?_eq_some_iff.1 hdeeper, hindent, Nat.succ_mul, Nat.add_assoc]
      simp only [ihfirst hlevel, ihsecond hlevel, ihthird hlevel, ihnext hindent, and_assoc]
    | none =>
      simp only [fitsFrom_of_overflow hindent hdeeper]
      cases first.isAbsent <;> cases second.isAbsent <;> cases third.isAbsent <;>
        simp [ihnext hindent, Writing.fault?, and_assoc]

/-- **Outlines without a fault.** The first addition must not overflow, not even for the absent
tree, and no line may need more spaces than a width can be. -/
theorem fault?_outline_eq_none_iff {t : Tree} :
    (t.outline step depth).fault? = none ↔
      depth.toNat + step.toNat < UInt64.size ∧ FitsFrom step depth 1 t := by
  rw [outline]
  cases hindent : Count.plus? depth step.toNat with
  | some indent =>
    have hcount := Count.plus?_eq_some_iff.1 hindent
    have hlevel : indent.toNat = depth.toNat + 1 * step.toNat := by rw [hcount, Nat.one_mul]
    have hsize : depth.toNat + step.toNat < UInt64.size := hcount ▸ indent.toNat_lt
    have hdone : (Writing.done).fault? = none := rfl
    rw [fault?_outlineFrom_eq_none_iff hlevel]
    exact ⟨fun h => ⟨hsize, h.1⟩, fun h => ⟨h.2, hdone⟩⟩
  | none =>
    have hsize := Count.plus?_eq_none_iff.1 hindent
    refine iff_of_false (fun h => by cases h) (fun h => ?_)
    exact absurd h.1 (Nat.not_lt.2 hsize)

end Tree

end CMinusFrontEnd
