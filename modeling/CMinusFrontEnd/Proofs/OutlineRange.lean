import CMinusFrontEnd.Proofs.Places
import CMinusFrontEnd.Proofs.Walk

/-!
# How far an outline can be indented

There are two ways in which an outline can come to grief: a sum can leave the range of counts, and a line
can ask for too many spaces. Which of them it is depends on three numbers only, the depth, the step
and the height of the tree (`Tree.fault?_outline_eq`). A sum that leaves the range is the first sum of
all. From there on it is the greatest level that counts, wherever in the tree it is found; how many nodes
there are does not matter.

The main statement is `Tree.failure?_outline`.
-/

namespace CMinusFrontEnd

/-- A sum that wraps around is a sum as long as it does not leave the range. -/
theorem Printer.addsInRange_wrapping (step : Count) :
    AddsInRange step fun indent => pure (indent + step) := by
  intro indent sum hsum
  have hmod : (indent + step).toNat = sum.toNat := by
    rw [UInt64.toNat_add, ← hsum]
    exact Nat.mod_eq_of_lt sum.toNat_lt
  exact congrArg pure (UInt64.toNat_inj.1 hmod)

namespace Tree

/-- Below a line that could be indented no sum leaves the range. A width is far below the range, and
so is the sum of two of them. -/
theorem fault?_outlineFrom_ne_addOverflow {step indent : Count} (hstep : step.toNat ≤ indent.toNat)
    (t : Tree) {rest : Writing} (hrest : rest.fault? ≠ some .addOverflow) :
    (outlineFrom step indent t rest).fault? ≠ some .addOverflow := by
  induction t generalizing indent rest with
  | absent => exact hrest
  | node label first second third next ihfirst ihsecond ihthird ihnext =>
    rw [outlineFrom, Writing.spaces]
    split
    next hindent =>
      obtain ⟨sum, hsum⟩ := Printer.exists_sum hstep hindent
      have hdeep : step.toNat ≤ sum.toNat := hsum ▸ Nat.le_add_left _ _
      rw [Count.plus?_eq_some_iff.2 hsum]
      exact ihfirst hdeep (ihsecond hdeep (ihthird hdeep (ihnext hstep hrest)))
    next => simp [Writing.fault?]

/-- The fault in which an outline ends, if the first sum is a count. -/
theorem fault?_outline_of_sum_lt {step depth : Count} {t : Tree} (ht : t ≠ absent)
    (hsum : depth.toNat + step.toNat < UInt64.size) :
    (t.outline step depth).fault? =
      if Writing.maxSpaces < depth.toNat + t.height * step.toNat then some .widthOutOfRange
      else none := by
  have hfits : (t.outline step depth).fault? = none ↔
      depth.toNat + t.height * step.toNat ≤ Writing.maxSpaces := by
    rw [fault?_outline_eq_none_iff, fitsFrom_one_iff ht, and_iff_right hsum]
  -- the first sum is a count, and further down no sum overflows before a width does
  have hadd : (t.outline step depth).fault? ≠ some .addOverflow := by
    obtain ⟨indent, hindent⟩ : ∃ indent : Count, Count.plus? depth step.toNat = some indent :=
      ⟨_, if_pos hsum⟩
    have hstep : step.toNat ≤ indent.toNat :=
      Count.plus?_eq_some_iff.1 hindent ▸ Nat.le_add_left _ _
    rw [outline, hindent]
    exact fault?_outlineFrom_ne_addOverflow hstep t (by simp [Writing.fault?])
  split
  next hdeep =>
    cases hfault : (t.outline step depth).fault? with
    | none => exact absurd (hfits.1 hfault) (Nat.not_le.2 hdeep)
    | some cause =>
      cases cause with
      | addOverflow => exact absurd hfault hadd
      | widthOutOfRange => rfl
  next hroom => exact hfits.2 (Nat.not_lt.1 hroom)

/-- **Three numbers decide.** The fault in which an outline ends depends on the depth, the step and
the height of the tree, and on nothing that is in the labels. -/
theorem fault?_outline_eq (step depth : Count) (t : Tree) :
    (t.outline step depth).fault? =
      if UInt64.size ≤ depth.toNat + step.toNat then some .addOverflow
      else if t ≠ absent ∧ Writing.maxSpaces < depth.toNat + t.height * step.toNat then
        some .widthOutOfRange
      else none := by
  split
  next hover => rw [outline, Count.plus?_eq_none_iff.2 hover, Writing.fault?]
  next hsum =>
    have hsum := Nat.not_le.1 hsum
    by_cases ht : t = absent
    · rw [if_neg fun h => h.1 ht, fault?_outline_eq_none_iff, ht]
      exact ⟨hsum, fitsFrom_absent⟩
    · simp only [fault?_outline_of_sum_lt ht hsum, ne_eq, ht, not_false_eq_true, true_and]

/-- Without further wishes there is room for 32767 levels. -/
theorem fault?_outline_defaultStep_eq_none_iff (t : Tree) :
    (t.outline defaultStep 0).fault? = none ↔ t.height ≤ 32767 := by
  rw [fault?_outline_eq_none_iff]
  by_cases ht : t = absent
  · subst ht
    exact iff_of_true ⟨by decide, fitsFrom_absent⟩ (Nat.zero_le _)
  · have hdepth : (0 : Count).toNat = 0 := rfl
    have hstep : defaultStep.toNat = 2 := rfl
    have hsum : 0 + 2 < UInt64.size := by decide
    rw [fitsFrom_one_iff ht, hdepth, hstep, Writing.maxSpaces]
    omega

/-- **How far an outline can be indented.** The first sum leaves the range, or else the deepest line asks
for too many spaces, or else the outline is printed; an absent tree has no line, and nothing is written
for it. So it is with the program that prints piece by piece as well. In this program the first sum is the
only one that can leave the range: whatever would become of a later one, the program does the same on
every sink. -/
theorem failure?_outline :
    (∀ (step depth : Count) (t : Tree),
      (t.outline step depth).failure? .unlimited =
        if UInt64.size ≤ depth.toNat + step.toNat then some (.fault .addOverflow)
        else if t ≠ absent ∧ Writing.maxSpaces < depth.toNat + t.height * step.toNat then
          some (.fault .widthOutOfRange)
        else none) ∧
    (∀ step depth : Count, (absent.outline step depth).held .unlimited = []) ∧
    (∀ (step depth : Count) (t : Tree), (Operation.outline step depth t).outcome .unlimited =
      ⟨(t.outline step depth).held .unlimited, (t.outline step depth).failure? .unlimited⟩) ∧
    (∀ (step : Count) (below : Count → Printer Count), Printer.AddsInRange step below →
      ∀ (depth : Count) (t : Tree), Printer.outline step depth t = (do
        let indent ← Printer.deeper depth step
        Printer.chainBy below indent t)) ∧
    ∀ t : Tree, (t.outline defaultStep 0).failure? .unlimited ≠ none ↔ 32767 < t.height := by
  refine ⟨fun step depth t => ?_, fun step depth => ?_, fun step depth t => ?_,
    fun step below hbelow => Printer.outline_eq_chainBy hbelow, fun t => ?_⟩
  · rw [Writing.failure?_unlimited, fault?_outline_eq]
    split
    · rfl
    · split <;> rfl
  · rw [Writing.held_unlimited, outline]
    cases Count.plus? depth step.toNat <;> rfl
  · exact Operation.outcome_eq _ _
  · rw [Writing.failure?_unlimited, ne_eq, Option.map_eq_none_iff,
      fault?_outline_defaultStep_eq_none_iff, Nat.not_le]

/-- The second level is too deep, and with another step the first sum leaves the range already. Sums
further down may wrap around. -/
theorem failure?_outline_two_levels :
    let t : Tree := (leaf (.fresh (.statement .returning) 1)).wrap
      (.fresh (.statement .compound) 1) .second
    (t.outline 30000 10000).failure? .unlimited = some (.fault .widthOutOfRange) ∧
    (t.outline 18446744073709551615 1).failure? .unlimited = some (.fault .addOverflow) ∧
    Printer.AddsInRange 30000 (fun indent => pure (indent + 30000)) ∧
    Printer.outline 30000 10000 t = (do
      let indent ← Printer.deeper 10000 30000
      Printer.chainBy (fun indent => pure (indent + 30000)) indent t) := by
  intro t
  obtain ⟨hfailure, -, -, hbelow, -⟩ := failure?_outline
  refine ⟨?_, ?_, Printer.addsInRange_wrapping 30000,
    hbelow _ _ (Printer.addsInRange_wrapping 30000) 10000 t⟩
  · rw [hfailure, if_neg (by decide), if_pos (by decide)]
  · rw [hfailure, if_pos (by decide)]

end Tree

end CMinusFrontEnd
