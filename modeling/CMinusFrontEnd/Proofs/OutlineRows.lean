import CMinusFrontEnd.Tree.Outline

/-!
# The rows of an outline

The outline of a tree in one piece, without a word on counts and faults. Every node has a level: the
first chain is at level 1, a child slot is one level deeper, and siblings share their level.
`Tree.leveled` lists the nodes with their levels, and `Tree.text_outline` says that an outline
which does not end in a fault shows these nodes, in this order, each on one line.
-/

namespace CMinusFrontEnd

/-- A fault-free run of spaces is written in full. -/
theorem Writing.spaces_of_fault?_eq_none {count : Count} {rest : Writing}
    (h : (spaces count rest).fault? = none) :
    rest.fault? = none ∧ (spaces count rest).text = List.replicate count.toNat ' ' ++ rest.text := by
  rw [spaces] at h ⊢
  split at h
  next hcount =>
    rw [if_pos hcount]
    exact ⟨h, rfl⟩
  next => cases h

namespace Tree

/-- Every node with its level: each node before its slots, and these before its siblings. The nodes
of the first chain are at the level `level`. -/
def leveled (level : Nat) : Tree → List (Nat × Label)
  | absent => []
  | node label first second third next =>
    (level, label) ::
      (first.leveled (level + 1) ++ second.leveled (level + 1) ++ third.leveled (level + 1) ++
        next.leveled level)

theorem leveled_of_isAbsent {t : Tree} (h : t.isAbsent = true) (level : Nat) :
    t.leveled level = [] := by
  cases t with
  | absent => rfl
  | node => cases h

/-- A line of an outline, indented for its level. -/
def indented (step depth : Count) (level : Nat) (line : Text) : Text :=
  List.replicate (depth.toNat + level * step.toNat) ' ' ++ endLine line

/-- An outline that ends in no fault is its rows, each indented by its level. By induction on the
tree, with the depth of the program as the level. -/
theorem text_outlineFrom {step depth indent : Count} {level : Nat} {t : Tree} {rest : Writing}
    (hindent : indent.toNat = depth.toNat + level * step.toNat)
    (h : (outlineFrom step indent t rest).fault? = none) :
    rest.fault? = none ∧
      (outlineFrom step indent t rest).text =
        ((t.leveled level).flatMap fun row => indented step depth row.1 row.2.describe) ++
          rest.text := by
  induction t generalizing indent level rest with
  | absent => exact ⟨h, rfl⟩
  | node label first second third next ihfirst ihsecond ihthird ihnext =>
    rw [outlineFrom] at h ⊢
    obtain ⟨hafter, htext⟩ := Writing.spaces_of_fault?_eq_none h
    rw [Writing.fault?] at hafter
    rw [htext, Writing.text, hindent]
    cases hdeeper : Count.plus? indent step.toNat with
    | some deeper =>
      have hlevel : deeper.toNat = depth.toNat + (level + 1) * step.toNat := by
        rw [Count.plus?_eq_some_iff.1 hdeeper, hindent, Nat.succ_mul, Nat.add_assoc]
      simp only [hdeeper] at hafter
      obtain ⟨hsecond, htextfirst⟩ := ihfirst hlevel hafter
      obtain ⟨hthird, htextsecond⟩ := ihsecond hlevel hsecond
      obtain ⟨hnext, htextthird⟩ := ihthird hlevel hthird
      obtain ⟨hrest, htextnext⟩ := ihnext hindent hnext
      refine ⟨hrest, ?_⟩
      simp only [htextfirst, htextsecond, htextthird, htextnext, leveled, List.flatMap_cons,
        List.flatMap_append, indented, Chunk.content, List.append_assoc]
    | none =>
      -- nothing is deeper than this line, so there is no child
      simp only [hdeeper] at hafter ⊢
      split at hafter
      next hnone =>
        rw [if_pos hnone]
        simp only [Bool.and_eq_true] at hnone
        obtain ⟨⟨hfirst, hsecond⟩, hthird⟩ := hnone
        obtain ⟨hrest, htextnext⟩ := ihnext hindent hafter
        refine ⟨hrest, ?_⟩
        simp only [htextnext, leveled, leveled_of_isAbsent hfirst, leveled_of_isAbsent hsecond,
          leveled_of_isAbsent hthird, List.flatMap_cons, indented, Chunk.content,
          List.nil_append, List.append_assoc]
      next => cases hafter

/-- **An outline shows the nodes**, each on a line of its own, in the order of `Tree.labels` and
indented by its level. -/
theorem text_outline {step depth : Count} {t : Tree} (h : (t.outline step depth).fault? = none) :
    (t.outline step depth).text =
      (t.leveled 1).flatMap fun row => indented step depth row.1 row.2.describe := by
  rw [outline] at h ⊢
  split at h
  next indent hindent =>
    have hlevel : indent.toNat = depth.toNat + 1 * step.toNat := by
      rw [Count.plus?_eq_some_iff.1 hindent, Nat.one_mul]
    obtain ⟨-, htext⟩ := text_outlineFrom hlevel h
    rw [htext, Writing.text, List.append_nil]
  next => cases h

end Tree

end CMinusFrontEnd
