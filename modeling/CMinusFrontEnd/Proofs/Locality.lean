import CMinusFrontEnd.Proofs.Edits
import CMinusFrontEnd.Proofs.OutlineFaults

/-!
# Changes in a tree and in its outline

A change in one place of a tree changes its outline in one place. The nodes of a tree stand in its
outline one behind the other, and the nodes of a subtree stand together
(`Tree.exists_leveled_modify`), at levels that depend on the path to it and on nothing else
(`Path.levelFrom`). So what is written for the subtree is its own outline, at the depth of the place
where it is.

The main statement is `Tree.prints_edits`. It tells what becomes of the outline when a tree is put
into a slot of some node, and when a tree is linked to the end of the chain of some node. What stands
before and behind the place is the same for every tree that is put there.
-/

namespace CMinusFrontEnd

/-! ## Levels -/

/-- The level of what a link of a node at the level `level` leads to. -/
def Link.levelFrom (level : Nat) : Link → Nat
  | child _ => level + 1
  | next => level

/-- The level of the node at the end of a path from a node at the level `level`. -/
def Path.levelFrom (level : Nat) : Path → Nat
  | [] => level
  | link :: path => levelFrom (link.levelFrom level) path

/-- Levels only grow along a path. Links to siblings leave them as they are. -/
theorem Path.le_levelFrom (level : Nat) (path : Path) : level ≤ Path.levelFrom level path := by
  induction path generalizing level with
  | nil => exact Nat.le_refl level
  | cons link path ih =>
    have hlink : level ≤ link.levelFrom level := by cases link <;> simp [Link.levelFrom]
    exact Nat.le_trans hlink (ih _)

namespace Tree

/-- All levels of a tree depend on the first one alone. -/
theorem leveled_add (level more : Nat) (t : Tree) :
    t.leveled (level + more) = (t.leveled level).map fun row => (row.1 + more, row.2) := by
  induction t generalizing level with
  | absent => rfl
  | node label first second third next ihfirst ihsecond ihthird ihnext =>
    simp only [leveled, List.map_cons, List.map_append, ihnext, ← ihfirst, ← ihsecond, ← ihthird,
      Nat.add_right_comm]

/-- Appended siblings come last, on the level of the first node. -/
theorem leveled_append (level : Nat) (t v : Tree) :
    (t.append v).leveled level = t.leveled level ++ v.leveled level := by
  induction t with
  | absent => rfl
  | node label first second third next _ _ _ ihnext =>
    simp only [append, leveled, ihnext, List.cons_append, List.append_assoc]

theorem append_absent (t : Tree) : t.append absent = t := by
  induction t with
  | absent => rfl
  | node label first second third next _ _ _ ihnext => rw [append, ihnext]

/-! ## Where the nodes of a subtree stand -/

/-- The nodes that a link leads to stand together, whatever tree they belong to. -/
theorem exists_leveled_redirect {t : Tree} (h : t ≠ absent) (link : Link) (level : Nat) :
    ∃ before after, ∀ v,
      (t.redirect link v).leveled level = before ++ v.leveled (link.levelFrom level) ++ after := by
  cases t with
  | absent => exact absurd rfl h
  | node label first second third next =>
    cases link with
    | child s =>
      cases s with
      | first =>
        refine ⟨[(level, label)],
          second.leveled (level + 1) ++ third.leveled (level + 1) ++ next.leveled level, fun v => ?_⟩
        simp only [redirect, withChild, leveled, Link.levelFrom, List.append_assoc, List.cons_append,
          List.nil_append]
      | second =>
        refine ⟨(level, label) :: first.leveled (level + 1),
          third.leveled (level + 1) ++ next.leveled level, fun v => ?_⟩
        simp only [redirect, withChild, leveled, Link.levelFrom, List.append_assoc, List.cons_append]
      | third =>
        refine ⟨(level, label) :: (first.leveled (level + 1) ++ second.leveled (level + 1)),
          next.leveled level, fun v => ?_⟩
        simp only [redirect, withChild, leveled, Link.levelFrom, List.append_assoc, List.cons_append]
    -- siblings come last, so there is nothing behind them
    | next =>
      refine ⟨(level, label) :: (first.leveled (level + 1) ++ second.leveled (level + 1) ++
        third.leveled (level + 1)), [], fun v => ?_⟩
      simp only [redirect, withNext, leveled, Link.levelFrom, List.append_assoc, List.cons_append,
        List.append_nil]

/-- **The nodes of a subtree stand together**, at a level that depends only on the path to it. -/
theorem exists_leveled_modify {t : Tree} {path : Path} (h : t.subtree path ≠ absent) (level : Nat) :
    ∃ before after, ∀ f : Tree → Tree,
      (t.modify f path).leveled level =
        before ++ (f (t.subtree path)).leveled (Path.levelFrom level path) ++ after := by
  induction path generalizing t level with
  | nil => exact ⟨[], [], fun f => (List.append_nil _).symm⟩
  | cons link path ih =>
    obtain ⟨before, after, hlink⟩ := exists_leveled_redirect (ne_absent_of_subtree h) link level
    obtain ⟨before', after', hpath⟩ := ih (t := t.follow link) h (link.levelFrom level)
    refine ⟨before ++ before', after' ++ after, fun f => ?_⟩
    rw [modify, hlink, hpath, subtree, Path.levelFrom]
    simp only [List.append_assoc]

/-- Putting back what is there changes nothing. -/
theorem modify_subtree (t : Tree) (path : Path) : t.modify (fun _ => t.subtree path) path = t := by
  induction path generalizing t with
  | nil => rfl
  | cons link path ih => rw [modify, subtree, ih, redirect_follow]

/-! ## What is written for a part -/

/-- Whether a tree is printed without a failure, and these are the bytes. -/
def Prints (step depth : Count) (t : Tree) (b : Bytes) : Prop :=
  (t.outline step depth).failure? .unlimited = none ∧ (t.outline step depth).held .unlimited = b

/-- The text of nodes with their levels. -/
def rowsText (step depth : Count) (rows : List (Nat × Label)) : Text :=
  rows.flatMap fun row => indented step depth row.1 row.2.describe

theorem rowsText_append (step depth : Count) (rows rows' : List (Nat × Label)) :
    rowsText step depth (rows ++ rows') = rowsText step depth rows ++ rowsText step depth rows' :=
  List.flatMap_append

variable {step depth inner : Count} {level : Nat}

/-- A tree is printed if there is no overflow at its start and everything fits, and what is printed
are its rows. -/
theorem prints_iff {t : Tree} {b : Bytes} :
    Prints step depth t b ↔
      depth.toNat + step.toNat < UInt64.size ∧ FitsFrom step depth 1 t ∧
        b = (rowsText step depth (t.leveled 1)).bytes := by
  rw [Prints, Writing.failure?_unlimited, Writing.held_unlimited, Option.map_eq_none_iff,
    ← and_assoc, ← fault?_outline_eq_none_iff]
  refine and_congr_right fun hfault => ?_
  rw [text_outline hfault, rowsText, eq_comm]

/-- The absent tree is printed as nothing. -/
theorem Prints.eq_nil {b : Bytes} (h : Prints step depth absent b) : b = [] := (prints_iff.1 h).2.2

/-- A part is indented as it would be at the depth where it is. -/
theorem rowsText_leveled_add (hinner : inner.toNat = depth.toNat + level * step.toNat) (t : Tree) :
    rowsText step depth (t.leveled (1 + level)) = rowsText step inner (t.leveled 1) := by
  have hindent (row : Nat × Label) :
      indented step depth (row.1 + level) row.2.describe = indented step inner row.1 row.2.describe := by
    simp only [indented, hinner, Nat.add_mul, Nat.add_assoc, Nat.add_comm (row.1 * step.toNat)]
  simp only [rowsText, leveled_add, List.flatMap_map, hindent]

/-- A tree some levels further down fits if it fits with the depth that belongs there. -/
theorem fitsFrom_add_iff (hinner : inner.toNat = depth.toNat + level * step.toNat) (t : Tree) :
    FitsFrom step depth (1 + level) t ↔ FitsFrom step inner 1 t := by
  have hindent (row : Nat × Label) :
      depth.toNat + (row.1 + level) * step.toNat = inner.toNat + row.1 * step.toNat := by
    simp only [hinner, Nat.add_mul, Nat.add_assoc, Nat.add_comm (row.1 * step.toNat)]
  simp only [FitsFrom, leveled_add, List.forall_mem_map, hindent]

/-- **A part of a tree is a part of its outline.** If a tree can be put into a place of a larger tree,
it is printed there as it is printed alone, and the rest is the same for every such tree. -/
theorem exists_prints_part {place : Tree → Tree} (before after : List (Nat × Label))
    (hplace : ∀ v, (place v).leveled 1 = before ++ v.leveled (1 + level) ++ after)
    (hinner : inner.toNat = depth.toNat + level * step.toNat)
    (hsum : inner.toNat + step.toNat < UInt64.size) :
    ∃ front back : Bytes, ∀ v b, Prints step depth (place v) b →
      ∃ shown, Prints step inner v shown ∧ b = front ++ shown ++ back := by
  refine ⟨(rowsText step depth before).bytes, (rowsText step depth after).bytes, fun v b hb => ?_⟩
  obtain ⟨-, hfits, rfl⟩ := prints_iff.1 hb
  have hv : FitsFrom step depth (1 + level) v := by
    intro row hrow
    refine hfits row ?_
    rw [hplace]
    exact List.mem_append_left _ (List.mem_append_right _ hrow)
  refine ⟨_, prints_iff.2 ⟨hsum, (fitsFrom_add_iff hinner v).1 hv, rfl⟩, ?_⟩
  rw [hplace, rowsText_append, rowsText_append, rowsText_leveled_add hinner, Text.bytes_append,
    Text.bytes_append]

/-! ## Putting a tree into a slot, and linking it to a chain -/

section Edits

variable {t : Tree} {path : Path}

/-- The node at the end of a path has a line of its own, so it is not indented too far. -/
theorem FitsFrom.subtree_le (hfits : FitsFrom step depth 1 t) (hnode : t.subtree path ≠ absent) :
    depth.toNat + Path.levelFrom 1 path * step.toNat ≤ Writing.maxSpaces := by
  obtain ⟨before, after, hpath⟩ := exists_leveled_modify hnode 1
  have hself := hpath fun _ => t.subtree path
  rw [modify_subtree] at hself
  refine FitsFrom.le (t := t.subtree path) (fun row hrow => hfits row ?_) hnode
  rw [hself]
  exact List.mem_append_left _ (List.mem_append_right _ hrow)

/-- Putting a tree into a slot changes one stretch of bytes, where the slot is printed. What is in
front of it and behind it is chosen before the tree. -/
theorem exists_prints_withChild (hnode : t.subtree path ≠ absent) (s : Slot)
    (hinner : inner.toNat = depth.toNat + Path.levelFrom 1 path * step.toNat)
    (hsum : inner.toNat + step.toNat < UInt64.size) :
    ∃ front back : Bytes, ∀ v b,
      Prints step depth (t.modify (fun _ => (t.subtree path).withChild s v) path) b →
        ∃ shown, Prints step inner v shown ∧ b = front ++ shown ++ back := by
  obtain ⟨before, after, hpath⟩ := exists_leveled_modify hnode 1
  obtain ⟨before', after', hslot⟩ :=
    exists_leveled_redirect hnode (.child s) (Path.levelFrom 1 path)
  refine exists_prints_part (before ++ before') (after' ++ after) (fun v => ?_) hinner hsum
  have hchild := hslot v
  rw [redirect, Link.levelFrom, Nat.add_comm _ 1] at hchild
  rw [hpath, hchild]
  simp only [List.append_assoc]

/-- What is linked to the end of a chain stands behind the whole chain. -/
theorem exists_prints_append (hnode : t.subtree path ≠ absent)
    (hlevel : Path.levelFrom 1 path = 1 + level)
    (houter : inner.toNat = depth.toNat + level * step.toNat)
    (hsum : inner.toNat + step.toNat < UInt64.size) :
    ∃ front back : Bytes, ∀ v b,
      Prints step depth (t.modify (fun _ => (t.subtree path).append v) path) b →
        ∃ shown, Prints step inner v shown ∧ b = front ++ shown ++ back := by
  obtain ⟨before, after, hpath⟩ := exists_leveled_modify hnode 1
  refine exists_prints_part (before ++ (t.subtree path).leveled (1 + level)) after (fun v => ?_)
    houter hsum
  rw [hpath, leveled_append, hlevel]
  simp only [List.append_assoc]

/-- **A change in one place.** Let a tree be printed, and let a path lead to a node of it.

If a tree is put into a slot of this node, then what was printed for the old contents of the slot
gives way to what is printed for the tree, both at the depth of the node's level. If a tree is linked
to the end of the chain of the node, then what is printed for it, at the depth of the level above, is
added in one place. Before and behind this place nothing changes, whichever tree it is. -/
theorem prints_edits {b : Bytes} (hnode : t.subtree path ≠ absent) (ht : Prints step depth t b) :
    ∃ inner outer : Count,
      inner.toNat = depth.toNat + Path.levelFrom 1 path * step.toNat ∧
      outer.toNat = depth.toNat + (Path.levelFrom 1 path - 1) * step.toNat ∧
      (∀ index < 3, ∃ (old : Tree) (front shown back : Bytes),
        b = front ++ shown ++ back ∧ Prints step inner old shown ∧
        ∀ v, ∃ changed, (t.subtree path).setChild index v = .ok (old, changed) ∧
          ∀ b', Prints step depth (t.modify (fun _ => changed) path) b' →
            ∃ shown', Prints step inner v shown' ∧ b' = front ++ shown' ++ back) ∧
      ∃ front back : Bytes, b = front ++ back ∧
        ∀ v b', Prints step depth (t.modify (fun _ => (t.subtree path).append v) path) b' →
          ∃ shown, Prints step outer v shown ∧ b' = front ++ shown ++ back := by
  obtain ⟨-, hfits, -⟩ := prints_iff.1 ht
  have hroom := hfits.subtree_le hnode
  obtain ⟨level, hlevel⟩ : ∃ level, Path.levelFrom 1 path = 1 + level :=
    Nat.exists_eq_add_of_le (Path.le_levelFrom 1 path)
  have hmul : Path.levelFrom 1 path * step.toNat = step.toNat + level * step.toNat := by
    rw [hlevel, Nat.add_mul, Nat.one_mul]
  have hmax : Writing.maxSpaces + Writing.maxSpaces < UInt64.size := by decide
  -- both depths are small, since the line of the node is indented at least as far
  have hinner : (UInt64.ofNat (depth.toNat + Path.levelFrom 1 path * step.toNat)).toNat =
      depth.toNat + Path.levelFrom 1 path * step.toNat := UInt64.toNat_ofNat_of_lt' (by omega)
  have houter : (UInt64.ofNat (depth.toNat + level * step.toNat)).toNat =
      depth.toNat + level * step.toNat := UInt64.toNat_ofNat_of_lt' (by omega)
  refine ⟨_, _, hinner, by rw [houter, hlevel, Nat.add_sub_cancel_left], fun index hindex => ?_, ?_⟩
  · obtain ⟨s, hs⟩ : ∃ s, Slot.ofIndex? index = some s := by
      rw [← Option.ne_none_iff_exists', ne_eq, Slot.ofIndex?_eq_none_iff]
      omega
    obtain ⟨front, back, hpart⟩ := exists_prints_withChild hnode s hinner (by omega)
    have hself :
        t.modify (fun _ => (t.subtree path).withChild s ((t.subtree path).child s)) path = t := by
      have hold : (t.subtree path).withChild s ((t.subtree path).child s) = t.subtree path :=
        redirect_follow _ (.child s)
      rw [hold, modify_subtree]
    obtain ⟨shown, hshown, hb⟩ := hpart _ b (hself.symm ▸ ht)
    refine ⟨(t.subtree path).child s, front, shown, back, hb, hshown, fun v => ?_⟩
    exact ⟨_, setChild_of_slot hnode hs v, hpart v⟩
  · obtain ⟨front, back, hpart⟩ := exists_prints_append hnode hlevel houter (by omega)
    have hself : t.modify (fun _ => (t.subtree path).append absent) path = t := by
      rw [append_absent, modify_subtree]
    obtain ⟨shown, hshown, hb⟩ := hpart absent b (hself.symm ▸ ht)
    rw [hshown.eq_nil, List.append_nil] at hb
    exact ⟨front, back, hb, hpart⟩

end Edits

/-- A call with a sibling takes the place of a name, below the second node of a chain. -/
theorem prints_edits_call :
    let name : Tree := leaf ⟨.expression .identifier, 3, some (.name ['x']), .void⟩
    let t : Tree := node (.fresh (.statement .iteration) 1) absent absent absent
      (node (.fresh (.statement .compound) 2) absent name absent absent)
    let v : Tree := (leaf ⟨.expression .call, 4, some (.name ['f']), .void⟩).append
      (leaf (.fresh (.statement .returning) 5))
    t.subtree [.next] ≠ absent ∧
    Prints 3 1 t (Text.bytes "    While\n    Compound\n       ID: x\n".toList) ∧
    ∃ front back : Bytes, ∃ changed, (t.subtree [.next]).setChild 1 v = .ok (name, changed) ∧
      Text.bytes "    While\n    Compound\n       ID: x\n".toList =
        front ++ Text.bytes "       ID: x\n".toList ++ back ∧
      Text.bytes "    While\n    Compound\n       Call: f\n       Return\n".toList =
        front ++ Text.bytes "       Call: f\n       Return\n".toList ++ back := by
  intro name t v
  have hnode : t.subtree [.next] ≠ absent := by decide
  have ht : Prints 3 1 t (Text.bytes "    While\n    Compound\n       ID: x\n".toList) :=
    ⟨by decide, by decide⟩
  refine ⟨hnode, ht, ?_⟩
  obtain ⟨inner, outer, hinner, -, hslots, -⟩ := prints_edits hnode ht
  obtain rfl : inner = 4 := UInt64.toNat_inj.1 (hinner.trans (by decide))
  obtain ⟨old, front, shown, back, hb, hshown, hv⟩ := hslots 1 (by decide)
  obtain ⟨changed, hset, hprint⟩ := hv v
  obtain ⟨rfl, rfl⟩ := Prod.mk.inj (Except.ok.inj hset)
  obtain ⟨shown', hshown', hb'⟩ := hprint
    (Text.bytes "    While\n    Compound\n       Call: f\n       Return\n".toList)
    ⟨by decide, by decide⟩
  obtain rfl : shown = Text.bytes "       ID: x\n".toList := hshown.2.symm.trans (by decide)
  obtain rfl : shown' = Text.bytes "       Call: f\n       Return\n".toList :=
    hshown'.2.symm.trans (by decide)
  exact ⟨front, back, _, rfl, hb, hb'⟩

end Tree

end CMinusFrontEnd
