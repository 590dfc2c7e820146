import CMinusFrontEnd.Tree.Path

/-!
# Changes inside a tree

What a link leads to can be replaced, and so can what a path leads to. This file says what is found
in the tree afterwards: from the end of the path on the new subtree (`Tree.subtree_modify_append`),
and anywhere else the node that was there before (`Tree.label?_subtree_modify`). Taken together they
make two trees that `Tree.AgreeBut` in one place.
-/

namespace CMinusFrontEnd.Tree

theorem isAbsent_eq_false_iff {t : Tree} : t.isAbsent = false ↔ t ≠ absent := by
  cases t <;> simp [isAbsent]

theorem ne_absent_of_label? {t : Tree} {label : Label} (h : t.label? = some label) :
    t ≠ absent := by
  rintro rfl
  cases h

theorem exists_label?_of_ne_absent {t : Tree} (h : t ≠ absent) : ∃ label, t.label? = some label := by
  cases t with
  | absent => exact absurd rfl h
  | node label => exact ⟨label, rfl⟩

/-! ## Child slots by index -/

/-- With an index below three the child is set, and the previous one comes back. -/
theorem setChild_of_slot {t : Tree} (h : t ≠ absent) {index : Nat} {s : Slot}
    (hs : Slot.ofIndex? index = some s) (v : Tree) :
    t.setChild index v = .ok (t.child s, t.withChild s v) := by
  cases t with
  | absent => exact absurd rfl h
  | node => simp only [setChild, hs]

/-- With any other index the error says which line the node is on. -/
theorem setChild_of_three_le {t : Tree} {label : Label} (h : t.label? = some label) {index : Nat}
    (hindex : 3 ≤ index) (v : Tree) :
    t.setChild index v = .error (.childIndexOutOfRange index label.line) := by
  cases t with
  | absent => cases h
  | node =>
    obtain rfl := Option.some.inj h
    simp only [setChild, Slot.ofIndex?_eq_none_iff.2 hindex]

/-! ## Links -/

@[simp] theorem follow_absent (link : Link) : absent.follow link = absent := by
  cases link <;> rfl

@[simp] theorem redirect_absent (link : Link) (v : Tree) : absent.redirect link v = absent := by
  cases link <;> rfl

@[simp] theorem label?_redirect (t : Tree) (link : Link) (v : Tree) :
    (t.redirect link v).label? = t.label? := by
  cases link with
  | child s => exact label?_withChild t s v
  | next => cases t <;> rfl

/-- A link leads to where it was put last, as long as there is a node that has it. -/
theorem follow_redirect_self {t : Tree} (h : t ≠ absent) (link : Link) (v : Tree) :
    (t.redirect link v).follow link = v := by
  cases link with
  | child s => exact child_withChild_self h s v
  | next =>
    cases t with
    | absent => exact absurd rfl h
    | node => rfl

/-- The links of a node are independent of each other: where one leads does not depend on where
another one was put. -/
theorem follow_redirect_of_ne {link link' : Link} (h : link' ≠ link) (t v : Tree) :
    (t.redirect link v).follow link' = t.follow link' := by
  cases link with
  | child s =>
    cases link' with
    | child s' => exact child_withChild_of_ne (fun hs => h (congrArg Link.child hs)) t v
    | next => exact next_withChild t s v
  | next =>
    cases link' with
    | child s' => cases t <;> cases s' <;> rfl
    | next => exact absurd rfl h

/-- Putting a link to where it leads already changes nothing. -/
@[simp] theorem redirect_follow (t : Tree) (link : Link) : t.redirect link (t.follow link) = t := by
  cases t with
  | absent => exact redirect_absent link _
  | node =>
    cases link with
    | child s => cases s <;> rfl
    | next => rfl

/-! ## Paths -/

@[simp] theorem subtree_absent (path : Path) : absent.subtree path = absent := by
  induction path with
  | nil => rfl
  | cons link path ih => rw [subtree, follow_absent, ih]

/-- A path may be followed in two parts. -/
theorem subtree_append (t : Tree) (p q : Path) : t.subtree (p ++ q) = (t.subtree p).subtree q := by
  induction p generalizing t with
  | nil => rfl
  | cons link p ih => exact ih (t.follow link)

theorem ne_absent_of_subtree {t : Tree} {path : Path} (h : t.subtree path ≠ absent) :
    t ≠ absent := by
  rintro rfl
  exact h (subtree_absent path)

/-- From the end of the path on, the tree is the changed subtree. If the path leads nowhere then
there is nothing to change. -/
theorem subtree_modify_append {t : Tree} {path : Path} (h : t.subtree path ≠ absent)
    (f : Tree → Tree) (q : Path) :
    (t.modify f path).subtree (path ++ q) = (f (t.subtree path)).subtree q := by
  induction path generalizing t with
  | nil => rfl
  | cons link path ih =>
    have ht : t ≠ absent := ne_absent_of_subtree h
    rw [modify, List.cons_append, subtree, follow_redirect_self ht]
    exact ih h

/-- A change at a path shows at this path. If nothing is there then nothing is changed, and so the
path has to lead to a node. -/
theorem subtree_modify {t : Tree} {path : Path} (h : t.subtree path ≠ absent) (f : Tree → Tree) :
    (t.modify f path).subtree path = f (t.subtree path) := by
  simpa [subtree] using subtree_modify_append h f []

/-- A path that does not go through the end of the other one leads to the same node as before. Its
descendants may have changed, but not its label. -/
theorem label?_subtree_modify {path q : Path} (h : ¬ path <+: q) (f : Tree → Tree) (t : Tree) :
    ((t.modify f path).subtree q).label? = (t.subtree q).label? := by
  induction path generalizing t q with
  | nil => exact absurd List.nil_prefix h
  | cons link path ih =>
    cases q with
    | nil => exact label?_redirect t link _
    | cons link' q =>
      rw [modify, subtree, subtree]
      by_cases hlink : link' = link
      · subst hlink
        have hq : ¬ path <+: q := fun hq => h (List.cons_prefix_cons.2 ⟨rfl, hq⟩)
        by_cases ht : t = absent
        · rw [ht, redirect_absent]
        · rw [follow_redirect_self ht, ih hq]
      · -- here the paths part, and the change is behind the other link
        rw [follow_redirect_of_ne hlink]

/-! ## Trees that differ in one place -/

/-- The tree `t'` has `v` at the end of a path. Anywhere else it has the nodes of `t`. -/
structure AgreeBut (t t' : Tree) (path : Path) (v : Tree) : Prop where
  /-- from the end of the path on there is the new subtree -/
  inside : ∀ q, t'.subtree (path ++ q) = v.subtree q
  /-- all other paths lead to the same nodes, or to none, as before -/
  outside : ∀ q, ¬ path <+: q → (t'.subtree q).label? = (t.subtree q).label?

/-- Replacing what a link of some node leads to changes nothing else, neither in the node itself nor
elsewhere in the tree. The link may have led to no node. -/
theorem agreeBut_redirect {t : Tree} {path : Path} (h : t.subtree path ≠ absent) (link : Link)
    (v : Tree) :
    AgreeBut t (t.modify (fun _ => (t.subtree path).redirect link v) path) (path ++ [link]) v where
  inside q := by
    rw [List.append_assoc, subtree_modify_append h, List.singleton_append, subtree,
      follow_redirect_self h]
  outside q hq := by
    by_cases hpath : path <+: q
    · obtain ⟨r, rfl⟩ := hpath
      have hr : ¬ [link] <+: r := fun hr => hq ((List.prefix_append_right_inj path).2 hr)
      rw [subtree_modify_append h, subtree_append]
      exact label?_subtree_modify hr (fun _ => v) (t.subtree path)
    · exact label?_subtree_modify hpath _ t

end CMinusFrontEnd.Tree
