import CMinusFrontEnd.Proofs.Locality

/-!
# The nodes of a tree and their paths

A node is told from all others by the path that leads to it. `Tree.places` lists the nodes with their
paths, and this file says that it lists them all (`Tree.mem_places_iff`), and in which order
(`Tree.pairwise_places`). A path goes before the paths that go on from its end, and where two paths part
the slots go before the siblings and an earlier slot before a later one. No path goes before itself, so
no node is listed twice.

The level of a node is a matter of its path as well. The greatest of these levels, `Tree.height`, says
whether there is room for all lines of an outline (`Tree.fitsFrom_one_iff`).
-/

namespace CMinusFrontEnd

/-! ## The order of paths -/

/-- The rank of a link among the links of a node. -/
def Link.rank : Link → Nat
  | child .first => 0
  | child .second => 1
  | child .third => 2
  | next => 3

/-- Whether a link comes before another one of the same node. -/
def Link.Precedes (a b : Link) : Prop := a.rank < b.rank

/-- Whether the node at the end of a path comes before the node at the end of another path. -/
def Path.Precedes : Path → Path → Prop := List.Lex Link.Precedes

/-- No path precedes itself, and this is why no place comes up twice. -/
theorem Path.not_precedes_self (path : Path) : ¬ Path.Precedes path path := by
  induction path with
  | nil =>
    intro h
    cases h
  | cons link path ih =>
    intro h
    cases h with
    | cons h => exact ih h
    | rel h => exact Nat.lt_irrefl _ h

namespace Link

/-- The places behind a link are those that were found there, with the link in front. -/
theorem cons_mem_lead_iff {link link' : Link} {found : List (Path × Label)} {path : Path}
    {label : Label} :
    (link' :: path, label) ∈ link.lead found ↔ link' = link ∧ (path, label) ∈ found := by
  simp only [lead, List.mem_map, Prod.mk.injEq, List.cons.injEq]
  constructor
  · rintro ⟨_, hfound, ⟨rfl, rfl⟩, rfl⟩
    exact ⟨rfl, hfound⟩
  · rintro ⟨rfl, hfound⟩
    exact ⟨_, hfound, ⟨rfl, rfl⟩, rfl⟩

theorem exists_cons_of_mem_lead {link : Link} {found : List (Path × Label)} {place : Path × Label}
    (h : place ∈ link.lead found) : ∃ path, place.1 = link :: path := by
  obtain ⟨entry, -, rfl⟩ := List.mem_map.1 h
  exact ⟨entry.1, rfl⟩

/-- The order is not changed by a link that leads to all the nodes. -/
theorem pairwise_lead {link : Link} {found : List (Path × Label)}
    (h : found.Pairwise fun x y => Path.Precedes x.1 y.1) :
    (link.lead found).Pairwise fun x y => Path.Precedes x.1 y.1 :=
  List.pairwise_map.2 (h.imp List.Lex.cons)

/-- Places behind different links are ordered as the links are. -/
theorem precedes_of_mem_lead {a b : Link} (hab : a.Precedes b) {found found' : List (Path × Label)}
    {x y : Path × Label} (hx : x ∈ a.lead found) (hy : y ∈ b.lead found') :
    Path.Precedes x.1 y.1 := by
  obtain ⟨p, hp⟩ := exists_cons_of_mem_lead hx
  obtain ⟨q, hq⟩ := exists_cons_of_mem_lead hy
  rw [hp, hq]
  exact .rel hab

end Link

namespace Tree

/-! ## Places -/

/-- A place is that of the node itself, or it is behind one of the four links. -/
theorem mem_places_node {label : Label} {first second third next : Tree} {place : Path × Label} :
    place ∈ (node label first second third next).places ↔
      place = ([], label) ∨ place ∈ (Link.child .first).lead first.places ∨
        place ∈ (Link.child .second).lead second.places ∨
        place ∈ (Link.child .third).lead third.places ∨ place ∈ Link.next.lead next.places := by
  simp only [places, List.mem_cons, List.mem_append, or_assoc]

/-- **Every node is listed**, and nothing else is: a path is on the list exactly if it leads to a
node, and it stands there with the label of that node. -/
theorem mem_places_iff {t : Tree} {path : Path} {label : Label} :
    (path, label) ∈ t.places ↔ (t.subtree path).label? = some label := by
  induction t generalizing path with
  | absent =>
    rw [subtree_absent]
    exact iff_of_false List.not_mem_nil (by simp [label?])
  | node l first second third next ihfirst ihsecond ihthird ihnext =>
    rw [mem_places_node]
    cases path with
    | nil =>
      have hlead {link : Link} {found : List (Path × Label)} : ([], label) ∉ link.lead found := by
        intro h
        obtain ⟨path, hpath⟩ := Link.exists_cons_of_mem_lead h
        cases hpath
      simp [hlead, subtree, label?, eq_comm]
    | cons link path =>
      -- only the nodes behind the same link have such a path
      rcases link with (_ | _ | _) | _ <;>
        simp only [Link.cons_mem_lead_iff, Prod.mk.injEq, Link.child.injEq, reduceCtorEq, true_and,
          false_and, or_false, false_or]
      · exact ihfirst
      · exact ihsecond
      · exact ihthird
      · exact ihnext

/-- **The order of the nodes.** A node comes before those below it, the slots come one after the
other, and the siblings come last. -/
theorem pairwise_places (t : Tree) : t.places.Pairwise fun x y => Path.Precedes x.1 y.1 := by
  induction t with
  | absent => exact List.Pairwise.nil
  | node l first second third next ihfirst ihsecond ihthird ihnext =>
    have hacross {a b : Link} (hab : a.rank < b.rank) {found found' : List (Path × Label)} :
        ∀ x ∈ a.lead found, ∀ y ∈ b.lead found', Path.Precedes x.1 y.1 :=
      fun x hx y hy => Link.precedes_of_mem_lead hab hx hy
    refine List.pairwise_cons.2 ⟨fun place hplace => ?_, ?_⟩
    · obtain ⟨link, path, hpath⟩ : ∃ link path, place.1 = link :: path := by
        simp only [List.mem_append] at hplace
        rcases hplace with ((h | h) | h) | h <;> exact ⟨_, Link.exists_cons_of_mem_lead h⟩
      rw [hpath]
      exact .nil
    · have hslots := List.pairwise_append.2
        ⟨Link.pairwise_lead ihfirst, Link.pairwise_lead ihsecond,
          hacross (a := .child .first) (b := .child .second) (by decide)⟩
      have hthird := List.pairwise_append.2 ⟨hslots, Link.pairwise_lead ihthird,
        List.forall_mem_append.2 ⟨hacross (b := .child .third) (by decide), hacross (by decide)⟩⟩
      refine List.pairwise_append.2 ⟨hthird, Link.pairwise_lead ihnext, ?_⟩
      simp only [List.forall_mem_append]
      exact ⟨⟨hacross (by decide), hacross (by decide)⟩, hacross (by decide)⟩

/-- No node is listed twice. -/
theorem nodup_paths (t : Tree) : (t.places.map Prod.fst).Nodup := by
  refine List.pairwise_map.2 (t.pairwise_places.imp fun hxy heq => ?_)
  rw [heq] at hxy
  exact Path.not_precedes_self _ hxy

/-! ## Levels -/

/-- The level of a node is that of its path: one more for each link to a child, and nothing for a
link to a sibling. -/
theorem leveled_eq_map_places (level : Nat) (t : Tree) :
    t.leveled level = t.places.map fun place => (Path.levelFrom level place.1, place.2) := by
  induction t generalizing level with
  | absent => rfl
  | node l first second third next ihfirst ihsecond ihthird ihnext =>
    simp only [leveled, places, Link.lead, List.map_cons, List.map_append, List.map_map, ihfirst,
      ihsecond, ihthird, ihnext]
    rfl

/-- The greatest level of a node, and 0 if there is no node. -/
def height (t : Tree) : Nat := (t.places.map fun place => Path.levelFrom 1 place.1).max?.getD 0

theorem places_ne_nil {t : Tree} (ht : t ≠ absent) : t.places ≠ [] := by
  cases t with
  | absent => exact absurd rfl ht
  | node => exact List.cons_ne_nil _ _

/-- The height is a level of the tree, and no level is greater. -/
theorem height_isGreatest {t : Tree} (ht : t ≠ absent) :
    (∃ place ∈ t.places, Path.levelFrom 1 place.1 = t.height) ∧
      ∀ place ∈ t.places, Path.levelFrom 1 place.1 ≤ t.height := by
  have hne : (t.places.map fun place => Path.levelFrom 1 place.1) ≠ [] :=
    fun h => places_ne_nil ht (List.map_eq_nil_iff.1 h)
  obtain ⟨greatest, hmax⟩ := Option.isSome_iff_exists.1 (List.isSome_max?_of_ne_nil hne)
  have hheight : t.height = greatest := by rw [height, hmax, Option.getD_some]
  obtain ⟨hmem, hle⟩ := List.max?_eq_some_iff.1 hmax
  rw [hheight]
  exact ⟨List.mem_map.1 hmem, fun place hplace => hle _ (List.mem_map_of_mem hplace)⟩

/-- There is room for all lines if there is room for the deepest one. This is what `Tree.height` is
defined for. -/
theorem fitsFrom_one_iff {step depth : Count} {t : Tree} (ht : t ≠ absent) :
    FitsFrom step depth 1 t ↔ depth.toNat + t.height * step.toNat ≤ Writing.maxSpaces := by
  obtain ⟨⟨deepest, hdeepest, hlevel⟩, hle⟩ := height_isGreatest ht
  simp only [FitsFrom, leveled_eq_map_places, List.forall_mem_map]
  constructor
  · intro h
    rw [← hlevel]
    exact h deepest hdeepest
  · intro h place hplace
    have hmul := Nat.mul_le_mul_right step.toNat (hle place hplace)
    omega

end Tree

end CMinusFrontEnd
