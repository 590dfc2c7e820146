import CMinusFrontEnd.Proofs.Stock
import CMinusFrontEnd.Proofs.Table
import CMinusFrontEnd.Session.Step

/-!
# Sessions lose no nodes

Trees of a session are moved, taken apart and given up. What a step makes and what it gives up is
listed by `Session.made` and `Session.givenUp`, and the main statement, `Session.nodes_conserved`, is
that the books balance: after any run the nodes of the session, with those that were given up, are
the nodes that were made.

A step is a few changes in a row, and each of these is `Balanced` by itself: giving up a name, giving
a name to a tree, and replacing the tree at a place. A step's balance is the sum of theirs, where
what one change gives up and another one takes in is struck out (`Balanced.strike`).
-/

namespace CMinusFrontEnd

/-- The stock of several trees. -/
def Stock.ofTrees (trees : List Tree) : Stock := (trees.map Tree.stock).sum

@[simp] theorem Stock.ofTrees_nil : ofTrees [] = 0 := rfl

@[simp] theorem Stock.ofTrees_cons (t : Tree) (trees : List Tree) :
    ofTrees (t :: trees) = t.stock + ofTrees trees := by
  simp only [ofTrees, List.map_cons, List.sum_cons]

@[simp] theorem Stock.ofTrees_append (trees trees' : List Tree) :
    ofTrees (trees ++ trees') = ofTrees trees + ofTrees trees' := by
  simp only [ofTrees, List.map_append, List.sum_append]

namespace Session

/-! ## Names -/

/-- After a release the name stands for nothing, and every other name stands for the tree that it
stood for before. -/
theorem tree?_release (s : Session) (name name' : Text) :
    (s.release name).tree? name' = if name' = name then none else s.tree? name' :=
  Table.lookup_remove name' name s.trees

/-- A stored tree is found under its name, and no other name is affected. -/
theorem tree?_store (s : Session) (name name' : Text) (t : Tree) :
    (s.store name t).tree? name' = if name' = name then some t else s.tree? name' :=
  Table.lookup_put name' name t s.trees

/-- A tree is kept only under a name, and only if there is a node in it: the absent tree never takes
the place of a tree that has the name already. -/
theorem tree?_keep (s : Session) (kept : Option Text) (name : Text) (t : Tree) :
    (s.keep kept t).tree? name =
      if kept = some name ∧ t ≠ .absent then some t else s.tree? name := by
  cases kept with
  | none => simp [keep]
  | some key =>
    cases t with
    | absent => simp [keep, Tree.isAbsent]
    | node =>
      have hstore := tree?_store s key name
      simp [keep, Tree.isAbsent, hstore, eq_comm]

/-- A place is one of a node if its tree is there and its path does not lead into an empty slot or
past the end of a chain. -/
theorem node?_eq_some_iff {s : Session} {place : Place} {node : Tree} :
    s.node? place = some node ↔
      ∃ t, s.tree? place.tree = some t ∧ t.subtree place.path = node ∧ node ≠ .absent := by
  rw [node?]
  cases s.tree? place.tree with
  | none => simp
  | some t =>
    cases h : (t.subtree place.path).isAbsent with
    | false =>
      have := Tree.isAbsent_eq_false_iff.1 h
      simp only [h, Bool.false_eq_true, if_false, Option.some.injEq, exists_eq_left']
      exact ⟨fun heq => ⟨heq, heq ▸ this⟩, fun heq => heq.1⟩
    | true =>
      simp only [h, if_true, Option.some.injEq, exists_eq_left']
      constructor
      · intro hnone
        cases hnone
      · rintro ⟨rfl, hne⟩
        exact absurd (Tree.isAbsent_eq_false_iff.2 hne) (by simp [h])

/-- No name occurs twice. -/
def Distinct (s : Session) : Prop := (s.trees.map Prod.fst).Nodup

theorem distinct_start : start.Distinct := List.nodup_nil

theorem Distinct.release {s : Session} (hs : s.Distinct) (name : Text) :
    (s.release name).Distinct :=
  (List.filter_sublist.map Prod.fst).nodup hs

/-- Storing a tree releases the name first, so the name does not occur twice afterwards. The names
are thus distinct in every session of a run. -/
theorem Distinct.store {s : Session} (hs : s.Distinct) (name : Text) (t : Tree) :
    (s.store name t).Distinct := by
  refine List.nodup_cons.2 ⟨?_, hs.release name⟩
  intro hmem
  obtain ⟨entry, hentry, hname⟩ := List.mem_map.1 hmem
  have := (List.mem_filter.1 hentry).2
  simp [hname] at this

/-! ## The books -/

/-- The stock of all trees of a session. -/
def stock (s : Session) : Stock := .ofTrees (s.trees.map Prod.snd)

/-- The trees given up when a tree is to be kept under a name: without a name the tree itself, and
otherwise the tree that had the name. -/
def displaced (s : Session) (name : Option Text) (t : Tree) : List Tree :=
  match name with
  | some name => if t.isAbsent then [] else (s.tree? name).toList
  | none => [t]

/-- The labels of the nodes that a step makes. -/
def made (s : Session) : Step → List Label
  | .create _ kind => [.fresh kind s.line]
  | .extend place kind count =>
    if (s.node? place).isSome then List.replicate count (.fresh kind s.line) else []
  | .wrap name kind index count =>
    match s.tree? name, Slot.ofIndex? index with
    | none, _ => []
    | some _, some _ => List.replicate count (.fresh kind s.line)
    -- the first new node has no such slot, and there is no second one
    | some _, none => if count = 0 then [] else [.fresh kind s.line]
  | _ => []

/-- The trees that a step gives up: those that are dropped, those whose name is given to another
tree, those that are put out of their place and not kept, and those that were to be moved to a place
that does not exist. -/
def givenUp (s : Session) : Step → List Tree
  | .create name _ => (s.tree? name).toList
  | .setChild place index moved kept =>
    match s.tree? moved, (s.release moved).node? place with
    | some t, some node =>
      match Slot.ofIndex? index with
      | some slot =>
        ((s.release moved).replace place (node.withChild slot t)).displaced kept (node.child slot)
      | none => [t]
    | _, _ => []
  | .take place link kept =>
    match s.node? place with
    | some node =>
      (s.replace place (node.redirect link .absent)).displaced kept (node.follow link)
    | none => []
  | .wrap name kind index count =>
    match s.tree? name, Slot.ofIndex? index with
    | some t, none => if count = 0 then [] else [t, .leaf (.fresh kind s.line)]
    | _, _ => []
  | .drop name => (s.tree? name).toList
  | _ => []

/-- The labels of all nodes that are made in a run. -/
def madeIn (s : Session) : List Step → List Label
  | [] => []
  | first :: rest => s.made first ++ (s.step first).2.madeIn rest

/-- All trees that are given up in a run. -/
def givenUpIn (s : Session) : List Step → List Tree
  | [] => []
  | first :: rest => s.givenUp first ++ (s.step first).2.givenUpIn rest

/-- The session `s'` is `s` after nodes were made and trees were given up. -/
structure Balanced (s s' : Session) (made : List Label) (givenUp : List Tree) : Prop where
  /-- still no name occurs twice -/
  distinct : s'.Distinct
  /-- the nodes that are there or were given up are those that were there or were made -/
  stock : s'.stock + .ofTrees givenUp = s.stock + .ofLabels made

namespace Balanced

variable {s s' s'' : Session} {made made' : List Label} {givenUp givenUp' : List Tree}

theorem refl (hs : s.Distinct) : Balanced s s [] [] := ⟨hs, rfl⟩

/-- **Books add up.** What two changes made and gave up one after the other is what both made, and
what both gave up. -/
theorem trans (h : Balanced s s' made givenUp) (h' : Balanced s' s'' made' givenUp') :
    Balanced s s'' (made ++ made') (givenUp ++ givenUp') where
  distinct := h'.distinct
  stock := by
    rw [Stock.ofTrees_append, Stock.ofLabels_append]
    calc s''.stock + (.ofTrees givenUp + .ofTrees givenUp')
        = s''.stock + .ofTrees givenUp' + .ofTrees givenUp := by abel
      _ = s'.stock + .ofTrees givenUp + .ofLabels made' := by rw [h'.stock]; abel
      _ = s.stock + (.ofLabels made + .ofLabels made') := by rw [h.stock]; abel

/-- What is on both sides of the books can be struck out. A node that was given up in one place and
made in another has only been moved. -/
theorem strike (h : Balanced s s' made givenUp) (both : Stock)
    (hmade : Stock.ofLabels made = .ofLabels made' + both)
    (hgivenUp : Stock.ofTrees givenUp = .ofTrees givenUp' + both) :
    Balanced s s' made' givenUp' where
  distinct := h.distinct
  stock := by
    have := h.stock
    rw [hmade, hgivenUp, ← add_assoc, ← add_assoc] at this
    exact add_right_cancel this

end Balanced

/-! ## Single changes -/

/-- A release gives up the tree that had the name, if there was one. A name stands for one tree, so
there is no other one that would be lost with it. -/
theorem balanced_release {s : Session} (hs : s.Distinct) (name : Text) :
    Balanced s (s.release name) [] (s.tree? name).toList where
  distinct := hs.release name
  stock := by
    obtain ⟨line, trees⟩ := s
    simp only [stock, release, tree?, Stock.ofLabels_nil, add_zero]
    rw [Distinct] at hs
    induction trees with
    | nil => rfl
    | cons entry rest ih =>
      obtain ⟨key, t⟩ := entry
      obtain ⟨hnew, hrest⟩ := List.nodup_cons.1 hs
      by_cases hkey : key = name
      · subst hkey
        -- no other entry has the name, so nothing else is filtered out
        have hfilter : rest.filter (fun entry => entry.1 != key) = rest := by
          refine List.filter_eq_self.2 fun entry hentry => bne_iff_ne.2 ?_
          intro heq
          exact hnew (List.mem_map.2 ⟨entry, hentry, heq⟩)
        simp [hfilter, add_comm]
      · have hname : (name == key) = false := by simpa using Ne.symm hkey
        simp [List.lookup_cons, hname, hkey, add_assoc, ih hrest]

/-- Storing a tree counts as making all of its nodes. Where they come from another place of the
session, that place gives them up and they are struck out. -/
theorem balanced_store {s : Session} (hs : s.Distinct) (name : Text) (t : Tree) :
    Balanced s (s.store name t) t.labels (s.tree? name).toList where
  distinct := hs.store name t
  stock := by
    have hrelease := (balanced_release hs name).stock
    have hstore : (s.store name t).stock = t.stock + (s.release name).stock :=
      Stock.ofTrees_cons t _
    rw [Stock.ofLabels_nil, add_zero] at hrelease
    rw [hstore, add_assoc, hrelease, add_comm, Tree.stock]

/-- Keeping a tree counts as making its nodes too. If it is not kept after all, it is given up at
once (`displaced`). -/
theorem balanced_keep {s : Session} (hs : s.Distinct) (name : Option Text) (t : Tree) :
    Balanced s (s.keep name t) t.labels (s.displaced name t) := by
  cases name with
  | none => exact ⟨hs, by simp [keep, displaced, Tree.stock]⟩
  | some name =>
    rw [keep, displaced]
    cases t with
    | absent => exact .refl hs
    | node => exact balanced_store hs name _

/-- A replacement gives up what stood at the place, with everything below and behind it. Only the
parts of the tree outside of the place are left alone (`Tree.exists_stock_modify`). -/
theorem balanced_replace {s : Session} (hs : s.Distinct) {place : Place} {node : Tree}
    (h : s.node? place = some node) (v : Tree) :
    Balanced s (s.replace place v) v.labels [node] := by
  obtain ⟨t, ht, rfl, hne⟩ := node?_eq_some_iff.1 h
  obtain ⟨aside, hold, hnew⟩ := Tree.exists_stock_modify hne
  have hstore := balanced_store hs place.tree (t.modify (fun _ => v) place.path)
  rw [ht, Option.toList_some] at hstore
  simp only [replace, ht]
  refine hstore.strike aside ?_ ?_
  · exact (hnew v).trans (add_comm _ _)
  · simp only [Stock.ofTrees_cons, Stock.ofTrees_nil, add_zero]
    rw [hold, add_comm]

/-! ## Steps -/

/-- If a change adds nodes with certain labels to any node, then at a place it makes these, or
nothing if there is no node at the place. -/
theorem balanced_change {s : Session} (hs : s.Distinct) (place : Place) {f : Tree → Tree}
    {labels : List Label} (hf : ∀ node, (f node).stock = node.stock + .ofLabels labels) :
    Balanced s (s.change place f).2 (if (s.node? place).isSome then labels else []) [] := by
  rw [change]
  cases h : s.node? place with
  | none => exact .refl hs
  | some node =>
    refine (balanced_replace hs h (f node)).strike node.stock ?_ ?_
    · exact (hf node).trans (add_comm _ _)
    · simp

/-- Changes of a label are of no concern to the books as long as the kind of the node and its line
stay. -/
theorem balanced_mapLabel {s : Session} (hs : s.Distinct) (place : Place) {f : Label → Label}
    (hf : ∀ label, (f label).origin = label.origin) :
    Balanced s (s.change place (.mapLabel f)).2 [] [] := by
  have hstock (node : Tree) : (node.mapLabel f).stock = node.stock + .ofLabels [] := by
    rw [Tree.stock_mapLabel hf, Stock.ofLabels_nil, add_zero]
  have := balanced_change hs place hstock
  rwa [ite_self] at this

/-- A tree is taken out of the session before the place is looked up. This is why a tree cannot be
moved into itself: its places are gone by then. -/
theorem moveTo_eq {s : Session} {place : Place} {moved : Text} {t node : Tree}
    (ht : s.tree? moved = some t) (hnode : (s.release moved).node? place = some node)
    (put : Session → Tree → Tree → Answer × Session) :
    s.moveTo place moved put = put (s.release moved) node t := by
  simp only [moveTo, ht, hnode]

/-- A move is balanced if what is done at the place is balanced, starting from the session without
the moved tree. A refused move leaves the session as it is and gives up nothing. -/
theorem balanced_moveTo {s : Session} (hs : s.Distinct) (place : Place) (moved : Text)
    {put : Session → Tree → Tree → Answer × Session} {givenUp : List Tree}
    (hput : ∀ t node, s.tree? moved = some t → (s.release moved).node? place = some node →
      Balanced s (put (s.release moved) node t).2 [] givenUp)
    (hrefused : s.tree? moved = none ∨ (s.release moved).node? place = none → givenUp = []) :
    Balanced s (s.moveTo place moved put).2 [] givenUp := by
  cases ht : s.tree? moved with
  | none =>
    rw [hrefused (.inl ht)]
    simp only [moveTo, ht]
    exact .refl hs
  | some t =>
    cases hnode : (s.release moved).node? place with
    | none =>
      rw [hrefused (.inr hnode)]
      simp only [moveTo, ht, hnode]
      exact .refl hs
    | some node =>
      rw [moveTo_eq ht hnode]
      exact hput t node ht hnode

/-- Setting a child moves one tree in and another one out. The parent is replaced as a whole, so its
other nodes are in the books on both sides. -/
theorem balanced_setChild {s : Session} (hs : s.Distinct) (place : Place) (index : Nat)
    (moved : Text) (kept : Option Text) :
    Balanced s (s.setChild place index moved kept).2 []
      (s.givenUp (.setChild place index moved kept)) := by
  refine balanced_moveTo hs place moved (fun t node ht hnode => ?_) fun hrefused => ?_
  · have hrelease := balanced_release hs moved
    rw [ht] at hrelease
    obtain ⟨whole, -, -, hne⟩ := node?_eq_some_iff.1 hnode
    cases hslot : Slot.ofIndex? index with
    | none =>
      obtain ⟨label, hlabel⟩ := Tree.exists_label?_of_ne_absent hne
      rw [Tree.setChild_of_three_le hlabel (Slot.ofIndex?_eq_none_iff.1 hslot)]
      simp only [givenUp, ht, hnode, hslot]
      exact hrelease
    | some slot =>
      rw [Tree.setChild_of_slot hne hslot]
      simp only [givenUp, ht, hnode, hslot]
      obtain ⟨aside, hold, hnew⟩ := Tree.exists_stock_redirect hne (.child slot)
      have hreplace := balanced_replace hrelease.distinct hnode (node.withChild slot t)
      have hkeep := balanced_keep hreplace.distinct kept (node.child slot)
      -- the tree and the old parent go out, the new parent and the previous child come in
      refine (hrelease.trans (hreplace.trans hkeep)).strike (t.stock + node.stock) ?_ ?_
      · have hparent : (node.withChild slot t).stock = aside + t.stock := hnew t
        simp only [List.nil_append, Stock.ofLabels_append, Stock.ofLabels_nil]
        rw [← Tree.stock, ← Tree.stock, hparent, hold, Tree.follow]
        abel
      · simp only [Option.toList_some, Stock.ofTrees_append, Stock.ofTrees_cons,
          Stock.ofTrees_nil]
        abel
  · rcases hrefused with h | h
    · simp only [givenUp, h]
    · cases ht : s.tree? moved <;> simp only [givenUp, ht, h]

/-- Appending gives up nothing: the moved tree is all behind the last sibling, and the node that it
was appended to is still there. -/
theorem balanced_append {s : Session} (hs : s.Distinct) (place : Place) (moved : Text) :
    Balanced s (s.append place moved).2 [] [] := by
  refine balanced_moveTo hs place moved (fun t node ht hnode => ?_) fun _ => rfl
  have hrelease := balanced_release hs moved
  rw [ht] at hrelease
  have hreplace := balanced_replace hrelease.distinct hnode (node.append t)
  refine (hrelease.trans hreplace).strike (node.stock + t.stock) ?_ ?_
  · rw [List.nil_append, ← Tree.stock, Tree.stock_append, Stock.ofLabels_nil, zero_add]
  · simp only [Option.toList_some, Stock.ofTrees_append, Stock.ofTrees_cons, Stock.ofTrees_nil]
    abel

/-- Taking the tree behind a link gives it up, unless it is kept under a name. Then the name may
cost another tree. -/
theorem balanced_take {s : Session} (hs : s.Distinct) (place : Place) (link : Link)
    (kept : Option Text) :
    Balanced s (s.take place link kept).2 [] (s.givenUp (.take place link kept)) := by
  cases hnode : s.node? place with
  | none =>
    simp only [take, givenUp, hnode]
    exact .refl hs
  | some node =>
    simp only [take, givenUp, hnode]
    obtain ⟨whole, -, -, hne⟩ := node?_eq_some_iff.1 hnode
    obtain ⟨aside, hold, hnew⟩ := Tree.exists_stock_redirect hne link
    have hreplace := balanced_replace hs hnode (node.redirect link .absent)
    have hkeep := balanced_keep hreplace.distinct kept (node.follow link)
    refine (hreplace.trans hkeep).strike node.stock ?_ ?_
    · simp only [Stock.ofLabels_append, Stock.ofLabels_nil, zero_add]
      rw [← Tree.stock, ← Tree.stock, hnew, hold, Tree.stock_absent, add_zero]
    · simp only [Stock.ofTrees_append, Stock.ofTrees_cons, Stock.ofTrees_nil]
      abel

/-- Wrapping makes as many nodes as were asked for. With an index that is no slot, the first new
node is given up together with the tree, and no second one is made. -/
theorem balanced_wrap {s : Session} (hs : s.Distinct) (name : Text) (kind : NodeKind)
    (index count : Nat) :
    Balanced s (s.wrap name kind index count).2 (s.made (.wrap name kind index count))
      (s.givenUp (.wrap name kind index count)) := by
  have hrelease := balanced_release hs name
  cases ht : s.tree? name with
  | none =>
    simp only [wrap, made, givenUp, ht]
    exact .refl hs
  | some t =>
    rw [ht] at hrelease
    cases hslot : Slot.ofIndex? index with
    | some slot =>
      simp only [wrap, made, givenUp, ht, hslot]
      have hstore := balanced_store hs name (t.wrapTimes (.fresh kind s.line) slot count)
      rw [ht] at hstore
      refine hstore.strike t.stock ?_ ?_
      · rw [← Tree.stock, Tree.stock_wrapTimes, add_comm]
      · simp
    | none =>
      simp only [wrap, made, givenUp, ht, hslot]
      by_cases hcount : count = 0
      · simp only [hcount, if_true]
        exact .refl hs
      · -- there is no such slot in the new node, and so it is lost together with the tree
        simp only [hcount, if_false]
        refine ⟨hrelease.distinct, ?_⟩
        have := hrelease.stock
        simp only [Option.toList_some, Stock.ofTrees_cons, Stock.ofTrees_nil, Stock.ofLabels_nil,
          Stock.ofLabels_cons, add_zero] at this ⊢
        rw [← add_assoc, this]
        rfl

theorem ask_snd (s : Session) (place : Place) (answer : Tree → Answer) :
    (s.ask place answer).2 = s := by
  rw [ask]
  cases s.node? place <;> rfl

/-- Every step is balanced. Each case is one of the changes above, or a few of them. -/
theorem balanced_step {s : Session} (hs : s.Distinct) (step : Step) :
    Balanced s (s.step step).2 (s.made step) (s.givenUp step) := by
  -- steps that only ask have nothing in the books
  have hask (place : Place) (answer : Tree → Answer) :
      Balanced s (s.ask place answer).2 [] [] := by
    rw [ask_snd]
    exact .refl hs
  cases step with
  | setLine line => exact ⟨hs, rfl⟩
  | scan source => exact ⟨hs, rfl⟩
  | create name kind => exact balanced_store hs name _
  | setPayload place payload => exact balanced_mapLabel hs place fun _ => rfl
  | setType place type => exact balanced_mapLabel hs place fun _ => rfl
  | setChild place index moved kept => exact balanced_setChild hs place index moved kept
  | append place moved => exact balanced_append hs place moved
  | take place link kept => exact balanced_take hs place link kept
  | view place => exact hask place _
  | viewChild place index => exact hask place _
  | viewChildren place => exact hask place _
  | viewSiblings place => exact hask place _
  | viewPlaces place => exact hask place _
  | wrap name kind index count => exact balanced_wrap hs name kind index count
  | extend place kind count =>
    refine balanced_change hs place fun node => ?_
    rw [Tree.stock_append, Tree.stock_chain]
  | outline place step depth capacity =>
    simp only [Session.step]
    cases s.outlined? place <;> exact .refl hs
  | drop name => exact balanced_release hs name

/-! ## Runs -/

/-- Every run is balanced, by induction on the steps. What later steps make and give up is counted
from the session that the earlier ones left. -/
theorem balanced_run {s : Session} (hs : s.Distinct) (steps : List Step) :
    Balanced s (s.run steps).2 (s.madeIn steps) (s.givenUpIn steps) := by
  induction steps generalizing s with
  | nil => exact .refl hs
  | cons first rest ih =>
    have hfirst := balanced_step hs first
    exact hfirst.trans (ih hfirst.distinct)

/-! ## Child slots -/

section ChildSlots

variable {s : Session} {place : Place} {index : Nat} {moved : Text} {whole t : Tree} {label : Label}

theorem node?_release (hwhole : s.tree? place.tree = some whole) (hne : place.tree ≠ moved)
    (hlabel : (whole.subtree place.path).label? = some label) :
    (s.release moved).node? place = some (whole.subtree place.path) := by
  refine node?_eq_some_iff.2 ⟨whole, ?_, rfl, Tree.ne_absent_of_label? hlabel⟩
  rw [tree?_release, if_neg hne, hwhole]

/-- A slot that does not exist costs the tree that was to be moved, and nothing else. The error
carries the index and the line of the node. -/
theorem step_setChild_of_three_le (hwhole : s.tree? place.tree = some whole)
    (ht : s.tree? moved = some t) (hne : place.tree ≠ moved)
    (hlabel : (whole.subtree place.path).label? = some label) (hindex : 3 ≤ index)
    (kept : Option Text) :
    s.step (.setChild place index moved kept) =
      (.error (.childIndexOutOfRange index label.line), s.release moved) := by
  simp only [step, setChild, moveTo_eq ht (node?_release hwhole hne hlabel),
    Tree.setChild_of_three_le hlabel hindex]

/-- A slot that exists is filled, whatever was in it. The answer shows what was there before and the
node as it is now. -/
theorem step_setChild_of_slot (hwhole : s.tree? place.tree = some whole)
    (ht : s.tree? moved = some t) (hne : place.tree ≠ moved)
    (hlabel : (whole.subtree place.path).label? = some label) {slot : Slot}
    (hslot : Slot.ofIndex? index = some slot) (kept : Option Text) :
    s.step (.setChild place index moved kept) =
      (.replaced ((whole.subtree place.path).child slot).view?
          ((whole.subtree place.path).withChild slot t).view?,
        ((s.release moved).replace place ((whole.subtree place.path).withChild slot t)).keep kept
          ((whole.subtree place.path).child slot)) := by
  have hset := Tree.setChild_of_slot (Tree.ne_absent_of_label? hlabel) hslot t
  simp only [step, setChild, moveTo_eq ht (node?_release hwhole hne hlabel), hset]

/-- The names after a move: the tree of the place is changed there, the name of the moved tree is
free, and no other name is affected. -/
theorem tree?_replace_release (hwhole : s.tree? place.tree = some whole)
    (hne : place.tree ≠ moved) (v : Tree) (name : Text) :
    ((s.release moved).replace place v).tree? name =
      if name = place.tree then some (whole.modify (fun _ => v) place.path)
      else if name = moved then none
      else s.tree? name := by
  have hreleased : (s.release moved).tree? place.tree = some whole := by
    rw [tree?_release, if_neg hne, hwhole]
  simp only [replace, hreleased, tree?_store, tree?_release]

end ChildSlots

/-- **No node is lost, and none is there twice.** After any run, the nodes of the session and those of
the trees that were given up are the nodes that were made, by construct and line.

A slot is filled without loss as well: the slot with an index below three gets the tree that is
moved, the tree that was in it is answered with and is kept as it is, and everything else in the
parent's tree and in the session stays. Any other index is an error with this index and the parent's
line, and only the tree that was to be moved is gone. -/
theorem nodes_conserved :
    (∀ steps : List Step,
      (start.run steps).2.stock + .ofTrees (start.givenUpIn steps) =
        .ofLabels (start.madeIn steps)) ∧
    ∀ (s : Session) (place : Place) (index : Nat) (moved : Text) (kept : Option Text)
      (whole t : Tree) (label : Label),
      s.tree? place.tree = some whole → s.tree? moved = some t → place.tree ≠ moved →
      (whole.subtree place.path).label? = some label →
      (3 ≤ index →
        s.step (.setChild place index moved kept) =
          (.error (.childIndexOutOfRange index label.line), s.release moved) ∧
        ∀ name, name ≠ moved → (s.release moved).tree? name = s.tree? name) ∧
      (index < 3 → ∃ slot previous whole' s',
        Slot.ofIndex? index = some slot ∧ (whole.subtree place.path).child slot = previous ∧
        s.step (.setChild place index moved kept) =
          (.replaced previous.view? (whole'.subtree place.path).view?, s') ∧
        (whole.subtree place.path).setChild index t =
          .ok (previous, whole'.subtree place.path) ∧
        Tree.AgreeBut whole whole' (place.path ++ [.child slot]) t ∧
        ∀ name, s'.tree? name =
          if kept = some name ∧ previous ≠ .absent then some previous
          else if name = place.tree then some whole'
          else if name = moved then none
          else s.tree? name) := by
  refine ⟨fun steps => ?_, fun s place index moved kept whole t label hwhole ht hne hlabel => ⟨?_, ?_⟩⟩
  · have hrun := (balanced_run distinct_start steps).stock
    have hstart : start.stock = 0 := rfl
    rwa [hstart, zero_add] at hrun
  · intro hindex
    refine ⟨step_setChild_of_three_le hwhole ht hne hlabel hindex kept, fun name hname => ?_⟩
    rw [tree?_release, if_neg hname]
  · intro hindex
    cases hslot : Slot.ofIndex? index with
    | none => exact absurd (Slot.ofIndex?_eq_none_iff.1 hslot) (by omega)
    | some slot =>
      have hnode := Tree.ne_absent_of_label? hlabel
      have hstep := step_setChild_of_slot hwhole ht hne hlabel hslot kept
      have hchanged := Tree.subtree_modify hnode fun _ =>
        (whole.subtree place.path).withChild slot t
      refine ⟨slot, _, whole.modify (fun _ => (whole.subtree place.path).withChild slot t) place.path,
        ((s.release moved).replace place ((whole.subtree place.path).withChild slot t)).keep kept
          ((whole.subtree place.path).child slot),
        rfl, rfl, ?_, ?_, Tree.agreeBut_redirect hnode (.child slot) t, fun name => ?_⟩
      · rw [hchanged, hstep]
      · rw [hchanged, Tree.setChild_of_slot hnode hslot]
      · rw [tree?_keep, tree?_replace_release hwhole hne]

/-- A parent on line 1 with a child on line 2: there is no fourth slot, and the third one is empty. -/
theorem nodes_conserved_parent_child :
    let s := (start.run [.create ['p'] (.statement .compound), .setLine 2,
      .create ['c'] (.statement .returning)]).2
    s.step (.setChild ⟨['p'], []⟩ 3 ['c'] none) =
      (.error (.childIndexOutOfRange 3 1), s.release ['c']) ∧
    ∃ whole' s', s.step (.setChild ⟨['p'], []⟩ 2 ['c'] none) =
        (.replaced none whole'.view?, s') ∧
      s'.tree? ['p'] = some whole' ∧ s'.tree? ['c'] = none := by
  intro s
  obtain ⟨herror, -⟩ := nodes_conserved.2 s ⟨['p'], []⟩ 3 ['c'] none _ _ _ rfl rfl (by decide) rfl
  obtain ⟨-, hfill⟩ := nodes_conserved.2 s ⟨['p'], []⟩ 2 ['c'] none _ _ _ rfl rfl (by decide) rfl
  obtain ⟨slot, previous, whole', s', hslot, rfl, hstep, -, -, htrees⟩ := hfill (by decide)
  obtain rfl : Slot.third = slot := Option.some.inj hslot
  exact ⟨(herror (by decide)).1, whole', s', hstep, by rw [htrees]; rfl, by rw [htrees]; rfl⟩

end Session

end CMinusFrontEnd
