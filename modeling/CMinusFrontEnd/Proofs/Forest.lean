import CMinusFrontEnd.Proofs.LabelLine
import CMinusFrontEnd.Proofs.OutlineRows
import Mathlib.Data.List.Forall2

/-!
# Outlines and forests

An outline is a list of lines, but its indentation tells which lines are below which. The forest of
a tree is what there is to tell: the lines of its nodes, and below each line the forests of the
child slots one after the other. The main statement is `Tree.held_outline_eq_iff`: two trees have
the same outline if and only if they have the same forest. Instead of the lines one may as well put
what they show (`Label.shown`), and this is less than one could think: which reserved word stands for
an operator is not shown, for one, nor the type of a statement (`Tree.held_outline_reserved_words`).

The way back from an outline to the forest is cut in three. From the text to the indented lines, since
every line ends at its line feed and starts behind its spaces (`Outline.flatMap_text_injective`). From
the indentation to the level, since a step is not zero. And from the lines with their levels to the
forest, since what is below a line ends where the next line is not deeper (`Branch.rows_append_inj`).
-/

namespace CMinusFrontEnd

/-! ## Forests -/

/-- A line, or anything in place of a line, with everything below it. -/
inductive Branch (α : Type) where
  /-- a line, and the branches below it -/
  | node (line : α) (below : List (Branch α))

/-- A view of a tree: a branch for each node of its chain, and below it the branches of its slots, from
the first slot to the last. What is seen of a node is up to the view. -/
def Tree.forestOf {α : Type} (view : Label → α) : Tree → List (Branch α)
  | absent => []
  | node label first second third next =>
    .node (view label) (first.forestOf view ++ second.forestOf view ++ third.forestOf view) ::
      next.forestOf view

/-- The lines of a tree. -/
def Tree.forest (t : Tree) : List (Branch Text) := t.forestOf Label.describe

namespace Branch

variable {α : Type}

/-- The lines of a forest with their levels, from a level on. -/
def rows (level : Nat) : List (Branch α) → List (Nat × α)
  | [] => []
  | node line below :: rest => (level, line) :: (rows (level + 1) below ++ rows level rest)

theorem rows_append (level : Nat) (f g : List (Branch α)) :
    rows level (f ++ g) = rows level f ++ rows level g := by
  induction f with
  | nil => rw [List.nil_append, rows, List.nil_append]
  | cons b f ih =>
    obtain ⟨line, below⟩ := b
    rw [List.cons_append, rows, rows, ih, List.cons_append, List.append_assoc]

/-- Behind the branches below a line comes a line that is not below it. If there are no branches,
this is known from the line behind. -/
theorem lt_succ_of_mem_head? {level : Nat} {f : List (Branch α)} {r : List (Nat × α)}
    (hr : ∀ row ∈ r.head?, row.1 < level) : ∀ row ∈ (rows level f ++ r).head?, row.1 < level + 1 := by
  cases f with
  | nil =>
    intro row hrow
    rw [rows, List.nil_append] at hrow
    exact Nat.lt_succ_of_lt (hr row hrow)
  | cons b f =>
    obtain ⟨line, below⟩ := b
    intro row hrow
    rw [rows, List.cons_append, List.head?_cons, Option.mem_some_iff] at hrow
    rw [← hrow]
    exact Nat.lt_succ_self level

/-- A forest can be cut off in one way only, as long as the line behind it is at a lower level. By
induction on the rows of one of the forests: the branches below the first line are cut off first,
then the siblings. -/
theorem rows_append_inj {level : Nat} {f g : List (Branch α)} {r r' : List (Nat × α)}
    (hr : ∀ row ∈ r.head?, row.1 < level) (hr' : ∀ row ∈ r'.head?, row.1 < level)
    (h : rows level f ++ r = rows level g ++ r') : f = g ∧ r = r' := by
  induction level, f using rows.induct generalizing g r r' with
  | case1 level =>
    rw [rows, List.nil_append] at h
    cases g with
    | nil =>
      rw [rows, List.nil_append] at h
      exact ⟨rfl, h⟩
    | cons b g =>
      -- the first line of `g` would stand behind the first forest
      obtain ⟨line, below⟩ := b
      rw [rows] at h
      exact absurd (hr (level, line) (h ▸ rfl)) (Nat.lt_irrefl level)
  | case2 level line below rest ihbelow ihrest =>
    cases g with
    | nil =>
      rw [rows, rows, List.nil_append] at h
      exact absurd (hr' (level, line) (h ▸ rfl)) (Nat.lt_irrefl level)
    | cons b g =>
      obtain ⟨line', below'⟩ := b
      rw [rows, rows, List.cons_append, List.cons_append, List.append_assoc, List.append_assoc] at h
      obtain ⟨hrow, hlines⟩ := List.cons.inj h
      obtain rfl : line = line' := (Prod.mk.inj hrow).2
      obtain ⟨rfl, hbehind⟩ := ihbelow (lt_succ_of_mem_head? hr) (lt_succ_of_mem_head? hr') hlines
      obtain ⟨rfl, rfl⟩ := ihrest hr hr' hbehind
      exact ⟨rfl, rfl⟩

/-- **Levels are enough.** A forest can be read back from its lines and their levels. -/
theorem rows_injective {level : Nat} {f g : List (Branch α)} (h : rows level f = rows level g) :
    f = g := by
  have hnil : ∀ row ∈ ([] : List (Nat × α)).head?, row.1 < level := by
    intro row hrow
    cases hrow
  refine (rows_append_inj hnil hnil ?_).1
  rw [List.append_nil, List.append_nil, h]

end Branch

namespace Tree

/-- A forest has the nodes of the tree as its rows, with their levels. The slots of a node are one
level below it, whether other slots are empty or not. -/
theorem rows_forestOf {α : Type} (view : Label → α) (level : Nat) (t : Tree) :
    Branch.rows level (t.forestOf view) =
      (t.leveled level).map fun row => (row.1, view row.2) := by
  induction t generalizing level with
  | absent => rw [forestOf, Branch.rows]; rfl
  | node label first second third next ihfirst ihsecond ihthird ihnext =>
    simp only [forestOf, leveled, Branch.rows, Branch.rows_append, ihfirst, ihsecond, ihthird, ihnext,
      List.map_cons, List.map_append]

/-- Two views that tell the same labels apart tell the same trees apart. What is compared is the
view of each node together with its level, and the level does not depend on the view. -/
theorem forestOf_eq_iff {α β : Type} {view : Label → α} {view' : Label → β}
    (h : ∀ l l', view l = view l' ↔ view' l = view' l') (t u : Tree) :
    t.forestOf view = u.forestOf view ↔ t.forestOf view' = u.forestOf view' := by
  -- both sides compare the nodes one by one, and levels are the same in every view
  have key {γ : Type} (seen : Label → γ) : t.forestOf seen = u.forestOf seen ↔
      List.Forall₂ (fun row row' => row.1 = row'.1 ∧ seen row.2 = seen row'.2) (t.leveled 1)
        (u.leveled 1) := by
    constructor
    · intro heq
      have hrows := congrArg (Branch.rows 1) heq
      rw [rows_forestOf, rows_forestOf, ← List.forall₂_eq_eq_eq, List.forall₂_map_left_iff,
        List.forall₂_map_right_iff] at hrows
      exact hrows.imp fun _ _ => Prod.mk.inj
    · intro hrows
      refine Branch.rows_injective (?_ : Branch.rows 1 _ = Branch.rows 1 _)
      rw [rows_forestOf, rows_forestOf, ← List.forall₂_eq_eq_eq, List.forall₂_map_left_iff,
        List.forall₂_map_right_iff]
      exact hrows.imp fun _ _ hrow => Prod.ext hrow.1 hrow.2
  rw [key, key]
  simp only [h]

end Tree

/-! ## Indented lines -/

namespace Outline

/-- Whether a text can be read back as a line: it does not start with a space, and there is no line
feed in it. -/
structure IsLine (t : Text) : Prop where
  /-- it starts with something else than a space -/
  start : ∃ c rest, t = c :: rest ∧ c ≠ ' '
  /-- it is a single line -/
  single : '\n' ∉ t

/-- The spaces in front of a line can be told from the line. -/
theorem replicate_append_inj {m n : Nat} {s t : Text} (hs : IsLine s) (ht : IsLine t)
    (h : List.replicate m ' ' ++ s = List.replicate n ' ' ++ t) : m = n ∧ s = t := by
  obtain ⟨c, s, rfl, hc⟩ := hs.start
  obtain ⟨d, t, rfl, hd⟩ := ht.start
  induction m generalizing n with
  | zero =>
    cases n with
    | zero => exact ⟨rfl, h⟩
    | succ n => exact absurd (List.cons.inj h).1 hc
  | succ m ih =>
    cases n with
    | zero => exact absurd (List.cons.inj h).1.symm hd
    | succ n =>
      obtain ⟨rfl, hst⟩ := ih (List.cons.inj h).2
      exact ⟨rfl, hst⟩

/-- **Lines are enough.** The lines of an outline and their levels can be read back from the text,
since there is one line feed for each line and no line starts with a space. -/
theorem flatMap_indented_injective {step depth : Count} (hstep : step ≠ 0)
    {rows rows' : List (Nat × Text)} (hrows : ∀ row ∈ rows, IsLine row.2)
    (hrows' : ∀ row ∈ rows', IsLine row.2)
    (h : (rows.flatMap fun row => Tree.indented step depth row.1 row.2) =
      rows'.flatMap fun row => Tree.indented step depth row.1 row.2) : rows = rows' := by
  have hpos : 0 < step.toNat := Nat.pos_of_ne_zero fun h => hstep (UInt64.toNat_inj.1 h)
  have hne (row : Nat × Text) (rest : Text) : Tree.indented step depth row.1 row.2 ++ rest ≠ [] := by
    simp [Tree.indented, endLine]
  have hfree {n : Nat} {t : Text} (ht : IsLine t) : '\n' ∉ List.replicate n ' ' ++ t := by
    rw [List.mem_append, not_or]
    refine ⟨?_, ht.single⟩
    intro hmem
    exact absurd (List.eq_of_mem_replicate hmem) (by decide)
  induction rows generalizing rows' with
  | nil =>
    cases rows' with
    | nil => rfl
    | cons row' rows' => exact absurd h.symm (hne row' _)
  | cons row rows ih =>
    cases rows' with
    | nil => exact absurd h (hne row _)
    | cons row' rows' =>
      obtain ⟨hrow, hrows⟩ := List.forall_mem_cons.1 hrows
      obtain ⟨hrow', hrows'⟩ := List.forall_mem_cons.1 hrows'
      simp only [List.flatMap_cons, Tree.indented, endLine, List.append_assoc,
        List.singleton_append] at h
      -- spaces and line together reach to the first line feed
      rw [← List.append_assoc, ← List.append_assoc] at h
      obtain ⟨hline, hrest⟩ := Text.eq_of_append_cons_eq (hfree hrow) (hfree hrow') h
      obtain ⟨hindent, htext⟩ := replicate_append_inj hrow hrow' hline
      have hlevel : row.1 = row'.1 :=
        Nat.eq_of_mul_eq_mul_right hpos (Nat.add_left_cancel hindent)
      rw [ih hrows hrows' hrest, Prod.ext hlevel htext]

end Outline

/-! ## The main statement -/

namespace Tree

/-- Whether every name that a tree shows stays on its line. -/
def NamesOnLine (t : Tree) : Prop := ∀ l ∈ t.labels, ∀ name ∈ l.shown.name?, '\n' ∉ name

instance (t : Tree) : Decidable t.NamesOnLine :=
  inferInstanceAs (Decidable (∀ l ∈ t.labels, ∀ name ∈ l.shown.name?, '\n' ∉ name))

/-- The nodes with their levels are the nodes. -/
theorem map_snd_leveled (level : Nat) (t : Tree) : (t.leveled level).map Prod.snd = t.labels := by
  induction t generalizing level with
  | absent => rfl
  | node label first second third next ihfirst ihsecond ihthird ihnext =>
    simp only [leveled, labels, List.map_cons, List.map_append, ihfirst, ihsecond, ihthird, ihnext]

theorem NamesOnLine.isLine {t : Tree} (h : t.NamesOnLine) (level : Nat) :
    ∀ row ∈ Branch.rows level t.forest, Outline.IsLine row.2 := by
  intro row hrow
  rw [forest, rows_forestOf] at hrow
  obtain ⟨entry, hentry, rfl⟩ := List.mem_map.1 hrow
  have hmem : entry.2 ∈ t.labels := map_snd_leveled level t ▸ List.mem_map_of_mem hentry
  obtain ⟨c, rest, hc, ha⟩ := entry.2.isAlpha_head_describe
  refine ⟨⟨c, rest, hc, ?_⟩, Label.newline_not_mem_describe (h entry.2 hmem)⟩
  rintro rfl
  cases ha

/-- An outline shows the lines of the forest, each one behind as many steps as its level says. -/
theorem text_outline_eq_rows {step depth : Count} {t : Tree}
    (h : (t.outline step depth).fault? = none) :
    (t.outline step depth).text =
      (Branch.rows 1 t.forest).flatMap fun row => indented step depth row.1 row.2 := by
  rw [text_outline h, forest, rows_forestOf, List.flatMap_map]

/-- **Outlines are forests.** If two trees have outlines that end in no fault, and no name that they
show has a line feed, then the outlines are the same exactly if the forests are, provided that a step
is not zero. The forests may be those of the lines or those of what the lines show. So what an outline
leaves out of a tree is which slots are empty, and of the labels whatever `Label.shown` leaves out. -/
theorem held_outline_eq_iff {step depth : Count} {t u : Tree} (hstep : step ≠ 0)
    (ht : t.NamesOnLine) (hu : u.NamesOnLine) (htfault : (t.outline step depth).fault? = none)
    (hufault : (u.outline step depth).fault? = none) :
    ((t.outline step depth).held .unlimited = (u.outline step depth).held .unlimited ↔
      t.forest = u.forest) ∧
    ((t.outline step depth).held .unlimited = (u.outline step depth).held .unlimited ↔
      t.forestOf Label.shown = u.forestOf Label.shown) ∧
    ∀ l l' : Label, l.describe = l'.describe ↔ l.shown = l'.shown := by
  have hforest : (t.outline step depth).held .unlimited = (u.outline step depth).held .unlimited ↔
      t.forest = u.forest := by
    rw [Writing.held_unlimited, Writing.held_unlimited, text_outline_eq_rows htfault,
      text_outline_eq_rows hufault]
    constructor
    · intro h
      have hrows := Outline.flatMap_indented_injective hstep (ht.isLine 1) (hu.isLine 1)
        (Text.bytes_injective h)
      exact Branch.rows_injective hrows
    · intro h
      rw [h]
  refine ⟨hforest, hforest.trans ?_, fun l l' => Label.describe_eq_iff⟩
  exact forestOf_eq_iff (fun l l' => Label.describe_eq_iff) t u

/-- A name that ends in a space, and subtrees in different slots: neither makes a difference that could
be mistaken. What the statement carries, the type of the call and the lines are left out. -/
theorem held_outline_eq_iff_slots :
    (1 : Count) ≠ 0 ∧
    (outline 1 3 (node ⟨.statement .iteration, 1, some (.value 7), .void⟩ absent
      (leaf ⟨.expression .call, 2, some (.name ['f', ' ']), .integer⟩) absent absent)).held .unlimited =
    (outline 1 3 (node ⟨.statement .iteration, 9, none, .void⟩
      (leaf ⟨.expression .call, 8, some (.name ['f', ' ']), .void⟩) absent absent absent)).held
        .unlimited :=
  ⟨by decide, (held_outline_eq_iff (by decide) (by decide) (by decide) (by decide +kernel)
    (by decide +kernel)).1.2 rfl⟩

end Tree

/-! ## What else is left out -/

/-- A label without the line on which the node was made, and if it is that of a statement, without what
the node carries, if that of an expression, without its type. -/
def Label.stripped (l : Label) : Label :=
  match l.kind with
  | .statement _ => { l with line := 0, payload := none }
  | .expression _ => { l with line := 0, type := .void }
  | .declaration _ => { l with line := 0 }

/-- An outline leaves out more of the labels than this: which reserved word stands for an operator, the
type of a statement, and everything about a declaration without a name. -/
theorem Tree.held_outline_reserved_words :
    let operation (word : ReservedWord) : Tree :=
      leaf ⟨.expression .operator, 1, some (.operator (.reserved word)), .void⟩
    let statement (type : ValueType) : Tree := leaf ⟨.statement .returning, 1, none, type⟩
    let nameless (kind : DeclarationKind) : Tree := leaf ⟨.declaration kind, 1, none, .void⟩
    ∀ pair ∈ [(operation .ifWord, operation .whileWord), (statement .void, statement .integer),
        (nameless .ofVariable, nameless .ofFunction)],
      pair.1.NamesOnLine ∧ pair.2.NamesOnLine ∧ (pair.1.outline 2 0).fault? = none ∧
      (pair.2.outline 2 0).fault? = none ∧
      (pair.1.outline 2 0).held .unlimited = (pair.2.outline 2 0).held .unlimited ∧
      pair.1.forestOf Label.stripped ≠ pair.2.forestOf Label.stripped := by
  intro operation statement nameless
  have hne {t u : Tree} (h : (t.leveled 1).map (fun row => (row.1, row.2.stripped)) ≠
      (u.leveled 1).map fun row => (row.1, row.2.stripped)) :
      t.forestOf Label.stripped ≠ u.forestOf Label.stripped := by
    intro heq
    rw [← rows_forestOf, ← rows_forestOf, heq] at h
    exact h rfl
  rw [List.forall_mem_cons, List.forall_mem_cons, List.forall_mem_singleton]
  refine ⟨?operators, ?types, ?nameless⟩ <;>
    exact ⟨by decide, by decide, by decide +kernel, by decide +kernel, by decide +kernel,
      hne (by decide +kernel)⟩

end CMinusFrontEnd
