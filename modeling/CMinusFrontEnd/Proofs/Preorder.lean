import CMinusFrontEnd.Proofs.Forest
import CMinusFrontEnd.Proofs.LineEnds
import CMinusFrontEnd.Proofs.Places
import CMinusFrontEnd.Proofs.Walk

/-!
# Outlines node by node

What an outline is, without a word on how it is printed. Every node has a line, which depends on its
construct, on what it carries and on its type; `Label.HasLine` is the table of these lines. The outline
shows the nodes in the order of their paths, each once, with its line behind as many spaces as belong to
the level of its path.

The main statement, `Tree.prints_places`, says that this is what the program writes, for every tree
with room for its deepest line. The program has a loop over the nodes of a chain, a loop over slots in it,
and it calls itself; the list of nodes is a plain recursion.
-/

namespace CMinusFrontEnd

/-! ## The lines of nodes -/

/-- Whether an expression calls for what a node carries. -/
def ExpressionKind.takes : ExpressionKind → Payload → Bool
  | .operator, .operator _ => true
  | .constant, .value _ => true
  | .identifier, .name _ => true
  | .call, .name _ => true
  | _, _ => false

namespace Label

/-- The table of lines. A node of an expression or a declaration that does not carry what its construct
calls for has one of two fixed lines. -/
inductive HasLine (l : Label) : Text → Prop where
  | compound (kind : l.kind = .statement .compound) : HasLine l "Compound".toList
  | selection (kind : l.kind = .statement .selection) : HasLine l "Subsequence".toList
  | iteration (kind : l.kind = .statement .iteration) : HasLine l "While".toList
  | returning (kind : l.kind = .statement .returning) : HasLine l "Return".toList
  /-- an operator is shown like a token without a lexeme -/
  | operator {operator : Kind} (kind : l.kind = .expression .operator)
      (payload : l.payload = some (.operator operator)) :
      HasLine l ("Operator: ".toList ++ operator.describe [])
  | constant {number : Int64} (kind : l.kind = .expression .constant)
      (payload : l.payload = some (.value number)) :
      HasLine l ("NUM: ".toList ++ Text.ofInt number.toInt)
  | identifier {name : Text} (kind : l.kind = .expression .identifier)
      (payload : l.payload = some (.name name)) : HasLine l ("ID: ".toList ++ name)
  | call {name : Text} (kind : l.kind = .expression .call)
      (payload : l.payload = some (.name name)) : HasLine l ("Call: ".toList ++ name)
  | ofVariable {name : Text} (kind : l.kind = .declaration .ofVariable)
      (payload : l.payload = some (.name name)) :
      HasLine l ("Variable Decl: ".toList ++ name ++ " (".toList ++ l.type.text ++ [')'])
  | ofFunction {name : Text} (kind : l.kind = .declaration .ofFunction)
      (payload : l.payload = some (.name name)) :
      HasLine l ("Function Decl: ".toList ++ name ++ " (".toList ++ l.type.text ++ [')'])
  | ofParameter {name : Text} (kind : l.kind = .declaration .ofParameter)
      (payload : l.payload = some (.name name)) :
      HasLine l ("Param: ".toList ++ name ++ " (".toList ++ l.type.text ++ [')'])
  | malformedExpression {expression : ExpressionKind} (kind : l.kind = .expression expression)
      (payload : ∀ p ∈ l.payload, expression.takes p = false) :
      HasLine l "Unknown ExpNode kind".toList
  | malformedDeclaration {declaration : DeclarationKind} (kind : l.kind = .declaration declaration)
      (payload : ∀ name, l.payload ≠ some (.name name)) : HasLine l "Unknown DeclNode kind".toList

/-- An expression that carries what its kind does not go with has a line that says nothing about
either. -/
theorem describeExpression_of_takes_eq_false {kind : ExpressionKind} {p : Payload}
    (h : kind.takes p = false) :
    describeExpression kind (some p) = "Unknown ExpNode kind".toList := by
  cases kind <;> cases p <;> first | rfl | cases h

/-- Every label has the line that is printed for it: one case for each entry of the table. -/
theorem hasLine_describe (l : Label) : l.HasLine l.describe := by
  obtain ⟨kind, line, payload, type⟩ := l
  cases kind with
  | statement kind =>
    cases kind with
    | compound => exact .compound rfl
    | selection => exact .selection rfl
    | iteration => exact .iteration rfl
    | returning => exact .returning rfl
  | expression kind =>
    have hother {p : Payload} (h : kind.takes p = false) :
        HasLine ⟨.expression kind, line, some p, type⟩ "Unknown ExpNode kind".toList := by
      refine .malformedExpression rfl fun p' hp' => ?_
      cases hp'
      exact h
    rcases payload with _ | ⟨operator | number | name⟩
    · cases kind <;> exact .malformedExpression rfl fun p hp => nomatch hp
    · cases kind with
      | operator => exact .operator rfl rfl
      | _ => exact hother rfl
    · cases kind with
      | constant => exact .constant rfl rfl
      | _ => exact hother rfl
    · cases kind with
      | identifier => exact .identifier rfl rfl
      | call => exact .call rfl rfl
      | _ => exact hother rfl
  | declaration kind =>
    rcases payload with _ | ⟨operator | number | name⟩
    · cases kind <;> exact .malformedDeclaration rfl fun name h => nomatch h
    · cases kind <;> exact .malformedDeclaration rfl fun name h => nomatch h
    · cases kind <;> exact .malformedDeclaration rfl fun name h => nomatch h
    · cases kind with
      | ofVariable => exact .ofVariable rfl rfl
      | ofFunction => exact .ofFunction rfl rfl
      | ofParameter => exact .ofParameter rfl rfl

/-- No other line is in the table for it. -/
theorem HasLine.eq_describe {l : Label} {line : Text} (h : l.HasLine line) : line = l.describe := by
  obtain ⟨kind, number, payload, type⟩ := l
  cases h with
  | compound hkind | selection hkind | iteration hkind | returning hkind =>
    cases hkind
    rfl
  | operator hkind hpayload | constant hkind hpayload | identifier hkind hpayload
  | call hkind hpayload | ofVariable hkind hpayload | ofFunction hkind hpayload
  | ofParameter hkind hpayload =>
    cases hkind
    cases hpayload
    rfl
  | @malformedExpression expression hkind hpayload =>
    cases hkind
    cases payload with
    | none => cases expression <;> rfl
    | some p => exact (describeExpression_of_takes_eq_false (hpayload p rfl)).symm
  | @malformedDeclaration declaration hkind hpayload =>
    cases hkind
    rcases payload with _ | ⟨operator | number | name⟩
    · cases declaration <;> rfl
    · cases declaration <;> rfl
    · cases declaration <;> rfl
    · exact absurd rfl (hpayload name)

/-- **The table is complete**, and it has one line for each label. So the table may be read instead
of the code of the printer. -/
theorem describe_eq_iff_hasLine {l : Label} {line : Text} : l.describe = line ↔ l.HasLine line := by
  constructor
  · rintro rfl
    exact l.hasLine_describe
  · intro h
    exact h.eq_describe.symm

end Label

/-! ## The lines of an outline -/

namespace Tree

/-- The lines of an outline, one for each node, indented for the level of its path. -/
def lines (step depth : Count) (t : Tree) : List Text :=
  t.places.map fun (path, label) => indented step depth (Path.levelFrom 1 path) label.describe

theorem rowsText_leveled_one (step depth : Count) (t : Tree) :
    rowsText step depth (t.leveled 1) = (t.lines step depth).flatten := by
  rw [rowsText, leveled_eq_map_places, List.flatMap_map, List.flatMap_def]
  rfl

/-- The places go through the nodes in the order of the outline. -/
theorem map_snd_places (t : Tree) : t.places.map Prod.snd = t.labels := by
  rw [← map_snd_leveled 1, leveled_eq_map_places, List.map_map]
  rfl

/-- There are as many lines as nodes. -/
theorem length_lines (step depth : Count) (t : Tree) :
    (t.lines step depth).length = t.labels.length := by
  rw [lines, List.length_map, ← map_snd_places, List.length_map]

/-- If names stay on their lines, an outline has the lines of its nodes and no others. Otherwise a
line feed in a name would be taken for the end of a line. -/
theorem cutBehind_flatten_lines {t : Tree} (ht : t.NamesOnLine) (step depth : Count) :
    cutBehind '\n' (t.lines step depth).flatten = t.lines step depth := by
  have hlines : t.lines step depth = t.places.map fun place =>
      List.replicate (depth.toNat + Path.levelFrom 1 place.1 * step.toNat) ' ' ++
        place.2.describe ++ ['\n'] := by
    simp only [lines, indented, endLine, List.append_assoc]
  rw [hlines, ← List.flatMap_def]
  refine cutBehind_flatMap fun place hplace => ?_
  have hlabel : place.2 ∈ t.labels := t.map_snd_places ▸ List.mem_map_of_mem hplace
  rw [List.mem_append, not_or]
  refine ⟨fun h => ?_, Label.newline_not_mem_describe (ht place.2 hlabel)⟩
  exact absurd (List.eq_of_mem_replicate h) (by decide)

/-- Room for the deepest line is room for every line, and the first sum is a count then as well,
unless the tree is absent and has no line at all. -/
theorem sum_lt_and_fitsFrom_of_room {step depth : Count} {t : Tree}
    (hroom : depth.toNat + t.height * step.toNat ≤ Writing.maxSpaces)
    (habsent : t = absent → depth.toNat + step.toNat < UInt64.size) :
    depth.toNat + step.toNat < UInt64.size ∧ FitsFrom step depth 1 t := by
  by_cases ht : t = absent
  · exact ⟨habsent ht, ht ▸ fitsFrom_absent⟩
  · obtain ⟨⟨place, -, hplace⟩, -⟩ := height_isGreatest ht
    have hlevel : 1 ≤ t.height := hplace ▸ Path.le_levelFrom 1 place.1
    have hfirst := Nat.mul_le_mul_right step.toNat hlevel
    have hmax : Writing.maxSpaces < UInt64.size := by decide
    exact ⟨by omega, (fitsFrom_one_iff ht).2 hroom⟩

/-- **Node by node.** If a tree has room for its deepest line, its outline is printed without a failure,
and what is printed are the lines of its nodes, one behind the other. Every node has exactly one line.
The lines stand in the order of the paths, and what a line says of the node is what the table says. As
long as names stay on their lines there are no other lines, and so there are as many as there are nodes.
An absent tree has no line; all there is to ask of it is that the first sum is a count.

The program that prints this calls itself in a loop over the slots of a node, which is in a loop over the
nodes of a chain. -/
theorem prints_places {step depth : Count} {t : Tree}
    (hroom : depth.toNat + t.height * step.toNat ≤ Writing.maxSpaces)
    (habsent : t = absent → depth.toNat + step.toNat < UInt64.size) :
    Prints step depth t (Text.bytes (t.lines step depth).flatten) ∧
    (Operation.outline step depth t).outcome .unlimited =
      ⟨Text.bytes (t.lines step depth).flatten, none⟩ ∧
    (∀ (depth' : Count) (t' : Tree), Printer.outline step depth' t' = (do
      let indent ← Printer.deeper depth' step
      forM t'.siblings fun node => (do
        Printer.spaces indent
        forM node.label? Printer.label
        forM node.children (Printer.outline step indent)))) ∧
    (∀ path label, (path, label) ∈ t.places ↔ (t.subtree path).label? = some label) ∧
    (t.places.Pairwise fun x y => Path.Precedes x.1 y.1) ∧
    (t.places.map Prod.fst).Nodup ∧
    (∀ (label : Label) (line : Text), label.describe = line ↔ label.HasLine line) ∧
    (t.NamesOnLine → cutBehind '\n' (t.lines step depth).flatten = t.lines step depth) ∧
    (t.lines step depth).length = t.labels.length := by
  obtain ⟨hsum, hfits⟩ := sum_lt_and_fitsFrom_of_room hroom habsent
  have hprints : Prints step depth t (Text.bytes (t.lines step depth).flatten) :=
    prints_iff.2 ⟨hsum, hfits, by rw [rowsText_leveled_one]⟩
  refine ⟨hprints, ?_, Printer.outline_eq_forM step, fun path label => mem_places_iff,
    t.pairwise_places, t.nodup_paths, fun label line => Label.describe_eq_iff_hasLine,
    fun hnames => cutBehind_flatten_lines hnames step depth, t.length_lines step depth⟩
  rw [Operation.outcome_eq]
  exact congrArg₂ Operation.Outcome.mk hprints.2 hprints.1

/-- A call that carries a number, with two nodes below it and a sibling. -/
theorem prints_places_malformed :
    let t : Tree := node ⟨.expression .call, 1, some (.value 7), .void⟩
      (leaf ⟨.expression .constant, 1, some (.value (-7)), .void⟩) absent
      (leaf ⟨.expression .operator, 2, some (.operator (.reserved .ifWord)), .void⟩)
      (leaf ⟨.declaration .ofParameter, 3, some (.name ['x']), .integerArray⟩)
    (1 : Count).toNat + t.height * (3 : Count).toNat ≤ Writing.maxSpaces ∧ t ≠ absent ∧
    t.NamesOnLine ∧
    Prints 3 1 t (Text.bytes ("    Unknown ExpNode kind\n       NUM: -7\n".toList ++
      "       Operator: reserved word: \n    Param: x (int[])\n".toList)) ∧
    (cutBehind '\n' (t.lines 3 1).flatten).length = 4 := by
  intro t
  have ht : t ≠ absent := by decide
  have hroom : (1 : Count).toNat + t.height * (3 : Count).toNat ≤ Writing.maxSpaces := by decide
  have hnames : t.NamesOnLine := by decide
  have hlines : (t.lines 3 1).flatten = "    Unknown ExpNode kind\n       NUM: -7\n".toList ++
      "       Operator: reserved word: \n    Param: x (int[])\n".toList := by decide
  obtain ⟨hprints, -, -, -, -, -, -, hcut, hcount⟩ := prints_places hroom fun h => absurd h ht
  refine ⟨hroom, ht, hnames, hlines ▸ hprints, ?_⟩
  rw [hcut hnames, hcount]
  rfl

end Tree

end CMinusFrontEnd
