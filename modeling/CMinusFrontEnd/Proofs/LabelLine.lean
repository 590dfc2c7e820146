import CMinusFrontEnd.Tree.Label
import Mathlib.Data.List.Basic

/-!
# What the line of a node tells

The line that is shown for a node tells some things about its label and leaves out others.
`Label.shown` is what it tells, and `Label.describe_eq_iff` says that it tells exactly this: two
labels have the same line if and only if the same is shown of them. The line a node was made on is
never told, the type only of a declaration, and what a node carries only if its construct calls for
it. Of an operator that is a reserved word it is not told which word it is.

A line begins with a heading, which no other heading can be mistaken for, so heading and content can
be told apart. It is never empty, it starts with a letter, and a line feed can stand only in a name.
-/

namespace CMinusFrontEnd

namespace Text

/-! ## Cutting at a character -/

/-- A text can be cut at the first place where a character stands in one way only. In front of this
place the character must not occur. -/
theorem eq_of_append_cons_eq {c : Char} {s t s' t' : Text} (hs : c ∉ s) (ht : c ∉ t)
    (h : s ++ c :: s' = t ++ c :: t') : s = t ∧ s' = t' := by
  induction s generalizing t with
  | nil =>
    cases t with
    | nil => exact ⟨rfl, (List.cons.inj h).2⟩
    | cons d t => exact absurd ((List.cons.inj h).1 ▸ List.mem_cons_self) ht
  | cons d s ih =>
    cases t with
    | nil => exact absurd ((List.cons.inj h).1 ▸ List.mem_cons_self) hs
    | cons e t =>
      obtain ⟨rfl, hrest⟩ := List.cons.inj h
      obtain ⟨rfl, rfl⟩ :=
        ih (List.not_mem_of_not_mem_cons hs) (List.not_mem_of_not_mem_cons ht) hrest
      exact ⟨rfl, rfl⟩

/-! ## Numerals -/

theorem isDigit_of_mem_ofNat {n : Nat} {c : Char} (h : c ∈ ofNat n) : c.isDigit = true :=
  Nat.isDigit_of_mem_toDigits (by decide) (by decide) h

theorem ofNat_injective {m n : Nat} (h : ofNat m = ofNat n) : m = n := by
  have hread := congrArg (fun t => Nat.ofDigitChars 10 t 0) h
  simpa only [ofNat, Nat.ofDigitChars_ten_toDigits] using hread

/-- A numeral without a sign starts with no sign. -/
theorem ofNat_ne_minus {n : Nat} {t : Text} : ofNat n ≠ '-' :: t := by
  intro h
  have hminus : ('-').isDigit = true := isDigit_of_mem_ofNat (h ▸ List.mem_cons_self)
  cases hminus

/-- The minus sign tells negative numbers from the others. -/
theorem ofInt_injective {i j : Int} (h : ofInt i = ofInt j) : i = j := by
  cases i with
  | ofNat m =>
    cases j with
    | ofNat n => exact congrArg Int.ofNat (ofNat_injective h)
    | negSucc n => exact absurd h ofNat_ne_minus
  | negSucc m =>
    cases j with
    | ofNat n => exact absurd h.symm ofNat_ne_minus
    | negSucc n => exact congrArg Int.negSucc (Nat.succ.inj (ofNat_injective (List.cons.inj h).2))

theorem newline_not_mem_ofNat (n : Nat) : '\n' ∉ ofNat n := by
  intro h
  cases isDigit_of_mem_ofNat h

theorem newline_not_mem_ofInt (i : Int) : '\n' ∉ ofInt i := by
  cases i with
  | ofNat n => exact newline_not_mem_ofNat n
  | negSucc n =>
    intro h
    rcases List.mem_cons.1 h with h | h
    · exact absurd h (by decide)
    · exact newline_not_mem_ofNat _ h

end Text

/-! ## What is shown -/

/-- The kind of an operator whose line tells which one it is. -/
abbrev NamedOperator := { kind : Kind // kind.isReserved = false }

/-- What the line of a node tells. -/
inductive Shown where
  /-- a statement -/
  | statement (kind : StatementKind)
  /-- an operation and its operator, unless this is a reserved word -/
  | operation (operator : Option NamedOperator)
  /-- a constant -/
  | constant (number : Int64)
  /-- a name that is used -/
  | identifier (name : Text)
  /-- a name that is called -/
  | call (name : Text)
  /-- a name that is declared, and its type -/
  | declaration (kind : DeclarationKind) (name : Text) (type : ValueType)
  /-- an expression that does not carry what it should -/
  | unknownExpression
  /-- a declaration without a name -/
  | unknownDeclaration
deriving DecidableEq

/-- The name that is shown, if one is. -/
def Shown.name? : Shown → Option Text
  | identifier name => some name
  | call name => some name
  | declaration _ name _ => some name
  | _ => none

/-- The operator that is told. -/
def Kind.named? (kind : Kind) : Option NamedOperator :=
  if h : kind.isReserved = false then some ⟨kind, h⟩ else none

/-- What is shown of a label. -/
def Label.shown (l : Label) : Shown :=
  match l.kind, l.payload with
  | .statement kind, _ => .statement kind
  | .expression .operator, some (.operator kind) => .operation kind.named?
  | .expression .constant, some (.value number) => .constant number
  | .expression .identifier, some (.name text) => .identifier text
  | .expression .call, some (.name text) => .call text
  | .expression _, _ => .unknownExpression
  | .declaration kind, some (.name text) => .declaration kind text l.type
  | .declaration _, _ => .unknownDeclaration

/-! ## Headings -/

/-- What a line begins with. -/
inductive Heading where
  | statement (kind : StatementKind)
  | operation
  | constant
  | identifier
  | call
  | declaration (kind : DeclarationKind)
  | unknownExpression
  | unknownDeclaration
deriving DecidableEq

namespace Heading

/-- Every heading. -/
def all : List Heading :=
  [ statement .compound, statement .selection, statement .iteration, statement .returning,
    operation, constant, identifier, call, declaration .ofVariable, declaration .ofFunction,
    declaration .ofParameter, unknownExpression, unknownDeclaration ]

/-- The text of a heading. -/
def text : Heading → Text
  | statement kind => Label.describeStatement kind
  | operation => "Operator: ".toList
  | constant => "NUM: ".toList
  | identifier => "ID: ".toList
  | call => "Call: ".toList
  | declaration .ofVariable => "Variable Decl: ".toList
  | declaration .ofFunction => "Function Decl: ".toList
  | declaration .ofParameter => "Param: ".toList
  | unknownExpression => "Unknown ExpNode kind".toList
  | unknownDeclaration => "Unknown DeclNode kind".toList

theorem mem_all (x : Heading) : x ∈ all := by
  cases x with
  | statement kind => cases kind <;> decide
  | declaration kind => cases kind <;> decide
  | _ => decide

/-- No heading starts with another one. -/
theorem eq_of_isPrefix {x y : Heading} (h : x.text <+: y.text) : x = y := by
  have key : ∀ x ∈ all, ∀ y ∈ all, x.text <+: y.text → x = y := by decide
  exact key x x.mem_all y y.mem_all h

/-- A heading can be cut off in one way only: none of the headings is the beginning of another. -/
theorem append_inj {x y : Heading} {s t : Text} (h : x.text ++ s = y.text ++ t) :
    x = y ∧ s = t := by
  have hx : x.text <+: y.text ++ t := h ▸ List.prefix_append _ _
  obtain rfl : x = y := by
    rcases List.prefix_or_prefix_of_prefix hx (List.prefix_append _ _) with hp | hp
    · exact eq_of_isPrefix hp
    · exact (eq_of_isPrefix hp).symm
  exact ⟨rfl, List.append_cancel_left h⟩

/-- All headings start with a letter, so a line never starts with a space. -/
theorem isAlpha_head (x : Heading) : ∃ c rest, x.text = c :: rest ∧ c.isAlpha = true := by
  have key : ∀ x ∈ all, x.text.head?.any Char.isAlpha = true := by decide
  obtain ⟨c, hc, ha⟩ := (Option.any_eq_true _ _).1 (key x x.mem_all)
  obtain ⟨rest, hrest⟩ := List.head?_eq_some_iff.1 hc
  exact ⟨c, rest, hrest, ha⟩

theorem newline_not_mem_text (x : Heading) : '\n' ∉ x.text := by
  have key : ∀ x ∈ all, '\n' ∉ x.text := by decide
  exact key x x.mem_all

end Heading

/-! ## Heading and content -/

namespace Shown

/-- What the line begins with. -/
def heading : Shown → Heading
  | statement kind => .statement kind
  | operation _ => .operation
  | constant _ => .constant
  | identifier _ => .identifier
  | call _ => .call
  | declaration kind _ _ => .declaration kind
  | unknownExpression => .unknownExpression
  | unknownDeclaration => .unknownDeclaration

/-- What follows the heading. -/
def content : Shown → Text
  | operation none => "reserved word: ".toList
  | operation (some operator) => operator.val.describe []
  | constant number => Text.ofInt number.toInt
  | identifier name => name
  | call name => name
  | declaration _ name type => name ++ (" (".toList ++ (type.text ++ [')']))
  | _ => []

theorem content_declaration (kind : DeclarationKind) (name : Text) (type : ValueType) :
    (declaration kind name type).content = name ++ (" (".toList ++ (type.text ++ [')'])) := rfl

/-- The line that tells this. -/
def text (x : Shown) : Text := x.heading.text ++ x.content

end Shown

/-- An operator is shown by the line of its kind with no lexeme, and this is where the reserved
words become equal. -/
theorem Kind.describe_nil (kind : Kind) :
    kind.describe [] = (Shown.operation kind.named?).content := by
  rw [named?]
  split
  · rfl
  next h =>
    cases kind with
    | reserved word => rfl
    | _ => exact absurd rfl h

theorem Label.describeDeclaration_name (type : ValueType) (kind : DeclarationKind) (name : Text) :
    describeDeclaration type kind (some (.name name)) =
      (Heading.declaration kind).text ++ (Shown.declaration kind name type).content := by
  have key : describeDeclaration type kind (some (.name name)) =
      (Heading.declaration kind).text ++ name ++ " (".toList ++ type.text ++ [')'] := by
    cases kind <;> rfl
  rw [key, Shown.content_declaration]
  simp only [List.append_assoc]

/-- The line of a node tells what is shown of it, and nothing else. All that the printer looks at in
a label is in `Label.shown`. -/
theorem Label.describe_eq (l : Label) : l.describe = l.shown.text := by
  obtain ⟨kind, line, payload, type⟩ := l
  cases kind with
  | statement kind => exact (List.append_nil _).symm
  | expression kind =>
    cases kind with
    | operator =>
      rcases payload with _ | ⟨kind | _ | _⟩
      · rfl
      · exact congrArg ("Operator: ".toList ++ ·) kind.describe_nil
      · rfl
      · rfl
    | _ => rcases payload with _ | ⟨_ | _ | _⟩ <;> rfl
  | declaration kind =>
    rcases payload with _ | ⟨_ | _ | name⟩
    · cases kind <;> rfl
    · cases kind <;> rfl
    · cases kind <;> rfl
    · exact describeDeclaration_name type kind name

/-- Operators other than reserved words are told apart by their lines. -/
theorem NamedOperator.describe_injective {x y : NamedOperator}
    (h : x.val.describe [] = y.val.describe []) : x = y := by
  have key : ∀ k ∈ Kind.all, ∀ k' ∈ Kind.all, k.isReserved = false → k'.isReserved = false →
      k.describe [] = k'.describe [] → k = k' := by decide
  have hmem (k : Kind) : k ∈ Kind.all := List.mem_of_getElem? k.ofTag?_tag
  exact Subtype.ext (key x.val (hmem _) y.val (hmem _) x.property y.property h)

/-- No operator has the line that all reserved words have in common. What is shown of a reserved
word is that it is one. -/
theorem NamedOperator.describe_ne_reserved (x : NamedOperator) :
    x.val.describe [] ≠ "reserved word: ".toList := by
  have key : ∀ k ∈ Kind.all, k.isReserved = false → k.describe [] ≠ "reserved word: ".toList := by
    decide
  exact key x.val (List.mem_of_getElem? x.val.ofTag?_tag) x.property

theorem ValueType.text_injective {x y : ValueType} (h : x.text = y.text) : x = y := by
  cases x <;> cases y <;> first | rfl | exact absurd h (by decide)

/-- A name and the type in parentheses behind it can be told apart, even if the name itself looks
like that: the types are compared from the end. -/
theorem ValueType.append_inj {s t : Text} {x y : ValueType}
    (h : s ++ (" (".toList ++ (x.text ++ [')'])) = t ++ (" (".toList ++ (y.text ++ [')']))) :
    s = t ∧ x = y := by
  have hfree (z : ValueType) : '(' ∉ ')' :: z.text.reverse := by cases z <;> decide
  have hback (w : Text) (z : ValueType) :
      (w ++ (" (".toList ++ (z.text ++ [')']))).reverse =
        (')' :: z.text.reverse) ++ '(' :: (' ' :: w.reverse) := by
    simp
  have hreverse := congrArg List.reverse h
  rw [hback, hback] at hreverse
  obtain ⟨htype, hname⟩ := Text.eq_of_append_cons_eq (hfree x) (hfree y) hreverse
  exact ⟨List.reverse_injective (List.cons.inj hname).2,
    text_injective (List.reverse_injective (List.cons.inj htype).2)⟩

/-- **Lines can be read back.** The heading of a line is known from its start, and what is behind
the heading is known from the rest. -/
theorem Shown.text_injective {x y : Shown} (h : x.text = y.text) : x = y := by
  obtain ⟨hheading, hcontent⟩ := Heading.append_inj h
  -- the headings tell the constructors apart, and the contents what is in them
  cases x with
  | statement kind => cases y <;> cases hheading; rfl
  | operation operator =>
    cases y <;> cases hheading
    next operator' =>
      cases operator <;> cases operator'
      · rfl
      · exact absurd hcontent.symm (NamedOperator.describe_ne_reserved _)
      · exact absurd hcontent (NamedOperator.describe_ne_reserved _)
      · exact congrArg (fun o => operation (some o)) (NamedOperator.describe_injective hcontent)
  | constant number =>
    cases y <;> cases hheading
    exact congrArg constant (Int64.toInt_inj.1 (Text.ofInt_injective hcontent))
  | identifier name =>
    cases y <;> cases hheading
    exact congrArg identifier hcontent
  | call name =>
    cases y <;> cases hheading
    exact congrArg call hcontent
  | declaration kind name type =>
    cases y <;> cases hheading
    obtain ⟨rfl, rfl⟩ := ValueType.append_inj hcontent
    rfl
  | unknownExpression => cases y <;> cases hheading; rfl
  | unknownDeclaration => cases y <;> cases hheading; rfl

/-- **What a line tells.** Two labels have the same line exactly if the same is shown of them, down
to names with spaces and numbers with signs. -/
theorem Label.describe_eq_iff {l l' : Label} : l.describe = l'.describe ↔ l.shown = l'.shown := by
  rw [describe_eq, describe_eq]
  exact ⟨Shown.text_injective, fun h => congrArg Shown.text h⟩

/-! ## The characters of a line -/

theorem Kind.newline_not_mem_describe {lexeme : Text} (h : '\n' ∉ lexeme) (kind : Kind) :
    '\n' ∉ kind.describe lexeme := by
  have hheading (heading : Text) (hh : '\n' ∉ heading) : '\n' ∉ heading ++ lexeme := by
    rw [List.mem_append, not_or]
    exact ⟨hh, h⟩
  cases kind with
  | reserved word => exact hheading _ (by decide)
  | number => exact hheading _ (by decide)
  | identifier => exact hheading _ (by decide)
  | error => exact hheading _ (by decide)
  | endFile =>
    have hend : '\n' ∉ "EOF".toList := by decide
    exact hend
  | symbol s =>
    have hsymbol (s : Symbol) : '\n' ∉ s.text := by cases s <;> decide
    exact hsymbol s

/-- Every line of a node starts with a letter. -/
theorem Label.isAlpha_head_describe (l : Label) :
    ∃ c rest, l.describe = c :: rest ∧ c.isAlpha = true := by
  obtain ⟨c, rest, hc, ha⟩ := l.shown.heading.isAlpha_head
  exact ⟨c, rest ++ l.shown.content, by rw [describe_eq, Shown.text, hc, List.cons_append], ha⟩

/-- A line feed in the line of a node stands in the name that is shown. Nothing else that is printed
can bring one in. -/
theorem Label.newline_not_mem_describe {l : Label} (h : ∀ name ∈ l.shown.name?, '\n' ∉ name) :
    '\n' ∉ l.describe := by
  rw [describe_eq, Shown.text, List.mem_append, not_or]
  refine ⟨l.shown.heading.newline_not_mem_text, ?_⟩
  cases hshown : l.shown with
  | operation operator =>
    cases operator with
    | none => decide
    | some operator => exact operator.val.newline_not_mem_describe List.not_mem_nil
  | constant number => exact Text.newline_not_mem_ofInt _
  | identifier name => exact h name (hshown ▸ rfl)
  | call name => exact h name (hshown ▸ rfl)
  | declaration kind name type =>
    have htype : '\n' ∉ " (".toList ++ (type.text ++ [')']) := by
      cases type <;> decide
    rw [Shown.content_declaration, List.mem_append, not_or]
    exact ⟨h name (hshown ▸ rfl), htype⟩
  | _ => exact List.not_mem_nil

end CMinusFrontEnd
