import CMinusFrontEnd.Listing

/-!
# Labels of syntax tree nodes

A node of a syntax tree says what construct it stands for, on which line it was made, what it
carries and which type it has. `Label.describe` is the line that is shown for it. A node of
an expression or a declaration can be shown only if it carries what its construct calls for; for
any other there is one fixed text, and the node is shown all the same.
-/

namespace CMinusFrontEnd

/-! ## Constructs -/

/-- A statement. -/
inductive StatementKind where
  | compound
  | selection
  | iteration
  | returning
deriving DecidableEq

/-- An expression. -/
inductive ExpressionKind where
  | operator
  | constant
  | identifier
  | call
deriving DecidableEq

/-- A declaration. -/
inductive DeclarationKind where
  | ofVariable
  | ofFunction
  | ofParameter
deriving DecidableEq

/-- The construct that a node stands for. -/
inductive NodeKind where
  | statement (kind : StatementKind)
  | expression (kind : ExpressionKind)
  | declaration (kind : DeclarationKind)
deriving DecidableEq

/-- The type of an expression or of what is declared. No value has the type `void`, so it also
stands for a type that is not known yet. -/
inductive ValueType where
  | void
  | integer
  | integerArray
deriving DecidableEq

/-- How a type is written. -/
def ValueType.text : ValueType → Text
  | void => "void".toList
  | integer => "int".toList
  | integerArray => "int[]".toList

/-- What a node carries. -/
inductive Payload where
  /-- the operator of an operation -/
  | operator (kind : Kind)
  /-- the value of a constant -/
  | value (number : Int64)
  /-- the name that is used or declared -/
  | name (text : Text)
deriving DecidableEq

/-! ## Labels -/

/-- All that a node says for itself, apart from its subtrees. -/
structure Label where
  /-- the construct -/
  kind : NodeKind
  /-- the line on which the node was made -/
  line : Count
  /-- what the node carries, if anything -/
  payload : Option Payload
  /-- the type -/
  type : ValueType
deriving DecidableEq

namespace Label

/-- The label of a new node: it carries nothing, and its type is not known yet. -/
def fresh (kind : NodeKind) (line : Count) : Label := ⟨kind, line, none, .void⟩

/-- The text shown for a statement. -/
def describeStatement : StatementKind → Text
  | .compound => "Compound".toList
  | .selection => "Subsequence".toList
  | .iteration => "While".toList
  | .returning => "Return".toList

/-- The text shown for an expression. An operator is shown like a token without a lexeme. -/
def describeExpression : ExpressionKind → Option Payload → Text
  | .operator, some (.operator kind) => "Operator: ".toList ++ kind.describe []
  | .constant, some (.value number) => "NUM: ".toList ++ Text.ofInt number.toInt
  | .identifier, some (.name text) => "ID: ".toList ++ text
  | .call, some (.name text) => "Call: ".toList ++ text
  | _, _ => "Unknown ExpNode kind".toList

/-- The text shown for a declaration. -/
def describeDeclaration (type : ValueType) : DeclarationKind → Option Payload → Text
  | kind, some (.name text) =>
    let title := match kind with
      | .ofVariable => "Variable Decl: ".toList
      | .ofFunction => "Function Decl: ".toList
      | .ofParameter => "Param: ".toList
    title ++ text ++ " (".toList ++ type.text ++ [')']
  | _, _ => "Unknown DeclNode kind".toList

/-- The text shown for a node. -/
def describe (l : Label) : Text :=
  match l.kind with
  | .statement kind => describeStatement kind
  | .expression kind => describeExpression kind l.payload
  | .declaration kind => describeDeclaration l.type kind l.payload

end Label

end CMinusFrontEnd
