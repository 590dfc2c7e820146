import CMinusFrontEnd.Count
import CMinusFrontEnd.Text.Basic

/-!
# Tokens

A `Token` is a lexeme of the source together with its kind and the line it stands on. The kinds
fall into four groups: the end of the source, lexemes that belong to no kind, words and numbers,
and symbols. Reserved words and symbols have exactly one spelling each, and looking a spelling up
inverts it (`ReservedWord.ofText?_eq_some_iff`, `Symbol.ofText?_eq_some_iff`).

Kinds also travel as small numbers. `Kind.all` lists them in the order of these tags.
-/

namespace CMinusFrontEnd

/-! ## Reserved words -/

/-- A word that is no identifier. -/
inductive ReservedWord where
  | elseWord
  | ifWord
  | intWord
  | returnWord
  | voidWord
  | whileWord
deriving DecidableEq

namespace ReservedWord

/-- Every reserved word. -/
def all : List ReservedWord := [elseWord, ifWord, intWord, returnWord, voidWord, whileWord]

/-- The spelling of a reserved word. -/
def text : ReservedWord → Text
  | elseWord => ['e', 'l', 's', 'e']
  | ifWord => ['i', 'f']
  | intWord => ['i', 'n', 't']
  | returnWord => ['r', 'e', 't', 'u', 'r', 'n']
  | voidWord => ['v', 'o', 'i', 'd']
  | whileWord => ['w', 'h', 'i', 'l', 'e']

/-- The reserved word with this spelling. -/
def ofText? (t : Text) : Option ReservedWord := all.find? fun w => w.text == t

theorem ofText?_eq_some_iff {t : Text} {w : ReservedWord} : ofText? t = some w ↔ w.text = t := by
  constructor
  · intro h
    simpa using List.find?_some h
  · rintro rfl
    cases w <;> rfl

theorem ofText?_eq_none_iff {t : Text} : ofText? t = none ↔ ∀ w : ReservedWord, w.text ≠ t := by
  simp [Option.eq_none_iff_forall_ne_some, ofText?_eq_some_iff]

end ReservedWord

/-! ## Symbols -/

/-- An operator or a mark of punctuation. -/
inductive Symbol where
  | plus
  | minus
  | times
  | slash
  | lessThan
  | lessThanEqual
  | greaterThan
  | greaterThanEqual
  | equal
  | notEqual
  | assign
  | semicolon
  | comma
  | leftParen
  | rightParen
  | leftBracket
  | rightBracket
  | leftBrace
  | rightBrace
deriving DecidableEq

namespace Symbol

/-- Every symbol. -/
def all : List Symbol :=
  [ plus, minus, times, slash, lessThan, lessThanEqual, greaterThan, greaterThanEqual, equal,
    notEqual, assign, semicolon, comma, leftParen, rightParen, leftBracket, rightBracket,
    leftBrace, rightBrace ]

/-- The spelling of a symbol. -/
def text : Symbol → Text
  | plus => ['+']
  | minus => ['-']
  | times => ['*']
  | slash => ['/']
  | lessThan => ['<']
  | lessThanEqual => ['<', '=']
  | greaterThan => ['>']
  | greaterThanEqual => ['>', '=']
  | equal => ['=', '=']
  | notEqual => ['!', '=']
  | assign => ['=']
  | semicolon => [';']
  | comma => [',']
  | leftParen => ['(']
  | rightParen => [')']
  | leftBracket => ['[']
  | rightBracket => [']']
  | leftBrace => ['\x7b']
  | rightBrace => ['\x7d']

/-- The symbol with this spelling. -/
def ofText? (t : Text) : Option Symbol := all.find? fun s => s.text == t

theorem ofText?_eq_some_iff {t : Text} {s : Symbol} : ofText? t = some s ↔ s.text = t := by
  constructor
  · intro h
    simpa using List.find?_some h
  · rintro rfl
    cases s <;> rfl

theorem ofText?_eq_none_iff {t : Text} : ofText? t = none ↔ ∀ s : Symbol, s.text ≠ t := by
  simp [Option.eq_none_iff_forall_ne_some, ofText?_eq_some_iff]

end Symbol

/-! ## Kinds -/

/-- The kind of a lexeme. -/
inductive Kind where
  /-- the end of the source, which has no lexeme -/
  | endFile
  /-- text that is no lexeme of the language -/
  | error
  /-- a reserved word -/
  | reserved (word : ReservedWord)
  /-- a word that is not reserved -/
  | identifier
  /-- a numeral -/
  | number
  /-- a symbol -/
  | symbol (mark : Symbol)
deriving DecidableEq

namespace Kind

/-- Every kind, in the order of the tags. -/
def all : List Kind :=
  [endFile, error] ++ ReservedWord.all.map reserved ++ [identifier, number] ++
    Symbol.all.map symbol

/-- The number that stands for a kind. -/
def tag (k : Kind) : Nat := all.idxOf k

/-- The kind that a number stands for. -/
def ofTag? (n : Nat) : Option Kind := all[n]?

/-- Every kind has a tag of its own. -/
theorem ofTag?_tag (k : Kind) : ofTag? k.tag = some k := by
  cases k with
  | reserved w => cases w <;> rfl
  | symbol s => cases s <;> rfl
  | _ => rfl

/-- Whether the kind is a reserved word. -/
def isReserved : Kind → Bool
  | reserved _ => true
  | _ => false

/-- The spelling of a symbol; no other kind has one. -/
def symbolText? : Kind → Option Text
  | symbol s => some s.text
  | _ => none

/-- The name of a kind. -/
def name : Kind → Text
  | endFile => "EndFile".toList
  | error => "Error".toList
  | reserved .elseWord => "Else".toList
  | reserved .ifWord => "If".toList
  | reserved .intWord => "Int".toList
  | reserved .returnWord => "Return".toList
  | reserved .voidWord => "Void".toList
  | reserved .whileWord => "While".toList
  | identifier => "Id".toList
  | number => "Num".toList
  | symbol .plus => "Plus".toList
  | symbol .minus => "Minus".toList
  | symbol .times => "Times".toList
  | symbol .slash => "Over".toList
  | symbol .lessThan => "LessThan".toList
  | symbol .lessThanEqual => "LessThanEqual".toList
  | symbol .greaterThan => "GreaterThan".toList
  | symbol .greaterThanEqual => "GreaterThanEqual".toList
  | symbol .equal => "Equal".toList
  | symbol .notEqual => "NotEqual".toList
  | symbol .assign => "Assign".toList
  | symbol .semicolon => "Semicolon".toList
  | symbol .comma => "Comma".toList
  | symbol .leftParen => "LParen".toList
  | symbol .rightParen => "RParen".toList
  | symbol .leftBracket => "LBrack".toList
  | symbol .rightBracket => "RBrack".toList
  | symbol .leftBrace => "LBrace".toList
  | symbol .rightBrace => "RBrace".toList

end Kind

/-! ## Tokens -/

/-- A lexeme in its place. -/
structure Token where
  /-- the kind of the lexeme -/
  kind : Kind
  /-- the text it was read from -/
  lexeme : Text
  /-- the line it stands on -/
  line : Count
deriving DecidableEq

/-- The token that ends every source that can be scanned. -/
def Token.endFile (line : Count) : Token := ⟨.endFile, [], line⟩

end CMinusFrontEnd
