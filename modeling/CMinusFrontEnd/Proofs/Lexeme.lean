import CMinusFrontEnd.Text.Blank
import CMinusFrontEnd.Token
import Mathlib.Tactic.ByContra

/-!
# Lexemes

Which texts are lexemes of a kind, and where a lexeme ends. Both are said without the cutting of
a source into pieces, which `CMinusFrontEnd.Proofs.LongestMatch` shows to follow them.

* `IsLexeme` lists the shapes: the six reserved words, runs of letters, runs of digits, the
  symbols, and three shapes of malformed lexemes.
* `Kind.absorbs` is the whole of the look-ahead. A lexeme depends on what follows it through the
  one character directly behind it, and only on whether that character is absorbed.
-/

namespace CMinusFrontEnd

/-! ## Shapes -/

/-- The texts that are lexemes of a kind. -/
inductive IsLexeme : Kind → Text → Prop where
  /-- a reserved word -/
  | reserved (word : ReservedWord) : IsLexeme (.reserved word) word.text
  /-- a run of letters that spells no reserved word -/
  | identifier {t : Text} (ne_nil : t ≠ []) (letters : ∀ c ∈ t, c.isAlpha = true)
      (free : ∀ word : ReservedWord, word.text ≠ t) : IsLexeme .identifier t
  /-- a run of digits -/
  | number {t : Text} (ne_nil : t ≠ []) (digits : ∀ c ∈ t, c.isDigit = true) :
      IsLexeme .number t
  /-- a symbol -/
  | symbol (mark : Symbol) : IsLexeme (.symbol mark) mark.text
  /-- an exclamation mark alone -/
  | exclamation : IsLexeme .error ['!']
  /-- a run of digits that a letter spoils, with all letters and digits behind it -/
  | spoiled {ds more : Text} {letter : Char} (ne_nil : ds ≠ [])
      (digits : ∀ c ∈ ds, c.isDigit = true) (isAlpha : letter.isAlpha = true)
      (alphanums : ∀ c ∈ more, c.isAlphanum = true) : IsLexeme .error (ds ++ letter :: more)
  /-- a character that starts nothing else -/
  | stray {c : Char} (notBlank : isBlank c = false) (notAlphanum : c.isAlphanum = false)
      (noSymbol : ∀ mark : Symbol, mark.text.head? ≠ some c) : IsLexeme .error [c]

theorem IsLexeme.ne_nil {k : Kind} {t : Text} (h : IsLexeme k t) : t ≠ [] := by
  cases h with
  | reserved w => cases w <;> decide
  | identifier hn _ _ => exact hn
  | number hn _ => exact hn
  | symbol s => cases s <;> decide
  | spoiled => exact List.append_ne_nil_of_right_ne_nil _ (List.cons_ne_nil _ _)
  | _ => exact List.cons_ne_nil _ _

/-- Whether a character that stands directly behind a lexeme would be taken into it, or would
make the opening of a comment of it. -/
def Kind.absorbs (spelling : Text) (c : Char) : Kind → Bool
  | endFile => false
  | error => (spelling = ['!'] && c = '=') || (spelling.head?.any Char.isDigit && c.isAlphanum)
  | reserved _ => c.isAlpha
  | identifier => c.isAlpha
  | number => c.isAlphanum
  | symbol .lessThan => c = '='
  | symbol .greaterThan => c = '='
  | symbol .assign => c = '='
  | symbol .slash => c = '*'
  | symbol _ => false

/-- Whether a lexeme ends before a text: it does not absorb the first character of the text. -/
def EndsBefore (kind : Kind) (spelling rest : Text) : Prop :=
  ∀ c ∈ rest.head?, kind.absorbs spelling c = false

theorem endsBefore_nil (k : Kind) (t : Text) : EndsBefore k t [] := by
  intro c hc
  cases hc

@[simp] theorem endsBefore_cons {k : Kind} {t rest : Text} {c : Char} :
    EndsBefore k t (c :: rest) ↔ k.absorbs t c = false := by
  simp [EndsBefore]

/-- Only the first character of what follows matters. If there is one already, more text behind it
changes nothing. -/
theorem EndsBefore.append {k : Kind} {t rest : Text} (h : EndsBefore k t rest)
    (hr : rest ≠ []) (more : Text) : EndsBefore k t (rest ++ more) := by
  cases rest with
  | nil => exact absurd rfl hr
  | cons c rest => exact endsBefore_cons.2 (endsBefore_cons.1 h)

/-- Only the next character matters, so a lexeme that ends before a longer text ends before its
beginning too. -/
theorem EndsBefore.of_append {k : Kind} {t rest more : Text}
    (h : EndsBefore k t (rest ++ more)) : EndsBefore k t rest := by
  cases rest with
  | nil => exact endsBefore_nil k t
  | cons c rest => exact endsBefore_cons.2 (endsBefore_cons.1 h)

/-! ## Characters that separate -/

/-- A blank separates every lexeme from what follows. -/
theorem Kind.absorbs_eq_false_of_isBlank {c : Char} (h : isBlank c = true) (k : Kind) (t : Text) :
    k.absorbs t c = false := by
  have hn : c.isAlphanum = false := by
    by_contra hn
    rw [isBlank_eq_false_of_isAlphanum (by simpa using hn)] at h
    cases h
  have ha : c.isAlpha = false := (Bool.or_eq_false_iff.1 hn).1
  have he : c ≠ '=' := by
    rintro rfl
    exact absurd h (by decide)
  have hs : c ≠ '*' := by
    rintro rfl
    exact absurd h (by decide)
  cases k with
  | symbol s => cases s <;> simp [absorbs, he, hs]
  | _ => simp [absorbs, hn, ha, he]

/-- A slash separates every lexeme from what follows, so a comment does. A slash itself is not made
longer by another one. -/
theorem Kind.absorbs_slash (k : Kind) (t : Text) : k.absorbs t '/' = false := by
  cases k with
  | symbol s => cases s <;> rfl
  | error => simp [absorbs]
  | _ => rfl

end CMinusFrontEnd
