import CMinusFrontEnd.Token
import CMinusFrontEnd.Writing

/-!
# Listings

A listing shows the tokens of a source, each on a row of its own with its line number, and if
wanted also the source lines, numbered, each before the tokens that belong to it.

The rows come first (`Listing.rows`), their text second (`Listing.Row.text`). Tokens keep the
order of their list. While a source line is the current one, tokens are taken as long as their
line is not beyond it; the first token that lies beyond it holds back all that follow, and what
is still held back after the last line comes at the end.
-/

namespace CMinusFrontEnd

/-! ## Describing a token -/

/-- What is shown of a lexeme of a kind. A symbol is shown by the spelling of its kind. -/
def Kind.describe (lexeme : Text) : Kind → Text
  | reserved _ => "reserved word: ".toList ++ lexeme
  | symbol s => s.text
  | endFile => "EOF".toList
  | number => "NUM, val= ".toList ++ lexeme
  | identifier => "ID, name= ".toList ++ lexeme
  | error => "ERROR: ".toList ++ lexeme

/-- What is shown of a lexeme whose kind is given by a number. -/
def describeTag (tag : Nat) (lexeme : Text) : Text :=
  match Kind.ofTag? tag with
  | some kind => kind.describe lexeme
  | none => "Unknown token: ".toList ++ Text.ofNat tag

/-- A text as a line of output. -/
def endLine (t : Text) : Text := t ++ ['\n']

/-- Writes a lexeme of a kind on a line of its own. -/
def writeToken (kind : Kind) (lexeme : Text) : Writing :=
  .ofText (endLine (kind.describe lexeme))

/-- Writes a lexeme whose kind is given by a number on a line of its own. -/
def writeTag (tag : Nat) (lexeme : Text) : Writing :=
  .ofText (endLine (describeTag tag lexeme))

namespace Listing

/-! ## Rows -/

/-- A row of a listing. -/
inductive Row where
  /-- a line of the source and its number -/
  | source (number : Nat) (line : Text)
  /-- a token -/
  | token (t : Token)
deriving DecidableEq

/-- The text of a row with its line end. -/
def Row.text : Row → Text
  | source number line =>
    endLine ((Text.ofNat number).alignRight 4 ++ ':' :: ' ' :: line)
  | token t =>
    endLine ('\t' :: (Text.ofNat t.line.toNat ++ ':' :: ' ' :: t.kind.describe t.lexeme))

/-- The rows for the source lines from number `number` on and the tokens that are still to be
shown. -/
def rowsFrom (echo : Bool) (number : Nat) : List Text → List Token → List Row
  | [], pending => pending.map .token
  | line :: lines, pending =>
    let here := fun t : Token => decide (t.line.toNat ≤ number)
    (if echo then [.source number line] else []) ++ (pending.takeWhile here).map .token ++
      rowsFrom echo (number + 1) lines (pending.dropWhile here)

/-- The rows of the listing of a source, with or without its lines. -/
def rows (echo : Bool) (source : Text) (tokens : List Token) : List Row :=
  rowsFrom echo 1 source.lines tokens

end Listing

/-- The listing of a source and a list of tokens, with the source lines if `echo` is set. -/
def listing (echo : Bool) (source : Text) (tokens : List Token) : Writing :=
  .ofTexts ((Listing.rows echo source tokens).map Listing.Row.text)

end CMinusFrontEnd
