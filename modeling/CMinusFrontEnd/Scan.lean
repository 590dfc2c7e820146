import CMinusFrontEnd.Failure
import CMinusFrontEnd.Piece

/-!
# Scanning

Scanning gives every lexeme of a source its line. It walks over the pieces of the source with a
line counter: a run of blanks or a comment advances the counter by its line feeds, and a lexeme
becomes a token on the counter's line.

A `Scan` records all that scanning leaves behind, whatever its ending: the tokens found, and
where the counter stopped. A scan ends in one of three ways.

* At the end of the source. Only then there is a token list (`Scan.tokens`), and it ends with
  the end-of-file token.
* At a comment that is never closed. The error names the line the comment starts on, while the
  counter has also taken in the line feeds behind the opening.
* At a line feed that the counter cannot count. It then stays at the last line.
-/

namespace CMinusFrontEnd

/-- How a scan ended. -/
inductive Scan.Ending where
  /-- at the end of the source -/
  | finished
  /-- in a comment that starts at this line and is never closed -/
  | unterminated (start : Count)
  /-- at a line feed beyond the last line -/
  | overflow
deriving DecidableEq

/-- What scanning a source leaves behind. -/
structure Scan where
  /-- the tokens found, without the one that ends the source -/
  found : List Token
  /-- the line counter when scanning stopped -/
  line : Count
  /-- how it ended -/
  ending : Scan.Ending
deriving DecidableEq

namespace Scan

/-- The scan that found a further token first. -/
def cons (t : Token) (s : Scan) : Scan := { s with found := t :: s.found }

/-- Places the pieces of a source on lines, from a line on. -/
def place (line : Count) : List Piece → Option Text → Scan
  | [], none => ⟨[], line, .finished⟩
  | [], some openComment =>
    match Count.plus? line openComment.newlines with
    | some last => ⟨[], last, .unterminated line⟩
    | none => ⟨[], Count.last, .overflow⟩
  | .lexeme kind spelling :: pieces, openComment =>
    (place line pieces openComment).cons ⟨kind, spelling, line⟩
  | .blank run :: pieces, openComment =>
    match Count.plus? line run.newlines with
    | some next => place next pieces openComment
    | none => ⟨[], Count.last, .overflow⟩
  | .comment body :: pieces, openComment =>
    match Count.plus? line body.newlines with
    | some next => place next pieces openComment
    | none => ⟨[], Count.last, .overflow⟩

/-- Scans a source whose first line has the number `line`. -/
def ofSource (line : Count) (source : Text) : Scan :=
  let d := dissect source
  place line d.pieces d.openComment

/-- Why there is no token list, if there is none. -/
def failure? (s : Scan) : Option Failure :=
  match s.ending with
  | .finished => none
  | .unterminated start => some (.error (.unterminatedComment start))
  | .overflow => some (.fault .addOverflow)

/-- The tokens of the source up to the one that ends it, or why there are none. -/
def tokens (s : Scan) : Except Failure (List Token) :=
  match s.failure? with
  | none => .ok (s.found ++ [.endFile s.line])
  | some failure => .error failure

/-- There is a token list only at the end of the source. -/
theorem tokens_eq_ok_iff_finished {s : Scan} {ts : List Token} :
    s.tokens = .ok ts ↔ s.ending = .finished ∧ ts = s.found ++ [.endFile s.line] := by
  obtain ⟨found, line, ending⟩ := s
  cases ending <;> simp [tokens, failure?, eq_comm]

end Scan

end CMinusFrontEnd
