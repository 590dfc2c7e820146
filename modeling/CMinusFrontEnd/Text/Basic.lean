/-!
# Text

All text inside the library is a list of characters, so that every function on it is a
recursion or a list operator that a proof can follow. Strings appear as literals, which stand
for their characters, and where text enters or leaves the program.

Two notions of "line" live here, and they are deliberately different:

* `Text.newlines` counts the line feeds of a text. It is what a line counter advances by.
* `Text.lines` cuts a text into the lines that a listing shows. It takes one carriage return
  off a line that a line feed ends, and it makes no empty line out of a final line feed.
-/

namespace CMinusFrontEnd

/-- A text, character by character. -/
abbrev Text := List Char

namespace Text

/-! ## Line feeds -/

/-- The number of line feeds. No other character ends a line. -/
def newlines (t : Text) : Nat := t.count '\n'

@[simp] theorem newlines_nil : newlines [] = 0 := rfl

@[simp] theorem newlines_append (s t : Text) : newlines (s ++ t) = newlines s + newlines t :=
  List.count_append

theorem newlines_cons (c : Char) (t : Text) :
    newlines (c :: t) = newlines t + if c = '\n' then 1 else 0 := by
  simp [newlines, List.count_cons]

theorem newlines_eq_zero {t : Text} (h : '\n' ∉ t) : newlines t = 0 :=
  List.count_eq_zero.2 h

/-! ## Shown lines -/

/-- The lines of a text: it is cut at every line feed, one carriage return directly before the
line feed goes with it, and what follows the last line feed is a line only if it is not empty.
A carriage return anywhere else, also at the very end, is an ordinary character. -/
def lines : Text → List Text
  | [] => []
  | '\n' :: rest => [] :: lines rest
  | '\r' :: '\n' :: rest => [] :: lines rest
  | c :: rest =>
    match lines rest with
    | [] => [[c]]
    | l :: ls => (c :: l) :: ls

@[simp] theorem lines_nil : lines [] = [] := rfl

@[simp] theorem lines_newline (rest : Text) : lines ('\n' :: rest) = [] :: lines rest := by
  simp [lines]

/-- A carriage return in front of a line feed is not shown. -/
@[simp] theorem lines_return_newline (rest : Text) :
    lines ('\r' :: '\n' :: rest) = [] :: lines rest := by
  simp [lines]

/-- A character that neither ends a line nor belongs to a line end stands at the front of the
first of the remaining lines. -/
theorem lines_cons {c : Char} {rest : Text} (hc : c ≠ '\n')
    (hr : c = '\r' → rest.head? ≠ some '\n') :
    lines (c :: rest) = (c :: (lines rest).head?.getD []) :: (lines rest).tail := by
  rw [lines]
  · cases lines rest <;> rfl
  · exact hc
  · rintro r rfl rfl
    exact hr rfl rfl

/-! ## Numerals -/

/-- The decimal numeral of a natural number. -/
def ofNat (n : Nat) : Text := Nat.toDigits 10 n

/-- The decimal numeral of an integer, with a leading minus sign if it is negative. -/
def ofInt : Int → Text
  | .ofNat n => ofNat n
  | .negSucc n => '-' :: ofNat (n + 1)

/-- A text filled up on the left with spaces to a least width; a longer text stays as it is. -/
def alignRight (width : Nat) (t : Text) : Text := t.leftpad width ' '

end Text

end CMinusFrontEnd
