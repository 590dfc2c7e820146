import CMinusFrontEnd.Text.Blank
import CMinusFrontEnd.Token

/-!
# The pieces of a source text

A source text is cut, from the left and without loss, into pieces: runs of blanks, closed
comments, and lexemes. Lines play no part here; they are counted in `CMinusFrontEnd.Scan`.

Three rules say where a piece ends.

* **Longest match.** A run of blanks, a word, a number and a symbol are each as long as they can
  be. A number that a letter follows is none: the whole run of letters and digits is one
  malformed lexeme.
* **Comments win.** Where `/*` stands at the start of a piece it opens a comment, which ends at
  the first `*/` behind the opening. There is no nesting, and `/*/` is still open.
* **Every character belongs to a piece.** One that starts no other piece is a malformed lexeme
  of its own.

The only way to fail is a comment that is never closed. `Dissection` keeps the text from its
opening on, so that pieces and remainder still make up the whole source
(`Dissection.text_dissect`).
-/

namespace CMinusFrontEnd

/-- A piece of a source text. -/
inductive Piece where
  /-- a run of blanks -/
  | blank (run : Text)
  /-- a closed comment, given by what stands between its opening and its end -/
  | comment (body : Text)
  /-- a lexeme -/
  | lexeme (kind : Kind) (spelling : Text)
deriving DecidableEq

/-- The text that a piece takes up in the source. -/
def Piece.text : Piece → Text
  | blank run => run
  | comment body => '/' :: '*' :: (body ++ ['*', '/'])
  | lexeme _ spelling => spelling

/-! ## Comments -/

/-- Cuts a text at the first `*/`: what stands before it and what follows it. -/
def closeComment? : Text → Option (Text × Text)
  | [] => none
  | '*' :: '/' :: after => some ([], after)
  | c :: rest => (closeComment? rest).map fun (body, after) => (c :: body, after)

theorem closeComment?_eq_some {t body after : Text} (h : closeComment? t = some (body, after)) :
    t = body ++ '*' :: '/' :: after := by
  fun_induction closeComment? t generalizing body with
  | case1 => cases h
  | case2 => cases h; rfl
  | case3 c rest _ ih =>
    obtain ⟨⟨b, a⟩, hr, he⟩ := Option.map_eq_some_iff.1 h
    cases he
    rw [ih hr, List.cons_append]

/-! ## Lexemes -/

/-- The kind of a word: reserved if it is spelled like a reserved word, else an identifier. -/
def Kind.ofWord (word : Text) : Kind :=
  match ReservedWord.ofText? word with
  | some w => .reserved w
  | none => .identifier

/-- The longest symbol that a text starts with. No symbol has more than two characters. -/
def Symbol.leading? (t : Text) : Option Symbol :=
  (ofText? (t.take 2)).or (ofText? (t.take 1))

theorem Symbol.eq_append_of_leading? {t : Text} {s : Symbol} (h : leading? t = some s) :
    t = s.text ++ t.drop s.text.length := by
  have key : ∀ {n : Nat}, s.text = t.take n → t = s.text ++ t.drop s.text.length := by
    intro n hn
    have hp : s.text <+: t := hn ▸ List.take_prefix n t
    obtain ⟨u, hu⟩ := hp
    rw [← hu, List.drop_left]
  rcases Option.or_eq_some_iff.1 h with h | ⟨-, h⟩
  · exact key (ofText?_eq_some_iff.1 h)
  · exact key (ofText?_eq_some_iff.1 h)

/-- The lexeme at the start of a text that starts with neither a blank nor a comment, and what
follows it. The text is given by its first character and the rest. -/
def Piece.leadingLexeme (c : Char) (rest : Text) : Piece × Text :=
  if c.isAlpha then
    let word := c :: rest.takeWhile Char.isAlpha
    (lexeme (.ofWord word) word, rest.dropWhile Char.isAlpha)
  else if c.isDigit then
    -- a letter directly behind the digits spoils the number
    if (rest.dropWhile Char.isDigit).head?.any Char.isAlpha then
      (lexeme .error (c :: rest.takeWhile Char.isAlphanum), rest.dropWhile Char.isAlphanum)
    else
      (lexeme .number (c :: rest.takeWhile Char.isDigit), rest.dropWhile Char.isDigit)
  else
    match Symbol.leading? (c :: rest) with
    | some s => (lexeme (.symbol s) s.text, (c :: rest).drop s.text.length)
    | none => (lexeme .error [c], rest)

/-- No character is lost when a lexeme is cut off. -/
theorem Piece.text_leadingLexeme (c : Char) (rest : Text) :
    (leadingLexeme c rest).1.text ++ (leadingLexeme c rest).2 = c :: rest := by
  unfold leadingLexeme
  split
  · simp [Piece.text]
  · split
    · split <;> simp [Piece.text]
    · split
      next s hs => exact (Symbol.eq_append_of_leading? hs).symm
      next => rfl

theorem Piece.leadingLexeme_ne_nil (c : Char) (rest : Text) :
    (leadingLexeme c rest).1.text ≠ [] := by
  unfold leadingLexeme
  split
  · simp [Piece.text]
  · split
    · split <;> simp [Piece.text]
    · split
      next s hs => cases s <;> simp [Piece.text, Symbol.text]
      next => simp [Piece.text]

/-! ## The first piece -/

/-- The piece at the start of a text, and what follows it. There is none only where a comment
opens that is never closed. The text is given by its first character and the rest. -/
def Piece.leading? (c : Char) (rest : Text) : Option (Piece × Text) :=
  if c = '/' ∧ rest.head? = some '*' then
    (closeComment? rest.tail).map fun (body, after) => (comment body, after)
  else if isBlank c then
    some (blank (c :: rest.takeWhile isBlank), rest.dropWhile isBlank)
  else
    some (leadingLexeme c rest)

/-- The first piece and what follows it make up the text. -/
theorem Piece.text_of_leading? {c : Char} {rest after : Text} {p : Piece}
    (h : leading? c rest = some (p, after)) : p.text ++ after = c :: rest := by
  unfold leading? at h
  split at h
  next hc =>
    obtain ⟨⟨b, a⟩, hb, he⟩ := Option.map_eq_some_iff.1 h
    cases he
    obtain ⟨rfl, hr⟩ := hc
    cases rest with
    | nil => cases hr
    | cons d rest =>
      cases hr
      have hb := closeComment?_eq_some hb
      rw [List.tail_cons] at hb
      simp [Piece.text, hb]
  next =>
    split at h
    · cases h
      simp [Piece.text]
    · have hl := Piece.text_leadingLexeme c rest
      rw [Option.some.inj h] at hl
      exact hl

/-- No piece is empty. -/
theorem Piece.ne_nil_of_leading? {c : Char} {rest after : Text} {p : Piece}
    (h : leading? c rest = some (p, after)) : p.text ≠ [] := by
  unfold leading? at h
  split at h
  next =>
    obtain ⟨⟨b, a⟩, -, he⟩ := Option.map_eq_some_iff.1 h
    cases he
    simp [Piece.text]
  next =>
    split at h
    · cases h
      simp [Piece.text]
    · have hl := Piece.leadingLexeme_ne_nil c rest
      rw [Option.some.inj h] at hl
      exact hl

/-- What follows the first piece is shorter than the text. This is all that is needed to see that
cutting off one piece after the other comes to an end. -/
theorem Piece.length_lt_of_leading? {c : Char} {rest after : Text} {p : Piece}
    (h : leading? c rest = some (p, after)) : after.length < (c :: rest).length := by
  have hp := List.length_pos_iff.2 (Piece.ne_nil_of_leading? h)
  rw [← Piece.text_of_leading? h, List.length_append]
  omega

/-! ## The whole source -/

/-- A source text in pieces. -/
structure Dissection where
  /-- the pieces in the order of the source -/
  pieces : List Piece
  /-- the text from the opening of a comment that is never closed, if there is one -/
  openComment : Option Text
deriving DecidableEq

namespace Dissection

/-- The dissection of a text that starts with a further piece. -/
def cons (p : Piece) (d : Dissection) : Dissection := { d with pieces := p :: d.pieces }

/-- The source text that was cut up. -/
def text (d : Dissection) : Text := d.pieces.flatMap Piece.text ++ d.openComment.getD []

@[simp] theorem text_cons (p : Piece) (d : Dissection) : (cons p d).text = p.text ++ d.text := by
  simp [cons, text]

end Dissection

/-- Cuts a source text into pieces. -/
def dissect : Text → Dissection
  | [] => ⟨[], none⟩
  | c :: rest =>
    match h : Piece.leading? c rest with
    | none => ⟨[], some (c :: rest)⟩
    | some (p, after) =>
      have := Piece.length_lt_of_leading? h
      (dissect after).cons p
termination_by t => t.length
decreasing_by exact this

@[simp] theorem dissect_nil : dissect [] = ⟨[], none⟩ := by
  rw [dissect]

/-- If nothing can be cut off, then a comment starts here that is never closed, and all the rest of
the source is in it. -/
theorem dissect_of_leading?_eq_none {c : Char} {rest : Text} (h : Piece.leading? c rest = none) :
    dissect (c :: rest) = ⟨[], some (c :: rest)⟩ := by
  rw [dissect]
  split
  · rfl
  next h' => rw [h] at h'; cases h'

theorem dissect_of_leading?_eq_some {c : Char} {rest after : Text} {p : Piece}
    (h : Piece.leading? c rest = some (p, after)) :
    dissect (c :: rest) = (dissect after).cons p := by
  rw [dissect]
  split
  next h' => rw [h] at h'; cases h'
  next h' => rw [h] at h'; cases h'; rfl

/-- **Nothing is lost.** The pieces and the open comment, put together, are the source, whatever
characters there are in it. -/
theorem Dissection.text_dissect (t : Text) : (dissect t).text = t := by
  fun_induction dissect t with
  | case1 => rfl
  | case2 => simp [Dissection.text]
  | case3 c rest p after h _ ih => rw [text_cons, ih, Piece.text_of_leading? h]

end CMinusFrontEnd
