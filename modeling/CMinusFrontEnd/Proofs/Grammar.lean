import CMinusFrontEnd.Proofs.Counting

/-!
# The lexical grammar

The grammar says which texts are sources and what their tokens are, without a word on how they are
scanned. A source is derived by a layout without an open comment: a gap, then lexemes, each with
the gap behind it, such that no lexeme absorbs the character behind it.

The main statement is `Scan.tokens_eq_ok_iff`. The scanner accepts exactly the derivable texts, it
answers with the lexemes of a derivation, each on its line, and no text has two derivations.
-/

namespace CMinusFrontEnd

/-- Whether a layout derives a source text. -/
structure Layout.Derives (d : Layout) (s : Text) : Prop where
  /-- gaps are gaps, lexemes are lexemes and as long as they can be -/
  wellFormed : d.WellFormed
  /-- every comment is closed -/
  closed : d.openComment = none
  /-- put together they are the text -/
  text : d.text = s

/-- The scanner's own layout is the only one that can derive a text. So there is one way to read a
source as lexemes with gaps between them. -/
theorem Layout.Derives.eq_ofSource {d : Layout} {s : Text} (h : d.Derives s) :
    d = ofSource s :=
  (ofSource_eq_iff.2 ⟨h.wellFormed, h.text⟩).symm

/-- The lexemes of a layout that derives a text can stand at its end, with nothing behind them. -/
theorem Layout.Derives.allFit {d : Layout} {s : Text} (h : d.Derives s) :
    Part.AllFit d.parts [] := by
  have hparts := h.wellFormed.parts
  rw [h.closed] at hparts
  exact hparts

theorem Layout.Derives.front_eq {d : Layout} {s : Text} (h : d.Derives s) : d.front = s := by
  rw [← h.text, Layout.text, h.closed, Option.getD_none, List.append_nil]

/-- If no comment stays open then the layout of a text derives it. -/
theorem Layout.derives_ofSource {s : Text} (h : (ofSource s).openComment = none) :
    (ofSource s).Derives s :=
  ⟨wellFormed_ofSource s, h, text_ofSource s⟩

/-- A text that is scanned to its end is derived, and its line feeds can be counted. An open comment
or an overflow would have been another ending. -/
theorem Scan.derives_of_finished {line : Count} {s : Text}
    (h : (ofSource line s).ending = .finished) :
    (Layout.ofSource s).Derives s ∧ line.toNat + s.newlines < UInt64.size := by
  by_cases hline : line.toNat + s.newlines < UInt64.size
  · refine ⟨Layout.derives_ofSource ?_, hline⟩
    rw [ofSource_eq hline] at h
    cases hoc : (Layout.ofSource s).openComment with
    | none => rfl
    | some t =>
      rw [hoc] at h
      cases h
  · obtain ⟨-, hend⟩ := ofSource_overflow (Nat.not_lt.1 hline)
    rw [hend] at h
    cases h

/-- The scan of a text that is derived: one token for each lexeme, the last line, and the end of the
source as the ending. -/
theorem Layout.Derives.ofSource_eq {line : Count} {d : Layout} {s : Text} (hd : d.Derives s)
    (hline : line.toNat + s.newlines < UInt64.size) :
    Scan.ofSource line s = ⟨d.tokens line, line.after s, .finished⟩ := by
  rw [Scan.ofSource_eq hline, ← hd.eq_ofSource, hd.closed]
  rfl

/-- **The lexical grammar.** As long as the line feeds of a text can be counted, the scanner
accepts the text if and only if a layout derives it, and the tokens are then those of the layout
and the end of the source. The grammar is unambiguous. The counter has taken in all line feeds. -/
theorem Scan.tokens_eq_ok_iff {line : Count} {s : Text}
    (hline : line.toNat + s.newlines < UInt64.size) :
    (∀ ts, (ofSource line s).tokens = .ok ts ↔
      ∃ d : Layout, d.Derives s ∧ ts = d.tokens line ++ [.endFile (line.after s)]) ∧
    (∀ d d' : Layout, d.Derives s → d'.Derives s → d = d') ∧
    (ofSource line s).line = line.after s := by
  refine ⟨?_, ?_, ?_⟩
  · intro ts
    rw [tokens_eq_ok_iff_finished]
    constructor
    · rintro ⟨hend, rfl⟩
      obtain ⟨hd, -⟩ := derives_of_finished hend
      refine ⟨_, hd, ?_⟩
      rw [hd.ofSource_eq hline]
    · rintro ⟨d, hd, rfl⟩
      rw [hd.ofSource_eq hline]
      exact ⟨rfl, rfl⟩
  · intro d d' hd hd'
    rw [hd.eq_ofSource, hd'.eq_ofSource]
  · rw [ofSource_eq hline]

/-- A spoiled number, a symbol of two characters right behind it, and a comment with a line feed
between two symbols. There are no blanks here, so every gap is a comment or empty. -/
theorem Scan.tokens_eq_ok_iff_spoiled :
    (1 : Count).toNat +
      Text.newlines ['1', '2', 'a', '!', '=', '/', '*', '\n', '*', '/', '/'] < UInt64.size ∧
    ∃ d : Layout, d.Derives ['1', '2', 'a', '!', '=', '/', '*', '\n', '*', '/', '/'] ∧
      [⟨.error, ['1', '2', 'a'], 1⟩, ⟨.symbol .notEqual, ['!', '='], 1⟩,
        ⟨.symbol .slash, ['/'], 2⟩, .endFile 2] = d.tokens 1 ++ [.endFile 2] :=
  ⟨by decide, ((tokens_eq_ok_iff (by decide)).1 _).1 (by decide +kernel)⟩

end CMinusFrontEnd
