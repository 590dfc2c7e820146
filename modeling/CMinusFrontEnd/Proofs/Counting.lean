import CMinusFrontEnd.Proofs.Layout
import CMinusFrontEnd.Scan

/-!
# Counting lines

How a layout is scanned. A line counter walks over the gaps and takes in their line feeds; a
lexeme has none (`IsLexeme.newlines_eq_zero`) and stands on the line of the counter. So a layout
gives its tokens, the last line and the ending directly (`Layout.scan_eq`), as long as the
counter stays in its range.

`Scan.ofSource_eq_scan` says that scanning a text is scanning its layout. The laws of
`Scan.advance` and `Scan.andThen`, which hold beyond the range as well, are what is needed to
scan texts that are put together.
-/

namespace CMinusFrontEnd

namespace Scan

/-! ## Advancing the counter -/

/-- The scan that first advances the counter and goes on from there. -/
def advance (line : Count) (k : Nat) (next : Count → Scan) : Scan :=
  match Count.plus? line k with
  | some l => next l
  | none => ⟨[], Count.last, .overflow⟩

@[simp] theorem advance_zero (line : Count) (next : Count → Scan) :
    advance line 0 next = next line := by
  rw [advance, Count.plus?_zero]

/-- Advancing in two steps is advancing at once. If the first step is already too much, then so is
the sum. -/
theorem advance_advance (line : Count) (j k : Nat) (next : Count → Scan) :
    (advance line j fun l => advance l k next) = advance line (j + k) next := by
  rw [advance, advance, Count.plus?_add]
  cases Count.plus? line j <;> rfl

theorem advance_of_lt {line : Count} {k : Nat} (h : line.toNat + k < UInt64.size)
    (next : Count → Scan) : advance line k next = next (.ofNat (line.toNat + k)) := by
  rw [advance, Count.plus?, if_pos h]

/-! ## One scan after another -/

/-- The scan that goes on at the end of another one, if that came to the end of its source. -/
def andThen (s : Scan) (next : Count → Scan) : Scan :=
  match s.ending with
  | .finished => { next s.line with found := s.found ++ (next s.line).found }
  | _ => s

theorem cons_andThen (t : Token) (s : Scan) (next : Count → Scan) :
    (s.cons t).andThen next = (s.andThen next).cons t := by
  obtain ⟨found, line, ending⟩ := s
  cases ending <;> rfl

/-- An overflow in the first scan is the end of both. -/
theorem advance_andThen (line : Count) (k : Nat) (s next : Count → Scan) :
    (advance line k s).andThen next = advance line k fun l => (s l).andThen next := by
  rw [advance, advance]
  cases Count.plus? line k <;> rfl

end Scan

/-! ## Scanning a layout -/

namespace Layout

/-- Places lexemes and the gaps behind them on lines, from a line on. -/
def scanParts (openComment : Option Text) (line : Count) : List Part → Scan
  | [] => Scan.place line [] openComment
  | p :: ps =>
    (Scan.advance line p.gap.newlines fun next => scanParts openComment next ps).cons
      ⟨p.kind, p.spelling, line⟩

/-- Places the lexemes of a layout on lines, from a line on. -/
def scan (line : Count) (d : Layout) : Scan :=
  Scan.advance line d.lead.newlines fun next => scanParts d.openComment next d.parts

/-- Separators in front of a layout count, but they add no token. The tokens behind them are as many
lines further down. -/
theorem scan_indent (line : Count) (g : Gap) (d : Layout) :
    (d.indent g).scan line = Scan.advance line g.newlines fun next => d.scan next := by
  simp only [scan, Scan.advance_advance]
  rw [indent, Gap.newlines_append]

/-- A lexeme in front of a layout gives a token on the line where the counter is. It does not move
the counter, for there is no line feed in it. -/
theorem scan_behind (line : Count) (k : Kind) (t : Text) (d : Layout) :
    (d.behind k t).scan line = (d.scan line).cons ⟨k, t, line⟩ := by
  rw [scan, behind, Gap.newlines_nil, Scan.advance_zero, scanParts, scan]

end Layout

/-- The newlines of a comment are those of its body. -/
theorem Gap.newlines_comment (body : Text) : Gap.newlines [.comment body] = body.newlines := by
  simp [Gap.newlines, Separator.text, Text.newlines_cons, commentEnd]

/-- **Scanning a text is scanning its layout.** The scanner works piece by piece, the layout has
lexemes and the gaps behind them, and the counter sees no difference. -/
theorem Scan.ofSource_eq_scan (line : Count) (s : Text) :
    ofSource line s = (Layout.ofSource s).scan line := by
  rw [ofSource, Layout.ofSource]
  obtain ⟨ps, oc⟩ := dissect s
  induction ps generalizing line with
  | nil =>
    have key := advance_zero line fun next => Layout.scanParts oc next []
    exact key.symm
  | cons p ps ih =>
    have hd : (⟨p :: ps, oc⟩ : Dissection) = Dissection.cons p ⟨ps, oc⟩ := rfl
    rw [hd, Layout.ofDissection_cons]
    cases p with
    | lexeme k t =>
      rw [Layout.add, Layout.scan_behind, ← ih]
      rfl
    | blank run =>
      simp only [Layout.add, Layout.scan_indent, ← ih]
      rw [Gap.newlines, Layout.text_map_blank]
      rfl
    | comment body =>
      simp only [Layout.add, Layout.scan_indent, ← ih]
      rw [Gap.newlines_comment]
      rfl

/-- A text with a gap in front is scanned like the text, from the line on that the gap ends on. -/
theorem Scan.ofSource_gap {g : Gap} (hg : g.IsValid) (line : Count) (rest : Text) :
    ofSource line (g.text ++ rest) = advance line g.newlines fun next => ofSource next rest := by
  simp only [ofSource_eq_scan, Layout.ofSource_gap hg, Layout.scan_indent]

/-- A text with a lexeme in front is scanned like the text, with one more token, as long as the
lexeme does not go on in the text. -/
theorem Scan.ofSource_lexeme {k : Kind} {t rest : Text} (ht : IsLexeme k t)
    (h : EndsBefore k t rest) (line : Count) :
    ofSource line (t ++ rest) = (ofSource line rest).cons ⟨k, t, line⟩ := by
  rw [ofSource_eq_scan, Layout.ofSource_lexeme ht h, Layout.scan_behind, ofSource_eq_scan]

/-! ## Within the range of the counter -/

/-- No lexeme has a blank in it. -/
theorem IsLexeme.isBlank_eq_false {k : Kind} {t : Text} (h : IsLexeme k t) {c : Char}
    (hc : c ∈ t) : isBlank c = false := by
  have halpha {d : Char} (hd : d.isAlpha = true) : isBlank d = false :=
    isBlank_eq_false_of_isAlphanum (isAlphanum_iff.2 (.inl hd))
  have hdigit {d : Char} (hd : d.isDigit = true) : isBlank d = false :=
    isBlank_eq_false_of_isAlphanum (isAlphanum_iff.2 (.inr hd))
  cases h with
  | reserved w => exact halpha (ReservedWord.isAlpha_of_mem hc)
  | identifier _ hl _ => exact halpha (hl c hc)
  | number _ hd => exact hdigit (hd c hc)
  | symbol s =>
    have key : s.text.all (fun d => !isBlank d) = true := by cases s <;> decide
    simpa using List.all_eq_true.1 key c hc
  | exclamation =>
    obtain rfl := List.mem_singleton.1 hc
    decide
  | spoiled _ hd hl hm =>
    rcases List.mem_append.1 hc with hc | hc
    · exact hdigit (hd c hc)
    · rcases List.mem_cons.1 hc with rfl | hc
      · exact halpha hl
      · exact isBlank_eq_false_of_isAlphanum (hm c hc)
  | stray hb _ _ =>
    obtain rfl := List.mem_singleton.1 hc
    exact hb

/-- No lexeme has a line feed. -/
theorem IsLexeme.newlines_eq_zero {k : Kind} {t : Text} (h : IsLexeme k t) : t.newlines = 0 := by
  apply Text.newlines_eq_zero
  intro hn
  have hblank := h.isBlank_eq_false hn
  rw [isBlank_newline] at hblank
  cases hblank

/-- The line on which a text ends that starts on a line. A text with more line feeds than the
counter can count has no such line, and what stands here is of no use for it. -/
def Count.after (line : Count) (t : Text) : Count := .ofNat (line.toNat + t.newlines)

theorem Count.toNat_after {line : Count} {t : Text}
    (h : line.toNat + t.newlines < UInt64.size) :
    (line.after t).toNat = line.toNat + t.newlines :=
  UInt64.toNat_ofNat_of_lt' h

@[simp] theorem Count.after_nil (line : Count) : line.after [] = line := by
  rw [← UInt64.toNat_inj, toNat_after (by simpa using line.toNat_lt)]
  rfl

theorem Count.after_append {line : Count} {s t : Text} (ht : t.newlines = 0) :
    line.after (s ++ t) = line.after s := by
  rw [after, Text.newlines_append, ht, Nat.add_zero, after]

/-- The counter walks over a text behind another one. There is no overflow in between if there is
none at the end. -/
theorem Scan.advance_after {line : Count} {s t : Text}
    (h : line.toNat + (s ++ t).newlines < UInt64.size) (next : Count → Scan) :
    advance (line.after s) t.newlines next = next (line.after (s ++ t)) := by
  rw [Text.newlines_append, ← Nat.add_assoc] at h
  have hs : (line.after s).toNat = line.toNat + s.newlines := Count.toNat_after (by omega)
  rw [advance_of_lt (by rwa [hs]), hs, Count.after, Text.newlines_append, Nat.add_assoc]

namespace Layout

/-- The tokens of parts that stand behind a text which starts on a line. -/
def tokensBehind (line : Count) (before : Text) : List Part → List Token
  | [] => []
  | p :: ps =>
    ⟨p.kind, p.spelling, line.after before⟩ :: tokensBehind line (before ++ p.text) ps

/-- The tokens of a layout that starts on a line: each lexeme stands on the line to which the text
before it leads. -/
def tokens (line : Count) (d : Layout) : List Token := tokensBehind line d.lead.text d.parts

/-- How the scan of a text ends that has nothing but a comment behind its front, if that. -/
def endingBehind (line : Count) (front : Text) : Option Text → Scan.Ending
  | none => .finished
  | some _ => .unterminated (line.after front)

/-- What comes behind the last lexeme decides how the scan ends: in an open comment or at the end of
the source. -/
theorem place_eq {line : Count} {before : Text} {oc : Option Text}
    (hline : line.toNat + (before ++ oc.getD []).newlines < UInt64.size) :
    Scan.place (line.after before) [] oc =
      ⟨[], line.after (before ++ oc.getD []), endingBehind line before oc⟩ := by
  cases oc with
  | none =>
    rw [Option.getD_none, List.append_nil]
    rfl
  | some t =>
    exact Scan.advance_after hline fun l => ⟨[], l, .unterminated (line.after before)⟩

/-- Within the range, scanning a row of parts gives one token for each, on the line that was reached
before it. -/
theorem scanParts_eq {line : Count} {oc : Option Text} {before : Text} {ps : List Part}
    (hps : Part.AllFit ps (oc.getD []))
    (hline : line.toNat + (before ++ Part.texts ps ++ oc.getD []).newlines < UInt64.size) :
    scanParts oc (line.after before) ps =
      ⟨tokensBehind line before ps, line.after (before ++ Part.texts ps ++ oc.getD []),
        endingBehind line (before ++ Part.texts ps) oc⟩ := by
  induction ps generalizing before with
  | nil =>
    rw [Part.texts_nil, List.append_nil] at hline ⊢
    exact place_eq hline
  | cons p ps ih =>
    obtain ⟨hp, hps⟩ := hps
    have htext : before ++ Part.texts (p :: ps) = before ++ p.text ++ Part.texts ps := by
      rw [Part.texts, List.flatMap_cons, ← List.append_assoc]
      rfl
    have hgap : p.text.newlines = p.gap.newlines := by
      rw [Part.text, Text.newlines_append, hp.lexeme.newlines_eq_zero, Nat.zero_add, Gap.newlines]
    rw [htext] at hline ⊢
    have hshort : line.toNat + (before ++ p.text).newlines < UInt64.size := by
      simp only [Text.newlines_append] at hline ⊢
      omega
    rw [scanParts, ← hgap, Scan.advance_after hshort, ih hps hline]
    rfl

/-- **A layout gives the whole scan**, if the counter stays in its range: the tokens, the last line
and whether a comment is open at the end. -/
theorem scan_eq {line : Count} {d : Layout} (hd : d.WellFormed)
    (hline : line.toNat + d.text.newlines < UInt64.size) :
    d.scan line =
      ⟨d.tokens line, line.after d.text, endingBehind line d.front d.openComment⟩ := by
  have hlead : line.toNat + Text.newlines ([] ++ d.lead.text) < UInt64.size := by
    rw [text, front, List.append_assoc, Text.newlines_append] at hline
    rw [List.nil_append]
    omega
  have hscan := Scan.advance_after hlead fun next => scanParts d.openComment next d.parts
  rw [Count.after_nil, List.nil_append] at hscan
  rw [scan, Gap.newlines, hscan]
  exact scanParts_eq hd.parts hline

end Layout

/-- The scan of a text is read off its layout, if the counter stays in its range. So questions about
the scanner become questions about layouts. -/
theorem Scan.ofSource_eq {line : Count} {s : Text}
    (hline : line.toNat + s.newlines < UInt64.size) :
    ofSource line s =
      ⟨(Layout.ofSource s).tokens line, line.after s,
        Layout.endingBehind line (Layout.ofSource s).front (Layout.ofSource s).openComment⟩ := by
  have htext := Layout.text_ofSource s
  rw [ofSource_eq_scan, Layout.scan_eq (Layout.wellFormed_ofSource s) (by rwa [htext]), htext]

/-! ## Beyond the range of the counter -/

namespace Layout

/-- Beyond the range, the scan of a row of parts stops at the line feed that is one too many. -/
theorem scanParts_overflow {line : Count} {oc : Option Text} {ps : List Part}
    (hps : Part.AllFit ps (oc.getD []))
    (hline : UInt64.size ≤ line.toNat + (Part.texts ps ++ oc.getD []).newlines) :
    (scanParts oc line ps).line = Count.last ∧ (scanParts oc line ps).ending = .overflow := by
  induction ps generalizing line with
  | nil =>
    cases oc with
    | none =>
      -- nothing is left to count, but the counter is in its range
      have := line.toNat_lt
      rw [Part.texts_nil, Option.getD_none, List.append_nil, Text.newlines_nil] at hline
      exact absurd hline (by simp only [UInt64.size]; omega)
    | some t =>
      have hnone : Count.plus? line t.newlines = none := Count.plus?_eq_none_iff.2 hline
      rw [scanParts, Scan.place, hnone]
      exact ⟨rfl, rfl⟩
  | cons p ps ih =>
    obtain ⟨hp, hps⟩ := hps
    simp only [Part.texts_cons, Text.newlines_append, hp.lexeme.newlines_eq_zero] at hline
    rw [scanParts, Scan.advance]
    cases hnext : Count.plus? line p.gap.newlines with
    | none => exact ⟨rfl, rfl⟩
    | some next =>
      have htoNat := Count.plus?_eq_some_iff.1 hnext
      refine ih hps ?_
      rw [Text.newlines_append, htoNat, Gap.newlines]
      omega

/-- A text with more line feeds than the counter can count stops at the last line. The line feed
that is too many may be in a gap or in the open comment. -/
theorem scan_overflow {line : Count} {d : Layout} (hd : d.WellFormed)
    (hline : UInt64.size ≤ line.toNat + d.text.newlines) :
    (d.scan line).line = Count.last ∧ (d.scan line).ending = .overflow := by
  rw [text, front, List.append_assoc, Text.newlines_append] at hline
  rw [scan, Scan.advance]
  cases hnext : Count.plus? line d.lead.newlines with
  | none => exact ⟨rfl, rfl⟩
  | some next =>
    have htoNat := Count.plus?_eq_some_iff.1 hnext
    refine scanParts_overflow hd.parts ?_
    rw [htoNat, Gap.newlines]
    omega

end Layout

/-- **Overflow.** The counter stops at its last value, wherever in the source that is. -/
theorem Scan.ofSource_overflow {line : Count} {s : Text}
    (hline : UInt64.size ≤ line.toNat + s.newlines) :
    (ofSource line s).line = Count.last ∧ (ofSource line s).ending = .overflow := by
  rw [ofSource_eq_scan]
  exact Layout.scan_overflow (Layout.wellFormed_ofSource s) (by rwa [Layout.text_ofSource])

end CMinusFrontEnd
