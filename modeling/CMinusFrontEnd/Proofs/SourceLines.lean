import CMinusFrontEnd.Proofs.Grammar

/-!
# Lexemes on their lines

The scanner counts line feeds, a listing shows lines; here the two are brought together.

* `Text.length_lines` says how many lines a text with so many line feeds has.
* `Token.BelongTo` says what it means that tokens belong to a text: their lines do not decrease, and
  on each line of the text the lexemes of its tokens stand one after the other. It is built up from
  the right, one character or one lexeme at a time, and `Layout.Derives.belongTo` concludes that the
  tokens of a source belong to it.

Only one thing has to be known of lexemes: there is no blank in them, so no line end.
-/

namespace CMinusFrontEnd

/-! ## Lines of a text -/

namespace Text

/-- The line with this number, counted from zero; empty if there is none. -/
def lineAt (t : Text) (k : Nat) : Text := t.lines.getD k []

theorem lineAt_of_length_le {t : Text} {k : Nat} (h : t.lines.length ≤ k) : t.lineAt k = [] := by
  rw [lineAt, List.getD_eq_getElem?_getD, List.getElem?_eq_none h, Option.getD_none]

theorem lineAt_of_mem_zipIdx {t line : Text} {i n : Nat} (h : (line, i) ∈ t.lines.zipIdx n) :
    t.lineAt (i - n) = line := by
  obtain ⟨hle, hlt, hline⟩ := List.mem_zipIdx h
  rw [lineAt, List.getD_eq_getElem?_getD, List.getElem?_eq_getElem (by omega), Option.getD_some]
  exact hline.symm

@[simp] theorem lineAt_newline_zero (t : Text) : lineAt ('\n' :: t) 0 = [] := by
  rw [lineAt, lines_newline, List.getD_cons_zero]

/-- A line feed at the start moves all lines down by one. -/
@[simp] theorem lineAt_newline_succ (t : Text) (k : Nat) :
    lineAt ('\n' :: t) (k + 1) = t.lineAt k := by
  rw [lineAt, lines_newline, List.getD_cons_succ, lineAt]

/-- A character that is no line feed belongs to the first line or to the end of that line, which is
not shown if it is a carriage return. -/
theorem lines_cons_of_ne {c : Char} (hc : c ≠ '\n') (t : Text) :
    lines (c :: t) = (c :: t.lineAt 0) :: (lines t).tail ∨
      (lines t ≠ [] ∧ lines (c :: t) = lines t) := by
  by_cases hr : c = '\r' ∧ t.head? = some '\n'
  · obtain ⟨rfl, ht⟩ := hr
    obtain ⟨rest, rfl⟩ := List.head?_eq_some_iff.1 ht
    right
    rw [lines_newline, lines_return_newline]
    exact ⟨List.cons_ne_nil _ _, rfl⟩
  · left
    rw [lines_cons hc fun h h' => hr ⟨h, h'⟩, lineAt]
    cases t.lines <;> rfl

/-- A text without lines is empty. A line feed alone is an empty line. -/
theorem lines_eq_nil_iff {t : Text} : t.lines = [] ↔ t = [] := by
  constructor
  · intro h
    cases t with
    | nil => rfl
    | cons c t =>
      by_cases hc : c = '\n'
      · rw [hc, lines_newline] at h
        cases h
      · rcases lines_cons_of_ne hc t with hl | ⟨hn, hl⟩
        · rw [hl] at h
          cases h
        · rw [hl] at h
          exact absurd h hn
  · rintro rfl
    rfl

/-- A character at the start goes to the first line, or is left out of it if it is the carriage
return in front of a line feed. -/
theorem lineAt_cons_zero {c : Char} (hc : c ≠ '\n') (t : Text) :
    ∃ w, lineAt (c :: t) 0 = w ++ t.lineAt 0 := by
  rcases lines_cons_of_ne hc t with h | ⟨-, h⟩
  · exact ⟨[c], by rw [lineAt, h]; rfl⟩
  · exact ⟨[], by rw [lineAt, h]; rfl⟩

/-- A character at the start has no effect on the other lines. -/
theorem lineAt_cons_succ {c : Char} (hc : c ≠ '\n') (t : Text) (k : Nat) :
    lineAt (c :: t) (k + 1) = t.lineAt (k + 1) := by
  rcases lines_cons_of_ne hc t with h | ⟨-, h⟩
  · rw [lineAt, h, List.getD_cons_succ, lineAt]
    cases lines t <;> simp
  · rw [lineAt, h, lineAt]

/-- Text without blanks stands at the front of the first line. There is no carriage return in it
that could be taken off the line. -/
theorem lineAt_append {w : Text} (hw : ∀ c ∈ w, isBlank c = false) (t : Text) :
    lineAt (w ++ t) 0 = w ++ t.lineAt 0 ∧ ∀ k, lineAt (w ++ t) (k + 1) = t.lineAt (k + 1) := by
  induction w with
  | nil => exact ⟨rfl, fun _ => rfl⟩
  | cons c w ih =>
    have hc := hw c List.mem_cons_self
    have hn : c ≠ '\n' := by
      rintro rfl
      exact absurd hc (by decide)
    have hr : c ≠ '\r' := by
      rintro rfl
      exact absurd hc (by decide)
    obtain ⟨hzero, hsucc⟩ := ih fun d hd => hw d (List.mem_cons_of_mem c hd)
    constructor
    · rw [List.cons_append, List.cons_append, ← hzero, lineAt,
        lines_cons hn fun h => absurd h hr, lineAt]
      cases lines (w ++ t) <;> rfl
    · intro k
      rw [List.cons_append, lineAt_cons_succ hn, hsucc]

/-- **Lines and line feeds.** Every line feed ends a line, and what follows the last one is one
more line unless it is empty. -/
theorem length_lines (t : Text) :
    t.lines.length + (if t = [] ∨ t.getLast? = some '\n' then 1 else 0) = t.newlines + 1 := by
  induction t with
  | nil => rfl
  | cons c t ih =>
    by_cases hc : c = '\n'
    · have hlast : (c :: t).getLast? = some '\n' ↔ t = [] ∨ t.getLast? = some '\n' := by
        cases t <;> simp [hc]
      simp only [hc, lines_newline, newlines_cons] at hlast ⊢
      simp only [hlast, List.length_cons, reduceCtorEq, false_or, if_true]
      omega
    · by_cases ht : t = []
      · subst ht
        rcases lines_cons_of_ne hc [] with h | ⟨h, -⟩
        · simp [h, hc, newlines_cons]
        · exact absurd rfl h
      · -- the character joins the first line, for there is one already
        have hpos := List.length_pos_iff.2 fun h => ht (lines_eq_nil_iff.1 h)
        have hlen : (lines (c :: t)).length = (lines t).length := by
          rcases lines_cons_of_ne hc t with h | ⟨-, h⟩
          · rw [h, List.length_cons, List.length_tail]
            omega
          · rw [h]
        have hlast : (c :: t).getLast? = t.getLast? := by
          rw [List.getLast?_cons, List.getLast?_eq_some_getLast ht]
          rfl
        simp only [hlen, hlast, newlines_cons, hc, reduceCtorEq, false_or, ht, if_false] at ih ⊢
        exact ih

/-! ## Texts that occur in a text -/

/-- Whether texts occur in a text from left to right, none of them overlapping the next one. -/
def OccurIn : List Text → Text → Prop
  | [], _ => True
  | l :: ls, t => ∃ before rest, t = before ++ l ++ rest ∧ OccurIn ls rest

theorem OccurIn.behind {ls : List Text} {t : Text} (h : OccurIn ls t) (w : Text) :
    OccurIn ls (w ++ t) := by
  cases ls with
  | nil => trivial
  | cons l ls =>
    obtain ⟨before, rest, rfl, hls⟩ := h
    exact ⟨w ++ before, rest, by simp only [List.append_assoc], hls⟩

/-- Only the empty text occurs in an empty one. -/
theorem OccurIn.eq_nil {ls : List Text} (h : OccurIn ls []) : ∀ l ∈ ls, l = [] := by
  induction ls with
  | nil =>
    intro l hl
    cases hl
  | cons l ls ih =>
    obtain ⟨before, rest, hnil, hls⟩ := h
    obtain ⟨hfront, rfl⟩ := List.append_eq_nil_iff.1 hnil.symm
    intro m hm
    rcases List.mem_cons.1 hm with rfl | hm
    · exact (List.append_eq_nil_iff.1 hfront).2
    · exact ih hls m hm

end Text

/-! ## Tokens of a text -/

/-- The tokens that stand on a line. -/
def tokensOn (ts : List Token) (number : Nat) : List Token :=
  ts.filter fun t => t.line.toNat = number

theorem tokensOn_eq_nil {ts : List Token} {number : Nat}
    (h : ∀ t ∈ ts, number < t.line.toNat) : tokensOn ts number = [] := by
  apply List.filter_eq_nil_iff.2
  intro t ht
  have := h t ht
  simp only [decide_eq_true_eq]
  omega

/-- Whether tokens belong to a text whose first line has the number `number`. -/
structure Token.BelongTo (number : Nat) (t : Text) (ts : List Token) : Prop where
  /-- no token stands before the text -/
  le : ∀ token ∈ ts, number ≤ token.line.toNat
  /-- a token does not stand before the one in front of it -/
  sorted : ts.Pairwise fun x y => x.line.toNat ≤ y.line.toNat
  /-- the lexemes of the tokens on a line occur in that line -/
  occur : ∀ k, Text.OccurIn ((tokensOn ts (number + k)).map Token.lexeme) (t.lineAt k)

namespace Token

/-- Tokens still belong to a source with a character in front of it, unless this is a line feed. -/
theorem BelongTo.cons {number : Nat} {t : Text} {ts : List Token} (h : BelongTo number t ts)
    {c : Char} (hc : c ≠ '\n') : BelongTo number (c :: t) ts := by
  refine ⟨h.le, h.sorted, ?_⟩
  intro k
  cases k with
  | zero =>
    obtain ⟨w, hw⟩ := Text.lineAt_cons_zero hc t
    rw [hw]
    exact (h.occur 0).behind w
  | succ k =>
    rw [Text.lineAt_cons_succ hc]
    exact h.occur (k + 1)

/-- Behind a line feed all tokens stand beyond the line that it ends. So the line that it ends has
no tokens. -/
theorem BelongTo.newline {number : Nat} {t : Text} {ts : List Token}
    (h : BelongTo (number + 1) t ts) : BelongTo number ('\n' :: t) ts := by
  refine ⟨fun token ht => Nat.le_of_succ_le (h.le token ht), h.sorted, ?_⟩
  intro k
  cases k with
  | zero =>
    rw [Nat.add_zero, tokensOn_eq_nil h.le]
    trivial
  | succ k =>
    have hk := h.occur k
    rw [Nat.add_assoc, Nat.add_comm 1 k] at hk
    rw [Text.lineAt_newline_succ]
    exact hk

/-- With text in front of it, the tokens of a source are as many lines further down as the text has
line feeds. -/
theorem BelongTo.append {number : Nat} {t : Text} {ts : List Token} {w : Text}
    (h : BelongTo (number + w.newlines) t ts) : BelongTo number (w ++ t) ts := by
  induction w generalizing number with
  | nil => exact h
  | cons c w ih =>
    by_cases hc : c = '\n'
    · subst hc
      rw [Text.newlines_cons, if_pos rfl, Nat.add_comm (Text.newlines w), ← Nat.add_assoc] at h
      exact (ih h).newline
    · rw [Text.newlines_cons, if_neg hc, Nat.add_zero] at h
      exact (ih h).cons hc

/-- A lexeme in front of a text is the first one on the first line. The lexemes that were there
before occur behind it, and so no two of them overlap. -/
theorem BelongTo.lexeme {number : Nat} {t : Text} {ts : List Token} (h : BelongTo number t ts)
    {token : Token} (hline : token.line.toNat = number)
    (hw : ∀ c ∈ token.lexeme, isBlank c = false) :
    BelongTo number (token.lexeme ++ t) (token :: ts) := by
  obtain ⟨hzero, hsucc⟩ := Text.lineAt_append hw t
  refine ⟨?_, List.pairwise_cons.2 ⟨fun x hx => hline ▸ h.le x hx, h.sorted⟩, ?_⟩
  · intro x hx
    rcases List.mem_cons.1 hx with rfl | hx
    · exact hline.ge
    · exact h.le x hx
  · intro k
    cases k with
    | zero =>
      have hfilter : tokensOn (token :: ts) (number + 0) = token :: tokensOn ts (number + 0) :=
        List.filter_cons_of_pos (by simp [hline])
      rw [hfilter, hzero]
      exact ⟨[], _, rfl, h.occur 0⟩
    | succ k =>
      have hfilter : tokensOn (token :: ts) (number + (k + 1)) = tokensOn ts (number + (k + 1)) :=
        List.filter_cons_of_neg (by simp [hline])
      rw [hfilter, hsucc]
      exact h.occur (k + 1)

/-- The token for the end of the source has an empty lexeme, which occurs in any line. -/
theorem belongTo_endFile (line : Count) : BelongTo line.toNat [] [.endFile line] := by
  refine ⟨List.forall_mem_singleton.2 (Nat.le_refl _), List.pairwise_singleton _ _, ?_⟩
  intro k
  cases k with
  | zero =>
    have hfilter : tokensOn [.endFile line] (line.toNat + 0) = [.endFile line] := by
      simp [tokensOn, Token.endFile]
    rw [hfilter]
    exact ⟨[], [], rfl, trivial⟩
  | succ k =>
    have hfilter : tokensOn [.endFile line] (line.toNat + (k + 1)) = [] := by
      simp [tokensOn, Token.endFile]
    rw [hfilter]
    trivial

end Token

/-! ## Tokens of a source -/

namespace Layout

/-- The tokens from a place in the source on belong to the source from there on. Shown from the
right: the parts behind a lexeme come before the lexeme. -/
theorem belongTo_tokensBehind {line : Count} {before : Text} {ps : List Part}
    (hps : Part.AllFit ps [])
    (hline : line.toNat + (before ++ Part.texts ps).newlines < UInt64.size) :
    Token.BelongTo (line.toNat + before.newlines) (Part.texts ps)
      (tokensBehind line before ps ++ [.endFile (line.after (before ++ Part.texts ps))]) := by
  induction ps generalizing before with
  | nil =>
    rw [Part.texts_nil, List.append_nil] at hline ⊢
    rw [← Count.toNat_after hline]
    exact Token.belongTo_endFile _
  | cons p ps ih =>
    obtain ⟨hp, hps⟩ := hps
    have hnone := hp.lexeme.newlines_eq_zero
    have htext : before ++ Part.texts (p :: ps) = before ++ p.text ++ Part.texts ps := by
      rw [Part.texts, List.flatMap_cons, ← List.append_assoc]
      rfl
    rw [htext] at hline ⊢
    have hrest := ih hps hline
    have hshort : line.toNat + before.newlines < UInt64.size := by
      simp only [Text.newlines_append] at hline
      omega
    -- the gap leads from the line of the lexeme to that of the rest
    have hgap : line.toNat + (before ++ p.text).newlines =
        line.toNat + before.newlines + p.gap.text.newlines := by
      rw [Part.text, Text.newlines_append, Text.newlines_append, hnone]
      omega
    rw [hgap] at hrest
    let token : Token := ⟨p.kind, p.spelling, line.after before⟩
    have hfirst : token.line.toNat = line.toNat + before.newlines := Count.toNat_after hshort
    rw [Part.texts_cons]
    exact hrest.append.lexeme hfirst fun c hc => hp.lexeme.isBlank_eq_false hc

/-- **Tokens are on their lines.** This is the same from the start of the source. -/
theorem Derives.belongTo {line : Count} {d : Layout} {s : Text} (hd : d.Derives s)
    (hline : line.toNat + s.newlines < UInt64.size) :
    Token.BelongTo line.toNat s (d.tokens line ++ [.endFile (line.after s)]) := by
  have hs : d.lead.text ++ Part.texts d.parts = s := hd.front_eq
  have hbehind := belongTo_tokensBehind hd.allFit (hs.symm ▸ hline)
  rw [hs] at hbehind
  have hlead := hbehind.append
  rwa [hs] at hlead

/-- The tokens of parts are lexemes of their kinds. -/
theorem isLexeme_of_mem_tokensBehind {line : Count} {before rest : Text} {ps : List Part}
    (hps : Part.AllFit ps rest) : ∀ t ∈ tokensBehind line before ps, IsLexeme t.kind t.lexeme := by
  induction ps generalizing before with
  | nil =>
    intro t ht
    cases ht
  | cons p ps ih =>
    obtain ⟨hp, hps⟩ := hps
    intro t ht
    rcases List.mem_cons.1 ht with rfl | ht
    · exact hp.lexeme
    · exact ih hps t ht

end Layout

/-- A token of a source that can be scanned is a lexeme of its kind, or it is the end of the source.
No other combinations of a kind and a text come out of a scan. -/
theorem Scan.isLexeme_of_mem_tokens {line : Count} {s : Text} {ts : List Token}
    (h : (ofSource line s).tokens = .ok ts) :
    ∀ t ∈ ts, IsLexeme t.kind t.lexeme ∨ t = .endFile t.line := by
  obtain ⟨hend, rfl⟩ := tokens_eq_ok_iff_finished.1 h
  obtain ⟨hd, hline⟩ := derives_of_finished hend
  rw [hd.ofSource_eq hline]
  intro t ht
  rcases List.mem_append.1 ht with ht | ht
  · exact .inl (Layout.isLexeme_of_mem_tokensBehind hd.allFit t ht)
  · obtain rfl := List.mem_singleton.1 ht
    exact .inr rfl

end CMinusFrontEnd
