import CMinusFrontEnd.Proofs.Seam

/-!
# Text behind a source

What becomes of the tokens of a source when more text follows it. The last token can change, since
its lexeme may go on, or may turn out to open a comment. The tokens before it cannot: each of their
lexemes has ended before a character of the source itself, and that character stays where it is.
Where a gap or an open comment stands behind the last lexeme, this is true of all tokens.

So a source is cut into parts that are settled and an end that is not. The end is empty, or the
comment that is never closed, or the last lexeme (`Scan.ofSource_settled`). The main statement is
`Scan.found_isPrefix_append`; it does not ask whether the scans come to the end of their sources.
-/

namespace CMinusFrontEnd

/-- Whether a source ends directly with its last lexeme: it is derived by a layout, and neither a
blank nor a comment stands behind the last lexeme there. -/
def EndsInLexeme (s : Text) : Prop :=
  ∃ d : Layout, d.Derives s ∧ ∃ p ∈ d.parts.getLast?, p.gap = []

/-! ## Parts that are settled -/

namespace Part

/-- Parts that can stand in front of a text that is not empty can stand in front of it whatever
follows. -/
theorem AllFit.append_right {ps : List Part} {rest : Text} (h : AllFit ps rest) (hr : rest ≠ [])
    (more : Text) : AllFit ps (rest ++ more) := by
  induction ps with
  | nil => trivial
  | cons p ps ih =>
    obtain ⟨⟨hl, hg, he⟩, hps⟩ := h
    refine ⟨⟨hl, hg, ?_⟩, ih hps⟩
    have hne : p.gap.text ++ (texts ps ++ rest) ≠ [] := by
      rw [← List.append_assoc]
      exact List.append_ne_nil_of_right_ne_nil _ hr
    rw [← List.append_assoc (texts ps), ← List.append_assoc p.gap.text]
    exact he.append hne more

theorem texts_singleton (p : Part) : texts [p] = p.text := List.append_nil _

/-- All parts but the last one stand in front of its text. So the last part may be taken away from
the others, to be scanned again with more text behind it. -/
theorem AllFit.of_concat {ps : List Part} {p : Part} {rest : Text}
    (h : AllFit (ps ++ [p]) rest) : AllFit ps (p.text ++ rest) ∧ p.Fits rest := by
  induction ps with
  | nil => exact ⟨trivial, h.1⟩
  | cons q ps ih =>
    rw [List.cons_append] at h
    obtain ⟨hq, hps⟩ := h
    obtain ⟨hfit, hp⟩ := ih hps
    rw [texts_append, texts_singleton, List.append_assoc] at hq
    exact ⟨⟨hq, hfit⟩, hp⟩

end Part

namespace Scan

/-! ## The tokens of two scans in turn -/

/-- Whatever comes behind a scan, its tokens come first. -/
theorem found_isPrefix_andThen (s : Scan) (next : Count → Scan) :
    s.found <+: (s.andThen next).found := by
  obtain ⟨found, line, ending⟩ := s
  cases ending with
  | finished => exact List.prefix_append found _
  | _ => exact List.prefix_refl found

theorem found_andThen_of_nil {s : Scan} {next : Count → Scan} (h : ∀ l, (next l).found = []) :
    (s.andThen next).found = s.found := by
  obtain ⟨found, line, ending⟩ := s
  cases ending with
  | finished => rw [andThen, h, List.append_nil]
  | _ => rfl

/-- If the second scan adds a single token, then all but the last one are of the first. -/
theorem dropLast_found_andThen {s : Scan} {next : Count → Scan} {t : Count → Token}
    (h : ∀ l, (next l).found = [t l]) : (s.andThen next).found.dropLast <+: s.found := by
  obtain ⟨found, line, ending⟩ := s
  cases ending with
  | finished =>
    refine ⟨[], ?_⟩
    rw [andThen, h, List.dropLast_concat, List.append_nil]
  | _ => exact List.dropLast_prefix found

/-! ## Settled tokens -/

/-- A source with a gap and parts at its front that can stand before the rest: they are scanned
first, and then the rest from where the counter stopped. -/
theorem ofSource_settled {g : Gap} {ps : List Part} {rest : Text} (hg : g.IsValid)
    (hps : Part.AllFit ps rest) (line : Count) :
    ofSource line (g.text ++ (Part.texts ps ++ rest)) =
      ((⟨g, ps, none⟩ : Layout).scan line).andThen fun next => ofSource next rest := by
  rw [ofSource_gap hg, Layout.scan, advance_andThen]
  simp only [ofSource_texts hps]

theorem found_ofSource_nil (line : Count) : (ofSource line []).found = [] := by
  rw [ofSource, dissect_nil]
  rfl

/-- There is no token in a comment that stays open. -/
theorem found_ofSource_openComment {t : Text} (ht : ¬commentEnd <:+: t) (line : Count) :
    (ofSource line ('/' :: '*' :: t)).found = [] := by
  rw [ofSource_eq_scan, Layout.ofSource_openComment ht, Layout.scan, Gap.newlines_nil,
    advance_zero, Layout.scanParts, place]
  cases Count.plus? line (Text.newlines ('/' :: '*' :: t)) <;> rfl

theorem found_ofSource_lexeme {k : Kind} {t : Text} (ht : IsLexeme k t) (line : Count) :
    (ofSource line t).found = [⟨k, t, line⟩] := by
  have hlexeme := ofSource_lexeme ht (endsBefore_nil k t) line
  rw [List.append_nil] at hlexeme
  rw [hlexeme, cons, found_ofSource_nil]

/-- What is found in settled parts is found in every source that begins with them and with the text
that settles them. -/
theorem found_isPrefix_of_settled {g : Gap} {ps : List Part} {a rest : Text} (hg : g.IsValid)
    (hps : Part.AllFit ps rest) (hrest : rest ≠ []) (ha : a = g.text ++ (Part.texts ps ++ rest))
    (line : Count) (b : Text) :
    ((⟨g, ps, none⟩ : Layout).scan line).found <+: (ofSource line (a ++ b)).found := by
  rw [ha, List.append_assoc, List.append_assoc, ofSource_settled hg (hps.append_right hrest b)]
  exact found_isPrefix_andThen _ _

/-- Behind an open comment nothing that has been found can change. More text may close the comment,
and then tokens are added. -/
theorem found_isPrefix_of_openComment {a t : Text} (h : (Layout.ofSource a).openComment = some t)
    (line : Count) (b : Text) : (ofSource line a).found <+: (ofSource line (a ++ b)).found := by
  have hw := Layout.wellFormed_ofSource a
  obtain ⟨r, rfl, hr⟩ := hw.openComment t h
  have hparts := hw.parts
  rw [h, Option.getD_some] at hparts
  have ha : a = (Layout.ofSource a).lead.text ++
      (Part.texts (Layout.ofSource a).parts ++ '/' :: '*' :: r) := by
    conv_lhs => rw [← Layout.text_ofSource a, Layout.text, h, Layout.front, List.append_assoc]
    rfl
  -- the opening of the comment settles all parts, and no token stands behind it
  have hfound : (ofSource line a).found =
      ((⟨(Layout.ofSource a).lead, (Layout.ofSource a).parts, none⟩ : Layout).scan line).found := by
    conv_lhs => rw [ha, ofSource_settled hw.lead hparts]
    exact found_andThen_of_nil (found_ofSource_openComment hr)
  rw [hfound]
  exact found_isPrefix_of_settled hw.lead hparts (List.cons_ne_nil _ _) ha line b

/-- Behind a gap nothing that has been found can change, since there is no lexeme at the end that
could become longer. -/
theorem found_isPrefix_of_not_endsInLexeme {a : Text}
    (h : (Layout.ofSource a).openComment = none) (hgap : ¬EndsInLexeme a) (line : Count) (b : Text) :
    (ofSource line a).found <+: (ofSource line (a ++ b)).found := by
  have hd := Layout.derives_ofSource h
  have hglue : ¬Glues a b := by
    rintro ⟨p, hp, hnone, -⟩
    exact hgap ⟨_, hd, p, hp, hnone⟩
  rw [ofSource_append_of_derives hd hglue]
  exact found_isPrefix_andThen _ _

/-- Before the last lexeme nothing that has been found can change. The last one itself may become
longer, and a slash may open a comment. -/
theorem dropLast_found_isPrefix {a : Text} (h : EndsInLexeme a) (line : Count) (b : Text) :
    (ofSource line a).found.dropLast <+: (ofSource line (a ++ b)).found := by
  obtain ⟨d, hd, p, hp, hgap⟩ := h
  obtain ⟨ps, hps⟩ := List.getLast?_eq_some_iff.1 hp
  have hfit := hd.allFit
  rw [hps] at hfit
  obtain ⟨hbefore, hl, -⟩ := hfit.of_concat
  have htext : p.text = p.spelling := by
    rw [Part.text, hgap, Gap.text_nil, List.append_nil]
  rw [List.append_nil, htext] at hbefore
  have ha : a = d.lead.text ++ (Part.texts ps ++ p.spelling) := by
    conv_lhs => rw [← hd.front_eq, Layout.front, hps, Part.texts_append, Part.texts_singleton, htext]
  -- the last lexeme settles the parts before it, but not itself
  have hfound : (ofSource line a).found.dropLast <+:
      ((⟨d.lead, ps, none⟩ : Layout).scan line).found := by
    rw [ha, ofSource_settled hd.wellFormed.lead hbefore]
    exact dropLast_found_andThen (found_ofSource_lexeme hl)
  exact hfound.trans (found_isPrefix_of_settled hd.wellFormed.lead hbefore hl.ne_nil ha line b)

/-- Only a source with an open comment breaks off in one. An overflow before it would have been
another ending. -/
theorem exists_openComment_of_unterminated {line start : Count} {s : Text}
    (h : (ofSource line s).ending = .unterminated start) :
    ∃ t, (Layout.ofSource s).openComment = some t := by
  by_cases hline : line.toNat + s.newlines < UInt64.size
  · rw [ofSource_eq hline] at h
    cases hoc : (Layout.ofSource s).openComment with
    | some t => exact ⟨t, rfl⟩
    | none =>
      rw [hoc] at h
      cases h
  · obtain ⟨-, hend⟩ := ofSource_overflow (Nat.not_lt.1 hline)
    rw [hend] at h
    cases h

/-- **Later text never changes earlier tokens.** If a source breaks off in a comment, or does not end
directly with its last lexeme, then all its tokens, with their lines, are found first in every
source that begins with it. In every case this is true of all tokens but the last one. Both scans may
end in any way. -/
theorem found_isPrefix_append (line : Count) (a b : Text) :
    ((∃ start, (ofSource line a).ending = .unterminated start) ∨ ¬EndsInLexeme a →
      (ofSource line a).found <+: (ofSource line (a ++ b)).found) ∧
    (ofSource line a).found.dropLast <+: (ofSource line (a ++ b)).found := by
  have hopen : (∃ t, (Layout.ofSource a).openComment = some t) →
      (ofSource line a).found <+: (ofSource line (a ++ b)).found := by
    rintro ⟨t, ht⟩
    exact found_isPrefix_of_openComment ht line b
  have hall : (∃ start, (ofSource line a).ending = .unterminated start) ∨ ¬EndsInLexeme a →
      (ofSource line a).found <+: (ofSource line (a ++ b)).found := by
    rintro (⟨start, hstart⟩ | hgap)
    · exact hopen (exists_openComment_of_unterminated hstart)
    · cases hoc : (Layout.ofSource a).openComment with
      | some t => exact hopen ⟨t, hoc⟩
      | none => exact found_isPrefix_of_not_endsInLexeme hoc hgap line b
  refine ⟨hall, ?_⟩
  by_cases hlexeme : EndsInLexeme a
  · exact dropLast_found_isPrefix hlexeme line b
  · exact (List.dropLast_prefix _).trans (hall (.inr hlexeme))

/-- A slash at the end is a token until a star follows it, and what comes before it stays. -/
theorem found_isPrefix_append_slash :
    (∃ start, (ofSource 1 ['7', '/', '*']).ending = .unterminated start) ∧
    (ofSource 1 ['7', '/', '*']).found <+:
      (ofSource 1 (['7', '/', '*'] ++ ['*', '/', 'x'])).found ∧
    (ofSource 1 ['7', '/']).found.dropLast = [⟨.number, ['7'], 1⟩] ∧
    (ofSource 1 ['7', '/']).found.dropLast <+: (ofSource 1 (['7', '/'] ++ ['*'])).found ∧
    ¬(ofSource 1 ['7', '/']).found <+: (ofSource 1 (['7', '/'] ++ ['*'])).found := by
  have hopen : (ofSource 1 ['7', '/', '*']).ending = .unterminated 1 := by decide +kernel
  exact ⟨⟨1, hopen⟩, (found_isPrefix_append 1 _ _).1 (.inl ⟨1, hopen⟩), by decide +kernel,
    (found_isPrefix_append 1 _ _).2, by decide +kernel⟩

end Scan

end CMinusFrontEnd
