import CMinusFrontEnd.Journal
import CMinusFrontEnd.Proofs.Grammar

/-!
# Comments that are never closed

When scanning fails. There is only one reason: behind a text that can be scanned a comment opens
and no `*/` follows. The main statement is `Scan.error_iff_breaksOff`. It says as well that the
place is unique, where the error points, where the counter stops, and that everything before the
comment has been scanned as if the source ended there.

Whether a `/*` opens a comment depends on all of the text before it, as in `//*`, `*/*` or
`/* /*`. In terms of layouts this is no difficulty: the text before the comment has a layout
without an open comment, and adding the open one gives the layout of the source.
-/

namespace CMinusFrontEnd

/-- Whether a source breaks off in a comment: it opens behind the text `front`, which can be
scanned, and in the text `rest` behind the opening it is not closed. -/
structure Scan.BreaksOff (line : Count) (source front rest : Text) : Prop where
  /-- the comment opens between the two texts -/
  text : source = front ++ '/' :: '*' :: rest
  /-- what stands before the comment can be scanned -/
  scanned : ∃ ts, (ofSource line front).tokens = .ok ts
  /-- the comment is not closed -/
  unclosed : ¬commentEnd <:+: rest

namespace Layout

/-- The layout of a source that ends where the comment opens. -/
theorem WellFormed.shut {d : Layout} (hd : d.WellFormed) :
    Derives { d with openComment := none } d.front := by
  refine ⟨⟨hd.lead, hd.parts.alone, ?_⟩, rfl, List.append_nil _⟩
  intro t ht
  cases ht

/-- The layout of a source with an open comment at its end. The comment goes behind whatever gap
there is, and it changes no lexeme in front of it. -/
theorem Derives.open {d : Layout} {s t : Text} (hd : d.Derives s) (ht : ¬commentEnd <:+: t) :
    ofSource (s ++ '/' :: '*' :: t) = { d with openComment := some ('/' :: '*' :: t) } := by
  refine ofSource_eq_iff.2 ⟨⟨hd.wellFormed.lead, ?_, ?_⟩, ?_⟩
  · apply hd.allFit.append
    intro p _ _
    exact endsBefore_cons.2 (p.kind.absorbs_slash p.spelling)
  · rintro r ⟨⟩
    exact ⟨t, rfl, ht⟩
  · conv_rhs => rw [← hd.front_eq]
    rfl

end Layout

namespace Scan

/-- The layout of the text before the comment is that of the source without the comment. This
determines where the comment starts. -/
theorem BreaksOff.layout {line : Count} {s p r : Text} (h : BreaksOff line s p r) :
    (Layout.ofSource p).Derives p ∧
      Layout.ofSource s = { Layout.ofSource p with openComment := some ('/' :: '*' :: r) } := by
  obtain ⟨htext, ⟨ts, hts⟩, hr⟩ := h
  have hp := (derives_of_finished (tokens_eq_ok_iff_finished.1 hts).1).1
  exact ⟨hp, htext ▸ hp.open hr⟩

/-- The place where a scan breaks off is where the layout has its open comment. -/
theorem BreaksOff.front_eq {line : Count} {s p r : Text} (h : BreaksOff line s p r) :
    p = (Layout.ofSource s).front := by
  obtain ⟨hp, hs⟩ := h.layout
  rw [hs]
  exact hp.front_eq.symm

/-- What stands before the comment has no more line feeds than the source. -/
theorem BreaksOff.front_lt {line : Count} {s p r : Text} (h : BreaksOff line s p r)
    (hline : line.toNat + s.newlines < UInt64.size) :
    line.toNat + p.newlines < UInt64.size := by
  rw [h.text, Text.newlines_append] at hline
  omega

/-- A scan that does not come to the end of its source has stopped in such a comment, as long as the
lines can be counted. -/
theorem breaksOff_of_error {line : Count} {s : Text} {f : Failure}
    (hline : line.toNat + s.newlines < UInt64.size) (h : (ofSource line s).tokens = .error f) :
    ∃ p r, BreaksOff line s p r := by
  have hw := Layout.wellFormed_ofSource s
  cases hoc : (Layout.ofSource s).openComment with
  | none =>
    rw [(Layout.derives_ofSource hoc).ofSource_eq hline] at h
    cases h
  | some t =>
    obtain ⟨r, rfl, hr⟩ := hw.openComment t hoc
    have htext : s = (Layout.ofSource s).front ++ '/' :: '*' :: r := by
      conv_lhs => rw [← Layout.text_ofSource s, Layout.text, hoc]
      rfl
    have hfront : line.toNat + (Layout.ofSource s).front.newlines < UInt64.size := by
      rw [htext, Text.newlines_append] at hline
      omega
    refine ⟨_, r, htext, ?_, hr⟩
    rw [hw.shut.ofSource_eq hfront]
    exact ⟨_, rfl⟩

/-- What is left behind by a scan that breaks off: the tokens before the comment, the line at the
end of the source, and the line where the comment starts. -/
theorem BreaksOff.ofSource_eq {line : Count} {s p r : Text} (h : BreaksOff line s p r)
    (hline : line.toNat + s.newlines < UInt64.size) :
    ofSource line s =
      ⟨(ofSource line p).found, line.after s, .unterminated (line.after p)⟩ := by
  obtain ⟨hp, hs⟩ := h.layout
  rw [Scan.ofSource_eq hline, ← h.front_eq, hp.ofSource_eq (h.front_lt hline), hs]
  rfl

/-- **Comments that are never closed.** Scanning fails if and only if behind a text that can be
scanned a comment opens that is not closed. That text is unique. The error names the line that it
ends on, the counter takes in all line feeds of the source, and the tokens found and reported are
those of that text, without the end of the source. Beyond the range of the counter there is still
no other error. -/
theorem error_iff_breaksOff (line : Count) (s : Text) :
    (line.toNat + s.newlines < UInt64.size →
      ((∃ f, (ofSource line s).tokens = .error f) ↔ ∃ p r, BreaksOff line s p r) ∧
      (∀ p p' r r', BreaksOff line s p r → BreaksOff line s p' r' → p = p') ∧
      ∀ p r, BreaksOff line s p r →
        (ofSource line s).tokens = .error (.error (.unterminatedComment (line.after p))) ∧
        (ofSource line s).line = line.after s ∧
        (ofSource line p).tokens = .ok ((ofSource line s).found ++ [.endFile (line.after p)]) ∧
        (ofSource line s).events = (ofSource line s).found.map .tokenFound) ∧
    ∀ e, (ofSource line s).tokens = .error (.error e) →
      ∃ start, e = .unterminatedComment start := by
  constructor
  · intro hline
    refine ⟨?_, ?_, ?_⟩
    · constructor
      · rintro ⟨f, hf⟩
        exact breaksOff_of_error hline hf
      · rintro ⟨p, r, h⟩
        rw [h.ofSource_eq hline]
        exact ⟨_, rfl⟩
    · intro p p' r r' h h'
      rw [h.front_eq, h'.front_eq]
    · intro p r h
      obtain ⟨hp, -⟩ := h.layout
      rw [h.ofSource_eq hline]
      refine ⟨rfl, rfl, ?_, List.append_nil _⟩
      rw [hp.ofSource_eq (h.front_lt hline)]
      rfl
  · intro e he
    cases hend : (ofSource line s).ending with
    | unterminated start =>
      rw [tokens, failure?, hend] at he
      cases he
      exact ⟨start, rfl⟩
    -- at the end of the source there is no error, and an overflow is a fault
    | _ =>
      rw [tokens, failure?, hend] at he
      cases he

/-- Of two slashes in front of a star the first one is a token, and the slash behind the star does
not close the comment that the second one opens. -/
theorem error_iff_breaksOff_slashes :
    (1 : Count).toNat + Text.newlines ['x', '/', '/', '*', '/', '\n'] < UInt64.size ∧
    BreaksOff 1 ['x', '/', '/', '*', '/', '\n'] ['x', '/'] ['/', '\n'] ∧
    (ofSource 1 ['x', '/', '/', '*', '/', '\n']).tokens =
      .error (.error (.unterminatedComment 1)) ∧
    (ofSource 1 ['x', '/', '/', '*', '/', '\n']).line = 2 := by
  have hline : (1 : Count).toNat + Text.newlines ['x', '/', '/', '*', '/', '\n'] < UInt64.size := by
    decide
  have hfront : (ofSource 1 ['x', '/']).tokens =
      .ok [⟨.identifier, ['x'], 1⟩, ⟨.symbol .slash, ['/'], 1⟩, .endFile 1] := by decide +kernel
  have h : BreaksOff 1 ['x', '/', '/', '*', '/', '\n'] ['x', '/'] ['/', '\n'] :=
    ⟨rfl, ⟨_, hfront⟩, by decide⟩
  obtain ⟨htokens, hend, -⟩ := ((error_iff_breaksOff 1 _).1 hline).2.2 _ _ h
  exact ⟨hline, h, htokens, hend⟩

end Scan

end CMinusFrontEnd
