import CMinusFrontEnd.Proofs.Grammar

/-!
# Other gaps

The scan of a source depends on its gaps only through their line feeds. If the gaps are changed so
that each one keeps its number of line feeds, and none between two lexemes is closed that was open,
then the scan is the same (`Scan.ofSource_respaced`). Two ways to change the gaps are of interest.

* `Layout.withoutComments` puts a space and the line feeds of its body in place of every comment.
* `Layout.linedUp` puts line feeds and one space in place of every gap. This is what writing out a
  token list gives (`Scan.writeOut_tokens`), so a token list that is written out and scanned is the
  same again, with its error tokens.
-/

namespace CMinusFrontEnd

/-! ## Changing the gaps -/

/-- Whether two lists of parts are the same lexemes with other gaps behind them. -/
inductive Part.Respaced : List Part → List Part → Prop where
  | nil : Respaced [] []
  /-- the gap keeps its line feeds, and if a lexeme follows it is not closed -/
  | cons {kind : Kind} {spelling : Text} {g g' : Gap} {ps ps' : List Part} (valid : g'.IsValid)
      (newlines : g'.newlines = g.newlines) (apart : ps ≠ [] → g ≠ [] → g' ≠ [])
      (rest : Respaced ps ps') : Respaced (⟨kind, spelling, g⟩ :: ps) (⟨kind, spelling, g'⟩ :: ps')

/-- Whether a layout without an open comment has the lexemes of another one, with other gaps. -/
structure Layout.Respaced (d e : Layout) : Prop where
  /-- the first gap is one -/
  valid : e.lead.IsValid
  /-- it keeps its line feeds -/
  newlines : e.lead.newlines = d.lead.newlines
  /-- so do the other gaps, and the lexemes are the same -/
  parts : Part.Respaced d.parts e.parts
  /-- every comment is closed -/
  closed : e.openComment = none

namespace Part

/-- The lexemes stay as long as they can be: an open gap separates them from all that follows, and
behind a closed gap the same lexeme follows as before. -/
theorem Respaced.allFit {ps ps' : List Part} (h : Respaced ps ps') (hps : AllFit ps []) :
    AllFit ps' [] := by
  induction h with
  | nil => trivial
  | @cons k t g g' ps ps' hg' _ hapart hrest ih =>
    obtain ⟨⟨hl, -, he⟩, hps⟩ := hps
    refine ⟨⟨hl, hg', ?_⟩, ih hps⟩
    by_cases hopen : g' = []
    · subst hopen
      cases hrest with
      | nil => exact endsBefore_nil k t
      | @cons k₂ t₂ g₂ g₂' ps ps' =>
        have hg : g = [] := by
          by_contra hg
          exact hapart (List.cons_ne_nil _ _) hg rfl
        subst hg
        rw [Gap.text_nil, List.nil_append, texts_cons, List.append_assoc] at he ⊢
        exact he.of_append.append hps.1.lexeme.ne_nil _
    · exact Gap.endsBefore hg' hopen k t _

/-- Parts are scanned alike as long as the counter is the same behind each gap. -/
theorem Respaced.scanParts_eq {ps ps' : List Part} (h : Respaced ps ps') (oc : Option Text)
    (line : Count) : Layout.scanParts oc line ps' = Layout.scanParts oc line ps := by
  induction h generalizing line with
  | nil => rfl
  | cons _ hn _ _ ih => simp only [Layout.scanParts, hn, ih]

end Part

/-- A source with other gaps is scanned like the source, including the line on which the scan ends
and the way it ends. -/
theorem Layout.Respaced.ofSource_eq {d e : Layout} {s : Text} (h : d.Respaced e)
    (hd : d.Derives s) (line : Count) : Scan.ofSource line e.text = Scan.ofSource line s := by
  obtain ⟨hvalid, hnewlines, hparts, hclosed⟩ := h
  have he : e.WellFormed := by
    refine ⟨hvalid, ?_, ?_⟩
    · rw [hclosed]
      exact hparts.allFit hd.allFit
    · rw [hclosed]
      intro t ht
      cases ht
  rw [Scan.ofSource_eq_scan, he.ofSource_text, Scan.ofSource_eq_scan, ← hd.eq_ofSource, Layout.scan,
    Layout.scan, hnewlines, hclosed, hd.closed]
  simp only [hparts.scanParts_eq]

/-! ## Changing every gap in the same way -/

/-- Whether a change of gaps leaves their line feeds as they are and closes none. -/
structure Gap.Keeps (f : Gap → Gap) : Prop where
  /-- a gap becomes a gap -/
  valid : ∀ g, Gap.IsValid g → (f g).IsValid
  /-- with as many line feeds -/
  newlines : ∀ g, (f g).newlines = Gap.newlines g
  /-- and no gap is closed -/
  apart : ∀ g, g ≠ [] → f g ≠ []

/-- The layout with every gap changed. -/
def Layout.mapGaps (f : Gap → Gap) (d : Layout) : Layout :=
  { d with lead := f d.lead, parts := d.parts.map fun p => { p with gap := f p.gap } }

/-- A change that keeps the line feeds of gaps and closes no gap may be made to all gaps of a row at
once. -/
theorem Part.AllFit.respaced_map {f : Gap → Gap} (hf : Gap.Keeps f) {ps : List Part} {rest : Text}
    (h : AllFit ps rest) : Respaced ps (ps.map fun p => { p with gap := f p.gap }) := by
  induction ps with
  | nil => exact .nil
  | cons p ps ih =>
    obtain ⟨⟨-, hg, -⟩, hps⟩ := h
    exact .cons (hf.valid _ hg) (hf.newlines _) (fun _ => hf.apart _) (ih hps)

/-- The same for a whole source, with the gap in front of the first lexeme. -/
theorem Layout.Derives.respaced_mapGaps {f : Gap → Gap} (hf : Gap.Keeps f) {d : Layout} {s : Text}
    (hd : d.Derives s) : d.Respaced (d.mapGaps f) :=
  ⟨hf.valid _ hd.wellFormed.lead, hf.newlines _, hd.allFit.respaced_map hf, hd.closed⟩

/-! ### Without comments -/

namespace Gap

/-- A gap of a number of line feeds. -/
def feeds (k : Nat) : Gap := List.replicate k (.blank '\n')

theorem isValid_feeds (k : Nat) : IsValid (feeds k) := by
  intro x hx
  rw [List.eq_of_mem_replicate hx]
  exact isBlank_newline

theorem text_feeds (k : Nat) : text (feeds k) = List.replicate k '\n' := by
  induction k with
  | zero => rfl
  | succ k ih =>
    rw [feeds, List.replicate_succ, text_cons, ← feeds, ih]
    rfl

theorem newlines_feeds (k : Nat) : newlines (feeds k) = k := by
  rw [newlines, text_feeds, Text.newlines, List.count_replicate_self]

end Gap

/-- A space and as many line feeds as a comment has, in place of the comment. -/
def Separator.withoutComment : Separator → Gap
  | blank c => [.blank c]
  | comment body => .blank ' ' :: Gap.feeds body.newlines

/-- The gap with all its comments replaced. -/
def Gap.withoutComments (g : Gap) : Gap := g.flatMap Separator.withoutComment

theorem Separator.isValid_withoutComment {x : Separator} (hx : x.IsValid) :
    x.withoutComment.IsValid := by
  cases x with
  | blank c => exact List.forall_mem_singleton.2 hx
  | comment body => exact Gap.isValid_cons.2 ⟨isBlank_space, Gap.isValid_feeds _⟩

/-- As many line feeds stand for a comment as it has. -/
theorem Separator.newlines_withoutComment (x : Separator) :
    x.withoutComment.newlines = x.text.newlines := by
  cases x with
  | blank c => rfl
  | comment body =>
    have hspace : Text.newlines [' '] = 0 := rfl
    rw [withoutComment, Gap.newlines_cons, Gap.newlines_feeds, text, hspace, Nat.zero_add,
      ← Gap.newlines_comment, Gap.newlines_cons, Gap.newlines_nil, Nat.add_zero]

/-- Comments are never needed. What is needed in the place of one are its line feeds, and a space
lest the lexemes around it grow together. -/
theorem Gap.keeps_withoutComments : Keeps withoutComments := by
  refine ⟨?_, ?_, ?_⟩
  · intro g hg y hy
    obtain ⟨x, hx, hy⟩ := List.mem_flatMap.1 hy
    exact x.isValid_withoutComment (hg x hx) y hy
  · intro g
    induction g with
    | nil => rfl
    | cons x g ih =>
      rw [withoutComments, List.flatMap_cons, newlines_append, x.newlines_withoutComment,
        ← withoutComments, ih, newlines_cons]
  · rintro (_ | ⟨x, g⟩) hg
    · exact absurd rfl hg
    · cases x <;> exact List.cons_ne_nil _ _

/-- The layout with a space and the line feeds of its body in place of every comment. -/
def Layout.withoutComments (d : Layout) : Layout := d.mapGaps Gap.withoutComments

/-! ### Line feeds and one space -/

/-- A gap that has the line feeds of another one and ends with its only space. -/
def Gap.linedUp (g : Gap) : Gap := feeds g.newlines ++ [.blank ' ']

theorem Gap.text_linedUp (g : Gap) : g.linedUp.text = List.replicate g.newlines '\n' ++ [' '] := by
  rw [linedUp, text_append, text_feeds]
  rfl

/-- One space is enough to keep a gap open. -/
theorem Gap.keeps_linedUp : Keeps linedUp := by
  refine ⟨?_, ?_, ?_⟩
  · intro g _
    exact isValid_append.2 ⟨isValid_feeds _, List.forall_mem_singleton.2 isBlank_space⟩
  · intro g
    rw [linedUp, newlines_append, newlines_feeds]
    rfl
  · intro g _
    exact List.append_ne_nil_of_right_ne_nil _ (List.cons_ne_nil _ _)

/-- The layout with line feeds and one space in place of every gap. -/
def Layout.linedUp (d : Layout) : Layout := d.mapGaps Gap.linedUp

/-! ## Writing out tokens -/

/-- Writes out tokens that follow a line: for each of them as many line feeds as its line is behind
the line before it, one space and the lexeme. -/
def writeOut (line : Count) : List Token → Text
  | [] => []
  | t :: ts =>
    List.replicate (t.line.toNat - line.toNat) '\n' ++ ' ' :: (t.lexeme ++ writeOut t.line ts)

/-- What is written for a token that stands behind a gap, up to its lexeme. The lines of two tokens
are as far apart as there are line feeds between them. -/
theorem replicate_after {line : Count} {before : Text} {g : Gap}
    (hline : line.toNat + (before ++ g.text).newlines < UInt64.size) (rest : Text) :
    List.replicate ((line.after (before ++ g.text)).toNat - (line.after before).toNat) '\n' ++
      ' ' :: rest = g.linedUp.text ++ rest := by
  have hsub : (line.after (before ++ g.text)).toNat - (line.after before).toNat = g.newlines := by
    rw [Text.newlines_append] at hline
    rw [Count.toNat_after (by rwa [Text.newlines_append]), Count.toNat_after (by omega),
      Text.newlines_append, Gap.newlines]
    omega
  rw [hsub, Gap.text_linedUp, List.append_assoc]
  rfl

/-- Tokens from a place in the source on are written out with exactly the line feeds that their
lines are apart. -/
theorem writeOut_tokensBehind {line : Count} {before : Text} {g : Gap} {ps : List Part}
    (hps : Part.AllFit ps [])
    (hline : line.toNat + (before ++ g.text ++ Part.texts ps).newlines < UInt64.size) :
    writeOut (line.after before)
        (Layout.tokensBehind line (before ++ g.text) ps ++
          [.endFile (line.after (before ++ g.text ++ Part.texts ps))]) =
      g.linedUp.text ++ Part.texts (ps.map fun p => { p with gap := p.gap.linedUp }) := by
  induction ps generalizing before g with
  | nil =>
    rw [Part.texts_nil, List.append_nil] at hline ⊢
    exact replicate_after hline []
  | cons p ps ih =>
    obtain ⟨⟨hl, -, -⟩, hps⟩ := hps
    have htext : before ++ g.text ++ Part.texts (p :: ps) =
        before ++ g.text ++ p.spelling ++ p.gap.text ++ Part.texts ps := by
      rw [Part.texts_cons]
      simp only [List.append_assoc]
    rw [htext] at hline ⊢
    have hshort : line.toNat + (before ++ g.text).newlines < UInt64.size := by
      simp only [Text.newlines_append] at hline ⊢
      omega
    have hrest := ih hps hline
    -- the line behind the lexeme is the line in front of it
    rw [Count.after_append hl.newlines_eq_zero] at hrest
    rw [Layout.tokensBehind, List.cons_append, writeOut, replicate_after hshort, Part.text,
      ← List.append_assoc (before ++ g.text), hrest, List.map_cons, Part.texts_cons]

/-- Writing out the tokens of a source lines up its gaps. So of all that was between the lexemes
only the line feeds can be seen in the tokens. -/
theorem Layout.Derives.writeOut_tokens {line : Count} {d : Layout} {s : Text} (hd : d.Derives s)
    (hline : line.toNat + s.newlines < UInt64.size) :
    writeOut line (d.tokens line ++ [.endFile (line.after s)]) = d.linedUp.text := by
  have hs : s = [] ++ d.lead.text ++ Part.texts d.parts := hd.front_eq.symm
  have hwrite := writeOut_tokensBehind hd.allFit (hs ▸ hline)
  rw [← hs, Count.after_nil, List.nil_append] at hwrite
  rw [Layout.tokens, hwrite, linedUp, Layout.text, front, mapGaps, hd.closed, Option.getD_none,
    List.append_nil]

/-! ## The main statement -/

namespace Scan

/-- **Only line feeds matter.** If a source can be scanned to its end, then with other gaps it is
scanned in the same way, as long as each gap has as many line feeds as before and no gap between
two lexemes is closed that was open. In particular the comments can be taken out, and the tokens
can be written out and scanned again. -/
theorem ofSource_respaced {line : Count} {s : Text} {ts : List Token}
    (h : (ofSource line s).tokens = .ok ts) :
    ∃ d : Layout, d.Derives s ∧ ts = d.tokens line ++ [.endFile (line.after s)] ∧
      (∀ e, d.Respaced e → ofSource line e.text = ofSource line s) ∧
      ofSource line d.withoutComments.text = ofSource line s ∧
      ofSource line (writeOut line ts) = ofSource line s ∧
      (ofSource line (writeOut line ts)).tokens = .ok ts := by
  obtain ⟨hend, rfl⟩ := tokens_eq_ok_iff_finished.1 h
  obtain ⟨hd, hline⟩ := derives_of_finished hend
  have hscan := hd.ofSource_eq hline
  have hsame (e : Layout) (he : (Layout.ofSource s).Respaced e) :
      ofSource line e.text = ofSource line s := he.ofSource_eq hd line
  have hwrite : ofSource line (writeOut line ((ofSource line s).found ++
      [.endFile (ofSource line s).line])) = ofSource line s := by
    rw [hscan, hd.writeOut_tokens hline, ← hscan]
    exact hsame _ (hd.respaced_mapGaps Gap.keeps_linedUp)
  refine ⟨Layout.ofSource s, hd, ?_, hsame, ?_, hwrite, ?_⟩
  · rw [hscan]
  · exact hsame _ (hd.respaced_mapGaps Gap.keeps_withoutComments)
  · rw [hwrite]
    exact h

/-- A spoiled number and a stray exclamation mark can be respaced like any other lexemes: with other
gaps that have the same line feeds, and with the gaps that tokens are written out with. -/
theorem ofSource_respaced_spoiled :
    (ofSource 1 ['1', 'a', '/', '*', '\n', '*', '/', '!', 'x']).tokens =
      .ok [⟨.error, ['1', 'a'], 1⟩, ⟨.error, ['!'], 2⟩, ⟨.identifier, ['x'], 2⟩, .endFile 2] ∧
    ofSource 1 ['\t', '1', 'a', '\n', '/', '*', '"', '*', '/', '!', ' ', 'x'] =
      ofSource 1 ['1', 'a', '/', '*', '\n', '*', '/', '!', 'x'] ∧
    ofSource 1 [' ', '1', 'a', '\n', ' ', '!', ' ', 'x', ' '] =
      ofSource 1 ['1', 'a', '/', '*', '\n', '*', '/', '!', 'x'] := by
  have h : (ofSource 1 ['1', 'a', '/', '*', '\n', '*', '/', '!', 'x']).tokens =
      .ok [⟨.error, ['1', 'a'], 1⟩, ⟨.error, ['!'], 2⟩, ⟨.identifier, ['x'], 2⟩,
        .endFile 2] := by decide +kernel
  have hlayout : Layout.ofSource ['1', 'a', '/', '*', '\n', '*', '/', '!', 'x'] =
      ⟨[], [⟨.error, ['1', 'a'], [.comment ['\n']]⟩, ⟨.error, ['!'], []⟩,
        ⟨.identifier, ['x'], []⟩], none⟩ := by decide +kernel
  obtain ⟨d, hd, -, hsame, -, hwrite, -⟩ := ofSource_respaced h
  have hd' := hd.eq_ofSource
  rw [hlayout] at hd'
  subst hd'
  refine ⟨h, hsame ⟨[.blank '\t'], [⟨.error, ['1', 'a'], [.blank '\n', .comment ['"']]⟩,
    ⟨.error, ['!'], [.blank ' ']⟩, ⟨.identifier, ['x'], []⟩], none⟩ ?_, hwrite⟩
  refine ⟨by decide, rfl, ?_, rfl⟩
  refine .cons (by decide) rfl (fun _ _ => List.cons_ne_nil _ _) ?_
  refine .cons (by decide) rfl (fun _ _ => List.cons_ne_nil _ _) ?_
  exact .cons Gap.isValid_nil rfl (fun hps => absurd rfl hps) .nil

end Scan

end CMinusFrontEnd
