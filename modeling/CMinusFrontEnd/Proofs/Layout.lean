import CMinusFrontEnd.Proofs.Gap
import CMinusFrontEnd.Proofs.LongestMatch

/-!
# Layouts

A layout is a source text seen as the grammar sees it: a gap, then lexemes, each with the gap
behind it, and at the very end perhaps a comment that is never closed. A layout is well-formed
if its gaps are gaps, its lexemes are lexemes, and every lexeme ends before what follows it.

Texts and well-formed layouts are the same thing (`Layout.ofSource_eq_iff`): every text has a
layout, and only one. This is what the theorems on scanning rest on. To say how a text is scanned
it is enough to write down a layout of it and to see that it is well-formed.
-/

namespace CMinusFrontEnd

/-! ## Parts -/

/-- A lexeme with the gap behind it. -/
structure Part where
  /-- the kind of the lexeme -/
  kind : Kind
  /-- the text of the lexeme -/
  spelling : Text
  /-- what stands between the lexeme and the next one -/
  gap : Gap
deriving DecidableEq

namespace Part

/-- The text that a part takes up in the source. -/
def text (p : Part) : Text := p.spelling ++ p.gap.text

/-- Whether a part can stand in front of a text. -/
structure Fits (p : Part) (rest : Text) : Prop where
  /-- the lexeme has the shape of its kind -/
  lexeme : IsLexeme p.kind p.spelling
  /-- the gap is one -/
  gap : p.gap.IsValid
  /-- the lexeme is as long as it can be -/
  ends : EndsBefore p.kind p.spelling (p.gap.text ++ rest)

/-- The text that a list of parts takes up in the source. -/
def texts (ps : List Part) : Text := ps.flatMap text

/-- Whether parts can stand one behind the other in front of a text. -/
def AllFit : List Part → Text → Prop
  | [], _ => True
  | p :: ps, rest => p.Fits (texts ps ++ rest) ∧ AllFit ps rest

@[simp] theorem texts_nil : texts [] = [] := rfl

@[simp] theorem texts_cons (p : Part) (ps : List Part) :
    texts (p :: ps) = p.spelling ++ (p.gap.text ++ texts ps) := by
  rw [texts, List.flatMap_cons, text, List.append_assoc]
  rfl

@[simp] theorem texts_append (ps qs : List Part) : texts (ps ++ qs) = texts ps ++ texts qs :=
  List.flatMap_append

/-- Every part of a row of parts that fit is a lexeme, wherever it stands. -/
theorem AllFit.lexeme_of_mem {ps : List Part} {rest : Text} (h : AllFit ps rest) {p : Part}
    (hp : p ∈ ps) : IsLexeme p.kind p.spelling := by
  induction ps with
  | nil => cases hp
  | cons q ps ih =>
    obtain ⟨hq, hps⟩ := h
    rcases List.mem_cons.1 hp with rfl | hp
    · exact hq.lexeme
    · exact ih hps hp

/-- Parts that can stand in front of a text can stand by themselves. At the end of a source there is
nothing that a lexeme could absorb. -/
theorem AllFit.alone {ps : List Part} {rest : Text} (h : AllFit ps rest) : AllFit ps [] := by
  induction ps with
  | nil => trivial
  | cons p ps ih =>
    obtain ⟨⟨hl, hg, he⟩, hps⟩ := h
    refine ⟨⟨hl, hg, ?_⟩, ih hps⟩
    rw [← List.append_assoc] at he
    rw [List.append_nil]
    exact he.of_append

/-- Parts that can stand by themselves can stand in front of a text, if the last lexeme ends
before it. Only this one can touch the text, and only without a gap behind it. -/
theorem AllFit.append {ps : List Part} {rest : Text} (h : AllFit ps [])
    (hlast : ∀ p ∈ ps.getLast?, p.gap = [] → EndsBefore p.kind p.spelling rest) :
    AllFit ps rest := by
  induction ps with
  | nil => trivial
  | cons p ps ih =>
    obtain ⟨⟨hl, hg, he⟩, hps⟩ := h
    rw [List.append_nil] at he
    refine ⟨⟨hl, hg, ?_⟩, ?_⟩
    · rw [← List.append_assoc]
      by_cases hempty : p.gap.text ++ texts ps = []
      · obtain ⟨hgap, htexts⟩ := List.append_eq_nil_iff.1 hempty
        rw [hempty, List.nil_append]
        -- nothing stands behind this lexeme but the new text, so it has to be the last one
        cases ps with
        | nil => exact hlast p rfl (Gap.text_eq_nil_iff.1 hgap)
        | cons q ps =>
          rw [texts_cons] at htexts
          exact absurd (List.append_eq_nil_iff.1 htexts).1 hps.1.lexeme.ne_nil
      · exact he.append hempty rest
    · apply ih hps
      intro q hq
      apply hlast q
      rw [List.getLast?_cons, Option.mem_def.1 hq]
      rfl

end Part

/-! ## Pieces -/

namespace Piece

/-- Whether a piece can be cut off in front of a text. -/
def Fits (rest : Text) : Piece → Prop
  | blank run => ∀ c ∈ run, isBlank c = true
  | comment body => IsCommentBody body
  | lexeme kind spelling => IsLexeme kind spelling ∧ EndsBefore kind spelling rest

/-- A blank is cut off together with all blanks behind it. -/
theorem leading?_blank {c : Char} (hc : isBlank c = true) (rest : Text) :
    leading? c rest =
      some (.blank (c :: rest.takeWhile isBlank), rest.dropWhile isBlank) := by
  have hs : c ≠ '/' := by
    rintro rfl
    exact absurd hc (by decide)
  rw [leading?, if_neg (fun h => hs h.1), if_pos hc]

/-- A comment is cut off up to its end. If it has none, nothing can be cut off at all. -/
theorem leading?_comment (t : Text) :
    leading? '/' ('*' :: t) =
      (closeComment? t).map fun (body, after) => (.comment body, after) := by
  rw [leading?, if_pos ⟨rfl, rfl⟩, List.tail_cons]

/-- Whatever is cut off from a source fits in front of the rest. There are three cases, a run of
blanks, a comment and a lexeme, and the lexeme is as long as it can be. -/
theorem fits_of_leading? {c : Char} {rest after : Text} {p : Piece}
    (h : leading? c rest = some (p, after)) : p.Fits after := by
  have hl := h
  unfold leading? at h
  split at h
  next =>
    obtain ⟨⟨b, a⟩, hb, he⟩ := Option.map_eq_some_iff.1 h
    cases he
    exact isCommentBody_of_closeComment? hb
  next =>
    split at h
    next hc =>
      cases h
      intro d hd
      rcases List.mem_cons.1 hd with rfl | hd
      · exact hc
      · exact List.mem_takeWhile_imp hd
    next =>
      obtain ⟨k, t, rest', hk⟩ := exists_eq_leadingLexeme c rest
      rw [hk] at h
      cases h
      exact (leading?_eq_lexeme_iff.1 hl).2

/-- Only a comment that is never closed cannot be cut off. Every other character starts a piece, be
it an error. -/
theorem leading?_eq_none_iff {c : Char} {rest : Text} :
    leading? c rest = none ↔ c = '/' ∧ ∃ t, rest = '*' :: t ∧ ¬commentEnd <:+: t := by
  constructor
  · intro h
    unfold leading? at h
    split at h
    next hc =>
      obtain ⟨t, rfl⟩ := List.head?_eq_some_iff.1 hc.2
      exact ⟨hc.1, t, rfl, closeComment?_eq_none_iff.1 (Option.map_eq_none_iff.1 h)⟩
    next => split at h <;> cases h
  · rintro ⟨rfl, t, rfl, ht⟩
    rw [leading?_comment, closeComment?_eq_none_iff.2 ht, Option.map_none]

end Piece

/-! ## Layouts -/

/-- A source text in gaps and lexemes. -/
structure Layout where
  /-- what stands before the first lexeme -/
  lead : Gap
  /-- the lexemes, each with the gap behind it -/
  parts : List Part
  /-- the text from the opening of a comment that is never closed, if there is one -/
  openComment : Option Text
deriving DecidableEq

namespace Layout

/-- The source text up to the comment that is never closed. -/
def front (d : Layout) : Text := d.lead.text ++ Part.texts d.parts

/-- The whole source text. -/
def text (d : Layout) : Text := d.front ++ d.openComment.getD []

/-- Whether a layout is what the scanner makes of its text. -/
structure WellFormed (d : Layout) : Prop where
  /-- the first gap is one -/
  lead : d.lead.IsValid
  /-- every lexeme has the shape of its kind and ends before what follows, and every gap is one -/
  parts : Part.AllFit d.parts (d.openComment.getD [])
  /-- the last comment has an opening and no end -/
  openComment : ∀ t ∈ d.openComment, ∃ r, t = '/' :: '*' :: r ∧ ¬commentEnd <:+: r

/-! ## Building from the left -/

/-- The layout of a text with a further gap in front. -/
def indent (g : Gap) (d : Layout) : Layout := { d with lead := g ++ d.lead }

/-- The layout of a text with a further lexeme in front. -/
def behind (kind : Kind) (spelling : Text) (d : Layout) : Layout :=
  { d with lead := [], parts := ⟨kind, spelling, d.lead⟩ :: d.parts }

@[simp] theorem indent_nil (d : Layout) : d.indent [] = d := rfl

theorem indent_indent (g h : Gap) (d : Layout) : (d.indent h).indent g = d.indent (g ++ h) := by
  rw [indent, indent, indent, List.append_assoc]

@[simp] theorem text_indent (g : Gap) (d : Layout) : (d.indent g).text = g.text ++ d.text := by
  simp [text, front, indent]

@[simp] theorem text_behind (k : Kind) (t : Text) (d : Layout) :
    (d.behind k t).text = t ++ d.text := by
  simp [text, front, behind]

theorem WellFormed.indent {g : Gap} {d : Layout} (hd : d.WellFormed) (hg : g.IsValid) :
    (d.indent g).WellFormed :=
  ⟨Gap.isValid_append.2 ⟨hg, hd.lead⟩, hd.parts, hd.openComment⟩

/-- A lexeme may be put in front of a layout if the text of the layout does not make it longer. -/
theorem WellFormed.behind {k : Kind} {t : Text} {d : Layout} (hd : d.WellFormed)
    (ht : IsLexeme k t) (he : EndsBefore k t d.text) : (d.behind k t).WellFormed := by
  have hfit : Part.Fits ⟨k, t, d.lead⟩ (Part.texts d.parts ++ d.openComment.getD []) := by
    refine ⟨ht, hd.lead, ?_⟩
    rw [← List.append_assoc]
    exact he
  exact ⟨Gap.isValid_nil, ⟨hfit, hd.parts⟩, hd.openComment⟩

/-- The layout of a text with a further piece in front. -/
def add (d : Layout) : Piece → Layout
  | .blank run => d.indent (run.map .blank)
  | .comment body => d.indent [.comment body]
  | .lexeme kind spelling => d.behind kind spelling

theorem text_map_blank (run : Text) : Gap.text (run.map .blank) = run := by
  induction run with
  | nil => rfl
  | cons c run ih =>
    rw [List.map_cons, Gap.text_cons, ih]
    rfl

@[simp] theorem text_add (d : Layout) (p : Piece) : (d.add p).text = p.text ++ d.text := by
  cases p with
  | blank run => rw [add, text_indent, text_map_blank, Piece.text]
  | comment body => simp [add, Separator.text, Piece.text, commentEnd]
  | lexeme k t => rw [add, text_behind, Piece.text]

/-! ## The layout of a text -/

/-- The layout of a source that has been cut up. -/
def ofDissection (d : Dissection) : Layout :=
  d.pieces.foldr (fun p rest => rest.add p) ⟨[], [], d.openComment⟩

/-- The layout of a source text. -/
def ofSource (s : Text) : Layout := ofDissection (dissect s)

@[simp] theorem ofDissection_cons (p : Piece) (d : Dissection) :
    ofDissection (d.cons p) = (ofDissection d).add p := rfl

@[simp] theorem ofSource_nil : ofSource [] = ⟨[], [], none⟩ := by
  rw [ofSource, dissect_nil]
  rfl

/-- The layout of a source is made piece by piece, from the left. -/
theorem ofSource_of_leading? {c : Char} {rest after : Text} {p : Piece}
    (h : Piece.leading? c rest = some (p, after)) :
    ofSource (c :: rest) = (ofSource after).add p := by
  rw [ofSource, dissect_of_leading?_eq_some h, ofDissection_cons, ofSource]

/-- **Nothing is lost**: a layout of a text has that text, with every blank and every comment in its
place. -/
@[simp] theorem text_ofSource (s : Text) : (ofSource s).text = s := by
  have key (d : Dissection) : (ofDissection d).text = d.text := by
    obtain ⟨ps, oc⟩ := d
    induction ps with
    | nil => simp [ofDissection, text, front, Dissection.text]
    | cons p ps ih =>
      have hd : (⟨p :: ps, oc⟩ : Dissection) = Dissection.cons p ⟨ps, oc⟩ := rfl
      rw [hd, ofDissection_cons, text_add, ih, Dissection.text_cons]
  rw [ofSource, key, Dissection.text_dissect]

/-! ### Reading from the left

One equation for each of the things that a text can start with. The blanks of a run are taken one
by one here, since a longest run is of no use where two texts are put together. -/

/-- A lexeme that ends where it ends is the first lexeme of the layout. What comes behind is laid
out as if the lexeme were not there. -/
theorem ofSource_lexeme {k : Kind} {t rest : Text} (ht : IsLexeme k t)
    (h : EndsBefore k t rest) : ofSource (t ++ rest) = (ofSource rest).behind k t := by
  obtain ⟨c, run, rfl, hl⟩ := Piece.leading?_of_isLexeme ht h
  exact ofSource_of_leading? hl

/-- All blanks at the start of a source are in the gap in front of the first lexeme. -/
theorem ofSource_blanks (t : Text) :
    ofSource t = (ofSource (t.dropWhile isBlank)).indent ((t.takeWhile isBlank).map .blank) := by
  cases t with
  | nil => rw [List.dropWhile_nil, List.takeWhile_nil, List.map_nil, indent_nil]
  | cons c rest =>
    by_cases hc : isBlank c = true
    · rw [ofSource_of_leading? (Piece.leading?_blank hc rest), List.dropWhile_cons_of_pos hc,
        List.takeWhile_cons_of_pos hc]
      rfl
    · rw [List.dropWhile_cons_of_neg hc, List.takeWhile_cons_of_neg hc, List.map_nil, indent_nil]

theorem ofSource_blank {c : Char} (hc : isBlank c = true) (rest : Text) :
    ofSource (c :: rest) = (ofSource rest).indent [.blank c] := by
  rw [ofSource_of_leading? (Piece.leading?_blank hc rest), ofSource_blanks rest, indent_indent]
  rfl

/-- One separator at a time can be taken off the start of a source: a comment as a whole, but blanks
one by one, although they are cut off in runs. -/
theorem ofSource_separator {x : Separator} (hx : x.IsValid) (rest : Text) :
    ofSource (x.text ++ rest) = (ofSource rest).indent [x] := by
  cases x with
  | blank c => exact ofSource_blank hx rest
  | comment body =>
    have hl : Piece.leading? '/' ('*' :: (body ++ '*' :: '/' :: rest)) =
        some (.comment body, rest) := by
      rw [Piece.leading?_comment, closeComment?_append hx]
      rfl
    rw [Separator.text, List.cons_append, List.cons_append, List.append_assoc]
    exact ofSource_of_leading? hl

theorem ofSource_gap {g : Gap} (hg : g.IsValid) (rest : Text) :
    ofSource (g.text ++ rest) = (ofSource rest).indent g := by
  induction g with
  | nil => rfl
  | cons x g ih =>
    have hx := hg x List.mem_cons_self
    rw [Gap.text_cons, List.append_assoc, ofSource_separator hx,
      ih fun y hy => hg y (List.mem_cons_of_mem x hy), indent_indent]
    rfl

/-- If a comment is never closed then there is no lexeme from its start on. -/
theorem ofSource_openComment {t : Text} (ht : ¬commentEnd <:+: t) :
    ofSource ('/' :: '*' :: t) = ⟨[], [], some ('/' :: '*' :: t)⟩ := by
  have hl : Piece.leading? '/' ('*' :: t) = none := by
    rw [Piece.leading?_comment, closeComment?_eq_none_iff.2 ht, Option.map_none]
  rw [ofSource, dissect_of_leading?_eq_none hl]
  rfl

/-! ## Texts and layouts -/

theorem WellFormed.add {d : Layout} {p : Piece} (hd : d.WellFormed) (hp : p.Fits d.text) :
    (d.add p).WellFormed := by
  cases p with
  | blank run =>
    apply hd.indent
    intro x hx
    obtain ⟨c, hc, rfl⟩ := List.mem_map.1 hx
    exact hp c hc
  | comment body => exact hd.indent (List.forall_mem_singleton.2 hp)
  | lexeme k t =>
    obtain ⟨hl, he⟩ := hp
    exact hd.behind hl he

theorem wellFormed_openComment {t : Text} (ht : ¬commentEnd <:+: t) :
    WellFormed ⟨[], [], some ('/' :: '*' :: t)⟩ := by
  refine ⟨Gap.isValid_nil, trivial, ?_⟩
  rintro s ⟨⟩
  exact ⟨t, rfl, ht⟩

/-- Every text has a well-formed layout. By recursion along the text, as what is left behind a piece
is shorter. -/
theorem wellFormed_ofSource (s : Text) : (ofSource s).WellFormed := by
  fun_induction dissect s with
  | case1 =>
    rw [ofSource_nil]
    exact ⟨Gap.isValid_nil, trivial, fun t ht => by cases ht⟩
  | case2 c rest h =>
    obtain ⟨rfl, t, rfl, ht⟩ := Piece.leading?_eq_none_iff.1 h
    rw [ofSource_openComment ht]
    exact wellFormed_openComment ht
  | case3 c rest p after h _ ih =>
    rw [ofSource_of_leading? h]
    exact ih.add (by rw [text_ofSource]; exact Piece.fits_of_leading? h)

/-- Lexemes and gaps that fit are read back one by one. The rest must not start with a gap, or this
would go to the last part. -/
theorem ofSource_texts {ps : List Part} {rest : Text} (h : Part.AllFit ps rest)
    (hr : (ofSource rest).lead = []) :
    ofSource (Part.texts ps ++ rest) =
      { ofSource rest with parts := ps ++ (ofSource rest).parts } := by
  induction ps with
  | nil => rfl
  | cons p ps ih =>
    obtain ⟨⟨hl, hg, he⟩, hps⟩ := h
    rw [Part.texts_cons, List.append_assoc, List.append_assoc, ofSource_lexeme hl he,
      ofSource_gap hg, ih hps]
    simp [indent, behind, hr]

/-- **Layouts are unique.** A well-formed layout is the layout of its own text: first the parts are
read back, then the open comment. -/
theorem WellFormed.ofSource_text {d : Layout} (hd : d.WellFormed) : ofSource d.text = d := by
  obtain ⟨g, ps, oc⟩ := d
  obtain ⟨hg, hps, hoc⟩ := hd
  have hend : ofSource (oc.getD []) = ⟨[], [], oc⟩ := by
    cases oc with
    | none => exact ofSource_nil
    | some t =>
      obtain ⟨r, rfl, hr⟩ := hoc t rfl
      exact ofSource_openComment hr
  rw [text, front, List.append_assoc, ofSource_gap hg, ofSource_texts hps (by rw [hend]), hend]
  simp [Layout.indent]

/-- **Texts are layouts.** Every text has a well-formed layout, and no other one. This is the whole
of what is to be known about cutting a source. -/
theorem ofSource_eq_iff {s : Text} {d : Layout} : ofSource s = d ↔ d.WellFormed ∧ d.text = s := by
  constructor
  · rintro rfl
    exact ⟨wellFormed_ofSource s, text_ofSource s⟩
  · rintro ⟨hd, rfl⟩
    exact hd.ofSource_text

end Layout

end CMinusFrontEnd
