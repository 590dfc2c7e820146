import CMinusFrontEnd.Proofs.Grammar
import Mathlib.Data.List.Chain

/-!
# Scanning in pieces

What happens at the seam where one source is followed by another. If the first can be scanned to
its end, then the whole is scanned like the second from where the counter stopped, with the tokens
of the first in front (`Scan.ofSource_append`). The one exception is a seam that glues: the first
source ends directly with a lexeme, and the lexeme absorbs the character behind it. What a kind of
lexeme absorbs is told by `Kind.absorbs`.

A seam at a line feed never glues, so a source that is cut at line feeds can be scanned piece by
piece with one counter.
-/

namespace CMinusFrontEnd

/-- Whether a source glues to the text behind it: nothing stands behind its last lexeme, and the
lexeme absorbs the first character of the text. -/
def Glues (x y : Text) : Prop :=
  ∃ p ∈ (Layout.ofSource x).parts.getLast?,
    p.gap = [] ∧ ∃ c ∈ y.head?, p.kind.absorbs p.spelling c = true

namespace Scan

/-! ## The seam -/

/-- Parts that end where they end are scanned by themselves, and then comes the rest. -/
theorem ofSource_texts {ps : List Part} {y : Text} (h : Part.AllFit ps y) (line : Count) :
    ofSource line (Part.texts ps ++ y) =
      (Layout.scanParts none line ps).andThen fun next => ofSource next y := by
  induction ps generalizing line with
  | nil => rfl
  | cons p ps ih =>
    obtain ⟨⟨hl, hg, he⟩, hps⟩ := h
    rw [Part.texts_cons, List.append_assoc, List.append_assoc, ofSource_lexeme hl he,
      ofSource_gap hg, Layout.scanParts, cons_andThen, advance_andThen]
    simp only [ih hps]

/-- Two sources whose seam does not glue are scanned one after the other. At the seam there is a
gap, or a lexeme that the second source does not make longer. -/
theorem ofSource_append_of_derives {x y : Text} (hx : (Layout.ofSource x).Derives x)
    (hglue : ¬Glues x y) (line : Count) :
    ofSource line (x ++ y) = (ofSource line x).andThen fun next => ofSource next y := by
  have hfit : Part.AllFit (Layout.ofSource x).parts y := by
    apply hx.allFit.append
    intro p hp hgap c hc
    by_contra hne
    exact hglue ⟨p, hp, hgap, c, hc, by simpa using hne⟩
  have hxy : x ++ y =
      (Layout.ofSource x).lead.text ++ (Part.texts (Layout.ofSource x).parts ++ y) := by
    conv_lhs => rw [← hx.front_eq, Layout.front, List.append_assoc]
  rw [hxy, ofSource_gap hx.wellFormed.lead, ofSource_eq_scan line x, Layout.scan, hx.closed,
    advance_andThen]
  simp only [ofSource_texts hfit]

end Scan

/-! ## Seams at line feeds -/

/-- A source that ends with a line feed ends with a gap, since neither a lexeme nor the end of a
comment is a line feed. -/
theorem not_glues_of_getLast? {x : Text} (hx : (Layout.ofSource x).Derives x)
    (hlast : x.getLast? = some '\n') (y : Text) : ¬Glues x y := by
  rintro ⟨p, hp, hgap, -⟩
  obtain ⟨ps, hps⟩ := List.getLast?_eq_some_iff.1 hp
  have hmem : p ∈ (Layout.ofSource x).parts := by
    rw [hps]
    exact List.mem_append_right ps (List.mem_singleton_self p)
  have hl := hx.allFit.lexeme_of_mem hmem
  have htext : x = (Layout.ofSource x).lead.text ++ Part.texts ps ++ p.spelling := by
    conv_lhs => rw [← hx.front_eq, Layout.front, hps, Part.texts_append, ← List.append_assoc]
    rw [Part.texts_cons, hgap, Part.texts_nil, Gap.text_nil, List.append_nil, List.append_nil]
  rw [htext, List.getLast?_append, List.getLast?_eq_some_getLast hl.ne_nil] at hlast
  have hnewline : '\n' ∈ p.spelling := Option.some.inj hlast ▸ List.getLast_mem hl.ne_nil
  exact absurd hl.newlines_eq_zero (Nat.pos_iff_ne_zero.1 (List.count_pos_iff.2 hnewline))

/-- Nothing grows into a line feed, since no lexeme takes one in. -/
theorem not_glues_of_head? {y : Text} (hhead : y.head? = some '\n') (x : Text) : ¬Glues x y := by
  rintro ⟨p, -, -, c, hc, habs⟩
  obtain rfl := Option.some.inj (hhead.symm.trans hc)
  rw [p.kind.absorbs_eq_false_of_isBlank isBlank_newline] at habs
  cases habs

namespace Scan

/-- Scans sources one after the other with one counter, until one of them cannot be scanned to its
end. -/
def inTurn (line : Count) : List Text → Scan
  | [] => ⟨[], line, .finished⟩
  | x :: xs => (ofSource line x).andThen fun next => inTurn next xs

/-- Whether a seam is at a line feed: it stands directly before or behind the seam. -/
def CutAtNewline (x y : Text) : Prop := x.getLast? = some '\n' ∨ y.head? = some '\n'

/-- A scan that goes on behind another one comes to its end only if the other one does. If the first
one breaks off, the second one never starts. -/
theorem finished_of_andThen {s : Scan} {next : Count → Scan}
    (h : (s.andThen next).ending = .finished) :
    s.ending = .finished ∧ (next s.line).ending = .finished := by
  obtain ⟨found, line, ending⟩ := s
  cases ending with
  | finished => exact ⟨rfl, h⟩
  | _ => cases h

theorem andThen_congr {s : Scan} {next next' : Count → Scan}
    (h : next s.line = next' s.line) : s.andThen next = s.andThen next' := by
  rw [andThen, andThen, h]

theorem andThen_finished (s : Scan) : (s.andThen fun next => ⟨[], next, .finished⟩) = s := by
  obtain ⟨found, line, ending⟩ := s
  cases ending with
  | finished => simp [andThen]
  | _ => rfl

/-- Scanning in turn is scanning at once, if all seams are at line feeds and no piece but the last
one keeps the scan from going on. -/
theorem inTurn_eq {xs : List Text} {line : Count} (hcut : xs.IsChain CutAtNewline)
    (hend : (inTurn line xs.dropLast).ending = .finished) :
    inTurn line xs = ofSource line xs.flatten := by
  induction xs generalizing line with
  | nil =>
    rw [List.flatten_nil, ofSource, dissect_nil]
    rfl
  | cons x xs ih =>
    cases xs with
    | nil =>
      rw [List.flatten_singleton]
      exact andThen_finished _
    | cons y ys =>
      obtain ⟨hxy, hcut⟩ := List.isChain_cons_cons.1 hcut
      rw [List.dropLast_cons_cons] at hend
      obtain ⟨hx, hys⟩ := finished_of_andThen hend
      -- the line feed is on one side of the seam or on the other
      have hglue : ¬Glues x (y :: ys).flatten := by
        rcases hxy with hlast | hhead
        · exact not_glues_of_getLast? (derives_of_finished hx).1 hlast _
        · refine not_glues_of_head? ?_ x
          rw [List.flatten_cons, List.head?_append, hhead, Option.some_or]
      rw [List.flatten_cons, ofSource_append_of_derives (derives_of_finished hx).1 hglue]
      exact andThen_congr (ih hcut hys)

/-- **The seam.** If a source can be scanned to its end, then together with a text behind it that
it does not glue to it is scanned like that text from where the counter stopped, with its own
tokens in front: the tokens, the counter and the ending are the same, also where the text behind
breaks off. So a source that is cut at line feeds can be scanned piece by piece. -/
theorem ofSource_append :
    (∀ (line m : Count) (x y : Text) (tx : List Token),
      (ofSource line x).tokens = .ok (tx ++ [.endFile m]) →
      (ofSource line x).line = m ∧
      (¬Glues x y →
        ofSource line (x ++ y) = { ofSource m y with found := tx ++ (ofSource m y).found } ∧
        (ofSource line (x ++ y)).tokens = (ofSource m y).tokens.map (tx ++ ·))) ∧
    ∀ (line : Count) (xs : List Text), xs.IsChain CutAtNewline →
      (inTurn line xs.dropLast).ending = .finished →
      inTurn line xs = ofSource line xs.flatten := by
  refine ⟨?_, fun line xs => inTurn_eq⟩
  intro line m x y tx hx
  obtain ⟨hend, htokens⟩ := tokens_eq_ok_iff_finished.1 hx
  obtain ⟨rfl, hlast⟩ := List.append_inj' htokens rfl
  obtain rfl : m = (ofSource line x).line := by
    simpa [Token.endFile] using hlast
  refine ⟨rfl, ?_⟩
  intro hglue
  have hxy : ofSource line (x ++ y) =
      { ofSource (ofSource line x).line y with
        found := (ofSource line x).found ++ (ofSource (ofSource line x).line y).found } := by
    rw [ofSource_append_of_derives (derives_of_finished hend).1 hglue, andThen, hend]
  refine ⟨hxy, ?_⟩
  rw [hxy]
  cases hy : (ofSource (ofSource line x).line y).ending with
  | finished => simp [tokens, failure?, hy, Except.map]
  | _ => simp [tokens, failure?, hy, Except.map]

/-- The symbol `<=` takes in no other equals sign, so the seam does not glue, and the comment that
stays open behind it is that of the second source. Two sources that meet at a line feed are scanned
in turn. -/
theorem ofSource_append_lessThanEqual :
    (ofSource 1 ['/', '*', '*', '/', '<', '=']).tokens =
      .ok ([⟨.symbol .lessThanEqual, ['<', '='], 1⟩] ++ [.endFile 1]) ∧
    ¬Glues ['/', '*', '*', '/', '<', '='] ['=', '/', '*'] ∧
    ofSource 1 ['/', '*', '*', '/', '<', '=', '=', '/', '*'] =
      { ofSource 1 ['=', '/', '*'] with
        found := [⟨.symbol .lessThanEqual, ['<', '='], 1⟩] ++ (ofSource 1 ['=', '/', '*']).found } ∧
    List.IsChain CutAtNewline [['a', '\n'], ['b']] ∧
    (inTurn 1 [['a', '\n']]).ending = .finished ∧
    inTurn 1 [['a', '\n'], ['b']] = ofSource 1 ['a', '\n', 'b'] := by
  have hx : (ofSource 1 ['/', '*', '*', '/', '<', '=']).tokens =
      .ok ([⟨.symbol .lessThanEqual, ['<', '='], 1⟩] ++ [.endFile 1]) := by decide +kernel
  have hglue : ¬Glues ['/', '*', '*', '/', '<', '='] ['=', '/', '*'] := by
    have hlast : (Layout.ofSource ['/', '*', '*', '/', '<', '=']).parts.getLast? =
        some ⟨.symbol .lessThanEqual, ['<', '='], []⟩ := by decide +kernel
    rintro ⟨p, hp, -, c, -, habs⟩
    rw [hlast] at hp
    cases hp
    cases habs
  have hcut : List.IsChain CutAtNewline [['a', '\n'], ['b']] := .cons_cons (.inl rfl) (.singleton _)
  have hend : (inTurn 1 [['a', '\n']]).ending = .finished := by decide +kernel
  exact ⟨hx, hglue, ((ofSource_append.1 1 1 _ _ _ hx).2 hglue).1, hcut, hend,
    ofSource_append.2 1 _ hcut hend⟩

end Scan

end CMinusFrontEnd
