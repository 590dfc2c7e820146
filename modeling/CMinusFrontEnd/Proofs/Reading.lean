import CMinusFrontEnd.Proofs.SourceLines

/-!
# Reading character by character

`Scan.ofSource` cuts a source into pieces and counts the line feeds of a piece all at once. Here is a
`Reader` that takes one character after the other and counts a line feed when it comes to it. Of what lies
ahead it sees only as much as it needs to begin a piece; of a comment it remembers whether the last
character was a star. It stops at a line feed that its counter cannot count.

* `Reader.run_eq_ofSource`: the reader and the scan leave the same behind, whatever the source.
* `Reader.Sound.exists_mode`: one character advances the counter by one if it is a line feed, and else not
  at all. This rests on an invariant, `Reader.Sound`: in what is still to be read of a lexeme there is no
  line feed. Each character keeps it.
* `Reader.map_line_readThrough`: so at every place of a source the counter has advanced by the line feeds
  in front of it.

The main statement is `Scan.line_feeds_counted`.
-/

namespace CMinusFrontEnd

/-! ## The reader -/

/-- Where a reader is. -/
inductive Reader.Mode where
  /-- in front of a piece, or among blanks -/
  | between
  /-- in a lexeme, with so many characters of it and one more still to come -/
  | inside (left : Nat)
  /-- behind the slash of the comment that starts at this line -/
  | opening (start : Count)
  /-- in the comment that starts at this line, and whether the last character was a star -/
  | comment (start : Count) (star : Bool)

/-- Somebody who reads a source. -/
structure Reader where
  /-- where the reader is -/
  mode : Reader.Mode
  /-- the line counter -/
  line : Count

namespace Reader

/-- In a lexeme with so many characters still to come, or behind it if there are none. -/
def Mode.within : Nat → Mode
  | 0 => between
  | left + 1 => inside left

/-- The counter behind a character. Nothing but a line feed advances it. -/
def count (line : Count) (c : Char) : Option Count :=
  if c = '\n' then Count.plus? line 1 else some line

/-- Reads a character, with the text `ahead` behind it. There is no reader any more if the character is a
line feed that the counter cannot count. -/
def read (r : Reader) (c : Char) (ahead : Text) : Option Reader :=
  match r.mode with
  | .between =>
    if c = '/' ∧ ahead.head? = some '*' then some ⟨.opening r.line, r.line⟩
    else if isBlank c then (count r.line c).map fun line => ⟨.between, line⟩
    else some ⟨.within ((Piece.leadingLexeme c ahead).1.text.length - 1), r.line⟩
  | .inside left => some ⟨.within left, r.line⟩
  | .opening start => some ⟨.comment start false, r.line⟩
  | .comment start star =>
    if c = '/' ∧ star = true then some ⟨.between, r.line⟩
    else (count r.line c).map fun line => ⟨.comment start (c = '*'), line⟩

/-- The token that begins with a character, if one does. -/
def token? (r : Reader) (c : Char) (ahead : Text) : Option Token :=
  match r.mode with
  | .between =>
    if (c = '/' ∧ ahead.head? = some '*') ∨ isBlank c = true then none
    else
      match (Piece.leadingLexeme c ahead).1 with
      | .lexeme kind spelling => some ⟨kind, spelling, r.line⟩
      | _ => none
  | _ => none

/-- How the scan ends if the source ends here. -/
def ending (r : Reader) : Scan.Ending :=
  match r.mode with
  | .between => .finished
  | .inside _ => .finished
  | .opening start => .unterminated start
  | .comment start _ => .unterminated start

/-- Reads a text to its end. -/
def run (r : Reader) : Text → Scan
  | [] => ⟨[], r.line, r.ending⟩
  | c :: ahead =>
    let rest : Scan :=
      match r.read c ahead with
      | some r => r.run ahead
      | none => ⟨[], r.line, .overflow⟩
    match r.token? c ahead with
    | some token => rest.cons token
    | none => rest

/-- Reads a text and stops behind it, in front of the text `ahead`. -/
def readThrough (r : Reader) : Text → Text → Option Reader
  | [], _ => some r
  | c :: front, ahead => (r.read c (front ++ ahead)).bind fun r => r.readThrough front ahead

/-! ## Counting -/

theorem count_eq (line : Count) (c : Char) : count line c = Count.plus? line (Text.newlines [c]) := by
  rw [count, Text.newlines_cons, Text.newlines_nil]
  split
  · rfl
  · exact (Count.plus?_zero line).symm

theorem count_of_ne {c : Char} (hc : c ≠ '\n') (line : Count) : count line c = some line := if_neg hc

/-- A counter that cannot count a line feed stands at the last line. -/
theorem eq_last_of_count {line : Count} {c : Char} (h : count line c = none) : line = Count.last := by
  rw [count] at h
  split at h
  next =>
    have hsize := Count.plus?_eq_none_iff.1 h
    have hline := line.toNat_lt
    have hlast : Count.last.toNat = UInt64.size - 1 := by decide
    rw [← UInt64.toNat_inj, hlast]
    simp only [UInt64.size] at hsize ⊢
    omega
  next => cases h

/-- To count a character is to advance the counter by its line feeds. There is one or none, so the
two ways of counting stop at the same place. -/
theorem count_advance (line : Count) (c : Char) (next : Count → Scan) :
    (match count line c with
      | some line => next line
      | none => ⟨[], line, .overflow⟩) = Scan.advance line (Text.newlines [c]) next := by
  cases hcount : count line c with
  | some l => rw [Scan.advance, ← count_eq, hcount]
  | none => rw [Scan.advance, ← count_eq, hcount, eq_last_of_count hcount]

/-- Counting a character and then the text behind it. -/
theorem advance_cons (line : Count) (c : Char) (t : Text) (next : Count → Scan) :
    (Scan.advance line (Text.newlines [c]) fun l => Scan.advance l t.newlines next) =
      Scan.advance line (Text.newlines (c :: t)) next := by
  rw [Scan.advance_advance, ← Text.newlines_append, List.singleton_append]

/-! ## A whole piece at once -/

/-- A character that begins no token and leaves the counter as it is. -/
theorem run_of_read {r next : Reader} {c : Char} {ahead : Text} (hread : r.read c ahead = some next)
    (htoken : r.token? c ahead = none) : r.run (c :: ahead) = next.run ahead := by
  simp only [run, hread, htoken]

/-- A character that begins no token and is counted. -/
theorem run_of_counted {r : Reader} {c : Char} {ahead : Text} {mode : Mode}
    (hread : r.read c ahead = (count r.line c).map fun line => ⟨mode, line⟩)
    (htoken : r.token? c ahead = none) :
    r.run (c :: ahead) =
      Scan.advance r.line (Text.newlines [c]) fun line => (⟨mode, line⟩ : Reader).run ahead := by
  rw [← count_advance]
  simp only [run, hread, htoken]
  cases count r.line c <;> rfl

/-- The rest of a lexeme is passed over. How long it is was known at its first character, and none
of the others is looked at again. -/
theorem run_within (line : Count) (rest : Text) (w : Text) :
    (⟨.within w.length, line⟩ : Reader).run (w ++ rest) =
      (⟨.between, line⟩ : Reader).run rest := by
  induction w with
  | nil => rfl
  | cons c w ih =>
    rw [List.cons_append, ← ih]
    exact run_of_read rfl rfl

/-- Blanks are counted one by one, where the scanner takes a run of them at once. -/
theorem run_blanks {w : Text} (hw : ∀ c ∈ w, isBlank c = true) (line : Count) (rest : Text) :
    (⟨.between, line⟩ : Reader).run (w ++ rest) =
      Scan.advance line w.newlines fun line => (⟨.between, line⟩ : Reader).run rest := by
  induction w generalizing line with
  | nil => rw [Text.newlines_nil, Scan.advance_zero, List.nil_append]
  | cons c w ih =>
    have hc : isBlank c = true := hw c List.mem_cons_self
    have hslash : ¬(c = '/' ∧ (w ++ rest).head? = some '*') := by
      rintro ⟨rfl, -⟩
      exact absurd hc (by decide)
    have hread : (⟨.between, line⟩ : Reader).read c (w ++ rest) =
        (count line c).map fun line => ⟨.between, line⟩ := by
      simp only [read, if_neg hslash, if_pos hc]
    have htoken : (⟨.between, line⟩ : Reader).token? c (w ++ rest) = none := if_pos (.inr hc)
    rw [List.cons_append, run_of_counted hread htoken, ← advance_cons line c w]
    simp only [ih fun d hd => hw d (List.mem_cons_of_mem c hd)]

/-- A comment is counted, and so is what stands behind the opening of one that is never closed. That the
last character was a star matters only in front of a slash. -/
theorem run_comment (start : Count) (t : Text) {star : Bool}
    (hstar : star = true → t.head? ≠ some '/') (line : Count) :
    (⟨.comment start star, line⟩ : Reader).run t =
      match closeComment? t with
      | some (body, after) =>
        Scan.advance line body.newlines fun line => (⟨.between, line⟩ : Reader).run after
      | none => Scan.advance line t.newlines fun line => ⟨[], line, .unterminated start⟩ := by
  fun_induction closeComment? t generalizing star line with
  | case1 =>
    rw [Text.newlines_nil, Scan.advance_zero]
    rfl
  | case2 after =>
    -- the star and the slash of the end
    have hopen : (⟨.comment start star, line⟩ : Reader).read '*' ('/' :: after) =
        some ⟨.comment start true, line⟩ := by
      simp [read, count]
    have hclose : (⟨.comment start true, line⟩ : Reader).read '/' after =
        some ⟨.between, line⟩ := by
      simp [read]
    rw [run_of_read hopen rfl, run_of_read hclose rfl]
    simp only [Text.newlines_nil, Scan.advance_zero]
  | case3 c rest hclosed ih =>
    -- a slash behind the star before would have been the end
    have hslash : ¬(c = '/' ∧ star = true) := by
      rintro ⟨rfl, h⟩
      exact hstar h rfl
    have hread : (⟨.comment start star, line⟩ : Reader).read c rest =
        (count line c).map fun line => ⟨.comment start (c = '*'), line⟩ := if_neg hslash
    have hnext : decide (c = '*') = true → rest.head? ≠ some '/' := by
      intro hc hrest
      obtain ⟨after, rfl⟩ := List.head?_eq_some_iff.1 hrest
      exact hclosed after (of_decide_eq_true hc) rfl
    rw [run_of_counted hread rfl]
    simp only [ih hnext]
    cases closeComment? rest with
    | none => exact advance_cons line c rest _
    | some closed => exact advance_cons line c closed.1 _

/-- Behind the opening of a comment the reader waits for the end of it. The star of the opening is
not the star of the end. -/
theorem run_opening (line : Count) (ahead : Text) :
    (⟨.between, line⟩ : Reader).run ('/' :: '*' :: ahead) =
      (⟨.comment line false, line⟩ : Reader).run ahead := by
  have hslash : (⟨.between, line⟩ : Reader).read '/' ('*' :: ahead) = some ⟨.opening line, line⟩ := by
    simp [read]
  rw [run_of_read hslash rfl]
  exact run_of_read rfl rfl

/-- A lexeme becomes a token on the line of the counter. -/
theorem run_lexeme {c : Char} {ahead after : Text} {k : Kind} {w : Text}
    (h : Piece.leading? c ahead = some (.lexeme k w, after)) (line : Count) :
    (⟨.between, line⟩ : Reader).run (c :: ahead) =
      ((⟨.between, line⟩ : Reader).run after).cons ⟨k, w, line⟩ := by
  obtain ⟨d, w, rfl⟩ := List.exists_cons_of_ne_nil (Piece.ne_nil_of_leading? h)
  have htext : d :: (w ++ after) = c :: ahead := Piece.text_of_leading? h
  obtain ⟨rfl, rfl⟩ := List.cons.inj htext
  -- a lexeme was cut off, so this was not the branch of comments or that of blanks
  obtain ⟨hcut, hslash, hblank⟩ : Piece.leadingLexeme d (w ++ after) = (.lexeme k (d :: w), after) ∧
      ¬(d = '/' ∧ (w ++ after).head? = some '*') ∧ ¬isBlank d = true := by
    rw [Piece.leading?] at h
    split at h
    next =>
      obtain ⟨closed, -, he⟩ := Option.map_eq_some_iff.1 h
      cases he
    next hslash =>
      split at h
      next => cases h
      next hblank => exact ⟨Option.some.inj h, hslash, hblank⟩
  have hread : (⟨.between, line⟩ : Reader).read d (w ++ after) = some ⟨.within w.length, line⟩ := by
    simp only [read, if_neg hslash, if_neg hblank, hcut, Piece.text, List.length_cons,
      Nat.add_sub_cancel]
  have htoken : (⟨.between, line⟩ : Reader).token? d (w ++ after) = some ⟨k, d :: w, line⟩ := by
    simp only [token?, if_neg (not_or.2 ⟨hslash, hblank⟩), hcut]
  rw [run]
  simp only [hread, htoken, run_within]

/-- What a scan does with a piece before it goes on. -/
def passing (line : Count) (next : Count → Scan) : Piece → Scan
  | .lexeme kind spelling => (next line).cons ⟨kind, spelling, line⟩
  | .blank run => Scan.advance line run.newlines next
  | .comment body => Scan.advance line body.newlines next

/-- The scan of a source passes over its first piece and goes on behind it. -/
theorem ofSource_of_leading? {c : Char} {ahead after : Text} {p : Piece}
    (h : Piece.leading? c ahead = some (p, after)) (line : Count) :
    Scan.ofSource line (c :: ahead) = passing line (fun l => Scan.ofSource l after) p := by
  rw [Scan.ofSource, dissect_of_leading?_eq_some h]
  cases p <;> rfl

/-- The reader does the same with a piece as the scan of a source. Here are the cases of a blank
run, a comment and a lexeme. -/
theorem run_of_leading? {c : Char} {ahead after : Text} {p : Piece}
    (h : Piece.leading? c ahead = some (p, after)) (line : Count) :
    (⟨.between, line⟩ : Reader).run (c :: ahead) =
      passing line (fun l => (⟨.between, l⟩ : Reader).run after) p := by
  have hfits := Piece.fits_of_leading? h
  have htext := Piece.text_of_leading? h
  cases p with
  | blank blanks =>
    rw [← htext]
    exact run_blanks hfits line after
  | comment body =>
    have hopening : c :: ahead = '/' :: '*' :: (body ++ '*' :: '/' :: after) := by
      simp [← htext, Piece.text]
    rw [hopening, run_opening, run_comment line _ (by simp), closeComment?_append hfits]
    rfl
  | lexeme k w => exact run_lexeme h line

/-- **The reader scans.** Whatever the source, the reader finds the same tokens as the scan, stops at the
same line and ends in the same way. -/
theorem run_eq_ofSource (line : Count) (s : Text) :
    (⟨.between, line⟩ : Reader).run s = Scan.ofSource line s := by
  fun_induction dissect s generalizing line with
  | case1 =>
    rw [Scan.ofSource, dissect_nil]
    rfl
  | case2 c ahead h =>
    obtain ⟨rfl, t, rfl, ht⟩ := Piece.leading?_eq_none_iff.1 h
    rw [run_opening, run_comment line t (by simp), closeComment?_eq_none_iff.2 ht, Scan.ofSource,
      dissect_of_leading?_eq_none h]
    rfl
  | case3 c ahead p after h _ ih =>
    rw [run_of_leading? h, ofSource_of_leading? h]
    simp only [ih]

/-! ## The counter at every place -/

/-- Whether a reader knows what it has in front of it: no line feed in what is still to come of a
lexeme, and a star behind the slash that opens a comment. -/
def Sound (r : Reader) (ahead : Text) : Prop :=
  match r.mode with
  | .between => True
  | .inside left => '\n' ∉ ahead.take (left + 1)
  | .opening _ => ahead.head? = some '*'
  | .comment _ _ => True

theorem sound_between (line : Count) (ahead : Text) : Sound ⟨.between, line⟩ ahead := trivial

/-- In a lexeme there is no line feed as far as it goes. -/
theorem sound_within {n : Nat} {ahead : Text} (h : '\n' ∉ ahead.take n) (line : Count) :
    Sound ⟨.within n, line⟩ ahead := by
  cases n with
  | zero => trivial
  | succ left => exact h

/-- There is no line feed in a lexeme that a text starts with, its first character not counted. -/
theorem newline_notMem_take {c : Char} {ahead : Text} (hb : isBlank c = false)
    (hc : ¬(c = '/' ∧ ahead.head? = some '*')) :
    '\n' ∉ ahead.take ((Piece.leadingLexeme c ahead).1.text.length - 1) := by
  obtain ⟨k, w, after, hlexeme⟩ := Piece.exists_eq_leadingLexeme c ahead
  obtain ⟨hw, -⟩ := Piece.isLexeme_of_leadingLexeme hb hc hlexeme
  have htext := Piece.text_leadingLexeme c ahead
  rw [hlexeme] at htext ⊢
  obtain ⟨d, w, rfl⟩ := List.exists_cons_of_ne_nil hw.ne_nil
  have htail : w ++ after = ahead := (List.cons.inj htext).2
  rw [← htail, Piece.text, List.length_cons, Nat.add_sub_cancel, List.take_left]
  intro hn
  have hblank := hw.isBlank_eq_false (List.mem_cons_of_mem d hn)
  rw [isBlank_newline] at hblank
  cases hblank

/-- **Nothing but a line feed is counted.** A sound reader counts the character that it reads, whatever its
mode, and goes into a mode in which it is sound again. In most cases that is because the character is no
line feed and counting it changes nothing. -/
theorem Sound.exists_mode {r : Reader} {c : Char} {ahead : Text} (h : Sound r (c :: ahead)) :
    ∃ mode, (r.read c ahead = (count r.line c).map fun line => ⟨mode, line⟩) ∧
      ∀ line, Sound ⟨mode, line⟩ ahead := by
  obtain ⟨mode, line⟩ := r
  cases mode with
  | between =>
    simp only [read]
    split
    next hc =>
      obtain ⟨rfl, hstar⟩ := hc
      rw [count_of_ne (by decide)]
      exact ⟨.opening line, rfl, fun _ => hstar⟩
    next hc =>
      split
      next => exact ⟨.between, rfl, fun line => sound_between line ahead⟩
      next hb =>
        have hne : c ≠ '\n' := by
          rintro rfl
          exact hb isBlank_newline
        rw [count_of_ne hne]
        exact ⟨_, rfl, sound_within (newline_notMem_take (by simpa using hb) hc)⟩
  | inside left =>
    simp only [Sound, List.take_succ_cons, List.mem_cons, not_or] at h
    -- a line feed here would be a part of the lexeme
    rw [count_of_ne (Ne.symm h.1)]
    exact ⟨.within left, rfl, sound_within h.2⟩
  | opening start =>
    -- the star was seen when the slash was taken for an opening
    obtain rfl : c = '*' := Option.some.inj h
    rw [count_of_ne (by decide)]
    exact ⟨.comment start false, rfl, fun _ => trivial⟩
  | comment start star =>
    simp only [read]
    split
    next hc =>
      obtain ⟨rfl, -⟩ := hc
      rw [count_of_ne (by decide)]
      exact ⟨.between, rfl, fun line => sound_between line ahead⟩
    next => exact ⟨.comment start (c = '*'), rfl, fun _ => trivial⟩

/-- At every place the counter has advanced by the line feeds in front of it. This includes the
places inside of comments and lexemes, which the scan of a source does not know of. -/
theorem map_line_readThrough {r : Reader} {front back : Text} (h : Sound r (front ++ back)) :
    (r.readThrough front back).map Reader.line = Count.plus? r.line front.newlines := by
  induction front generalizing r with
  | nil =>
    rw [readThrough, Text.newlines_nil, Count.plus?_zero]
    rfl
  | cons c front ih =>
    rw [List.cons_append] at h
    obtain ⟨mode, hread, hsound⟩ := h.exists_mode
    rw [readThrough, hread, ← List.singleton_append, Text.newlines_append, Count.plus?_add, ← count_eq]
    cases count r.line c with
    | none => rfl
    | some line => exact ih (hsound line)

end Reader

/-! ## The counter when scanning stops -/

namespace Scan

/-- Within its range the counter takes in all line feeds of a source, also those in a comment that is
never closed, and nothing else stops the scan. -/
theorem ofSource_within {line : Count} {s : Text} (h : line.toNat + s.newlines < UInt64.size) :
    (ofSource line s).line.toNat = line.toNat + s.newlines ∧
      ((∃ ts, (ofSource line s).tokens = .ok ts) ∨
        ∃ start, (ofSource line s).tokens = .error (.error (.unterminatedComment start))) := by
  rw [ofSource_eq h]
  refine ⟨Count.toNat_after h, ?_⟩
  cases (Layout.ofSource s).openComment with
  | none => exact .inl ⟨_, rfl⟩
  | some comment => exact .inr ⟨_, rfl⟩

/-- Beyond the range, the scan ends in the fault of the addition. -/
theorem ofSource_beyond {line : Count} {s : Text} (h : UInt64.size ≤ line.toNat + s.newlines) :
    (ofSource line s).tokens = .error (.fault .addOverflow) ∧ (ofSource line s).line = Count.last := by
  obtain ⟨hline, hending⟩ := ofSource_overflow h
  refine ⟨?_, hline⟩
  rw [tokens, failure?, hending]

/-- Sources with the same number of line feeds leave the same counter, whatever else is in them. -/
theorem line_ofSource_congr {s s' : Text} (h : s.newlines = s'.newlines) (line : Count) :
    (ofSource line s).line = (ofSource line s').line := by
  by_cases hline : line.toNat + s.newlines < UInt64.size
  · rw [← UInt64.toNat_inj, (ofSource_within hline).1, (ofSource_within (h ▸ hline)).1, h]
  · have hbeyond := Nat.not_lt.1 hline
    rw [(ofSource_beyond hbeyond).2, (ofSource_beyond (h ▸ hbeyond)).2]

/-- **Every line feed is counted once**, whether the scan comes to the end of the source or to the end of a
comment that is never closed, as long as there is a count for it; the first line feed for which there is
none stops the scan at the last line. No other character is counted, wherever it stands. And so it goes
from character to character: a reader that takes one after the other does what the scan does, and at every
place its counter has advanced by the line feeds in front of it. -/
theorem line_feeds_counted (line : Count) (s : Text) :
    (line.toNat + s.count '\n' < UInt64.size →
      (ofSource line s).line.toNat = line.toNat + s.count '\n' ∧
        ((∃ ts, (ofSource line s).tokens = .ok ts) ∨
          ∃ start, (ofSource line s).tokens = .error (.error (.unterminatedComment start)))) ∧
    (UInt64.size ≤ line.toNat + s.count '\n' →
      (ofSource line s).tokens = .error (.fault .addOverflow) ∧
        (ofSource line s).line.toNat = UInt64.size - 1) ∧
    (∀ (front back : Text) (c : Char), s = front ++ back → c ≠ '\n' →
      (ofSource line (front ++ c :: back)).line = (ofSource line s).line) ∧
    (⟨.between, line⟩ : Reader).run s = ofSource line s ∧
    ∀ front back : Text, s = front ++ back →
      ((⟨.between, line⟩ : Reader).readThrough front back).map Reader.line =
        Count.plus? line (front.count '\n') := by
  refine ⟨ofSource_within, fun h => ?_, fun front back c hs hc => ?_, Reader.run_eq_ofSource line s,
    fun front back hs => Reader.map_line_readThrough (Reader.sound_between line _)⟩
  · obtain ⟨htokens, hline⟩ := ofSource_beyond h
    refine ⟨htokens, ?_⟩
    rw [hline]
    decide
  · apply line_ofSource_congr
    rw [hs, Text.newlines_append, Text.newlines_append, Text.newlines_cons, if_neg hc, Nat.add_zero]

/-- Line feeds between lexemes, in a comment and in one that is never closed, and among them characters
that end a line elsewhere. From the line before the last one on, the second line feed is too much. -/
theorem line_feeds_counted_separators :
    let s : Text := "a\n/*\r*\u2028\n*/\u0085b\u2029/*\n".toList
    (ofSource 7 s).line.toNat = 10 ∧
    (ofSource 7 s).tokens ≠ .error (.fault .addOverflow) ∧
    (ofSource 18446744073709551614 s).tokens = .error (.fault .addOverflow) ∧
    (ofSource 18446744073709551614 s).line.toNat = 18446744073709551615 ∧
    (ofSource 7 ("a\n/*\r".toList ++ '\u000B' :: "*\u2028\n*/\u0085b\u2029/*\n".toList)).line =
      (ofSource 7 s).line ∧
    ((⟨.between, 7⟩ : Reader).readThrough "a\n/*\r*\u2028\n*".toList "/\u0085b\u2029/*\n".toList).map
      Reader.line = some 9 := by
  intro s
  obtain ⟨hwithin, -, hother, -, hplace⟩ := line_feeds_counted 7 s
  obtain ⟨-, hbeyond, -, -, -⟩ := line_feeds_counted 18446744073709551614 s
  obtain ⟨hline, htokens⟩ := hwithin (by decide)
  obtain ⟨hfault, hlast⟩ := hbeyond (by decide)
  refine ⟨hline.trans (by decide), ?_, hfault, hlast, hother _ _ '\u000B' (by decide) (by decide),
    (hplace _ _ (by decide)).trans (by decide)⟩
  rcases htokens with ⟨ts, hts⟩ | ⟨start, hts⟩
  · rw [hts]
    exact fun h => nomatch h
  · rw [hts]
    exact fun h => nomatch h

end Scan

end CMinusFrontEnd
