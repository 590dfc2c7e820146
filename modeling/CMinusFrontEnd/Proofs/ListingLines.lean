import CMinusFrontEnd.Listing
import CMinusFrontEnd.Proofs.SourceLines
import Mathlib.Data.List.Basic

/-!
# Tokens below their lines

In the listing of a source every token stands below the line on which it was found. In general the
rows of a listing depend on the order of the tokens, since a token can hold back those behind it.
Where the tokens are in the order of their lines nothing is held back for too long, and the rows are
told line by line (`Listing.rowsFrom_eq`).

For the tokens of a scanned source this is the main statement, `Listing.held_eq_of_tokens`. The only
token without a line to stand below is the end of the source, and only if there is no text behind
the last line feed.
-/

namespace CMinusFrontEnd

namespace Listing

/-! ## Tokens in the order of their lines -/

/-- As long as tokens do not stand before a line, those up to the line are those on it. The loop can
stop at the first token beyond the line because the tokens are in order. -/
theorem takeWhile_eq_tokensOn {ts : List Token} {number : Nat}
    (hle : ∀ t ∈ ts, number ≤ t.line.toNat)
    (hsorted : ts.Pairwise fun x y => x.line.toNat ≤ y.line.toNat) :
    (ts.takeWhile fun t => t.line.toNat ≤ number) = tokensOn ts number ∧
      (ts.dropWhile fun t => t.line.toNat ≤ number) =
        ts.filter fun t => number + 1 ≤ t.line.toNat := by
  induction ts with
  | nil => exact ⟨rfl, rfl⟩
  | cons t ts ih =>
    obtain ⟨hfirst, hsorted⟩ := List.pairwise_cons.1 hsorted
    obtain ⟨ht, hle⟩ := List.forall_mem_cons.1 hle
    by_cases hhere : t.line.toNat ≤ number
    · obtain ⟨htake, hdrop⟩ := ih hle hsorted
      have hon : t.line.toNat = number := Nat.le_antisymm hhere ht
      rw [List.takeWhile_cons_of_pos (by simpa using hhere), htake,
        List.dropWhile_cons_of_pos (by simpa using hhere), hdrop]
      constructor
      · exact (List.filter_cons_of_pos (by simpa using hon)).symm
      · exact (List.filter_cons_of_neg (by simp only [decide_eq_true_eq]; omega)).symm
    · -- in order, so once a token is beyond the line all those behind it are
      have hbeyond : ∀ x ∈ t :: ts, number < x.line.toNat := by
        intro x hx
        rcases List.mem_cons.1 hx with rfl | hx
        · omega
        · have := hfirst x hx
          omega
      rw [List.takeWhile_cons_of_neg (by simpa using hhere),
        List.dropWhile_cons_of_neg (by simpa using hhere), tokensOn_eq_nil hbeyond]
      refine ⟨rfl, (List.filter_eq_self.2 ?_).symm⟩
      intro x hx
      have := hbeyond x hx
      simp only [decide_eq_true_eq]
      omega

/-- The tokens on a line are not changed where tokens on lines before it are left out. -/
theorem tokensOn_filter {ts : List Token} {least number : Nat} (h : least ≤ number) :
    tokensOn (ts.filter fun t => least ≤ t.line.toNat) number = tokensOn ts number := by
  rw [tokensOn, List.filter_filter, tokensOn]
  apply List.filter_congr
  intro t _
  by_cases ht : t.line.toNat = number
  · simp [ht, h]
  · simp [ht]

/-- **Line by line.** Tokens in the order of their lines stand below their lines, and at the end
come those that stand on no line. -/
theorem rowsFrom_eq (echo : Bool) (lines : List Text) {ts : List Token} {number : Nat}
    (hle : ∀ t ∈ ts, number ≤ t.line.toNat)
    (hsorted : ts.Pairwise fun x y => x.line.toNat ≤ y.line.toNat) :
    rowsFrom echo number lines ts =
      ((lines.zipIdx number).flatMap fun (line, i) =>
        (if echo then [.source i line] else []) ++ (tokensOn ts i).map .token) ++
      (ts.filter fun t => number + lines.length ≤ t.line.toNat).map .token := by
  induction lines generalizing number ts with
  | nil =>
    have hall : (ts.filter fun t => number + ([] : List Text).length ≤ t.line.toNat) = ts :=
      List.filter_eq_self.2 fun t ht => by simpa using hle t ht
    rw [hall]
    rfl
  | cons line lines ih =>
    obtain ⟨htake, hdrop⟩ := takeWhile_eq_tokensOn hle hsorted
    have hbeyond : ∀ t ∈ ts.filter fun t => number + 1 ≤ t.line.toNat,
        number + 1 ≤ t.line.toNat := by
      intro t ht
      simpa using (List.mem_filter.1 ht).2
    -- what stands beyond this line stands on the same lines as before
    have hlines : ((lines.zipIdx (number + 1)).flatMap fun (line, i) =>
          (if echo then [Row.source i line] else []) ++
            (tokensOn (ts.filter fun t => number + 1 ≤ t.line.toNat) i).map .token) =
        (lines.zipIdx (number + 1)).flatMap fun (line, i) =>
          (if echo then [Row.source i line] else []) ++ (tokensOn ts i).map .token := by
      apply List.flatMap_congr
      rintro ⟨line', i⟩ hentry
      have hi : number + 1 ≤ i := List.le_snd_of_mem_zipIdx hentry
      simp only [tokensOn_filter hi]
    have hend : (ts.filter fun t => number + 1 ≤ t.line.toNat).filter
          (fun t => number + 1 + lines.length ≤ t.line.toNat) =
        ts.filter fun t => number + (line :: lines).length ≤ t.line.toNat := by
      rw [List.filter_filter]
      apply List.filter_congr
      intro t _
      rw [← Bool.decide_and, decide_eq_decide, List.length_cons]
      omega
    rw [rowsFrom, htake, hdrop, ih hbeyond (hsorted.filter _), hlines, hend, List.zipIdx_cons,
      List.flatMap_cons]
    simp only [List.append_assoc]

/-! ## The tokens of a source -/

/-- No lexeme stands behind all lines: there is no text in which it could occur, and no lexeme is
empty. -/
theorem filter_tokens_eq_nil {s : Text} (hd : (Layout.ofSource s).Derives s)
    (hline : (1 : Count).toNat + s.newlines < UInt64.size) :
    (((Layout.ofSource s).tokens 1).filter fun t => 1 + s.lines.length ≤ t.line.toNat) = [] := by
  apply List.filter_eq_nil_iff.2
  intro t ht hbehind
  have hbehind : 1 + s.lines.length ≤ t.line.toNat := by simpa using hbehind
  have hoccur := (hd.belongTo hline).occur (t.line.toNat - 1)
  have hone : (1 : Count).toNat = 1 := rfl
  rw [Text.lineAt_of_length_le (by omega), hone] at hoccur
  have hmem : t ∈ tokensOn ((Layout.ofSource s).tokens 1 ++ [.endFile (Count.after 1 s)])
      (1 + (t.line.toNat - 1)) :=
    List.mem_filter.2 ⟨List.mem_append_left _ ht, by simp only [decide_eq_true_eq]; omega⟩
  exact (Layout.isLexeme_of_mem_tokensBehind hd.allFit t ht).ne_nil
    (hoccur.eq_nil _ (List.mem_map_of_mem hmem))

/-- Which tokens of a scanned source stand behind all its lines: the end of the source, if there is
no text behind the last line feed. -/
theorem filter_length_lines_lt {s : Text} {ts : List Token}
    (h : (Scan.ofSource 1 s).tokens = .ok ts) :
    (ts.filter fun t => 1 + s.lines.length ≤ t.line.toNat) =
      if s = [] ∨ s.getLast? = some '\n' then [.endFile (Scan.ofSource 1 s).line] else [] := by
  obtain ⟨hend, rfl⟩ := Scan.tokens_eq_ok_iff_finished.1 h
  obtain ⟨hd, hline⟩ := Scan.derives_of_finished hend
  have hcount := Text.length_lines s
  have hlast : (Count.after 1 s).toNat = 1 + s.newlines := Count.toNat_after hline
  rw [hd.ofSource_eq hline, List.filter_append, filter_tokens_eq_nil hd hline, List.nil_append]
  split at hcount
  next hfull =>
    rw [if_pos hfull, List.filter_cons_of_pos, List.filter_nil]
    simp only [Token.endFile, hlast, decide_eq_true_eq]
    omega
  next hfull =>
    rw [if_neg hfull, List.filter_cons_of_neg, List.filter_nil]
    simp only [Token.endFile, hlast, decide_eq_true_eq]
    omega

/-- The text of the listing of a source. -/
theorem text_listing (echo : Bool) (s : Text) (ts : List Token) :
    (listing echo s ts).text = (rows echo s ts).flatMap Row.text := by
  rw [listing, Writing.text_ofTexts, List.flatMap_def]

/-- **Tokens stand below their lines.** The listing of a scanned source consists of its lines, and
below each line stand the tokens that were found on it. The end of the source stands behind all lines
if there is no text behind the last line feed, and no other token does. The lexemes below a line
occur in it from left to right. -/
theorem held_eq_of_tokens {s : Text} {ts : List Token} (h : (Scan.ofSource 1 s).tokens = .ok ts) :
    (listing true s ts).failure? .unlimited = none ∧
    (listing true s ts).held .unlimited = Text.bytes
      (((s.lines.zipIdx 1).flatMap fun (line, i) =>
        (Row.source i line).text ++ (tokensOn ts i).flatMap fun t => (Row.token t).text) ++
      if s = [] ∨ s.getLast? = some '\n' then (Row.token (.endFile (Scan.ofSource 1 s).line)).text
      else []) ∧
    ∀ entry ∈ s.lines.zipIdx 1,
      Text.OccurIn ((tokensOn ts entry.2).map Token.lexeme) entry.1 := by
  have hbelong : Token.BelongTo 1 s ts := by
    obtain ⟨hend, rfl⟩ := Scan.tokens_eq_ok_iff_finished.1 h
    obtain ⟨hd, hline⟩ := Scan.derives_of_finished hend
    rw [hd.ofSource_eq hline]
    exact hd.belongTo hline
  refine ⟨by simp [listing], ?_, ?_⟩
  · have hrows := rowsFrom_eq true s.lines hbelong.le hbelong.sorted
    rw [filter_length_lines_lt h] at hrows
    rw [Writing.held_unlimited, text_listing, rows, hrows, List.flatMap_append, List.flatMap_map,
      List.flatMap_assoc]
    congr 2
    · apply List.flatMap_congr
      rintro ⟨line, i⟩ -
      simp only [if_true, List.singleton_append, List.flatMap_cons, List.flatMap_map]
    · split
      · exact List.flatMap_singleton _ _
      · rfl
  · intro entry hentry
    have hoccur := hbelong.occur (entry.2 - 1)
    rwa [Nat.add_sub_of_le (List.le_snd_of_mem_zipIdx hentry),
      Text.lineAt_of_mem_zipIdx hentry] at hoccur

/-- A line that ends in a carriage return and a line feed, a comment over two lines, and a line feed
at the end of the source, where the token for the end stands behind the last line. -/
theorem held_eq_of_tokens_return :
    (Scan.ofSource 1 ['a', '\r', '\n', '/', '*', '\n', '*', '/', 'b', '\n']).tokens =
      .ok [⟨.identifier, ['a'], 1⟩, ⟨.identifier, ['b'], 3⟩, .endFile 4] ∧
    (listing true ['a', '\r', '\n', '/', '*', '\n', '*', '/', 'b', '\n']
      [⟨.identifier, ['a'], 1⟩, ⟨.identifier, ['b'], 3⟩, .endFile 4]).held .unlimited =
      Text.bytes ("   1: a\n\t1: ID, name= a\n   2: /*\n   3: */b\n".toList ++
        "\t3: ID, name= b\n\t4: EOF\n".toList) ∧
    Text.OccurIn [['b']] ['*', '/', 'b'] := by
  have h : (Scan.ofSource 1 ['a', '\r', '\n', '/', '*', '\n', '*', '/', 'b', '\n']).tokens =
      .ok [⟨.identifier, ['a'], 1⟩, ⟨.identifier, ['b'], 3⟩, .endFile 4] := by decide +kernel
  obtain ⟨-, hheld, hoccur⟩ := held_eq_of_tokens h
  refine ⟨h, ?_, hoccur (['*', '/', 'b'], 3) (by decide)⟩
  rw [hheld]
  decide +kernel

end Listing

end CMinusFrontEnd
