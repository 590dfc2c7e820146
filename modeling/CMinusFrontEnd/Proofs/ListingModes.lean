import CMinusFrontEnd.Proofs.AllOrNothing
import CMinusFrontEnd.Proofs.LineEnds
import CMinusFrontEnd.Proofs.ListingLines
import Mathlib.Data.List.Flatten

/-!
# The modes of a listing

A listing can show tokens, source lines or both. The rows for both are the rows for the one and the
rows for the other, interleaved: leaving out the source lines gives all tokens in the order of their
list (`Listing.filter_isToken_rowsFrom`), and leaving out the tokens gives all source lines
(`Listing.filter_not_isToken_rowsFrom`).

The two kinds of rows can be told apart in what is written. The line of a token starts with a tab,
and the line of a source line with a space or a digit, whatever stands in the source. So the outputs
of the program in the other modes can be had from the output that shows both. That is the main
statement, `Listing.held_modes`.
-/

namespace CMinusFrontEnd

namespace Listing

/-! ## Rows of two kinds -/

/-- Whether a row shows a token. -/
def Row.isToken : Row → Bool
  | source .. => false
  | token _ => true

/-- The text of a row without its line end. -/
def Row.content : Row → Text
  | source number line => (Text.ofNat number).alignRight 4 ++ ':' :: ' ' :: line
  | token t => '\t' :: (Text.ofNat t.line.toNat ++ ':' :: ' ' :: t.kind.describe t.lexeme)

theorem Row.text_eq (r : Row) : r.text = endLine r.content := by
  cases r <;> rfl

/-- Without the source lines all tokens are left, in their order. -/
theorem filter_isToken_rowsFrom (echo : Bool) (number : Nat) (lines : List Text)
    (ts : List Token) : (rowsFrom echo number lines ts).filter Row.isToken = ts.map .token := by
  have htokens (ts : List Token) : (ts.map Row.token).filter Row.isToken = ts.map .token :=
    List.filter_eq_self.2 fun r hr => by
      obtain ⟨t, -, rfl⟩ := List.mem_map.1 hr
      rfl
  induction lines generalizing number ts with
  | nil => exact htokens ts
  | cons line lines ih =>
    have hsource : (if echo then [Row.source number line] else []).filter Row.isToken = [] := by
      cases echo <;> rfl
    rw [rowsFrom, List.filter_append, List.filter_append, hsource, htokens, ih, List.nil_append,
      ← List.map_append, List.takeWhile_append_dropWhile]

/-- Without the tokens all source lines are left. -/
theorem filter_not_isToken_rowsFrom (number : Nat) (lines : List Text) (ts : List Token) :
    ((rowsFrom true number lines ts).filter fun r => !r.isToken) = rowsFrom true number lines [] := by
  have htokens (ts : List Token) : ((ts.map Row.token).filter fun r => !r.isToken) = [] :=
    List.filter_eq_nil_iff.2 fun r hr => by
      obtain ⟨t, -, rfl⟩ := List.mem_map.1 hr
      exact Bool.false_ne_true
  induction lines generalizing number ts with
  | nil => exact htokens ts
  | cons line lines ih =>
    rw [rowsFrom, List.filter_append, List.filter_append, htokens, ih, List.append_nil]
    rfl

/-- A listing without source lines has nothing of the source. -/
theorem rowsFrom_false (number : Nat) (lines : List Text) (ts : List Token) :
    rowsFrom false number lines ts = ts.map .token := by
  have hnone : ∀ r ∈ rowsFrom false number lines ts, r.isToken = true := by
    induction lines generalizing number ts with
    | nil =>
      intro r hr
      obtain ⟨t, -, rfl⟩ := List.mem_map.1 hr
      rfl
    | cons line lines ih =>
      intro r hr
      rw [rowsFrom, List.mem_append] at hr
      rcases hr with hr | hr
      · obtain ⟨t, -, rfl⟩ := List.mem_map.1 hr
        rfl
      · exact ih _ _ r hr
  rw [← filter_isToken_rowsFrom false number lines ts, List.filter_eq_self.2 hnone]

/-! ## Lines of two kinds -/

/-- Whether a row is a single line. -/
def Row.OnLine (r : Row) : Prop := '\n' ∉ r.content

theorem Row.onLine_token {t : Token} (h : '\n' ∉ t.lexeme) : Row.OnLine (.token t) := by
  simp only [OnLine, content, List.mem_cons, List.mem_append, not_or]
  exact ⟨by decide, Text.newline_not_mem_ofNat _, by decide, by decide,
    t.kind.newline_not_mem_describe h⟩

theorem mem_alignRight_ofNat {width n : Nat} {c : Char} (h : c ∈ (Text.ofNat n).alignRight width) :
    c = ' ' ∨ c.isDigit = true := by
  rw [Text.alignRight, List.leftpad, List.mem_append] at h
  exact h.imp List.eq_of_mem_replicate Text.isDigit_of_mem_ofNat

theorem Row.onLine_source {number : Nat} {line : Text} (h : '\n' ∉ line) :
    Row.OnLine (.source number line) := by
  simp only [OnLine, content, List.mem_cons, List.mem_append, not_or]
  refine ⟨fun hmem => ?_, by decide, by decide, h⟩
  rcases mem_alignRight_ofNat hmem with hc | hc <;> cases hc

/-- The rows of a listing are lines if the lexemes are. -/
theorem onLine_of_mem_rowsFrom {echo : Bool} {number : Nat} {lines : List Text} {ts : List Token}
    (hlines : ∀ line ∈ lines, '\n' ∉ line) (hts : ∀ t ∈ ts, '\n' ∉ t.lexeme) :
    ∀ r ∈ rowsFrom echo number lines ts, r.OnLine := by
  have htokens {ts : List Token} (hts : ∀ t ∈ ts, '\n' ∉ t.lexeme) :
      ∀ r ∈ ts.map Row.token, r.OnLine := by
    intro r hr
    obtain ⟨t, ht, rfl⟩ := List.mem_map.1 hr
    exact Row.onLine_token (hts t ht)
  induction lines generalizing number ts with
  | nil => exact htokens hts
  | cons line lines ih =>
    obtain ⟨hline, hlines⟩ := List.forall_mem_cons.1 hlines
    rw [rowsFrom]
    intro r hr
    rw [List.mem_append, List.mem_append] at hr
    rcases hr with (hr | hr) | hr
    · cases echo with
      | false => cases hr
      | true =>
        obtain rfl := List.mem_singleton.1 hr
        exact Row.onLine_source hline
    · exact htokens (fun t ht => hts t (List.takeWhile_subset _ ht)) r hr
    · exact ih hlines (fun t ht => hts t (List.dropWhile_subset _ ht)) r hr

/-- Whether bytes start with a tab. -/
def startsWithTab (b : Bytes) : Bool := b.head? == some 9

/-- The line of a row starts with a tab exactly if the row shows a token. -/
theorem Row.startsWithTab_text (r : Row) : startsWithTab r.text.bytes = r.isToken := by
  cases r with
  | token t => rfl
  | source number line =>
    obtain ⟨c, rest, hc, hne⟩ : ∃ c rest, (Row.source number line).text = c :: rest ∧ c.toNat ≠ 9 := by
      rw [text]
      cases hfront : (Text.ofNat number).alignRight 4 with
      | nil => exact ⟨':', _, rfl, by decide⟩
      | cons c front =>
        refine ⟨c, _, rfl, ?_⟩
        have hmem : c ∈ (Text.ofNat number).alignRight 4 := hfront ▸ List.mem_cons_self
        rcases mem_alignRight_ofNat hmem with rfl | hdigit
        · decide
        · have hrange := Char.isDigit_iff_toNat.1 hdigit
          simp only [Char.reduceToNat] at hrange
          omega
    rw [startsWithTab, isToken, beq_eq_false_iff_ne, hc]
    exact fun htab => hne (Text.toNat_of_head?_bytes (by decide) htab)

/-! ## What is written -/

/-- The lines that start with a tab, as they stand. -/
def tabLines (b : Bytes) : Bytes := ((cutBehind 10 b).filter startsWithTab).flatten

/-- The lines that do not start with a tab, as they stand. -/
def otherLines (b : Bytes) : Bytes := ((cutBehind 10 b).filter fun l => !startsWithTab l).flatten

/-- Some of the lines are no longer than all of them. -/
theorem length_filter_cutBehind_le (choose : Bytes → Bool) (b : Bytes) :
    ((cutBehind 10 b).filter choose).flatten.length ≤ b.length := by
  have hsublist : ((cutBehind 10 b).filter choose).flatten.Sublist (cutBehind 10 b).flatten :=
    List.filter_sublist.flatten
  rw [flatten_cutBehind] at hsublist
  exact hsublist.length_le

theorem length_tabLines_le (b : Bytes) : (tabLines b).length ≤ b.length :=
  length_filter_cutBehind_le startsWithTab b

theorem length_otherLines_le (b : Bytes) : (otherLines b).length ≤ b.length :=
  length_filter_cutBehind_le (fun l => !startsWithTab l) b

/-- An unlimited sink holds the rows one behind the other. -/
theorem held_listing (echo : Bool) (s : Text) (ts : List Token) :
    (listing echo s ts).held .unlimited = ((rows echo s ts).map fun r => r.text.bytes).flatten := by
  rw [Writing.held_unlimited, text_listing, Text.bytes, List.flatMap_assoc, List.flatMap_def]
  rfl

/-- The lines of a listing are its rows. -/
theorem cutBehind_held {echo : Bool} {s : Text} {ts : List Token}
    (hts : ∀ t ∈ ts, '\n' ∉ t.lexeme) :
    cutBehind 10 ((listing echo s ts).held .unlimited) =
      (rows echo s ts).map fun r => r.text.bytes := by
  have hbytes (r : Row) : r.text.bytes = r.content.bytes ++ [10] := by
    rw [r.text_eq, endLine, Text.bytes_append]
    rfl
  have hrows : ∀ r ∈ rows echo s ts, (10 : UInt8) ∉ r.content.bytes := by
    intro r hr
    have hline : r.OnLine :=
      onLine_of_mem_rowsFrom (fun line hl => Text.newline_not_mem_of_mem_lines hl) hts r hr
    exact Text.newline_not_mem_bytes hline
  rw [held_listing, ← List.flatMap_def]
  simp only [hbytes]
  exact cutBehind_flatMap hrows

/-- Lines are chosen as rows are. -/
theorem filter_cutBehind_held {echo : Bool} {s : Text} {ts : List Token}
    (hts : ∀ t ∈ ts, '\n' ∉ t.lexeme) (choose : Bool → Bool) :
    ((cutBehind 10 ((listing echo s ts).held .unlimited)).filter fun l => choose (startsWithTab l)) =
      ((rows echo s ts).filter fun r => choose r.isToken).map fun r => r.text.bytes := by
  rw [cutBehind_held hts, List.filter_map]
  congr 2
  funext r
  exact congrArg choose r.startsWithTab_text

/-- The lines with a tab are the listing without the echo. -/
theorem tabLines_held {s : Text} {ts : List Token} (hts : ∀ t ∈ ts, '\n' ∉ t.lexeme) :
    tabLines ((listing true s ts).held .unlimited) = (listing false s ts).held .unlimited := by
  have hrows := @filter_cutBehind_held true s ts hts id
  simp only [id] at hrows
  rw [tabLines, hrows, held_listing, rows, rows, filter_isToken_rowsFrom, rowsFrom_false]

/-- The lines without one are the listing without the tokens. -/
theorem otherLines_held {s : Text} {ts : List Token} (hts : ∀ t ∈ ts, '\n' ∉ t.lexeme) :
    otherLines ((listing true s ts).held .unlimited) = (listing true s []).held .unlimited := by
  rw [otherLines, filter_cutBehind_held hts not, held_listing, rows, rows,
    filter_not_isToken_rowsFrom]

/-- Which source it is makes no difference for a listing that does not show it. -/
theorem listing_false_eq (s s' : Text) (ts : List Token) :
    listing false s ts = listing false s' ts := by
  rw [listing, listing, rows, rows, rowsFrom_false, rowsFrom_false]

end Listing

/-! ## Compilations that end well -/

theorem Failure.code_ne_zero (failure : Failure) : failure.code ≠ 0 := by
  cases failure with
  | error cause => exact (by decide : (1 : UInt32) ≠ 0)
  | fault cause => exact (by decide : (101 : UInt32) ≠ 0)

section Runs

variable {arguments : List Text} {o : Options} {fs : FileSystem} {source : Text}
  {tokens : List Token} {d : Destination}

/-- A compilation that ends well has not been stopped. -/
theorem not_stops_of_run (h : CommandLine.interpret arguments = .compile o)
    (hrun : (run FileSystem.machine arguments fs).1 = 0) (error : Error) : ¬ o.Stops fs error := by
  intro hstops
  obtain ⟨events, hcompile⟩ := compile_of_stops hstops
  rw [run_of_failure h hcompile] at hrun
  exact (Failure.error error).code_ne_zero hrun

/-- A compilation that ends well has scanned its source, and there was room for its listing. -/
theorem exists_room_of_run (h : CommandLine.interpret arguments = .compile o)
    (hrun : (run FileSystem.machine arguments fs).1 = 0) :
    ∃ source tokens d, o.Loads fs source ∧ (Scan.ofSource 1 source).tokens = .ok tokens ∧
      fs.place o.output = .ok d ∧ (fs.room d).answer (o.content source tokens) = .ok () := by
  have hnone := not_stops_of_run h hrun
  obtain ⟨source, hsource, -⟩ := exists_loads_of_not_stops hnone
  cases hscan : (Scan.ofSource 1 source).tokens with
  | error failure =>
    obtain ⟨events, hcompile⟩ := compile_of_scan_error hsource hscan
    rw [run_of_failure h hcompile] at hrun
    exact absurd hrun failure.code_ne_zero
  | ok tokens =>
    obtain ⟨d, hplace⟩ := exists_place_of_not_stops hnone hsource hscan
    cases hroom : (fs.room d).answer (o.content source tokens) with
    | ok answer => exact ⟨source, tokens, d, hsource, hscan, hplace, hroom⟩
    | error cause =>
      obtain ⟨after, hafter, -⟩ := run_of_no_room h hsource hscan hplace hroom
      rw [hafter] at hrun
      exact absurd hrun ((Failure.error (.system cause)).code_ne_zero)

/-- Whether the program ends well and this content arrives where its listing is to go. -/
def Lists (arguments : List Text) (fs : FileSystem) (output : Option Text) (content : Bytes) : Prop :=
  ∃ d after, fs.place output = .ok d ∧ run FileSystem.machine arguments fs = (0, after) ∧
    fs.Receives content after d

/-- Where there is room for some bytes, a compilation with a listing that is no longer ends well. -/
theorem lists_content {content : Bytes} (h : CommandLine.interpret arguments = .compile o)
    (hsource : o.Loads fs source) (hscan : (Scan.ofSource 1 source).tokens = .ok tokens)
    (hplace : fs.place o.output = .ok d) (hroom : (fs.room d).answer content = .ok ())
    (hle : (o.content source tokens).length ≤ content.length) :
    Lists arguments fs o.output (o.content source tokens) := by
  obtain ⟨after, hafter, hreceives, -⟩ :=
    run_of_room h hsource hscan hplace (Room.answer_of_le hle hroom)
  exact ⟨d, after, hplace, hafter, hreceives⟩

end Runs

/-- There is no line feed in a lexeme of a source. -/
theorem Scan.newline_not_mem_lexeme {line : Count} {s : Text} {ts : List Token}
    (h : (ofSource line s).tokens = .ok ts) : ∀ t ∈ ts, '\n' ∉ t.lexeme := by
  intro t ht
  rcases isLexeme_of_mem_tokens h t ht with hlexeme | hend
  · exact fun hmem => Bool.noConfusion (hlexeme.isBlank_eq_false hmem)
  · rw [hend]
    exact List.not_mem_nil

/-- **The modes of a listing.** Of a listing that shows tokens and source lines, the lines that start
with a tab are the listing without source lines, and the others are the listing without tokens. All
it takes is that there is no line feed in a lexeme, and in the lexemes of a source there is none. A
listing without source lines is the same for every source.

So it is for the program: whenever it can show both, it can show either. The three outputs have the
same line at the top, and behind it stands the listing of the source, all of it or the one part of it
or the other. -/
theorem Listing.held_modes :
    (∀ (s : Text) (ts : List Token), (∀ t ∈ ts, '\n' ∉ t.lexeme) →
      tabLines ((listing true s ts).held .unlimited) = (listing false s ts).held .unlimited ∧
      otherLines ((listing true s ts).held .unlimited) = (listing true s []).held .unlimited) ∧
    (∀ (line : Count) (s : Text) (ts : List Token), (Scan.ofSource line s).tokens = .ok ts →
      ∀ t ∈ ts, '\n' ∉ t.lexeme) ∧
    (∀ (s s' : Text) (ts : List Token),
      (listing false s ts).held .unlimited = (listing false s' ts).held .unlimited) ∧
    ∀ (o : Options) (fs : FileSystem) (both plain quiet : List Text),
      CommandLine.interpret both = .compile { o with echoSource := true, traceScan := true } →
      CommandLine.interpret plain = .compile { o with echoSource := false, traceScan := true } →
      CommandLine.interpret quiet = .compile { o with echoSource := true, traceScan := false } →
      (run FileSystem.machine both fs).1 = 0 →
      ∃ source tokens, o.Loads fs source ∧ (Scan.ofSource 1 source).tokens = .ok tokens ∧
        ∃ body, body = (listing true source tokens).held .unlimited ∧
          Lists both fs o.output (o.header.bytes ++ body) ∧
          Lists plain fs o.output (o.header.bytes ++ tabLines body) ∧
          Lists quiet fs o.output (o.header.bytes ++ otherLines body) := by
  refine ⟨fun s ts hts => ⟨tabLines_held hts, otherLines_held hts⟩,
    fun line s ts hscan => Scan.newline_not_mem_lexeme hscan,
    fun s s' ts => by rw [listing_false_eq s s'], ?_⟩
  intro o fs both plain quiet hboth hplain hquiet hrun
  obtain ⟨source, tokens, d, hsource, hscan, hplace, hroom⟩ := exists_room_of_run hboth hrun
  have hts := Scan.newline_not_mem_lexeme hscan
  have hwhole : Options.content { o with echoSource := true, traceScan := true } source tokens =
      o.header.bytes ++ (listing true source tokens).held .unlimited := by
    rw [o.header_eq]
    rfl
  have htokens : Options.content { o with echoSource := false, traceScan := true } source tokens =
      o.header.bytes ++ tabLines ((listing true source tokens).held .unlimited) := by
    rw [o.header_eq, tabLines_held hts]
    rfl
  have hlines : Options.content { o with echoSource := true, traceScan := false } source tokens =
      o.header.bytes ++ otherLines ((listing true source tokens).held .unlimited) := by
    rw [o.header_eq, otherLines_held hts]
    rfl
  rw [hwhole] at hroom
  have hloads (echoSource traceScan : Bool) :
      Options.Loads { o with echoSource, traceScan } fs source := ⟨hsource.path, hsource.read⟩
  -- the parts are no longer than the whole, so there is room for them as well
  have hlonger {part : Bytes}
      (hpart : part.length ≤ ((listing true source tokens).held .unlimited).length) :
      (o.header.bytes ++ part).length ≤
        (o.header.bytes ++ (listing true source tokens).held .unlimited).length := by
    rw [List.length_append, List.length_append]
    exact Nat.add_le_add_left hpart _
  refine ⟨source, tokens, ⟨hsource.path, hsource.read⟩, hscan, _, rfl, ?_, ?_, ?_⟩
  · have hlists := lists_content hboth (hloads true true) hscan hplace hroom
      (hwhole ▸ Nat.le_refl _)
    rwa [hwhole] at hlists
  · have hlists := lists_content hplain (hloads false true) hscan hplace hroom
      (htokens ▸ hlonger (length_tabLines_le _))
    rwa [htokens] at hlists
  · have hlists := lists_content hquiet (hloads true false) hscan hplace hroom
      (hlines ▸ hlonger (length_otherLines_le _))
    rwa [hlines] at hlists

/-- A source whose line looks like the line of a token. -/
theorem Listing.held_modes_tab :
    let source : Text := "\t1: EOF".toList
    let tokens : List Token := [⟨.number, "1".toList, 1⟩, ⟨.error, ":".toList, 1⟩,
      ⟨.identifier, "EOF".toList, 1⟩, .endFile 1]
    let o : Options := ⟨"a.cm".toList, none, true, true, false⟩
    let fs : FileSystem := { entries := [(["a.cm".toList], .file source.bytes)], here := [] }
    let both := ["a.cm".toList, "--echo-source".toList]
    let plain := ["a.cm".toList]
    let quiet := ["a.cm".toList, "--no-trace-scan".toList, "--echo-source".toList]
    (Scan.ofSource 1 source).tokens = .ok tokens ∧
    tabLines ((listing true source tokens).held .unlimited) =
      Text.bytes "\t1: NUM, val= 1\n\t1: ERROR: :\n\t1: ID, name= EOF\n\t1: EOF\n".toList ∧
    otherLines ((listing true source tokens).held .unlimited) =
      Text.bytes "   1: \t1: EOF\n".toList ∧
    CommandLine.interpret both = .compile { o with echoSource := true, traceScan := true } ∧
    CommandLine.interpret plain = .compile { o with echoSource := false, traceScan := true } ∧
    CommandLine.interpret quiet = .compile { o with echoSource := true, traceScan := false } ∧
    (run FileSystem.machine both fs).1 = 0 ∧
    Lists both fs none (o.header.bytes ++ (listing true source tokens).held .unlimited) ∧
    Lists plain fs none (o.header.bytes ++ (listing false source tokens).held .unlimited) ∧
    Lists quiet fs none (o.header.bytes ++ (listing true source []).held .unlimited) := by
  intro source tokens o fs both plain quiet
  obtain ⟨hparts, hscanned, -, hprogram⟩ := held_modes
  have hscan : (Scan.ofSource 1 source).tokens = .ok tokens := by decide +kernel
  have hboth : CommandLine.interpret both =
      .compile { o with echoSource := true, traceScan := true } := by decide
  have hplain : CommandLine.interpret plain =
      .compile { o with echoSource := false, traceScan := true } := by decide
  have hquiet : CommandLine.interpret quiet =
      .compile { o with echoSource := true, traceScan := false } := by decide
  have hrun : (run FileSystem.machine both fs).1 = 0 := by decide +kernel
  obtain ⟨htokens, hlines⟩ := hparts source tokens (hscanned 1 source tokens hscan)
  obtain ⟨source', tokens', hsource, hscan', body, rfl, hlists⟩ :=
    hprogram o fs both plain quiet hboth hplain hquiet hrun
  have hloads : o.Loads fs source := ⟨by decide, by decide⟩
  obtain rfl := hsource.unique hloads
  obtain rfl := Except.ok.inj (hscan'.symm.trans hscan)
  rw [htokens, hlines] at hlists
  refine ⟨hscan, ?_, ?_, hboth, hplain, hquiet, hrun, hlists⟩
  · rw [htokens]
    decide
  · rw [hlines]
    decide

end CMinusFrontEnd
