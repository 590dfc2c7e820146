import CMinusFrontEnd.Proofs.ListingModes

/-!
# Reading a listing back

A listing without source lines tells everything about the tokens of a source: `Listing.tokens?`
reads them back from the bytes (`Listing.held_determines_tokens`).

Not every list of tokens could be read back. A symbol is shown by the spelling of its kind, and the
end of the source by a text of its own, so nothing would be told about another lexeme that such a
token has; and a lexeme with a line feed in it would be taken for the end of a row. But a token of a
source is a lexeme of its kind. Two sorts of kinds are told apart for it. A kind that is *fixed* has
one lexeme, so what is shown is found in a table; the other kinds are *free* and show a heading and
the lexeme, and nothing in the table starts with one of these headings.
-/

namespace CMinusFrontEnd

/-! ## Descriptions -/

namespace Kind

/-- The kinds with one lexeme, and this lexeme. -/
def fixed : List (Kind × Text) :=
  (endFile, []) :: ReservedWord.all.map (fun word => (reserved word, word.text)) ++
    Symbol.all.map fun mark => (symbol mark, mark.text)

/-- The kinds with many lexemes. They show a heading and the lexeme. -/
def free : List Kind := [number, identifier, error]

/-- The lexeme behind the heading of a kind. -/
def readBehind? (t : Text) (kind : Kind) : Option (Kind × Text) :=
  (t.dropPrefix? (kind.describe [])).map fun lexeme => (kind, lexeme)

/-- The kind and the lexeme that are shown by a text. -/
def read? (t : Text) : Option (Kind × Text) :=
  match fixed.find? fun (kind, lexeme) => kind.describe lexeme == t with
  | some found => some found
  | none => free.findSome? (readBehind? t)

/-- What is behind the heading of a kind is read as the lexeme. -/
theorem readBehind?_eq_some_iff {t : Text} {kind : Kind} {found : Kind × Text} :
    readBehind? t kind = some found ↔ found.1 = kind ∧ t = kind.describe [] ++ found.2 := by
  rw [readBehind?, Option.map_eq_some_iff]
  constructor
  · rintro ⟨lexeme, hlexeme, rfl⟩
    obtain ⟨heading, ht, hheading⟩ := List.dropPrefix?_eq_some_iff.1 hlexeme
    rw [eq_of_beq hheading] at ht
    exact ⟨rfl, ht⟩
  · rintro ⟨rfl, rfl⟩
    exact ⟨found.2, List.dropPrefix?_append_of_beq found.2 (beq_self_eq_true _), rfl⟩

/-- A lexeme is the one of a fixed kind, or its kind is free. This is where it matters that the
tokens come from a scan: otherwise a fixed kind could come with any lexeme. -/
theorem mem_fixed_or_free {kind : Kind} {lexeme : Text} (h : IsLexeme kind lexeme) :
    (kind, lexeme) ∈ fixed ∨ kind ∈ free := by
  cases h with
  | reserved word => exact .inl (by cases word <;> decide)
  | symbol mark => exact .inl (by cases mark <;> decide)
  | _ => exact .inr (by decide)

/-- A kind with free lexemes puts the lexeme behind its heading. -/
theorem describe_eq_append {kind : Kind} (h : kind ∈ free) (lexeme : Text) :
    kind.describe lexeme = kind.describe [] ++ lexeme := by
  have key (heading : Text) : heading ++ lexeme = heading ++ [] ++ lexeme := by
    rw [List.append_nil]
  rcases List.mem_cons.1 h with rfl | h
  · exact key _
  · rcases List.mem_cons.1 h with rfl | h
    · exact key _
    · obtain rfl := List.mem_singleton.1 h
      exact key _

/-- If the lexeme is fixed, the whole line is looked up in a table. -/
theorem read?_describe_of_fixed {kind : Kind} {lexeme : Text} (h : (kind, lexeme) ∈ fixed) :
    read? (kind.describe lexeme) = some (kind, lexeme) := by
  have key : ∀ p ∈ fixed, read? (p.1.describe p.2) = some p := by decide
  exact key _ h

/-- No heading starts with another one. -/
theorem eq_of_heading_isPrefix {kind kind' : Kind} (h : kind ∈ free) (h' : kind' ∈ free)
    (hstart : kind.describe [] <+: kind'.describe []) : kind = kind' := by
  have key : ∀ k ∈ free, ∀ k' ∈ free, k.describe [] <+: k'.describe [] → k = k' := by decide
  exact key _ h _ h' hstart

/-- What a free kind shows starts with no heading but its own, however the lexeme goes on, since
neither of two headings is the beginning of the other. -/
theorem eq_of_heading_isPrefix_describe {kind kind' : Kind} {lexeme : Text} (h : kind ∈ free)
    (h' : kind' ∈ free) (hstart : kind'.describe [] <+: kind.describe lexeme) : kind' = kind := by
  have hown : kind.describe [] <+: kind.describe lexeme :=
    ⟨lexeme, (describe_eq_append h lexeme).symm⟩
  rcases List.prefix_or_prefix_of_prefix hstart hown with hshort | hshort
  · exact eq_of_heading_isPrefix h' h hshort
  · exact (eq_of_heading_isPrefix h h' hshort).symm

/-- What a free kind shows is not in the table, so that a lookup does not find a fixed kind there by
mistake. -/
theorem find?_fixed_eq_none {kind : Kind} (h : kind ∈ free) (lexeme : Text) :
    (fixed.find? fun p => p.1.describe p.2 == kind.describe lexeme) = none := by
  have key : ∀ p ∈ fixed, ∀ k ∈ free, ¬ k.describe [] <+: p.1.describe p.2 := by decide
  refine List.find?_eq_none.2 fun p hp heq => key p hp kind h ?_
  rw [eq_of_beq heq, describe_eq_append h lexeme]
  exact List.prefix_append _ _

/-- If it is free, no line of the table is in the way, and of the headings only its own is at the
start. -/
theorem read?_describe_of_free {kind : Kind} (h : kind ∈ free) (lexeme : Text) :
    read? (kind.describe lexeme) = some (kind, lexeme) := by
  rw [read?, find?_fixed_eq_none h]
  cases hfree : free.findSome? (readBehind? (kind.describe lexeme)) with
  | none =>
    have hread : readBehind? (kind.describe lexeme) kind = some (kind, lexeme) :=
      readBehind?_eq_some_iff.2 ⟨rfl, describe_eq_append h lexeme⟩
    rw [List.findSome?_eq_none_iff.1 hfree kind h] at hread
    cases hread
  | some found =>
    obtain ⟨kind', h', hfound⟩ := List.exists_of_findSome?_eq_some hfree
    obtain ⟨rfl, hlexeme⟩ := readBehind?_eq_some_iff.1 hfound
    have hkind := eq_of_heading_isPrefix_describe h h' ⟨found.2, hlexeme.symm⟩
    rw [describe_eq_append h, hkind] at hlexeme
    rw [List.append_cancel_left hlexeme, ← hkind]

/-- **Lines of tokens can be read back.** The description of a lexeme tells the lexeme and of which
kind it is. -/
theorem read?_describe {kind : Kind} {lexeme : Text} (h : IsLexeme kind lexeme) :
    read? (kind.describe lexeme) = some (kind, lexeme) :=
  (mem_fixed_or_free h).elim read?_describe_of_fixed fun hfree => read?_describe_of_free hfree lexeme

end Kind

/-! ## Rows -/

/-- The token that is shown by a row. -/
def Token.ofRow? : Text → Option Token
  | '\t' :: row =>
    match row.dropWhile Char.isDigit with
    | ':' :: ' ' :: t =>
      (Kind.read? t).map fun (kind, lexeme) =>
        ⟨kind, lexeme, UInt64.ofNat (Nat.ofDigitChars 10 (row.takeWhile Char.isDigit) 0)⟩
    | _ => none
  | _ => none

theorem Token.ofRow?_content {t : Token}
    (h : Kind.read? (t.kind.describe t.lexeme) = some (t.kind, t.lexeme)) :
    ofRow? (Listing.Row.token t).content = some t := by
  have hdigits : ∀ c ∈ Text.ofNat t.line.toNat, c.isDigit = true :=
    fun c hc => Text.isDigit_of_mem_ofNat hc
  have hcolon (rest : Text) : ∀ c ∈ (':' :: rest).head?, c.isDigit = false := by
    intro c hc
    obtain rfl := Option.mem_some_iff.1 hc
    rfl
  have hline : Nat.ofDigitChars 10 (Text.ofNat t.line.toNat) 0 = t.line.toNat :=
    Nat.ofDigitChars_ten_toDigits
  rw [Listing.Row.content, ofRow?]
  simp only [dropWhile_append_of_head hdigits (hcolon _), takeWhile_append_of_head hdigits (hcolon _),
    h, Option.map_some, hline, UInt64.ofNat_toNat]

namespace Listing

/-- The tokens that are shown by a listing without source lines. -/
def tokens? (b : Bytes) : Option (List Token) :=
  (Text.ofBytes? b).bind fun t => (cutBehind '\n' t).mapM fun row => Token.ofRow? row.dropLast

theorem mapM_map_eq_some {α β : Type} {f : β → Option α} {g : α → β} {xs : List α}
    (h : ∀ x ∈ xs, f (g x) = some x) : (xs.map g).mapM f = some xs := by
  induction xs with
  | nil => rfl
  | cons x xs ih =>
    obtain ⟨hx, hxs⟩ := List.forall_mem_cons.1 h
    rw [List.map_cons, List.mapM_cons, hx, ih hxs]
    rfl

/-- Rows whose tokens can be read back are told apart by their line ends. The lines of the source
play no part, since they are not echoed. -/
theorem tokens?_held_of_read? {s : Text} {ts : List Token} (hlines : ∀ t ∈ ts, '\n' ∉ t.lexeme)
    (hread : ∀ t ∈ ts, Kind.read? (t.kind.describe t.lexeme) = some (t.kind, t.lexeme)) :
    tokens? ((listing false s ts).held .unlimited) = some ts := by
  have htext : (listing false s ts).text = ts.flatMap fun t => (Row.token t).content ++ ['\n'] := by
    rw [text_listing, rows, rowsFrom_false, List.flatMap_map]
    rfl
  rw [tokens?, Writing.held_unlimited, Text.ofBytes?_bytes, Option.bind_some, htext,
    cutBehind_flatMap fun t ht => Row.onLine_token (hlines t ht)]
  refine mapM_map_eq_some fun t ht => ?_
  rw [List.dropLast_concat]
  exact Token.ofRow?_content (hread t ht)

/-- **The listing of a scan loses nothing.** Whatever the source and the number of its first line,
the tokens are read back from the bytes of their listing. So two sources have the same listing exactly
if they have the same tokens: the same kinds and lexemes on the same lines. -/
theorem held_determines_tokens {line₁ line₂ : Count} {s₁ s₂ : Text} {ts₁ ts₂ : List Token}
    (h₁ : (Scan.ofSource line₁ s₁).tokens = .ok ts₁)
    (h₂ : (Scan.ofSource line₂ s₂).tokens = .ok ts₂) :
    tokens? ((listing false s₁ ts₁).held .unlimited) = some ts₁ ∧
    ((listing false s₁ ts₁).held .unlimited = (listing false s₂ ts₂).held .unlimited ↔ ts₁ = ts₂) := by
  have hread {line : Count} {s : Text} {ts : List Token}
      (h : (Scan.ofSource line s).tokens = .ok ts) :
      tokens? ((listing false s ts).held .unlimited) = some ts := by
    refine tokens?_held_of_read? (Scan.newline_not_mem_lexeme h) fun t ht => ?_
    rcases Scan.isLexeme_of_mem_tokens h t ht with hlexeme | hend
    · exact Kind.read?_describe hlexeme
    · rw [hend]
      exact Kind.read?_describe_of_fixed List.mem_cons_self
  refine ⟨hread h₁, fun heq => ?_, ?_⟩
  · have hboth := congrArg tokens? heq
    rwa [hread h₁, hread h₂, Option.some.injEq] at hboth
  · rintro rfl
    rw [listing_false_eq s₁ s₂]

/-- A line break in the one source, a comment and another number for the first line in the other. -/
theorem held_determines_tokens_breaks :
    let s₁ := "if\n<=x".toList
    let s₂ := "\nif/**/\n<= x".toList
    let ts : List Token := [⟨.reserved .ifWord, "if".toList, 2⟩,
      ⟨.symbol .lessThanEqual, "<=".toList, 3⟩, ⟨.identifier, "x".toList, 3⟩, .endFile 3]
    (Scan.ofSource 2 s₁).tokens = .ok ts ∧ (Scan.ofSource 1 s₂).tokens = .ok ts ∧
    tokens? ((listing false s₁ ts).held .unlimited) = some ts ∧
    (listing false s₁ ts).held .unlimited = (listing false s₂ ts).held .unlimited := by
  intro s₁ s₂ ts
  have h₁ : (Scan.ofSource 2 s₁).tokens = .ok ts := by decide +kernel
  have h₂ : (Scan.ofSource 1 s₂).tokens = .ok ts := by decide +kernel
  obtain ⟨hread, heq⟩ := held_determines_tokens h₁ h₂
  exact ⟨h₁, h₂, hread, heq.2 rfl⟩

-- No scan gives a token like the second one here, and nothing of its lexeme is shown.
example :
    (listing false [] [⟨.symbol .plus, ['+'], 1⟩]).held .unlimited =
      (listing false [] [⟨.symbol .plus, ['-'], 1⟩]).held .unlimited := rfl

end Listing

end CMinusFrontEnd
