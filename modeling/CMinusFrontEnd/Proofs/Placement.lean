import CMinusFrontEnd.Proofs.ListingModes
import CMinusFrontEnd.Proofs.Printing

/-!
# Where a token is placed

A listing is written line by line: the program shows a source line and then the tokens that no longer have
to wait for a later one. Told token by token it is the other way round: in front of a token stand the
source lines that have to come first, and how many these are is a matter of the highest line among the
tokens so far. `Listing.following` is this second way to tell a listing, and `Listing.rows_eq_following`
says that both ways lead to the same rows. Nothing is asked of the tokens: their lines may come in any
order, there may be no such line in the source, and a token may have the line 0.

`Listing.Mixes` says that rows show certain source lines and certain tokens, all of them, once, and in
their order. What stands in front of a token and what stands behind it are such mixtures
(`Listing.exists_following`), and so the main statement, `Listing.token_placed`, tells the place of a token
among the source lines and among the tokens at once.
-/

namespace CMinusFrontEnd

namespace Listing

/-! ## Mixtures -/

/-- Whether rows show these source lines and these tokens, each in their order. -/
structure Mixes (rs sources : List Row) (ts : List Token) : Prop where
  /-- the rows of tokens -/
  tokens : rs.filter Row.isToken = ts.map .token
  /-- the rows of source lines -/
  sources : (rs.filter fun r => !r.isToken) = sources

namespace Mixes

theorem append {rs rs' sources sources' : List Row} {ts ts' : List Token}
    (h : Mixes rs sources ts) (h' : Mixes rs' sources' ts') :
    Mixes (rs ++ rs') (sources ++ sources') (ts ++ ts') := by
  constructor
  · rw [List.filter_append, h.tokens, h'.tokens, List.map_append]
  · rw [List.filter_append, h.sources, h'.sources]

/-- A token in front of a mixture. -/
theorem token {rs sources : List Row} {ts : List Token} (h : Mixes rs sources ts) (t : Token) :
    Mixes (.token t :: rs) sources (t :: ts) :=
  ⟨congrArg (Row.token t :: ·) h.tokens, h.sources⟩

end Mixes

/-- Whether rows show source lines only. -/
def SourceOnly (rs : List Row) : Prop := ∀ r ∈ rs, r.isToken = false

namespace SourceOnly

variable {rs : List Row}

theorem take (h : SourceOnly rs) (k : Nat) : SourceOnly (rs.take k) :=
  fun r hr => h r (List.mem_of_mem_take hr)

theorem drop (h : SourceOnly rs) (k : Nat) : SourceOnly (rs.drop k) :=
  fun r hr => h r (List.mem_of_mem_drop hr)

/-- Rows of the source alone are a mixture with no tokens. -/
theorem mixes (h : SourceOnly rs) : Mixes rs rs [] := by
  constructor
  · exact List.filter_eq_nil_iff.2 fun r hr => by simp [h r hr]
  · exact List.filter_eq_self.2 fun r hr => by simp [h r hr]

end SourceOnly

/-! ## Token by token -/

/-- The highest line of tokens, if it is higher than a line that is given. -/
def highest (least : Nat) (ts : List Token) : Nat :=
  ts.foldl (fun highest t => max highest t.line.toNat) least

theorem le_highest (least : Nat) (ts : List Token) : least ≤ highest least ts := by
  induction ts generalizing least with
  | nil => exact Nat.le_refl least
  | cons t ts ih => exact Nat.le_trans (Nat.le_max_left _ _) (ih _)

/-- The rows behind the source line `shown`, where `sources` are those of the source lines that come next.
In front of a token stand those up to its line, if there is anything left of them. -/
def following (shown : Nat) : List Row → List Token → List Row
  | sources, [] => sources
  | sources, t :: ts =>
    let wanted := t.line.toNat - shown
    sources.take wanted ++ .token t :: following (max shown t.line.toNat) (sources.drop wanted) ts

theorem following_nil (shown : Nat) (ts : List Token) : following shown [] ts = ts.map .token := by
  induction ts generalizing shown with
  | nil => rfl
  | cons t ts ih => rw [following, List.take_nil, List.drop_nil, ih, List.nil_append, List.map_cons]

/-- In front of the next source line stand the tokens that do not wait for it. A token waits if its
line has not been shown yet. -/
theorem following_cons (shown : Nat) (r : Row) (sources : List Row) (ts : List Token) :
    following shown (r :: sources) ts =
      (ts.takeWhile fun t => t.line.toNat ≤ shown).map .token ++
        r :: following (shown + 1) sources (ts.dropWhile fun t => t.line.toNat ≤ shown) := by
  induction ts with
  | nil => rfl
  | cons t ts ih =>
    by_cases ht : t.line.toNat ≤ shown
    · have hwanted : t.line.toNat - shown = 0 := Nat.sub_eq_zero_of_le ht
      rw [List.takeWhile_cons_of_pos (by simpa using ht), List.dropWhile_cons_of_pos (by simpa using ht),
        following, hwanted, Nat.max_eq_left ht, List.take_zero, List.drop_zero, ih]
      rfl
    · -- the token waits for this line at least
      have hwanted : t.line.toNat - shown = t.line.toNat - (shown + 1) + 1 := by omega
      have hshown : max shown t.line.toNat = max (shown + 1) t.line.toNat := by omega
      rw [List.takeWhile_cons_of_neg (by simpa using ht), List.dropWhile_cons_of_neg (by simpa using ht),
        following, following, hwanted, hshown, List.take_succ_cons, List.drop_succ_cons]
      rfl

/-- The rows of source lines, numbered from `number` on. -/
def sourceRows (number : Nat) (lines : List Text) : List Row :=
  (lines.zipIdx number).map fun (line, k) => .source k line

theorem sourceRows_cons (number : Nat) (line : Text) (lines : List Text) :
    sourceRows number (line :: lines) = .source number line :: sourceRows (number + 1) lines := rfl

/-- Line by line and token by token, the rows are the same. -/
theorem rowsFrom_true_cons (number : Nat) (line : Text) (lines : List Text) (ts : List Token) :
    rowsFrom true number (line :: lines) ts =
      .source number line :: following number (sourceRows (number + 1) lines) ts := by
  induction lines generalizing number line ts with
  | nil =>
    rw [rowsFrom, rowsFrom, List.append_assoc, ← List.map_append, List.takeWhile_append_dropWhile]
    exact congrArg (Row.source number line :: ·) (following_nil number ts).symm
  | cons next lines ih =>
    rw [rowsFrom, ih, sourceRows_cons, following_cons, if_pos rfl, List.append_assoc]
    rfl

/-- The rows of the source lines that a listing shows. -/
def echoed (echo : Bool) (s : Text) : List Row := if echo then sourceRows 1 s.lines else []

theorem sourceOnly_echoed (echo : Bool) (s : Text) : SourceOnly (echoed echo s) := by
  intro r hr
  rw [echoed] at hr
  split at hr
  · obtain ⟨entry, -, rfl⟩ := List.mem_map.1 hr
    rfl
  · cases hr

/-- The first source line stands in front of everything, and what follows is told token by token.
Without the echo there are no source lines, and both sides are the tokens. -/
theorem rows_eq_following (echo : Bool) (s : Text) (ts : List Token) :
    rows echo s ts = (echoed echo s).take 1 ++ following 1 ((echoed echo s).drop 1) ts := by
  cases echo with
  | false =>
    rw [rows, rowsFrom_false]
    exact (following_nil 1 ts).symm
  | true =>
    rw [rows, echoed, if_pos rfl]
    cases s.lines with
    | nil => exact (following_nil 1 ts).symm
    | cons line lines => exact rowsFrom_true_cons 1 line lines ts

/-! ## In front of a token and behind it -/

/-- Every source line and every token is there once, and both are in order. This holds of any list
of tokens, sorted or not. -/
theorem mixes_following {sources : List Row} (h : SourceOnly sources) (shown : Nat)
    (ts : List Token) : Mixes (following shown sources ts) sources ts := by
  induction ts generalizing shown sources with
  | nil => exact h.mixes
  | cons t ts ih =>
    let wanted := t.line.toNat - shown
    have hback := (ih (h.drop wanted) (max shown t.line.toNat)).token t
    have hmixes := (h.take wanted).mixes.append hback
    rwa [List.take_append_drop] at hmixes

/-- In front of a token stand the source lines up to the highest line so far and the tokens before it,
and behind it stands the rest. -/
theorem exists_following {sources : List Row} (h : SourceOnly sources) (shown : Nat)
    (before : List Token) (t : Token) (after : List Token) :
    ∃ front back, following shown sources (before ++ t :: after) = front ++ .token t :: back ∧
      Mixes front (sources.take (highest shown (before ++ [t]) - shown)) before ∧
      Mixes back (sources.drop (highest shown (before ++ [t]) - shown)) after := by
  induction before generalizing shown sources with
  | nil =>
    have hwanted : highest shown ([] ++ [t]) - shown = t.line.toNat - shown := by
      have hhighest : highest shown ([] ++ [t]) = max shown t.line.toNat := rfl
      omega
    rw [hwanted]
    exact ⟨_, _, rfl, (h.take _).mixes, mixes_following (h.drop _) _ _⟩
  | cons u before ih =>
    -- after `u` and the lines it waited for, the others wait only for lines further down
    let wanted := u.line.toNat - shown
    let shown' := max shown u.line.toNat
    obtain ⟨front, back, hrows, hfront, hback⟩ := ih (h.drop wanted) shown'
    have hsum : highest shown (u :: before ++ [t]) - shown =
        wanted + (highest shown' (before ++ [t]) - shown') := by
      have hle := le_highest shown' (before ++ [t])
      have hhighest : highest shown (u :: before ++ [t]) = highest shown' (before ++ [t]) := rfl
      omega
    refine ⟨sources.take wanted ++ .token u :: front, back, ?_, ?_, ?_⟩
    · rw [List.cons_append, following, hrows, List.append_assoc, List.cons_append]
    · rw [hsum, List.take_add]
      exact (h.take wanted).mixes.append (hfront.token u)
    · rw [hsum, ← List.drop_drop]
      exact hback

/-- **The place of a token.** The listing of a source and any list of tokens shows every token once, in the
order of the list, and what it writes are the rows. A token stands behind the source line whose number is
the highest line among the tokens up to it, or behind the first source line if none of these has a higher
number, and in front of the next one; where the source has no such line, it stands behind all of them.

If there is no line feed in a lexeme, the lines of the output that start with a tab are the lines of the
tokens. -/
theorem token_placed (echo : Bool) (s : Text) (ts : List Token) :
    (Operation.listing echo s ts).outcome .unlimited =
      ⟨(rows echo s ts).flatMap fun r => r.text.bytes, none⟩ ∧
    Mixes (rows echo s ts) (echoed echo s) ts ∧
    (∀ (before : List Token) (t : Token) (after : List Token), ts = before ++ t :: after →
      ∃ front back, rows echo s ts = front ++ .token t :: back ∧
        Mixes front ((echoed echo s).take (highest 1 (before ++ [t]))) before ∧
        Mixes back ((echoed echo s).drop (highest 1 (before ++ [t]))) after) ∧
    ((∀ t ∈ ts, '\n' ∉ t.lexeme) →
      (cutBehind 10 ((Operation.listing echo s ts).outcome .unlimited).taken).filter startsWithTab =
        ts.map fun t => (Row.token t).text.bytes) := by
  have hsources := sourceOnly_echoed echo s
  have hmixes : Mixes (rows echo s ts) (echoed echo s) ts := by
    have hmixes := (hsources.take 1).mixes.append (mixes_following (hsources.drop 1) 1 ts)
    rwa [List.take_append_drop, ← rows_eq_following] at hmixes
  have houtcome : (Operation.listing echo s ts).outcome .unlimited =
      ⟨(listing echo s ts).held .unlimited, none⟩ := by
    rw [Operation.outcome_eq, Operation.writing, listing, Writing.failure?_unlimited,
      Writing.fault?_ofTexts, Option.map_none]
  refine ⟨?_, hmixes, ?_, fun hts => ?_⟩
  · rw [houtcome, held_listing, List.flatMap_def]
  · rintro before t after rfl
    obtain ⟨front, back, hrows, hfront, hback⟩ := exists_following (hsources.drop 1) 1 before t after
    -- the first source line is shown before any token, and so it is counted apart
    have hfirst : highest 1 (before ++ [t]) = 1 + (highest 1 (before ++ [t]) - 1) :=
      (Nat.add_sub_of_le (le_highest 1 _)).symm
    refine ⟨(echoed echo s).take 1 ++ front, back, ?_, ?_, ?_⟩
    · rw [rows_eq_following, hrows, List.append_assoc]
    · rw [hfirst, List.take_add]
      exact (hsources.take 1).mixes.append hfront
    · rw [hfirst, ← List.drop_drop]
      exact hback
  · have hlines := @filter_cutBehind_held echo s ts hts id
    simp only [id] at hlines
    rw [houtcome, hlines, hmixes.tokens, List.map_map]
    rfl

/-- Behind a token on the second line one without a line, and then one far behind the end of the source,
which no later one can overtake. -/
theorem token_placed_unsorted :
    let s : Text := "x\ny\nz".toList
    let first : Token := ⟨.identifier, ['y'], 2⟩
    let second : Token := ⟨.endFile, [], 0⟩
    let third : Token := ⟨.number, ['7'], 18446744073709551615⟩
    let last : Token := ⟨.identifier, ['x'], 1⟩
    (∃ front back, rows true s [first, second, third, last] = front ++ .token second :: back ∧
      Mixes front [.source 1 ['x'], .source 2 ['y']] [first] ∧
      Mixes back [.source 3 ['z']] [third, last]) ∧
    (∃ front back, rows true s [first, second, third, last] = front ++ .token last :: back ∧
      Mixes front [.source 1 ['x'], .source 2 ['y'], .source 3 ['z']] [first, second, third] ∧
      Mixes back [] []) ∧
    (cutBehind 10 ((Operation.listing true s [first, second, third, last]).outcome
      .unlimited).taken).filter startsWithTab =
        ["\t2: ID, name= y\n", "\t0: EOF\n", "\t18446744073709551615: NUM, val= 7\n",
          "\t1: ID, name= x\n"].map fun line => Text.bytes line.toList := by
  intro s first second third last
  obtain ⟨-, -, hplace, hlines⟩ := token_placed true s [first, second, third, last]
  refine ⟨hplace [first] second [third, last] rfl, hplace [first, second, third] last [] rfl, ?_⟩
  rw [hlines (by decide)]
  decide

end Listing

end CMinusFrontEnd
