import CMinusFrontEnd.Piece
import CMinusFrontEnd.Proofs.Lexeme
import Mathlib.Data.List.TakeWhile

/-!
# Longest match

The first lexeme of a text is the longest one. The main statement is
`Piece.leading?_eq_lexeme_iff`: a text is cut behind a first lexeme exactly if what is cut off has
the shape of its kind and does not absorb the character behind it.

Both directions follow the cases of `Piece.leadingLexeme`. Words and numbers are longest runs of
characters of a class, and a run is as long as it can be if the character behind it is not of the
class. For symbols it is enough to know which of them have two characters.
-/

namespace CMinusFrontEnd

/-! ## Longest symbols -/

namespace Symbol

/-- A symbol of two characters is looked for first. A symbol of one character is found only where
there is none of two. -/
theorem leading?_eq_some_iff {t : Text} {s : Symbol} :
    leading? t = some s ↔
      s.text = t.take 2 ∨ (∀ s' : Symbol, s'.text ≠ t.take 2) ∧ s.text = t.take 1 := by
  rw [leading?, Option.or_eq_some_iff, ofText?_eq_some_iff, ofText?_eq_some_iff,
    ofText?_eq_none_iff]

/-- There is no symbol at the start of a text if neither its first two characters nor the first one
alone are a symbol. -/
theorem leading?_eq_none_iff {t : Text} :
    leading? t = none ↔ ∀ s : Symbol, s.text ≠ t.take 2 ∧ s.text ≠ t.take 1 := by
  rw [leading?, Option.or_eq_none_iff, ofText?_eq_none_iff, ofText?_eq_none_iff, forall_and]

/-- A symbol has one character or two. -/
theorem length_text (s : Symbol) : s.text.length = 1 ∨ s.text.length = 2 := by
  cases s <;> decide

/-- No symbol that the text starts with is longer. There are symbols of one and of two characters,
and the longer ones are looked for first. -/
theorem length_le_of_leading? {t : Text} {s s' : Symbol} (h : leading? t = some s)
    (hs : s'.text <+: t) : s'.text.length ≤ s.text.length := by
  have htake := List.prefix_iff_eq_take.1 hs
  rcases length_text s' with h1 | h2
  · have := length_text s
    omega
  · rw [h2] at htake
    rcases leading?_eq_some_iff.1 h with h | ⟨h, -⟩
    · rw [h, ← htake]
    · exact absurd htake (h s')

/-- The symbols of two characters are `<=`, `>=`, `==` and `!=`. -/
theorem text_ne_pair {c d : Char} (h : d = '=' → c ≠ '<' ∧ c ≠ '>' ∧ c ≠ '=' ∧ c ≠ '!')
    (s : Symbol) : s.text ≠ [c, d] := by
  intro hs
  cases s <;> cases hs <;> simp at h

/-- Every character that starts a symbol is a symbol, but for the exclamation mark. -/
theorem exists_text_eq_singleton {s : Symbol} {c : Char} (h : s.text.head? = some c)
    (hc : c ≠ '!') : ∃ s' : Symbol, s'.text = [c] := by
  rcases length_text s with h1 | h2
  · obtain ⟨d, hd⟩ := List.length_eq_one_iff.1 h1
    rw [hd] at h
    exact ⟨s, by rw [hd, Option.some.inj h]⟩
  · cases s with
    | lessThanEqual => exact ⟨.lessThan, congrArg (fun d => [d]) (Option.some.inj h)⟩
    | greaterThanEqual => exact ⟨.greaterThan, congrArg (fun d => [d]) (Option.some.inj h)⟩
    | equal => exact ⟨.assign, congrArg (fun d => [d]) (Option.some.inj h)⟩
    | notEqual => exact absurd (Option.some.inj h).symm hc
    | _ => cases h2

/-- A symbol that is not made longer by what comes next is found. -/
theorem leading?_append {s : Symbol} {rest : Text} (h : EndsBefore (.symbol s) s.text rest) :
    leading? (s.text ++ rest) = some s := by
  cases rest with
  | nil => cases s <;> rfl
  | cons d rest =>
    rw [endsBefore_cons] at h
    rw [leading?_eq_some_iff]
    cases s with
    | lessThanEqual | greaterThanEqual | equal | notEqual => exact .inl rfl
    | _ => exact .inr ⟨text_ne_pair (by simp_all [Kind.absorbs]), rfl⟩

/-- A symbol that was found is not made longer by what comes next. A slash is the exception, for it
may open a comment. -/
theorem endsBefore_of_leading? {s : Symbol} {rest : Text}
    (h : leading? (s.text ++ rest) = some s) (hc : s = slash → rest.head? ≠ some '*') :
    EndsBefore (.symbol s) s.text rest := by
  cases rest with
  | nil => exact endsBefore_nil _ _
  | cons d rest =>
    rw [endsBefore_cons]
    -- an equals sign behind one of `<`, `>` and `=` would make a longer symbol
    have key (s' : Symbol) (hs : s.text.length < s'.text.length) (ht : s'.text = s.text ++ ['=']) :
        d ≠ '=' := by
      rintro rfl
      have hle : s'.text.length ≤ s.text.length :=
        length_le_of_leading? h ⟨rest, by rw [ht, List.append_assoc]; rfl⟩
      omega
    cases s with
    | lessThan => simpa [Kind.absorbs] using key .lessThanEqual (by decide) rfl
    | greaterThan => simpa [Kind.absorbs] using key .greaterThanEqual (by decide) rfl
    | assign => simpa [Kind.absorbs] using key .equal (by decide) rfl
    | slash => simpa [Kind.absorbs] using hc rfl
    | _ => rfl

end Symbol

/-! ## Longest runs -/

/-- A run ends where the next character does not belong to it. -/
theorem takeWhile_append_of_head {p : Char → Bool} {run rest : Text}
    (hp : ∀ c ∈ run, p c = true) (hr : ∀ c ∈ rest.head?, p c = false) :
    (run ++ rest).takeWhile p = run := by
  rw [List.takeWhile_append_of_pos hp]
  cases rest with
  | nil => rw [List.takeWhile_nil, List.append_nil]
  | cons c rest => rw [List.takeWhile_cons, if_neg (by simp [hr c rfl]), List.append_nil]

theorem dropWhile_append_of_head {p : Char → Bool} {run rest : Text}
    (hp : ∀ c ∈ run, p c = true) (hr : ∀ c ∈ rest.head?, p c = false) :
    (run ++ rest).dropWhile p = rest := by
  rw [List.dropWhile_append_of_pos hp]
  cases rest with
  | nil => rfl
  | cons c rest => rw [List.dropWhile_cons, if_neg (by simp [hr c rfl])]

/-- A longest run ends before a character that does not belong to it. -/
theorem eq_false_of_mem_head?_dropWhile {p : Char → Bool} {t : Text} {c : Char}
    (h : c ∈ (t.dropWhile p).head?) : p c = false := by
  have key := List.head?_dropWhile_not p t
  rw [Option.mem_def.1 h] at key
  exact key

/-! ## The first lexeme is a lexeme -/

theorem IsLexeme.ofWord {t : Text} (hn : t ≠ []) (hl : ∀ c ∈ t, c.isAlpha = true) :
    IsLexeme (.ofWord t) t := by
  unfold Kind.ofWord
  split
  next w hw => exact ReservedWord.ofText?_eq_some_iff.1 hw ▸ .reserved w
  next hw => exact .identifier hn hl (ReservedWord.ofText?_eq_none_iff.1 hw)

/-- Words take in letters, no matter which word it is. -/
theorem Kind.absorbs_ofWord (word t : Text) (c : Char) :
    (ofWord word).absorbs t c = c.isAlpha := by
  unfold ofWord
  split <;> rfl

/-- A spoiled number takes in letters and digits until there are no more. -/
theorem Kind.absorbs_error_of_digit {d : Char} (hd : d.isDigit = true) (t : Text) (c : Char) :
    error.absorbs (d :: t) c = c.isAlphanum := by
  have : d ≠ '!' := by
    rintro rfl
    cases hd
  simp [absorbs, hd, this]

/-- Digits with a letter behind them make a spoiled number, together with all letters and digits
that follow. -/
theorem IsLexeme.spoiled_of_head {c : Char} {rest : Text} (hc : c.isDigit = true)
    (h : (rest.dropWhile Char.isDigit).head?.any Char.isAlpha = true) :
    IsLexeme .error (c :: rest.takeWhile Char.isAlphanum) := by
  obtain ⟨letter, hl, ha⟩ := (Option.any_eq_true _ _).1 h
  obtain ⟨more, hm⟩ := List.head?_eq_some_iff.1 hl
  have hds : ∀ d ∈ rest.takeWhile Char.isDigit, d.isDigit = true :=
    fun d hd => List.mem_takeWhile_imp hd
  have key : rest.takeWhile Char.isAlphanum =
      rest.takeWhile Char.isDigit ++ letter :: more.takeWhile Char.isAlphanum :=
    calc rest.takeWhile Char.isAlphanum
      _ = (rest.takeWhile Char.isDigit ++ letter :: more).takeWhile Char.isAlphanum := by
        rw [← hm, List.takeWhile_append_dropWhile]
      _ = _ := by
        rw [List.takeWhile_append_of_pos fun d hd => isAlphanum_iff.2 (.inr (hds d hd)),
          List.takeWhile_cons_of_pos (isAlphanum_iff.2 (.inl ha))]
  rw [key, ← List.cons_append]
  refine .spoiled (by simp) ?_ ha fun d hd => List.mem_takeWhile_imp hd
  intro d hd
  rcases List.mem_cons.1 hd with rfl | hd
  · exact hc
  · exact hds d hd

theorem IsLexeme.number_takeWhile {c : Char} (hc : c.isDigit = true) (rest : Text) :
    IsLexeme .number (c :: rest.takeWhile Char.isDigit) := by
  refine .number (by simp) ?_
  intro d hd
  rcases List.mem_cons.1 hd with rfl | hd
  · exact hc
  · exact List.mem_takeWhile_imp hd

/-- A character that starts no symbol is malformed by itself. -/
theorem IsLexeme.of_leading?_eq_none {c : Char} {rest : Text} (hb : isBlank c = false)
    (ha : c.isAlpha = false) (hd : c.isDigit = false) (h : Symbol.leading? (c :: rest) = none) :
    IsLexeme .error [c] := by
  rw [Symbol.leading?_eq_none_iff] at h
  by_cases hc : c = '!'
  · exact hc ▸ .exclamation
  · refine .stray hb (by rw [Char.isAlphanum, ha, hd]; rfl) ?_
    intro s hs
    obtain ⟨s', hs'⟩ := Symbol.exists_text_eq_singleton hs hc
    exact (h s').2 hs'

/-- A stray character stands alone. The exclamation mark is one of these if no equals sign comes
next. -/
theorem EndsBefore.of_leading?_eq_none {c : Char} {rest : Text} (hd : c.isDigit = false)
    (h : Symbol.leading? (c :: rest) = none) : EndsBefore .error [c] rest := by
  rw [Symbol.leading?_eq_none_iff] at h
  intro d hr
  obtain ⟨rest, rfl⟩ := List.head?_eq_some_iff.1 hr
  have key : c = '!' → d ≠ '=' := by
    rintro rfl rfl
    exact (h .notEqual).1 rfl
  simpa [Kind.absorbs, hd] using key

theorem Piece.exists_eq_leadingLexeme (c : Char) (rest : Text) :
    ∃ k t after, leadingLexeme c rest = (lexeme k t, after) := by
  unfold leadingLexeme
  split
  · exact ⟨_, _, _, rfl⟩
  · split
    · split <;> exact ⟨_, _, _, rfl⟩
    · split <;> exact ⟨_, _, _, rfl⟩

/-- What is cut off as a lexeme is one, and it ends before the rest. The cases are those of the
scanner: letters, digits, spoiled digits, symbols and stray characters. -/
theorem Piece.isLexeme_of_leadingLexeme {c : Char} {rest after : Text} {k : Kind} {t : Text}
    (hb : isBlank c = false) (hc : ¬(c = '/' ∧ rest.head? = some '*'))
    (h : leadingLexeme c rest = (lexeme k t, after)) : IsLexeme k t ∧ EndsBefore k t after := by
  unfold leadingLexeme at h
  split at h
  next ha =>
    -- a word
    cases h
    refine ⟨.ofWord (by simp) ?_, ?_⟩
    · intro d hd
      rcases List.mem_cons.1 hd with rfl | hd
      · exact ha
      · exact List.mem_takeWhile_imp hd
    · intro d hd
      rw [Kind.absorbs_ofWord]
      exact eq_false_of_mem_head?_dropWhile hd
  next ha =>
    split at h
    next hd =>
      split at h
      next hs =>
        -- a spoiled number
        cases h
        refine ⟨.spoiled_of_head hd hs, ?_⟩
        intro d hr
        rw [Kind.absorbs_error_of_digit hd]
        exact eq_false_of_mem_head?_dropWhile hr
      next hs =>
        -- a number
        cases h
        refine ⟨.number_takeWhile hd rest, ?_⟩
        intro d hr
        have hdd := eq_false_of_mem_head?_dropWhile hr
        have hda : d.isAlpha = false := by
          rw [Option.mem_def.1 hr] at hs
          simpa using hs
        rw [Kind.absorbs, Char.isAlphanum, hda, hdd]
        rfl
    next hd =>
      split at h
      next s hs =>
        -- a symbol
        cases h
        have ht := Symbol.eq_append_of_leading? hs
        refine ⟨.symbol s, Symbol.endsBefore_of_leading? (ht ▸ hs) ?_⟩
        rintro rfl
        rw [Symbol.text, List.singleton_append] at ht
        obtain ⟨rfl, hr⟩ := List.cons.inj ht
        exact fun hh => hc ⟨rfl, by rw [hr]; exact hh⟩
      next hs =>
        -- a character by itself
        cases h
        have hd := Bool.eq_false_iff.2 hd
        exact ⟨.of_leading?_eq_none hb (Bool.eq_false_iff.2 ha) hd hs,
          EndsBefore.of_leading?_eq_none hd hs⟩

/-! ## Every lexeme is cut off as one -/

theorem ReservedWord.isAlpha_of_mem {w : ReservedWord} {c : Char} (h : c ∈ w.text) :
    c.isAlpha = true := by
  have key : w.text.all Char.isAlpha = true := by cases w <;> decide
  exact List.all_eq_true.1 key c h

theorem Kind.ofWord_text (w : ReservedWord) : ofWord w.text = .reserved w := by
  rw [ofWord, ReservedWord.ofText?_eq_some_iff.2 rfl]

theorem Kind.ofWord_of_free {t : Text} (h : ∀ w : ReservedWord, w.text ≠ t) :
    ofWord t = .identifier := by
  rw [ofWord, ReservedWord.ofText?_eq_none_iff.2 h]

namespace Piece

/-- Letters that no letter follows are cut off as a word. -/
theorem leadingLexeme_letters {c : Char} {run rest : Text}
    (hl : ∀ d ∈ c :: run, d.isAlpha = true) (hr : ∀ d ∈ rest.head?, d.isAlpha = false) :
    leadingLexeme c (run ++ rest) = (lexeme (.ofWord (c :: run)) (c :: run), rest) := by
  have hrun : ∀ d ∈ run, d.isAlpha = true := fun d hd => hl d (List.mem_cons_of_mem _ hd)
  rw [leadingLexeme, if_pos (hl c List.mem_cons_self), takeWhile_append_of_head hrun hr,
    dropWhile_append_of_head hrun hr]

/-- Digits that no letter and no digit follows are cut off as a number. -/
theorem leadingLexeme_digits {c : Char} {run rest : Text}
    (hd : ∀ d ∈ c :: run, d.isDigit = true) (hr : ∀ d ∈ rest.head?, d.isAlphanum = false) :
    leadingLexeme c (run ++ rest) = (lexeme .number (c :: run), rest) := by
  have hc := hd c List.mem_cons_self
  have hrun : ∀ d ∈ run, d.isDigit = true := fun d h => hd d (List.mem_cons_of_mem _ h)
  have hrest : ∀ d ∈ rest.head?, d.isAlpha = false ∧ d.isDigit = false :=
    fun d h => Bool.or_eq_false_iff.1 (hr d h)
  have htake := takeWhile_append_of_head hrun fun d h => (hrest d h).2
  have hdrop := dropWhile_append_of_head hrun fun d h => (hrest d h).2
  have hs : rest.head?.any Char.isAlpha = false := by
    cases rest with
    | nil => rfl
    | cons d rest => exact (hrest d rfl).1
  rw [leadingLexeme, if_neg (by simp [isAlpha_eq_false_of_isDigit hc]), if_pos hc, hdrop,
    if_neg (by simp [hs]), htake]

/-- Digits with a letter behind them are cut off as a spoiled number. -/
theorem leadingLexeme_spoiled {c letter : Char} {run more rest : Text}
    (hd : ∀ d ∈ c :: run, d.isDigit = true) (hl : letter.isAlpha = true)
    (hm : ∀ d ∈ more, d.isAlphanum = true) (hr : ∀ d ∈ rest.head?, d.isAlphanum = false) :
    leadingLexeme c (run ++ letter :: more ++ rest) =
      (lexeme .error (c :: (run ++ letter :: more)), rest) := by
  have hc := hd c List.mem_cons_self
  have hrun : ∀ d ∈ run, d.isDigit = true := fun d h => hd d (List.mem_cons_of_mem _ h)
  have hall : ∀ d ∈ run ++ letter :: more, d.isAlphanum = true := by
    intro d h
    rcases List.mem_append.1 h with h | h
    · exact isAlphanum_iff.2 (.inr (hrun d h))
    · rcases List.mem_cons.1 h with rfl | h
      · exact isAlphanum_iff.2 (.inl hl)
      · exact hm d h
  have hs : ((run ++ letter :: more ++ rest).dropWhile Char.isDigit).head? = some letter := by
    rw [List.append_assoc, List.dropWhile_append_of_pos hrun, List.cons_append,
      List.dropWhile_cons_of_neg (by simp [isDigit_eq_false_of_isAlpha hl]), List.head?_cons]
  rw [leadingLexeme, if_neg (by simp [isAlpha_eq_false_of_isDigit hc]), if_pos hc,
    if_pos (by rw [hs]; exact hl), takeWhile_append_of_head hall hr,
    dropWhile_append_of_head hall hr]

/-- Whether a piece that starts with these characters can be a lexeme: no blank and no comment
starts here. -/
def StartsLexeme (c : Char) (rest : Text) : Prop :=
  isBlank c = false ∧ ¬(c = '/' ∧ rest.head? = some '*')

theorem StartsLexeme.of_isAlphanum {c : Char} (h : c.isAlphanum = true) (rest : Text) :
    StartsLexeme c rest := by
  refine ⟨isBlank_eq_false_of_isAlphanum h, ?_⟩
  rintro ⟨rfl, -⟩
  cases h

/-- Where neither a blank nor a comment starts, a lexeme is cut off. -/
theorem leading?_of_startsLexeme {c : Char} {rest : Text} (h : StartsLexeme c rest) :
    leading? c rest = some (leadingLexeme c rest) := by
  rw [leading?, if_neg h.2, if_neg (by simp [h.1])]

/-- A symbol is cut off as a symbol. A slash is no start of a comment here, since a star would be
absorbed. -/
theorem leadingLexeme_symbol {s : Symbol} {rest : Text} (h : EndsBefore (.symbol s) s.text rest) :
    ∃ c run, s.text = c :: run ∧ StartsLexeme c (run ++ rest) ∧
      leadingLexeme c (run ++ rest) = (lexeme (.symbol s) s.text, rest) := by
  obtain ⟨c, run, ht, hb, ha, hd, hc⟩ : ∃ c run, s.text = c :: run ∧ isBlank c = false ∧
      c.isAlpha = false ∧ c.isDigit = false ∧ (c = '/' → s = .slash) := by
    cases s <;> exact ⟨_, _, rfl, by decide, by decide, by decide, by decide⟩
  have hs := Symbol.leading?_append h
  rw [ht, List.cons_append] at hs
  refine ⟨c, run, ht, ⟨hb, ?_⟩, ?_⟩
  · rintro ⟨rfl, hr⟩
    obtain rfl := hc rfl
    obtain rfl : [] = run := (List.cons.inj ht).2
    exact absurd (h '*' hr) (by decide)
  · simp only [leadingLexeme, ha, hd, hs, Bool.false_eq_true, if_false]
    rw [ht, ← List.cons_append, List.drop_left]

/-- An exclamation mark alone is an error, and with an equals sign behind it a symbol. -/
theorem leadingLexeme_exclamation {rest : Text} (h : EndsBefore .error ['!'] rest) :
    leadingLexeme '!' rest = (lexeme .error ['!'], rest) := by
  have hne (s : Symbol) : s.text ≠ ['!'] := by cases s <;> decide
  have hs : Symbol.leading? ('!' :: rest) = none := by
    apply Symbol.leading?_eq_none_iff.2
    intro s
    refine ⟨?_, hne s⟩
    cases rest with
    | nil => exact hne s
    | cons d rest =>
      have hd : d ≠ '=' := by simpa [Kind.absorbs] using h
      exact Symbol.text_ne_pair (fun he => absurd he hd) s
  simp only [leadingLexeme, hs]
  rfl

/-- A character that starts nothing is an error by itself. -/
theorem leadingLexeme_stray {c : Char} {rest : Text} (ha : c.isAlphanum = false)
    (hs : ∀ s : Symbol, s.text.head? ≠ some c) :
    leadingLexeme c rest = (lexeme .error [c], rest) := by
  have hn : Symbol.leading? (c :: rest) = none := by
    apply Symbol.leading?_eq_none_iff.2
    intro s
    refine ⟨?_, ?_⟩
    · exact fun ht => hs s (by rw [ht]; rfl)
    · exact fun ht => hs s (by rw [ht]; rfl)
  obtain ⟨ha, hd⟩ := Bool.or_eq_false_iff.1 ha
  simp only [leadingLexeme, ha, hd, hn, Bool.false_eq_true, if_false]

/-- A lexeme in front of a text that it does not absorb is cut off as it is. The converse of what
has been shown above, with a case for each shape of a lexeme. -/
theorem leading?_of_isLexeme {k : Kind} {t rest : Text} (ht : IsLexeme k t)
    (h : EndsBefore k t rest) :
    ∃ c run, t = c :: run ∧ leading? c (run ++ rest) = some (lexeme k t, rest) := by
  -- no lexeme starts with a blank or like a comment, so it is left to the cutting of lexemes
  suffices key : ∃ c run, t = c :: run ∧ StartsLexeme c (run ++ rest) ∧
      leadingLexeme c (run ++ rest) = (lexeme k t, rest) by
    obtain ⟨c, run, ht, hs, hl⟩ := key
    exact ⟨c, run, ht, by rw [leading?_of_startsLexeme hs, hl]⟩
  cases ht with
  | reserved w =>
    obtain ⟨c, run, hw⟩ : ∃ c run, w.text = c :: run := by cases w <;> exact ⟨_, _, rfl⟩
    have hl : ∀ d ∈ c :: run, d.isAlpha = true := fun d hd =>
      ReservedWord.isAlpha_of_mem (hw ▸ hd)
    refine ⟨c, run, hw, .of_isAlphanum (isAlphanum_iff.2 (.inl (hl c List.mem_cons_self))) _, ?_⟩
    rw [leadingLexeme_letters hl h, ← hw, Kind.ofWord_text]
  | identifier hn hl hf =>
    obtain ⟨c, run, rfl⟩ := List.exists_cons_of_ne_nil hn
    refine ⟨c, run, rfl, .of_isAlphanum (isAlphanum_iff.2 (.inl (hl c List.mem_cons_self))) _, ?_⟩
    rw [leadingLexeme_letters hl h, Kind.ofWord_of_free hf]
  | number hn hd =>
    obtain ⟨c, run, rfl⟩ := List.exists_cons_of_ne_nil hn
    exact ⟨c, run, rfl, .of_isAlphanum (isAlphanum_iff.2 (.inr (hd c List.mem_cons_self))) _,
      leadingLexeme_digits hd h⟩
  | symbol s => exact leadingLexeme_symbol h
  | exclamation => exact ⟨'!', [], rfl, ⟨by decide, by simp⟩, leadingLexeme_exclamation h⟩
  | @spoiled ds more letter hn hd hl hm =>
    obtain ⟨c, run, rfl⟩ := List.exists_cons_of_ne_nil hn
    have hc := hd c List.mem_cons_self
    refine ⟨c, run ++ letter :: more, rfl, .of_isAlphanum (isAlphanum_iff.2 (.inr hc)) _, ?_⟩
    apply leadingLexeme_spoiled hd hl hm
    intro d hr
    rw [← Kind.absorbs_error_of_digit hc]
    exact h d hr
  | @stray c hb ha hs =>
    refine ⟨c, [], rfl, ⟨hb, ?_⟩, leadingLexeme_stray ha hs⟩
    rintro ⟨rfl, -⟩
    exact hs .slash rfl

/-- **Longest match.** A text is cut behind a first lexeme exactly if what is cut off has the
shape of its kind and does not absorb the next character. -/
theorem leading?_eq_lexeme_iff {c : Char} {rest after : Text} {k : Kind} {t : Text} :
    leading? c rest = some (lexeme k t, after) ↔
      c :: rest = t ++ after ∧ IsLexeme k t ∧ EndsBefore k t after := by
  constructor
  · intro h
    refine ⟨(text_of_leading? h).symm, ?_⟩
    unfold leading? at h
    split at h
    next =>
      obtain ⟨⟨b, a⟩, -, he⟩ := Option.map_eq_some_iff.1 h
      cases he
    next hc =>
      split at h
      · cases h
      next hb => exact isLexeme_of_leadingLexeme (by simpa using hb) hc (Option.some.inj h)
  · rintro ⟨he, ht, hr⟩
    obtain ⟨d, run, rfl, hl⟩ := leading?_of_isLexeme ht hr
    obtain ⟨rfl, rfl⟩ := List.cons.inj he
    exact hl

end Piece

end CMinusFrontEnd
