import CMinusFrontEnd.Piece
import CMinusFrontEnd.Proofs.Lexeme
import Mathlib.Tactic.ByContra

/-!
# Gaps

What stands between two lexemes: blanks and closed comments, in any number and in any order. As
in `CMinusFrontEnd.Proofs.Lexeme` the rule is said without the cutting of a source. A comment is
closed by the first `*/` behind its opening, so its body is any text that holds no `*/`, also none
that its last character makes with the mark behind it (`IsCommentBody`).

`closeComment?_eq_some_iff` and `closeComment?_eq_none_iff` tie the rule to the cutting: a comment
is closed exactly where the rule says, and left open exactly if no `*/` follows at all.
-/

namespace CMinusFrontEnd

/-! ## Closing a comment -/

/-- The mark that ends a comment. -/
def commentEnd : Text := ['*', '/']

/-- Whether a text can stand between `/*` and the `*/` that closes it: the mark directly behind
the text is the first one. -/
def IsCommentBody (body : Text) : Prop := ¬commentEnd <:+: body ++ ['*']

instance (body : Text) : Decidable (IsCommentBody body) :=
  inferInstanceAs (Decidable ¬commentEnd <:+: body ++ ['*'])

/-- The end of a comment is either right at the start of a text or further on. -/
theorem commentEnd_infix_cons {c : Char} {t : Text} :
    commentEnd <:+: c :: t ↔ (c = '*' ∧ t.head? = some '/') ∨ commentEnd <:+: t := by
  have key : commentEnd <+: c :: t ↔ c = '*' ∧ t.head? = some '/' := by
    rw [commentEnd, List.cons_prefix_cons]
    cases t with
    | nil => simp
    | cons d t => simp [List.cons_prefix_cons, eq_comm]
  rw [List.infix_cons_iff, key]

theorem commentEnd_not_infix_nil : ¬commentEnd <:+: [] := by
  intro h
  exact absurd h.length_le (by decide)

theorem isCommentBody_nil : IsCommentBody [] := by
  intro h
  exact absurd h.length_le (by decide)

/-- A character in front of a body makes a longer one, unless it is a star and a slash comes next to
it. -/
theorem isCommentBody_cons {c : Char} {body : Text} :
    IsCommentBody (c :: body) ↔ ¬(c = '*' ∧ body.head? = some '/') ∧ IsCommentBody body := by
  have key : (body ++ ['*']).head? = some '/' ↔ body.head? = some '/' := by
    cases body <;> simp
  rw [IsCommentBody, List.cons_append, commentEnd_infix_cons, key, not_or]
  rfl

/-- A comment stays open if there is no end of a comment in the whole rest of the text. -/
theorem closeComment?_eq_none_iff {t : Text} : closeComment? t = none ↔ ¬commentEnd <:+: t := by
  fun_induction closeComment? t with
  | case1 => exact iff_of_true rfl commentEnd_not_infix_nil
  | case2 after =>
    have key : commentEnd <:+: '*' :: '/' :: after := commentEnd_infix_cons.2 (.inl ⟨rfl, rfl⟩)
    exact iff_of_false (by simp) (not_not_intro key)
  | case3 c rest hne ih =>
    have hc : ¬(c = '*' ∧ rest.head? = some '/') := by
      rintro ⟨rfl, hr⟩
      obtain ⟨after, rfl⟩ := List.head?_eq_some_iff.1 hr
      exact hne after rfl rfl
    rw [Option.map_eq_none_iff, ih, commentEnd_infix_cons, or_iff_right hc]

/-- The end behind a body is the first one, whatever comes after it. -/
theorem closeComment?_append {body : Text} (h : IsCommentBody body) (after : Text) :
    closeComment? (body ++ '*' :: '/' :: after) = some (body, after) := by
  induction body with
  | nil => rfl
  | cons c body ih =>
    obtain ⟨hc, hb⟩ := isCommentBody_cons.1 h
    rw [List.cons_append, closeComment?]
    · rw [ih hb]
      rfl
    · rintro rest rfl hr
      refine hc ⟨rfl, ?_⟩
      cases body with
      | nil => cases hr
      | cons d body => rw [(List.cons.inj hr).1]; rfl

/-- A comment is closed at the first end, so there is none in what was cut off as its body. -/
theorem isCommentBody_of_closeComment? {t body after : Text}
    (h : closeComment? t = some (body, after)) : IsCommentBody body := by
  fun_induction closeComment? t generalizing body with
  | case1 => cases h
  | case2 =>
    cases h
    exact isCommentBody_nil
  | case3 c rest hne ih =>
    obtain ⟨⟨b, a⟩, hr, he⟩ := Option.map_eq_some_iff.1 h
    cases he
    refine isCommentBody_cons.2 ⟨?_, ih hr⟩
    rintro ⟨rfl, hb⟩
    obtain ⟨b, rfl⟩ := List.head?_eq_some_iff.1 hb
    exact hne _ rfl (closeComment?_eq_some hr)

/-- **Comments close at the first mark.** What is cut off as the body and what is left are
determined by the text alone, without going through it. -/
theorem closeComment?_eq_some_iff {t body after : Text} :
    closeComment? t = some (body, after) ↔
      t = body ++ '*' :: '/' :: after ∧ IsCommentBody body := by
  constructor
  · intro h
    exact ⟨closeComment?_eq_some h, isCommentBody_of_closeComment? h⟩
  · rintro ⟨rfl, h⟩
    exact closeComment?_append h after

/-! ## Separators -/

/-- What a gap is made of. -/
inductive Separator where
  /-- a blank -/
  | blank (c : Char)
  /-- a closed comment, given by what stands between its opening and its end -/
  | comment (body : Text)
deriving DecidableEq

namespace Separator

/-- The text that a separator takes up in the source. -/
def text : Separator → Text
  | blank c => [c]
  | comment body => '/' :: '*' :: (body ++ commentEnd)

/-- Whether a separator is what its constructor says. -/
def IsValid : Separator → Prop
  | blank c => isBlank c = true
  | comment body => IsCommentBody body

instance : (x : Separator) → Decidable x.IsValid
  | blank c => inferInstanceAs (Decidable (isBlank c = true))
  | comment body => inferInstanceAs (Decidable (IsCommentBody body))

theorem text_ne_nil (x : Separator) : x.text ≠ [] := by
  cases x <;> exact List.cons_ne_nil _ _

/-- Every lexeme ends before a separator. Blanks are absorbed by nothing, and a comment starts with
a slash, which is not absorbed either. -/
theorem endsBefore {x : Separator} (hx : x.IsValid) (k : Kind) (t rest : Text) :
    EndsBefore k t (x.text ++ rest) := by
  cases x with
  | blank c => exact endsBefore_cons.2 (k.absorbs_eq_false_of_isBlank hx t)
  | comment body => exact endsBefore_cons.2 (k.absorbs_slash t)

end Separator

/-! ## Gaps -/

/-- What stands between two lexemes, before the first one or behind the last one. -/
abbrev Gap := List Separator

namespace Gap

/-- The text that a gap takes up in the source. -/
def text (g : Gap) : Text := g.flatMap Separator.text

/-- Whether all its separators are valid. -/
def IsValid (g : Gap) : Prop := ∀ x ∈ g, x.IsValid

instance (g : Gap) : Decidable g.IsValid := inferInstanceAs (Decidable (∀ x ∈ g, x.IsValid))

/-- The number of line feeds in a gap. -/
def newlines (g : Gap) : Nat := g.text.newlines

@[simp] theorem text_nil : text [] = [] := rfl

@[simp] theorem text_cons (x : Separator) (g : Gap) : text (x :: g) = x.text ++ text g := rfl

@[simp] theorem text_append (g h : Gap) : text (g ++ h) = text g ++ text h :=
  List.flatMap_append

theorem text_eq_nil_iff {g : Gap} : g.text = [] ↔ g = [] := by
  constructor
  · intro h
    cases g with
    | nil => rfl
    | cons x g =>
      rw [text_cons] at h
      exact absurd (List.append_eq_nil_iff.1 h).1 x.text_ne_nil
  · rintro rfl
    rfl

@[simp] theorem newlines_nil : newlines [] = 0 := rfl

/-- Line feeds in a comment count like those between tokens. -/
theorem newlines_cons (x : Separator) (g : Gap) :
    newlines (x :: g) = x.text.newlines + newlines g := by
  rw [newlines, text_cons, Text.newlines_append, newlines]

@[simp] theorem newlines_append (g h : Gap) : newlines (g ++ h) = newlines g + newlines h := by
  rw [newlines, text_append, Text.newlines_append]
  rfl

theorem isValid_nil : IsValid [] := by
  intro x hx
  cases hx

theorem isValid_cons {x : Separator} {g : Gap} : IsValid (x :: g) ↔ x.IsValid ∧ IsValid g :=
  List.forall_mem_cons

theorem isValid_append {g h : Gap} : IsValid (g ++ h) ↔ IsValid g ∧ IsValid h :=
  List.forall_mem_append

/-- Every lexeme ends before a gap, because a gap starts with its first separator. -/
theorem endsBefore {g : Gap} (hg : g.IsValid) (hn : g ≠ []) (k : Kind) (t rest : Text) :
    EndsBefore k t (g.text ++ rest) := by
  cases g with
  | nil => exact absurd rfl hn
  | cons x g =>
    rw [text_cons, List.append_assoc]
    exact x.endsBefore (hg x List.mem_cons_self) k t _

end Gap

end CMinusFrontEnd
