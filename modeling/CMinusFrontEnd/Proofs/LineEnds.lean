import CMinusFrontEnd.Proofs.LabelLine
import CMinusFrontEnd.Proofs.SourceLines

/-!
# Cutting at line ends

What is written is read back line by line. `cutBehind` cuts a list behind every element of one value,
so that nothing is lost (`flatten_cutBehind`), and pieces that have this element at their end and
nowhere else are found again (`cutBehind_flatMap`).

A text can be cut at its line feeds, and so can its bytes: the byte of an ASCII character stands for this
character wherever it occurs in the encoding of a text (`Text.mem_bytes_iff`).
-/

namespace CMinusFrontEnd

/-! ## Pieces -/

section Pieces

variable {α β : Type} [DecidableEq α]

/-- Cuts a list behind every `stop`. What stands behind the last one is a piece unless it is empty. -/
def cutBehind (stop : α) : List α → List (List α)
  | [] => []
  | a :: rest =>
    if a = stop then [a] :: cutBehind stop rest
    else
      match cutBehind stop rest with
      | [] => [[a]]
      | piece :: pieces => (a :: piece) :: pieces

theorem flatten_cutBehind (stop : α) (l : List α) : (cutBehind stop l).flatten = l := by
  induction l with
  | nil => rfl
  | cons a rest ih =>
    rw [cutBehind]
    split
    · rw [List.flatten_cons, ih, List.singleton_append]
    · split
      next h =>
        rw [h, List.flatten_nil] at ih
        rw [← ih, List.flatten_cons, List.flatten_nil, List.append_nil]
      next piece pieces h =>
        rw [h, List.flatten_cons] at ih
        rw [List.flatten_cons, List.cons_append, ih]

/-- The first piece reaches to the first place to cut. -/
theorem cutBehind_append {stop : α} {w : List α} (hw : stop ∉ w) (rest : List α) :
    cutBehind stop (w ++ stop :: rest) = (w ++ [stop]) :: cutBehind stop rest := by
  induction w with
  | nil => rw [List.nil_append, cutBehind, if_pos rfl, List.nil_append]
  | cons a w ih =>
    have ha : a ≠ stop := fun h => hw (h ▸ List.mem_cons_self)
    rw [List.cons_append, cutBehind, if_neg ha, ih fun h => hw (List.mem_cons_of_mem a h)]
    rfl

/-- Pieces that end where a list is cut are found again, provided that there is no other place to
cut in them. -/
theorem cutBehind_flatMap {stop : α} {content : β → List α} {xs : List β}
    (h : ∀ x ∈ xs, stop ∉ content x) :
    cutBehind stop (xs.flatMap fun x => content x ++ [stop]) =
      xs.map fun x => content x ++ [stop] := by
  induction xs with
  | nil => rfl
  | cons x xs ih =>
    obtain ⟨hx, hxs⟩ := List.forall_mem_cons.1 h
    rw [List.flatMap_cons, List.append_assoc, List.singleton_append, cutBehind_append hx, ih hxs,
      List.map_cons]

end Pieces

/-! ## Bytes -/

/-- In the encoding of a character there is no byte of another ASCII character: all bytes of a
longer encoding are 128 or more. -/
theorem mem_utf8EncodeChar_iff {b : UInt8} (hb : b.toNat < 128) {c : Char} :
    b ∈ String.utf8EncodeChar c ↔ c.toNat = b.toNat := by
  -- in a longer encoding every byte has its highest bit set
  have hlead {n : Nat} (hn : 128 ≤ n % 256) : b ≠ UInt8.ofNat n := by
    rintro rfl
    rw [UInt8.toNat_ofNat'] at hb
    omega
  have hc : c.val.toNat = c.toNat := rfl
  rw [String.utf8EncodeChar]
  simp only [hc]
  split
  next hsmall =>
    rw [List.mem_singleton, ← UInt8.toNat_inj, UInt8.toNat_ofNat', eq_comm]
    omega
  · split
    · simp only [List.mem_cons, List.not_mem_nil, or_false]
      refine iff_of_false ?_ (by omega)
      rintro (h | h)
      all_goals exact hlead (by omega) h
    · split
      · simp only [List.mem_cons, List.not_mem_nil, or_false]
        refine iff_of_false ?_ (by omega)
        rintro (h | h | h)
        all_goals exact hlead (by omega) h
      · simp only [List.mem_cons, List.not_mem_nil, or_false]
        refine iff_of_false ?_ (by omega)
        rintro (h | h | h | h)
        all_goals exact hlead (by omega) h

namespace Text

/-- A byte below 128 stands for a character of its own wherever it occurs. It is never a part of
another character. -/
theorem mem_bytes_iff {b : UInt8} (hb : b.toNat < 128) {t : Text} :
    b ∈ t.bytes ↔ ∃ c ∈ t, c.toNat = b.toNat := by
  simp only [bytes, List.mem_flatMap, mem_utf8EncodeChar_iff hb]

/-- Only an ASCII character itself has an encoding that starts with its byte. So the first byte of a
line tells whether the line starts with a tab. -/
theorem toNat_of_head?_bytes {b : UInt8} (hb : b.toNat < 128) {c : Char} {t : Text}
    (h : (bytes (c :: t)).head? = some b) : c.toNat = b.toNat := by
  have hne : String.utf8EncodeChar c ≠ [] := by
    rw [← List.length_pos_iff, String.length_utf8EncodeChar]
    exact c.utf8Size_pos
  obtain ⟨first, rest, hchar⟩ := List.exists_cons_of_ne_nil hne
  rw [bytes, List.flatMap_cons, hchar, List.cons_append, List.head?_cons, Option.some.injEq] at h
  exact (mem_utf8EncodeChar_iff hb).1 (hchar ▸ h ▸ List.mem_cons_self)

/-! ## Line feeds -/

theorem newline_not_mem_bytes {t : Text} (h : '\n' ∉ t) : (10 : UInt8) ∉ t.bytes := by
  rw [mem_bytes_iff (by decide)]
  rintro ⟨c, hc, hnat⟩
  obtain rfl : c = '\n' := Char.toNat_inj.1 hnat
  exact h hc

theorem newline_not_mem_of_mem_lines {t line : Text} (h : line ∈ t.lines) : '\n' ∉ line := by
  induction t generalizing line with
  | nil => cases h
  | cons c t ih =>
    by_cases hc : c = '\n'
    · subst hc
      rw [lines_newline, List.mem_cons] at h
      rcases h with rfl | h
      · exact List.not_mem_nil
      · exact ih h
    · rcases lines_cons_of_ne hc t with hcons | ⟨-, hsame⟩
      · rw [hcons, List.mem_cons] at h
        rcases h with rfl | h
        · rw [List.mem_cons, not_or, lineAt]
          refine ⟨fun h => hc h.symm, ?_⟩
          cases hlines : lines t with
          | nil => exact List.not_mem_nil
          | cons l ls =>
            refine ih ?_
            rw [hlines]
            exact List.mem_cons_self
        · exact ih (List.mem_of_mem_tail h)
      · exact ih (hsame ▸ h)

end Text

end CMinusFrontEnd
