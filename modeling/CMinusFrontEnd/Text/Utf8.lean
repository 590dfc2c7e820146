import CMinusFrontEnd.Text.Basic

/-!
# UTF-8

Files and sinks hold bytes. `Text.bytes` is the encoding of a text, and `Text.ofBytes?` reads
bytes back: it answers with the text whose encoding they are, and with nothing for bytes that
are no encoding (`Text.ofBytes?_eq_some_iff`).
-/

namespace CMinusFrontEnd

/-- A sequence of bytes. -/
abbrev Bytes := List UInt8

namespace Text

/-- The UTF-8 encoding of a text. -/
def bytes (t : Text) : Bytes := t.flatMap String.utf8EncodeChar

@[simp] theorem bytes_nil : bytes [] = [] := rfl

@[simp] theorem bytes_append (s t : Text) : bytes (s ++ t) = bytes s ++ bytes t :=
  List.flatMap_append

/-- The text that the bytes encode, if they are well-formed UTF-8. -/
def ofBytes? (b : Bytes) : Option Text :=
  (String.fromUTF8? b.toByteArray).map String.toList

/-- Decoding accepts exactly what encoding produces. Overlong encodings, surrogates and incomplete
characters are not among that. -/
theorem ofBytes?_eq_some_iff {b : Bytes} {t : Text} : ofBytes? b = some t ↔ b = bytes t := by
  have key (s : String) : s.toByteArray = (bytes s.toList).toByteArray := by
    have h : (String.ofList s.toList).toByteArray = (bytes s.toList).toByteArray :=
      String.toByteArray_ofList
    rwa [String.ofList_toList] at h
  constructor
  · intro h
    obtain ⟨s, hs, rfl⟩ := Option.map_eq_some_iff.1 h
    have hb : s.toByteArray = b.toByteArray := by
      simp only [String.fromUTF8?] at hs
      split at hs
      · simp only [Option.some.injEq] at hs
        rw [← hs]
        rfl
      · cases hs
    rw [key] at hb
    exact (List.toByteArray_inj.1 hb).symm
  · rintro rfl
    have hv : (bytes t).toByteArray = (String.ofList t).toByteArray :=
      String.toByteArray_ofList.symm
    have hs : String.fromUTF8? (bytes t).toByteArray = some (String.ofList t) := by
      rw [hv, String.fromUTF8?, dif_pos (String.ofList t).isValidUTF8]
      rfl
    rw [ofBytes?, hs, Option.map_some, String.toList_ofList]

@[simp] theorem ofBytes?_bytes (t : Text) : ofBytes? (bytes t) = some t :=
  ofBytes?_eq_some_iff.2 rfl

/-- Different texts have different bytes. -/
theorem bytes_injective {s t : Text} (h : bytes s = bytes t) : s = t := by
  have hread := congrArg ofBytes? h
  rwa [ofBytes?_bytes, ofBytes?_bytes, Option.some.injEq] at hread

end Text

end CMinusFrontEnd
