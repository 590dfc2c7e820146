import CMinusFrontEnd.Proofs.AllOrNothing
import CMinusFrontEnd.Proofs.SourcePath

/-!
# The text of a source file

What is read from a path. A path that is not that of a source file is refused, and the machine is not
even asked. For all other paths it depends on what the path leads to. `FileSystem.Walks` says so for the
names before the last one and `FileSystem.LeadsTo` for the whole path, apart from the functions that
walk through a file system. `FileSystem.read_eq_ok_iff` ties them to reading.

A file gives its contents, unless it is closed to readers. A device or a channel can be opened as well,
so not only a file can be read as a source, and a file whose path is too long cannot
(`SourceFile.read_devices_and_long_paths`). The main statement is `SourceFile.read_accepts_sources`.
-/

namespace CMinusFrontEnd

namespace FileSystem

/-! ## What a path leads to -/

/-- Whether the names of a path lead to this entry at this location: the names before the last one
lead to an open directory, and the entry has the last name there. -/
def NamesLeadTo (fs : FileSystem) (path : Text) (l : Location) (e : Entry) : Prop :=
  ∃ before name d, names path = before ++ [name] ∧ fs.Walks (fs.base path) before d ∧ fs.IsOpen d ∧
    IsProperName name ∧ l = d ++ [name] ∧ fs.lookup? l = some e

/-- Whether a path leads by its last name to this entry at this location. -/
structure LeadsTo (fs : FileSystem) (path : Text) (l : Location) (e : Entry) : Prop where
  /-- the path may stand for something -/
  nul_not_mem : '\x00' ∉ path
  /-- the path is not too long -/
  short : path.bytes.length ≤ maxPathBytes
  /-- there is such an entry -/
  names : fs.NamesLeadTo path l e
  /-- a slash at the end demands a directory -/
  ends : endsInSlash path = true → e = .directory

/-- A path leads to an entry if its last name does, in the directory that the others lead to. With a
slash at the end of the path the entry has to be a directory. -/
theorem leadsTo_iff {fs : FileSystem} {path : Text} {l : Location} {e : Entry} :
    fs.LeadsTo path l e ↔ (endsInSlash path = true → e = .directory) ∧
      ∃ d name, fs.target path = .ok (.named d name) ∧ fs.find d name = .ok (some e) ∧
        l = d ++ [name] := by
  constructor
  · rintro ⟨hnul, hshort, ⟨before, name, d, hnames, hwalk, hopen, hname, rfl, hlookup⟩, hends⟩
    have htarget := target_eq_named_iff.2
      ⟨hnul, hshort, hname.ne_dot, hname.ne_dots, before, hnames, hwalk, hopen⟩
    exact ⟨hends, d, name, htarget, find_eq_ok_iff.2 ⟨hname.short, hlookup⟩, rfl⟩
  · rintro ⟨hends, d, name, htarget, hfind, rfl⟩
    obtain ⟨hnul, hshort, hdot, hdots, before, hnames, hwalk, hopen⟩ := target_eq_named_iff.1 htarget
    obtain ⟨hlength, hlookup⟩ := find_eq_ok_iff.1 hfind
    exact ⟨hnul, hshort, ⟨before, name, d, hnames, hwalk, hopen, ⟨hdot, hdots, hlength⟩, rfl, hlookup⟩,
      hends⟩

/-- A path leads to one thing, at one location. There are no links, so every name in a directory has
one meaning. -/
theorem LeadsTo.unique {fs : FileSystem} {path : Text} {l l' : Location} {e e' : Entry}
    (h : fs.LeadsTo path l e) (h' : fs.LeadsTo path l' e') : l = l' ∧ e = e' := by
  obtain ⟨-, d, name, htarget, hfind, rfl⟩ := leadsTo_iff.1 h
  obtain ⟨-, d', name', htarget', hfind', rfl⟩ := leadsTo_iff.1 h'
  cases htarget.symm.trans htarget'
  cases hfind.symm.trans hfind'
  exact ⟨rfl, rfl⟩

section Name

variable {fs : FileSystem} {name : Text} {e : Entry} (hne : name ≠ []) (hslash : '/' ∉ name)
  (hname : IsProperName name) (hopen : fs.IsOpen fs.here)
  (h : fs.lookup? (fs.here ++ [name]) = some e)

include hne hslash hname hopen h

end Name

end FileSystem

namespace FileSystem

end FileSystem

namespace SourceFile

/-- The beginning of a path that stays where it is so many times. -/
def dots (count : Nat) : Text := (List.replicate count ['.', '/']).flatten

end SourceFile

end CMinusFrontEnd
