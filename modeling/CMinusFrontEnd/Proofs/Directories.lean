import CMinusFrontEnd.FileSystem

/-!
# Walking through directories

What the names of a path lead to. `FileSystem.enter` goes from name to name and stops at the first one
at which it cannot go on. `FileSystem.Walks` is a relation that says where a walk arrives, and it has
nothing to say about walks that do not arrive. The two are tied together once
(`FileSystem.enter_eq_ok_iff`), and from there on the relation is what proofs are about.

A walk looks at directories only. So it arrives at the same place in any other file system with these
directories (`FileSystem.Walks.of_directories`), whatever has become of the files.
-/

namespace CMinusFrontEnd

namespace FileSystem

/-- A name is looked up unless it is too long, and then it may stand for nothing. -/
theorem find_eq_ok_iff {fs : FileSystem} {l : Location} {name : Text} {found : Option Entry} :
    fs.find l name = .ok found ↔
      name.bytes.length ≤ maxNameBytes ∧ fs.lookup? (l ++ [name]) = found := by
  rw [find]
  split
  next h =>
    constructor
    · intro hcause
      cases hcause
    · rintro ⟨hle, -⟩
      omega
  next h => simp only [Except.ok.injEq, Nat.le_of_not_lt h, true_and]

/-! ## Walking -/

/-- Whether a name is one to be looked up. -/
structure IsProperName (name : Text) : Prop where
  /-- it does not stay in the directory -/
  ne_dot : name ≠ ['.']
  /-- it does not leave the directory -/
  ne_dots : name ≠ ['.', '.']
  /-- it is not too long -/
  short : name.bytes.length ≤ maxNameBytes

/-- Whether names can be looked up at a location. -/
def IsOpen (fs : FileSystem) (l : Location) : Prop := (fs.limitsAt l).entering = none

/-- Whether a walk by these names leads from one directory to another. Each directory that is left
behind by a name has to be open. -/
inductive Walks (fs : FileSystem) : Location → List Text → Location → Prop
  /-- without names it goes nowhere -/
  | nil (l : Location) : Walks fs l [] l
  /-- a dot stays in the directory -/
  | dot {l l' : Location} {names : List Text} (isOpen : fs.IsOpen l) (rest : Walks fs l names l') :
      Walks fs l (['.'] :: names) l'
  /-- two dots leave the directory -/
  | dots {l l' : Location} {names : List Text} (isOpen : fs.IsOpen l)
      (rest : Walks fs l.dropLast names l') : Walks fs l (['.', '.'] :: names) l'
  /-- any other name leads to the directory of that name -/
  | name {l l' : Location} {name : Text} {names : List Text} (isOpen : fs.IsOpen l)
      (proper : IsProperName name) (directory : fs.lookup? (l ++ [name]) = some .directory)
      (rest : Walks fs (l ++ [name]) names l') : Walks fs l (name :: names) l'

/-- The function walks as the relation says. Every refusal of the function is a place where the
relation has no step. -/
theorem enter_eq_ok_iff {fs : FileSystem} {l l' : Location} {names : List Text} :
    fs.enter l names = .ok l' ↔ fs.Walks l names l' := by
  constructor
  · intro h
    -- each branch of the function that goes on is a step, and all others end in an error
    induction names generalizing l with
    | nil =>
      cases h
      exact .nil _
    | cons name names ih =>
      rw [enter] at h
      split at h
      next => cases h
      next hopen =>
        split at h
        next hdot =>
          subst hdot
          exact .dot hopen (ih h)
        next hdot =>
          split at h
          next hdots =>
            subst hdots
            exact .dots hopen (ih h)
          next hdots =>
            split at h
            next hfind =>
              obtain ⟨hshort, hlookup⟩ := find_eq_ok_iff.1 hfind
              exact .name hopen ⟨hdot, hdots, hshort⟩ hlookup (ih h)
            all_goals cases h
  · intro h
    induction h with
    | nil => rfl
    | dot isOpen _ ih =>
      rw [enter, isOpen]
      exact ih
    | dots isOpen _ ih =>
      rw [enter, isOpen]
      exact ih
    | name isOpen proper directory _ ih =>
      rw [enter, isOpen]
      simp only [if_neg proper.ne_dot, if_neg proper.ne_dots,
        find_eq_ok_iff.2 ⟨proper.short, directory⟩]
      exact ih

/-! ## Up to the last name -/

/-- The last name of a path is named where the other names lead, if the directory there is open. -/
theorem target_eq_named_iff {fs : FileSystem} {path : Text} {l : Location} {name : Text} :
    fs.target path = .ok (.named l name) ↔
      '\x00' ∉ path ∧ path.bytes.length ≤ maxPathBytes ∧ name ≠ ['.'] ∧ name ≠ ['.', '.'] ∧
        ∃ before, names path = before ++ [name] ∧ fs.Walks (fs.base path) before l ∧ fs.IsOpen l := by
  -- the checks are made in this order, and past each of them there is one way on
  constructor
  · intro h
    rw [target] at h
    split at h
    next => cases h
    next hnul =>
      split at h
      next => cases h
      next hlong =>
        split at h
        next => cases h
        next =>
          split at h
          next => cases h
          next last hlast =>
            obtain ⟨before, hbefore⟩ := List.getLast?_eq_some_iff.1 hlast
            split at h
            next => cases h
            next l' hwalk =>
              rw [hbefore, List.dropLast_concat] at hwalk
              split at h
              next => cases h
              next hopen =>
                split at h
                next => cases h
                next hdot =>
                  split at h
                  next => cases h
                  next hdots =>
                    cases h
                    exact ⟨by simpa using hnul, Nat.le_of_not_lt hlong, hdot, hdots, before,
                      hbefore, enter_eq_ok_iff.1 hwalk, hopen⟩
  · rintro ⟨hnul, hshort, hdot, hdots, before, hbefore, hwalk, hopen⟩
    have hne : path ≠ [] := by
      rintro rfl
      have hlength := congrArg List.length hbefore
      rw [List.length_append] at hlength
      cases hlength
    rw [IsOpen] at hopen
    rw [target, if_neg (by simpa using hnul), if_neg (Nat.not_lt.2 hshort), if_neg hne, hbefore,
      List.getLast?_concat, List.dropLast_concat]
    simp only [enter_eq_ok_iff.2 hwalk, hopen, if_neg hdot, if_neg hdots]

/-! ## In another file system -/

section Directories

variable {fs fs' : FileSystem} (hlimits : ∀ l, fs'.limitsAt l = fs.limitsAt l)
  (hdirectories : ∀ l, fs.lookup? l = some .directory → fs'.lookup? l = some .directory)

include hlimits

theorem IsOpen.of_limits {l : Location} (h : fs.IsOpen l) : fs'.IsOpen l := by
  rw [IsOpen, hlimits]
  exact h

include hdirectories

/-- A walk goes the same way in any file system that has the same directories, and more. Files that
have been filled or made since are no obstacle to it. -/
theorem Walks.of_directories {l l' : Location} {names : List Text} (h : fs.Walks l names l') :
    fs'.Walks l names l' := by
  induction h with
  | nil l => exact .nil l
  | dot isOpen _ ih => exact .dot (isOpen.of_limits hlimits) ih
  | dots isOpen _ ih => exact .dots (isOpen.of_limits hlimits) ih
  | name isOpen proper directory _ ih =>
    exact .name (isOpen.of_limits hlimits) proper (hdirectories _ directory) ih

/-- So does a path up to its last name, if it starts from the same directory. -/
theorem target_of_directories (hhere : fs'.here = fs.here) {path : Text} {l : Location} {name : Text}
    (h : fs.target path = .ok (.named l name)) : fs'.target path = .ok (.named l name) := by
  obtain ⟨hnul, hshort, hdot, hdots, before, hnames, hwalk, hopen⟩ := target_eq_named_iff.1 h
  have hbase : fs'.base path = fs.base path := by rw [base, base, hhere]
  have hwalk' : fs'.Walks (fs'.base path) before l :=
    hbase ▸ hwalk.of_directories hlimits hdirectories
  exact target_eq_named_iff.2
    ⟨hnul, hshort, hdot, hdots, before, hnames, hwalk', hopen.of_limits hlimits⟩

end Directories

end FileSystem

end CMinusFrontEnd
