/-!
# Tables

A table is a list of keys with their values, in which the first entry for a key is the one that
counts. Sessions keep their trees in a table and file systems keep their entries in one. Both remove
a key with all its entries, and both put a new entry in front of what is left.
-/

namespace CMinusFrontEnd.Table

variable {α β : Type} [BEq α] [LawfulBEq α] [DecidableEq α]

/-- The first entry is found first. Entries with the same key behind it are hidden. -/
theorem lookup_cons (k key : α) (v : β) (table : List (α × β)) :
    ((key, v) :: table).lookup k = if k = key then some v else table.lookup k := by
  rw [List.lookup_cons]
  by_cases h : k = key
  · rw [if_pos h, beq_iff_eq.2 h]
  · rw [if_neg h, beq_eq_false_iff_ne.2 h]

/-- A key that is removed has no value, and all others keep theirs. -/
theorem lookup_remove (k key : α) (table : List (α × β)) :
    (table.filter fun entry => entry.1 != key).lookup k =
      if k = key then none else table.lookup k := by
  induction table with
  | nil => rw [List.filter_nil, List.lookup_nil, ite_self]
  | cons entry rest ih =>
    obtain ⟨key', v⟩ := entry
    by_cases hkey : key' = key
    · rw [List.filter_cons_of_neg (by simpa using hkey), ih, lookup_cons, hkey]
      split <;> rfl
    · rw [List.filter_cons_of_pos (by simpa using hkey), lookup_cons, lookup_cons, ih]
      by_cases hk : k = key'
      · rw [if_pos hk, if_neg (hk ▸ hkey), if_pos hk]
      · rw [if_neg hk, if_neg hk]

/-- A key that is put in place has the new value, and all others keep theirs. -/
theorem lookup_put (k key : α) (v : β) (table : List (α × β)) :
    ((key, v) :: table.filter fun entry => entry.1 != key).lookup k =
      if k = key then some v else table.lookup k := by
  rw [lookup_cons, lookup_remove]
  split <;> rfl

end CMinusFrontEnd.Table
