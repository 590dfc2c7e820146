/-!
# Counts

Line numbers, depths and indentation steps are unsigned 64-bit numbers. A count never wraps
around: an addition that leaves the range has no result, and whoever adds decides what that
means. `Count.plus?_eq_some_iff` is all that later modules need to know.
-/

namespace CMinusFrontEnd

/-- A line number, a depth or an indentation step. -/
abbrev Count := UInt64

namespace Count

/-- The largest count. -/
def last : Count := UInt64.ofNat (UInt64.size - 1)

/-- The count that is `k` larger, if there is one. -/
def plus? (n : Count) (k : Nat) : Option Count :=
  if n.toNat + k < UInt64.size then some (UInt64.ofNat (n.toNat + k)) else none

/-- A sum in the range is the sum of the numbers. -/
theorem plus?_eq_some_iff {n m : Count} {k : Nat} :
    plus? n k = some m ↔ m.toNat = n.toNat + k := by
  have hm := m.toNat_lt
  simp only [plus?, UInt64.size]
  split
  next h =>
    rw [Option.some.injEq, ← UInt64.toNat_inj, UInt64.toNat_ofNat_of_lt' h, eq_comm]
  next h =>
    constructor
    · intro h'
      cases h'
    · intro h'
      omega

theorem plus?_eq_none_iff {n : Count} {k : Nat} :
    plus? n k = none ↔ UInt64.size ≤ n.toNat + k := by
  simp [plus?]

/-- Adding in two steps is adding at once. -/
theorem plus?_add (n : Count) (j k : Nat) :
    plus? n (j + k) = (plus? n j).bind fun m => plus? m k := by
  cases hj : plus? n j with
  | none =>
    have := plus?_eq_none_iff.1 hj
    exact plus?_eq_none_iff.2 (by omega)
  | some m =>
    have hm := plus?_eq_some_iff.1 hj
    simp only [Option.bind_some]
    cases hk : plus? m k with
    | none =>
      have := plus?_eq_none_iff.1 hk
      exact plus?_eq_none_iff.2 (by omega)
    | some l =>
      have := plus?_eq_some_iff.1 hk
      exact plus?_eq_some_iff.2 (by omega)

@[simp] theorem plus?_zero (n : Count) : plus? n 0 = some n :=
  plus?_eq_some_iff.2 rfl

end Count

end CMinusFrontEnd
