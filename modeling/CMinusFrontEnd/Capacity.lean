import CMinusFrontEnd.Failure
import CMinusFrontEnd.Text.Utf8

/-!
# Capacities

How many bytes there is room for. A `Capacity` is an amount, any or limited, and it is used up from
the front: of bytes that do not fit, the first ones are taken until there is no room left.

A `Room` is a capacity that somebody asks for. What does not fit is refused, and the room says with
which cause. Copies of texts need a capacity as well, that of the memory.
-/

namespace CMinusFrontEnd

/-- How many bytes there is room for: any number, or up to a limit. -/
inductive Capacity where
  /-- any number of bytes -/
  | unlimited
  /-- so many bytes and no more -/
  | limited (room : Nat)
deriving DecidableEq

namespace Capacity

/-- Whether so many bytes fit. -/
def fits (size : Nat) : Capacity → Bool
  | unlimited => true
  | limited room => size ≤ room

/-- The capacity that is left after so many bytes. -/
def less (size : Nat) : Capacity → Capacity
  | unlimited => unlimited
  | limited room => limited (room - size)

/-- As many of the bytes as fit. -/
def take (b : Bytes) : Capacity → Bytes
  | unlimited => b
  | limited room => b.take room

@[simp] theorem less_zero (room : Capacity) : room.less 0 = room := by
  cases room <;> rfl

/-- Room is used up in two parts as it is at once. -/
theorem less_less (room : Capacity) (m n : Nat) : (room.less m).less n = room.less (m + n) := by
  cases room with
  | unlimited => rfl
  | limited room => exact congrArg limited (Nat.sub_sub room m n)

/-- Two parts fit if the first one does, and the second one behind it. So it makes no difference in
how many parts bytes arrive, as long as all of them fit. -/
theorem fits_add (room : Capacity) (m n : Nat) :
    room.fits (m + n) = (room.fits m && (room.less m).fits n) := by
  cases room with
  | unlimited => rfl
  | limited room =>
    simp only [fits, less, ← Bool.decide_and, decide_eq_decide]
    omega

/-- Where some bytes fit, fewer bytes fit. -/
theorem fits_of_le {room : Capacity} {m n : Nat} (hle : m ≤ n) (h : room.fits n = true) :
    room.fits m = true := by
  cases room with
  | unlimited => rfl
  | limited room =>
    simp only [fits, decide_eq_true_eq] at h ⊢
    exact Nat.le_trans hle h

theorem take_of_fits {room : Capacity} {b : Bytes} (h : room.fits b.length = true) :
    room.take b = b := by
  cases room with
  | unlimited => rfl
  | limited room => exact List.take_of_length_le (by simpa [fits] using h)

/-- Behind bytes that fit there is room for more. -/
theorem take_append_of_fits {room : Capacity} {b : Bytes} (h : room.fits b.length = true)
    (b' : Bytes) : room.take (b ++ b') = b ++ (room.less b.length).take b' := by
  cases room with
  | unlimited => rfl
  | limited room =>
    rw [take, List.take_append, List.take_of_length_le (by simpa [fits] using h)]
    rfl

/-- Bytes that do not fit use up all that is left, and there is nothing for those behind them,
however few they are. -/
theorem take_append_of_not_fits {room : Capacity} {b : Bytes} (h : room.fits b.length = false)
    (b' : Bytes) : room.take (b ++ b') = room.take b := by
  cases room with
  | unlimited => cases h
  | limited room =>
    have hroom : room ≤ b.length := Nat.le_of_lt (by simpa [fits] using h)
    exact List.take_append_of_le_length hroom

/-- What does not fit uses up the room. -/
theorem less_of_not_fits {room : Capacity} {n : Nat} (h : room.fits n = false) :
    room.less n = limited 0 := by
  cases room with
  | unlimited => cases h
  | limited room =>
    have hroom : room < n := by simpa [fits] using h
    exact congrArg limited (Nat.sub_eq_zero_of_le (Nat.le_of_lt hroom))

end Capacity

/-! ## Rooms -/

/-- How much a place takes, and the cause for which it refuses what is more. -/
structure Room where
  /-- how many bytes fit -/
  capacity : Capacity := .unlimited
  /-- why there is no room for more -/
  cause : SystemCause := .noSpace
deriving DecidableEq

namespace Room

/-- What arrives of bytes that are written to a place. -/
def take (b : Bytes) (room : Room) : Bytes := room.capacity.take b

/-- What is answered to somebody who writes bytes to a place. -/
def answer (b : Bytes) (room : Room) : Except SystemCause Unit :=
  if room.capacity.fits b.length then .ok () else .error room.cause

/-- The room that is left behind bytes. -/
def less (b : Bytes) (room : Room) : Room :=
  { room with capacity := room.capacity.less b.length }

/-- What is not refused arrives in full. The other way round, what arrives of bytes that are refused
is less than all of them. -/
theorem take_of_answer {room : Room} {b : Bytes} (h : room.answer b = .ok ()) : room.take b = b := by
  rw [answer] at h
  split at h
  next hfits => exact Capacity.take_of_fits hfits
  next => cases h

/-- Fewer bytes are not refused either, whatever they are: a room looks at how many there are, and
not at what they say. -/
theorem answer_of_le {room : Room} {b b' : Bytes} (hle : b'.length ≤ b.length)
    (h : room.answer b = .ok ()) : room.answer b' = .ok () := by
  rw [answer] at h ⊢
  split at h
  next hfits => exact if_pos (Capacity.fits_of_le hle hfits)
  next => cases h

end Room

/-! ## Copies -/

/-- A copy of a text, if there is a text, made while at this line. The memory may be too small. -/
def copyText (memory : Capacity) (line : Count) : Option Text → Except Error (Option Text)
  | none => .ok none
  | some t => if memory.fits t.bytes.length then .ok (some t) else .error (.outOfMemory line)

end CMinusFrontEnd
