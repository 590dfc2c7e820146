import CMinusFrontEnd.Writing

/-!
# Sinks that fill up

A `Writing` is a list of chunks, and what a sink holds of it is a function of the chunks. Here is the
other view. A `Sink` is a state that takes one byte after the other, and a `Printer` is a program that
hands bytes to it. The first byte that is refused breaks the program off.

The two views are brought together by `Printer.Follows`: a program follows a writing if it leaves
every sink as the writing says, with the failure that the writing says. This can be proved part by
part (`Printer.Follows.andThen`), and it does not matter how the text of the writing is cut into
chunks (`Printer.Follows.congr`), for what a sink holds depends on the text alone
(`Writing.held_eq_take`).
-/

namespace CMinusFrontEnd

/-! ## Only the text matters -/

namespace Writing

theorem append_assoc (u v w : Writing) : u ++ v ++ w = u ++ (v ++ w) := by
  induction u with
  | done => rfl
  | fault cause => rfl
  | write chunk rest ih => exact congrArg (write chunk) ih

/-- **A sink holds a beginning of the text.** Which beginning depends on the room alone, and not on
how the text is cut into chunks. -/
theorem held_eq_take (w : Writing) (room : Capacity) : w.held room = room.take w.text.bytes := by
  induction w generalizing room with
  | done => cases room <;> simp [held, text, Capacity.take]
  | fault cause => cases room <;> simp [held, text, Capacity.take]
  | write chunk rest ih =>
    rw [held, text, Text.bytes_append, ← chunk.length_bytes, ih]
    split
    next h => exact (Capacity.take_append_of_fits h _).symm
    next h => exact (Capacity.take_append_of_not_fits (Bool.eq_false_iff.2 h) _).symm

/-- A sink adds a failure exactly if the text does not fit. Then it is the failure of the sink, even
if the writing would have ended in a fault. -/
theorem failure?_eq (w : Writing) (room : Capacity) :
    w.failure? room = if room.fits w.text.bytes.length then w.fault?.map .fault
      else some (.error (.system .sinkFull)) := by
  induction w generalizing room with
  | done => cases room <;> simp [failure?, text, fault?, Capacity.fits]
  | fault cause => cases room <;> simp [failure?, text, fault?, Capacity.fits]
  | write chunk rest ih =>
    have hlength : (write chunk rest).text.bytes.length = chunk.size + rest.text.bytes.length := by
      rw [text, Text.bytes_append, List.length_append, ← chunk.length_bytes, Chunk.bytes]
    rw [failure?, hlength, Capacity.fits_add, ih, fault?]
    cases room.fits chunk.size <;> rfl

end Writing

/-! ## Programs that write -/

/-- A sink while it is written to. -/
structure Sink where
  /-- the bytes that it has taken -/
  taken : Bytes
  /-- how many more it takes -/
  room : Capacity

/-- A program that writes to a sink. A failure breaks it off and leaves the sink as it is. -/
abbrev Printer := EStateM Failure Sink

namespace Printer

/-- Hands a byte to the sink. -/
def byte (b : UInt8) : Printer Unit := do
  let sink ← get
  if sink.room.fits 1 then
    set ({ taken := sink.taken ++ [b], room := sink.room.less 1 } : Sink)
  else
    throw (.error (.system .sinkFull))

/-- Hands bytes to the sink, one after the other. -/
def bytes : Bytes → Printer Unit
  | [] => pure ()
  | b :: rest => do
    byte b
    bytes rest

/-- Hands the bytes of a text to the sink. -/
def text (t : Text) : Printer Unit := bytes t.bytes

theorem byte_apply (b : UInt8) (s : Sink) :
    byte b s = if s.room.fits 1 then .ok () ⟨s.taken ++ [b], s.room.less 1⟩
      else .error (.error (.system .sinkFull)) s := by
  change (if s.room.fits 1 then set (⟨s.taken ++ [b], s.room.less 1⟩ : Sink)
    else throw (.error (.system .sinkFull)) : Printer Unit) s = _
  split <;> rfl

/-- The second program starts with the sink as the first one left it, and only if there was no
failure. -/
theorem andThen_apply (p q : Printer Unit) (s : Sink) :
    (do p; q) s = match p s with
      | .ok _ s => q s
      | .error failure s => .error failure s := by
  simp only [bind, EStateM.bind]
  cases p s <;> rfl

/-- As many bytes are taken as there is room for. If the last one is refused, those before it have
been taken all the same. -/
theorem bytes_apply (b : Bytes) (s : Sink) :
    bytes b s =
      let filled : Sink := ⟨s.taken ++ s.room.take b, s.room.less b.length⟩
      if s.room.fits b.length then .ok () filled
      else .error (.error (.system .sinkFull)) filled := by
  induction b generalizing s with
  | nil =>
    obtain ⟨taken, room⟩ := s
    cases room <;> simp [bytes, pure, EStateM.pure, Capacity.fits, Capacity.take, Capacity.less]
  | cons b rest ih =>
    rw [bytes, andThen_apply, byte_apply, List.length_cons, Nat.add_comm rest.length, Capacity.fits_add]
    cases hb : s.room.fits 1 with
    | true =>
      have htake : s.room.take (b :: rest) = b :: (s.room.less 1).take rest :=
        Capacity.take_append_of_fits (b := [b]) hb rest
      simp only [if_true, ih, Bool.true_and, htake, List.append_assoc, List.singleton_append,
        Capacity.less_less]
    | false =>
      -- no room for one byte is no room for any
      obtain ⟨taken, room⟩ := s
      cases room with
      | unlimited => cases hb
      | limited room =>
        obtain rfl : room = 0 := by simpa [Capacity.fits] using hb
        simp [Capacity.fits, Capacity.take, Capacity.less]

/-! ## Programs and writings -/

/-- What a sink is left with by something that writes as `w` does, and how that ends. -/
def ending (w : Writing) (s : Sink) : EStateM.Result Failure Sink Unit :=
  let filled : Sink := ⟨s.taken ++ w.held s.room, s.room.less w.text.bytes.length⟩
  match w.failure? s.room with
  | none => .ok () filled
  | some failure => .error failure filled

/-- Whether a program does on every sink what a writing says. -/
def Follows (p : Printer Unit) (w : Writing) : Prop := ∀ s, p s = ending w s

/-- A chunk is handed over byte by byte. If one of them is refused, this is the end. -/
theorem ending_write (chunk : Chunk) (rest : Writing) (s : Sink) :
    ending (.write chunk rest) s =
      match bytes chunk.bytes s with
      | .ok _ s => ending rest s
      | .error failure s => .error failure s := by
  rw [bytes_apply, chunk.length_bytes]
  have hlength : (Writing.write chunk rest).text.bytes.length =
      chunk.size + rest.text.bytes.length := by
    rw [Writing.text, Text.bytes_append, List.length_append, ← chunk.length_bytes, Chunk.bytes]
  cases hfits : s.room.fits chunk.size with
  | true =>
    have htake : s.room.take chunk.bytes = chunk.bytes :=
      Capacity.take_of_fits (chunk.length_bytes.symm ▸ hfits)
    simp only [ending, Writing.held, Writing.failure?, hfits, if_true, htake, hlength,
      Capacity.less_less, List.append_assoc]
  | false =>
    have hmore : s.room.fits (chunk.size + rest.text.bytes.length) = false := by
      rw [Capacity.fits_add, hfits, Bool.false_and]
    simp only [ending, Writing.held, Writing.failure?, hfits, Bool.false_eq_true, if_false, hlength,
      Capacity.less_of_not_fits hfits, Capacity.less_of_not_fits hmore]

/-- What is left of the room after the first writing is the room for the second one. -/
theorem ending_append (v w : Writing) (s : Sink) :
    ending (v ++ w) s =
      match ending v s with
      | .ok _ s => ending w s
      | .error failure s => .error failure s := by
  induction v generalizing s with
  | done => simp [ending, Writing.held, Writing.failure?, Writing.text]
  | fault cause => rfl
  | write chunk rest ih =>
    rw [Writing.write_append, ending_write, ending_write]
    cases bytes chunk.bytes s with
    | ok _ s => exact ih s
    | error failure s => rfl

/-- One program after the other follows one writing after the other. This is how everything that is
printed is put together from lines and spaces. -/
theorem Follows.andThen {p q : Printer Unit} {v w : Writing} (hp : Follows p v)
    (hq : Follows q w) : Follows (do p; q) (v ++ w) := by
  intro s
  rw [andThen_apply, ending_append, hp s]
  cases ending v s with
  | ok _ s => exact hq s
  | error failure s => rfl

/-- How the text is cut into chunks does not matter. A program may write in pieces what the writing
has at once. -/
theorem Follows.congr {p : Printer Unit} {v w : Writing} (hp : Follows p v)
    (htext : v.text = w.text) (hfault : v.fault? = w.fault?) : Follows p w := by
  intro s
  rw [hp s]
  simp only [ending, Writing.held_eq_take, Writing.failure?_eq, htext, hfault]

theorem follows_done : Follows (pure ()) .done := by
  intro s
  simp [ending, Writing.held, Writing.failure?, Writing.text, pure, EStateM.pure]

theorem follows_fault (cause : Fault) : Follows (throw (.fault cause)) (.fault cause) := by
  intro s
  have hending : ending (.fault cause) s = .error (.fault cause) s := by
    simp [ending, Writing.held, Writing.failure?, Writing.text]
  rw [hending]
  rfl

theorem follows_chunk (chunk : Chunk) : Follows (bytes chunk.bytes) (.write chunk .done) := by
  intro s
  rw [ending_write]
  cases bytes chunk.bytes s with
  | ok _ s => exact follows_done s
  | error failure s => rfl

theorem follows_text (t : Text) : Follows (text t) (.ofText t) := follows_chunk (.text t)

end Printer

end CMinusFrontEnd
