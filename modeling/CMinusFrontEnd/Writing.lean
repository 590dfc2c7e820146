import CMinusFrontEnd.Capacity

/-!
# Writings and sinks

An operation that writes does not act on a sink. It produces a `Writing`, the chunks that it hands
out one after the other and how it ends; a sink is then asked what it holds of the writing
(`Writing.held`) and how the operation ends there (`Writing.failure?`). So what is written and
what a sink makes of it are two separate questions.

A sink takes a number of bytes and no more. It takes as much of a chunk as it has room for, and a
chunk that does not fit is the end: nothing that follows is written, and a fault in which the
writing would have ended does not come about.
-/

namespace CMinusFrontEnd

/-! ## Chunks -/

/-- What is handed to a sink at once. -/
inductive Chunk where
  /-- a text -/
  | text (content : Text)
  /-- a run of spaces -/
  | spaces (count : Nat)
deriving DecidableEq

namespace Chunk

/-- The text of a chunk. -/
def content : Chunk → Text
  | text content => content
  | spaces count => List.replicate count ' '

/-- The bytes of a chunk. -/
def bytes (c : Chunk) : Bytes := c.content.bytes

/-- How many bytes a chunk has. -/
def size : Chunk → Nat
  | text content => content.bytes.length
  | spaces count => count

/-- A space is one byte, so a run of spaces has as many bytes as spaces. -/
theorem length_bytes (c : Chunk) : c.bytes.length = c.size := by
  cases c with
  | text content => rfl
  | spaces count =>
    have h : ∀ n, (Text.bytes (List.replicate n ' ')).length = n := by
      intro n
      induction n with
      | zero => rfl
      | succ n ih =>
        rw [List.replicate_succ, ← List.singleton_append, Text.bytes_append, List.length_append, ih]
        have : (Text.bytes [' ']).length = 1 := by decide
        omega
    exact h count

end Chunk

/-! ## Writings -/

/-- What an operation writes. -/
inductive Writing where
  /-- nothing more -/
  | done
  /-- nothing more, for the operation ends in a fault -/
  | fault (cause : Fault)
  /-- a chunk, and then the rest -/
  | write (chunk : Chunk) (rest : Writing)
deriving DecidableEq

namespace Writing

/-- The writing of one text. -/
def ofText (t : Text) : Writing := write (.text t) done

/-- The writing of a list of texts. -/
def ofTexts : List Text → Writing
  | [] => done
  | t :: ts => write (.text t) (ofTexts ts)

/-- One writing after the other. A fault in the first is the end of both. -/
def append : Writing → Writing → Writing
  | done, after => after
  | fault cause, _ => fault cause
  | write chunk rest, after => write chunk (rest.append after)

instance : Append Writing where
  append := append

/-- All the text of a writing, up to its end. -/
def text : Writing → Text
  | done => []
  | fault _ => []
  | write chunk rest => chunk.content ++ rest.text

/-- The fault in which a writing ends, if it does. -/
def fault? : Writing → Option Fault
  | done => none
  | fault cause => some cause
  | write _ rest => rest.fault?

@[simp] theorem done_append (w : Writing) : done ++ w = w := rfl

@[simp] theorem fault_append (cause : Fault) (w : Writing) : fault cause ++ w = fault cause := rfl

@[simp] theorem write_append (chunk : Chunk) (v w : Writing) :
    write chunk v ++ w = write chunk (v ++ w) := rfl

/-- The second text comes behind the first, if the first writing gets to its end. -/
@[simp] theorem text_append {v : Writing} (h : v.fault? = none) (w : Writing) :
    (v ++ w).text = v.text ++ w.text := by
  induction v with
  | done => rfl
  | fault cause => cases h
  | write chunk rest ih =>
    rw [write_append, text, text, ih h, List.append_assoc]

@[simp] theorem fault?_append (v w : Writing) : (v ++ w).fault? = v.fault?.or w.fault? := by
  induction v with
  | done => rfl
  | fault cause => rfl
  | write chunk rest ih => exact ih

@[simp] theorem text_ofTexts (ts : List Text) : (ofTexts ts).text = ts.flatten := by
  induction ts with
  | nil => rfl
  | cons t ts ih => rw [ofTexts, text, ih]; rfl

@[simp] theorem fault?_ofTexts (ts : List Text) : (ofTexts ts).fault? = none := by
  induction ts with
  | nil => rfl
  | cons t ts ih => exact ih

/-- The most spaces that may be asked for at once. -/
def maxSpaces : Nat := 65535

/-- Writes `count` spaces and then the rest. Asking for too many spaces is a fault, and then none
of them is written. -/
def spaces (count : Count) (rest : Writing) : Writing :=
  if count.toNat ≤ maxSpaces then write (.spaces count.toNat) rest else fault .widthOutOfRange

end Writing

/-! ## What a sink makes of a writing -/

namespace Writing

/-- The bytes of a writing that a sink holds in the end. -/
def held (capacity : Capacity) : Writing → Bytes
  | done => []
  | fault _ => []
  | write chunk rest =>
    if capacity.fits chunk.size then chunk.bytes ++ rest.held (capacity.less chunk.size)
    else capacity.take chunk.bytes

/-- Why the operation fails that writes to a sink, if it does. -/
def failure? (capacity : Capacity) : Writing → Option Failure
  | done => none
  | fault cause => some (.fault cause)
  | write chunk rest =>
    if capacity.fits chunk.size then rest.failure? (capacity.less chunk.size)
    else some (.error (.system .sinkFull))

/-- A sink without a limit holds all of the text, up to the end of the writing, be that a fault or
not. -/
@[simp] theorem held_unlimited (w : Writing) : w.held .unlimited = w.text.bytes := by
  induction w with
  | done => rfl
  | fault cause => rfl
  | write chunk rest ih =>
    rw [held, Capacity.fits, if_pos rfl, Capacity.less, ih, text, Text.bytes_append, Chunk.bytes]

/-- A sink without a limit adds no failure. -/
@[simp] theorem failure?_unlimited (w : Writing) :
    w.failure? .unlimited = w.fault?.map .fault := by
  induction w with
  | done => rfl
  | fault cause => rfl
  | write chunk rest ih => rw [failure?, Capacity.fits, if_pos rfl, Capacity.less, ih, fault?]

end Writing

end CMinusFrontEnd
