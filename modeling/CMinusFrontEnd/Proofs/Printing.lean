import CMinusFrontEnd.Proofs.Sink
import CMinusFrontEnd.Tree.Outline

/-!
# Printing to a sink that fills up

All that this library writes, as programs that hand one piece after the other to a sink: tokens,
spaces, listings and outlines. Each program follows the writing of the same name. It has loops and
recursions of its own, and any step of them may be the last one, because the sink is full or because
of a fault.

The main statement is `Operation.outcome_limited`. A sink that takes a number of bytes and no more
holds exactly so many bytes of what there is to write. If that is all of it, the operation ends as it
would end anyway, be it in a fault. If it is not, the operation ends with the error of the sink.
-/

namespace CMinusFrontEnd

namespace Printer

/-! ## Tokens and spaces -/

/-- Prints a line. -/
def line (t : Text) : Printer Unit := text (endLine t)

theorem follows_line (t : Text) : Follows (line t) (.ofText (endLine t)) := follows_text _

/-- Prints a lexeme of a kind. -/
def token (lexeme : Text) (kind : Kind) : Printer Unit := line (kind.describe lexeme)

/-- Prints a lexeme whose kind is given by a number. -/
def tag (number : Nat) (lexeme : Text) : Printer Unit :=
  match Kind.ofTag? number with
  | some kind => token lexeme kind
  | none => line ("Unknown token: ".toList ++ Text.ofNat number)

/-- Prints spaces, unless these are too many. -/
def spaces (count : Count) : Printer Unit :=
  if count.toNat ≤ Writing.maxSpaces then text (List.replicate count.toNat ' ')
  else throw (.fault .widthOutOfRange)

theorem follows_token (kind : Kind) (lexeme : Text) :
    Follows (token lexeme kind) (writeToken kind lexeme) := follows_line _

/-- A number that is the tag of no kind has a line of its own, and with a tag the line is that of
the kind. -/
theorem follows_tag (number : Nat) (lexeme : Text) :
    Follows (tag number lexeme) (writeTag number lexeme) := by
  rw [tag, writeTag, describeTag]
  cases Kind.ofTag? number <;> exact follows_line _

/-- Spaces are one chunk, unless there are more than a width can be: then the program breaks off
before the first of them. -/
theorem follows_spaces (count : Count) : Follows (spaces count) (.spaces count .done) := by
  rw [spaces, Writing.spaces]
  split
  · exact follows_chunk (.spaces count.toNat)
  · exact follows_fault _

/-! ## Listings -/

/-- Prints a source line with its number. -/
def sourceLine (number : Nat) (t : Text) : Printer Unit :=
  line ((Text.ofNat number).alignRight 4 ++ ':' :: ' ' :: t)

/-- Prints a token with its line number. -/
def tracedToken (t : Token) : Printer Unit := do
  text ('\t' :: (Text.ofNat t.line.toNat ++ [':', ' ']))
  token t.lexeme t.kind

/-- Prints tokens as long as their lines are not beyond `number`, and leaves the others. -/
def tokensUpTo (number : Nat) : List Token → Printer (List Token)
  | [] => pure []
  | t :: pending =>
    if t.line.toNat ≤ number then do
      tracedToken t
      tokensUpTo number pending
    else
      pure (t :: pending)

/-- Prints all tokens. -/
def tokens : List Token → Printer Unit
  | [] => pure ()
  | t :: pending => do
    tracedToken t
    tokens pending

/-- Prints the source lines from number `number` on and the tokens that are still to be shown. -/
def listingFrom (echo : Bool) (number : Nat) : List Text → List Token → Printer Unit
  | [], pending => tokens pending
  | l :: lines, pending => do
    if echo then sourceLine number l
    let pending ← tokensUpTo number pending
    listingFrom echo (number + 1) lines pending

/-- The writing of rows, one after the other. -/
def rows (rs : List Listing.Row) : Writing := .ofTexts (rs.map Listing.Row.text)

theorem rows_append (rs rs' : List Listing.Row) : rows (rs ++ rs') = rows rs ++ rows rs' := by
  induction rs with
  | nil => rfl
  | cons r rs ih => exact congrArg (Writing.write (.text r.text)) ih

theorem rows_cons (r : Listing.Row) (rs : List Listing.Row) : rows (r :: rs) = rows [r] ++ rows rs :=
  rfl

theorem follows_sourceLine (number : Nat) (t : Text) :
    Follows (sourceLine number t) (rows [.source number t]) := follows_line _

/-- A token is printed in two pieces, and it makes one row. -/
theorem follows_tracedToken (t : Token) : Follows (tracedToken t) (rows [.token t]) := by
  refine ((follows_text _).andThen (follows_token t.kind t.lexeme)).congr ?_ rfl
  simp [rows, Writing.ofTexts, Writing.ofText, writeToken, Writing.text, Chunk.content,
    Listing.Row.text, endLine]

/-- The loop over the tokens left at the end writes one row for each. -/
theorem follows_tokens (ts : List Token) : Follows (tokens ts) (rows (ts.map .token)) := by
  induction ts with
  | nil => exact follows_done
  | cons t ts ih =>
    rw [List.map_cons, rows_cons]
    exact (follows_tracedToken t).andThen ih

/-- The tokens up to a line are printed first, and then what follows goes on with the others. What
follows is an argument, since it is the rest of the loop. -/
theorem follows_tokensUpTo (number : Nat) (ts : List Token) (next : List Token → Printer Unit)
    {w : Writing}
    (hnext : Follows (next (ts.dropWhile fun t => t.line.toNat ≤ number)) w) :
    Follows (tokensUpTo number ts >>= next)
      (rows ((ts.takeWhile fun t => t.line.toNat ≤ number).map .token) ++ w) := by
  induction ts with
  | nil => exact hnext
  | cons t ts ih =>
    by_cases ht : t.line.toNat ≤ number
    · rw [List.dropWhile_cons_of_pos (by simpa using ht)] at hnext
      rw [List.takeWhile_cons_of_pos (by simpa using ht), List.map_cons, rows_cons,
        tokensUpTo, if_pos ht, Writing.append_assoc, bind_assoc]
      exact (follows_tracedToken t).andThen (ih hnext)
    · rw [List.dropWhile_cons_of_neg (by simpa using ht)] at hnext
      rw [List.takeWhile_cons_of_neg (by simpa using ht), tokensUpTo, if_neg ht]
      exact hnext

/-- The loop over the lines of the source writes the rows of `Listing.rowsFrom`: each turn hands
over the tokens that it did not write to the next one. -/
theorem follows_listingFrom (echo : Bool) (number : Nat) (lines : List Text) (ts : List Token) :
    Follows (listingFrom echo number lines ts) (rows (Listing.rowsFrom echo number lines ts)) := by
  induction lines generalizing number ts with
  | nil => exact follows_tokens ts
  | cons l lines ih =>
    have hrest := follows_tokensUpTo number ts (listingFrom echo (number + 1) lines)
      (ih (number + 1) _)
    rw [Listing.rowsFrom, List.append_assoc, rows_append, rows_append]
    cases echo with
    | false => exact hrest
    | true => exact (follows_sourceLine number l).andThen hrest

/-- Prints the listing of a source and a list of tokens. -/
def listing (echo : Bool) (source : Text) (ts : List Token) : Printer Unit :=
  listingFrom echo 1 source.lines ts

/-- The whole listing, with the tokens behind the last line. -/
theorem follows_listing (echo : Bool) (source : Text) (ts : List Token) :
    Follows (listing echo source ts) (CMinusFrontEnd.listing echo source ts) :=
  follows_listingFrom echo 1 source.lines ts

/-! ## Outlines -/

/-- Adds a step to an indentation. -/
def deeper (indent step : Count) : Printer Count :=
  match Count.plus? indent step.toNat with
  | some deeper => pure deeper
  | none => throw (.fault .addOverflow)

/-- Prints the line of a node. An operator is printed like a token. -/
def label (l : Label) : Printer Unit :=
  match l.kind, l.payload with
  | .expression .operator, some (.operator kind) => do
    text "Operator: ".toList
    token [] kind
  | _, _ => line l.describe

/-- Does something about a tree that is there. -/
def ifPresent (t : Tree) (p : Printer Unit) : Printer Unit := if t.isAbsent then pure () else p

/-- Prints a chain of siblings, and below each of them what is in its slots. The indentation of a
child is computed anew for every slot that is not empty. -/
def chain (step indent : Count) : Tree → Printer Unit
  | .absent => pure ()
  | .node l first second third next => do
    spaces indent
    label l
    ifPresent first do
      let indent ← deeper indent step
      chain step indent first
    ifPresent second do
      let indent ← deeper indent step
      chain step indent second
    ifPresent third do
      let indent ← deeper indent step
      chain step indent third
    chain step indent next

/-- Prints the outline of a tree whose first chain is indented one step more than `depth`. -/
def outline (step depth : Count) (t : Tree) : Printer Unit := do
  let indent ← deeper depth step
  chain step indent t

/-- Each branch of the printer writes the line of the label. The line of an operator comes in two
parts, its heading and then what the printer of tokens makes of the operator. -/
theorem follows_label (l : Label) : Follows (label l) (.ofText (endLine l.describe)) := by
  rw [label]
  split
  next kind hkind hpayload =>
    have hdescribe : l.describe = "Operator: ".toList ++ kind.describe [] := by
      rw [Label.describe, hkind, hpayload]
      rfl
    refine ((follows_text _).andThen (follows_token kind [])).congr ?_ rfl
    rw [hdescribe]
    simp [Writing.ofText, writeToken, Writing.text, Chunk.content, endLine]
  next => exact follows_line l.describe

/-- Spaces are written in front of the rest, or not at all. Then there is a fault and no rest
either. -/
theorem spaces_append (count : Count) (v w : Writing) :
    Writing.spaces count (v ++ w) = Writing.spaces count v ++ w := by
  rw [Writing.spaces, Writing.spaces]
  split <;> rfl

/-- What is to be written behind an outline is an argument of `outlineFrom`, but it may as well be
appended afterwards. -/
theorem outlineFrom_append (step indent : Count) (t : Tree) (v w : Writing) :
    t.outlineFrom step indent (v ++ w) = t.outlineFrom step indent v ++ w := by
  induction t generalizing indent v with
  | absent => rfl
  | node l first second third next ihfirst ihsecond ihthird ihnext =>
    rw [Tree.outlineFrom, Tree.outlineFrom, ← spaces_append, Writing.write_append]
    congr 2
    cases Count.plus? indent step.toNat with
    | some deeper => simp only [ihnext, ihthird, ihsecond, ihfirst]
    | none =>
      simp only [ihnext]
      split <;> rfl

/-- The writing of what is in a slot of a node. -/
def slot (step indent : Count) (t : Tree) : Writing :=
  if t.isAbsent then .done
  else
    match Count.plus? indent step.toNat with
    | some deeper => t.outlineFrom step deeper .done
    | none => .fault .addOverflow

/-- The outline of a node, part by part: spaces, the line, the three slots and the siblings. An
overflow shows only where there is a slot that is not empty. -/
theorem outlineFrom_node (step indent : Count) (l : Label) (first second third next : Tree) :
    (Tree.node l first second third next).outlineFrom step indent .done =
      Writing.spaces indent .done ++ (.ofText (endLine l.describe) ++ (slot step indent first ++
        (slot step indent second ++ (slot step indent third ++
          next.outlineFrom step indent .done)))) := by
  rw [Tree.outlineFrom, ← spaces_append, Writing.done_append, Writing.ofText, Writing.write_append,
    Writing.done_append]
  congr 2
  cases hdeeper : Count.plus? indent step.toNat with
  | some deeper =>
    have hslot (t : Tree) (w : Writing) :
        t.outlineFrom step deeper w = slot step indent t ++ w := by
      rw [slot, hdeeper]
      cases t with
      | absent => rfl
      | node => exact outlineFrom_append step deeper _ .done w
    simp only [hslot]
  | none =>
    have habsent {t : Tree} (h : t.isAbsent = true) : slot step indent t = .done := if_pos h
    have hpresent {t : Tree} (h : t.isAbsent = false) : slot step indent t = .fault .addOverflow := by
      rw [slot, hdeeper, h]
      rfl
    -- the first slot that is not empty is the end
    cases hfirst : first.isAbsent with
    | false => simp [hpresent hfirst]
    | true =>
      cases hsecond : second.isAbsent with
      | false => simp [habsent hfirst, hpresent hsecond]
      | true =>
        cases hthird : third.isAbsent with
        | false => simp [habsent hfirst, habsent hsecond, hpresent hthird]
        | true => simp [habsent hfirst, habsent hsecond, habsent hthird]

/-- The depth of the children is added up before anything of them is written, so the fault comes
first. -/
theorem follows_deeper {step indent : Count} {next : Count → Printer Unit} {w : Count → Writing}
    (hnext : ∀ deeper, Follows (next deeper) (w deeper)) :
    Follows (deeper indent step >>= next)
      (match Count.plus? indent step.toNat with
        | some deeper => w deeper
        | none => .fault .addOverflow) := by
  rw [deeper]
  cases Count.plus? indent step.toNat with
  | some deeper => exact hnext deeper
  | none => exact follows_fault .addOverflow

/-- An empty slot is skipped before anything is added up, so there is no overflow below a leaf. -/
theorem follows_slot {step indent : Count} {t : Tree}
    (ht : ∀ indent, Follows (chain step indent t) (t.outlineFrom step indent .done)) :
    Follows
      (ifPresent t do
        let indent ← deeper indent step
        chain step indent t)
      (slot step indent t) := by
  rw [ifPresent, slot]
  split
  · exact follows_done
  · exact follows_deeper ht

/-- By induction on the tree, as the program calls itself for the slots and for the next sibling. -/
theorem follows_chain (step indent : Count) (t : Tree) :
    Follows (chain step indent t) (t.outlineFrom step indent .done) := by
  induction t generalizing indent with
  | absent => exact follows_done
  | node l first second third next ihfirst ihsecond ihthird ihnext =>
    rw [outlineFrom_node]
    refine (follows_spaces indent).andThen ((follows_label l).andThen ?_)
    exact (follows_slot ihfirst).andThen ((follows_slot ihsecond).andThen
      ((follows_slot ihthird).andThen (ihnext indent)))

/-- The first addition is made for the absent tree too. -/
theorem follows_outline (step depth : Count) (t : Tree) :
    Follows (outline step depth t) (t.outline step depth) :=
  follows_deeper fun indent => follows_chain step indent t

end Printer

/-! ## All operations -/

/-- An operation that writes to a sink. -/
inductive Operation where
  /-- prints a lexeme of a kind -/
  | token (kind : Kind) (lexeme : Text)
  /-- prints a lexeme whose kind is given by a number -/
  | tag (number : Nat) (lexeme : Text)
  /-- prints spaces -/
  | spaces (count : Count)
  /-- prints the listing of a source and a list of tokens -/
  | listing (echo : Bool) (source : Text) (tokens : List Token)
  /-- prints the outline of a tree, which may be absent; without further wishes the step is
  `Tree.defaultStep` and the depth 0 -/
  | outline (step depth : Count) (t : Tree)

namespace Operation

/-- What an operation writes. -/
def writing : Operation → Writing
  | .token kind lexeme => writeToken kind lexeme
  | .tag number lexeme => writeTag number lexeme
  | .spaces count => .spaces count .done
  | .listing echo source tokens => CMinusFrontEnd.listing echo source tokens
  | .outline step depth t => t.outline step depth

/-- The program that does it. -/
def print : Operation → Printer Unit
  | .token kind lexeme => Printer.token lexeme kind
  | .tag number lexeme => Printer.tag number lexeme
  | .spaces count => Printer.spaces count
  | .listing echo source tokens => Printer.listing echo source tokens
  | .outline step depth t => Printer.outline step depth t

theorem follows_print (op : Operation) : Printer.Follows op.print op.writing := by
  cases op with
  | token kind lexeme => exact Printer.follows_token kind lexeme
  | tag number lexeme => exact Printer.follows_tag number lexeme
  | spaces count => exact Printer.follows_spaces count
  | listing echo source tokens => exact Printer.follows_listing echo source tokens
  | outline step depth t => exact Printer.follows_outline step depth t

/-- How an operation ends on a new sink. -/
structure Outcome where
  /-- the bytes that the sink has taken -/
  taken : Bytes
  /-- why the operation was broken off, if it was -/
  failure? : Option Failure
deriving DecidableEq

/-- Does an operation on a new sink with this capacity. -/
def outcome (op : Operation) (room : Capacity) : Outcome :=
  match op.print ⟨[], room⟩ with
  | .ok _ s => ⟨s.taken, none⟩
  | .error failure s => ⟨s.taken, some failure⟩

/-- What a sink holds after an operation and how the operation ended are as the writing says. -/
theorem outcome_eq (op : Operation) (room : Capacity) :
    op.outcome room = ⟨op.writing.held room, op.writing.failure? room⟩ := by
  rw [outcome, op.follows_print, Printer.ending]
  cases op.writing.failure? room <;> rfl

/-- **A sink that fills up holds a beginning.** Let an operation be done on a sink without a limit,
be it to its end or to a fault. A sink with room for all that was written then is left the same, and
the operation ends the same. A sink with less room is filled with as much of it as it takes, and the
operation ends with the error of the sink. What is told here of the program that hands piece after
piece to the sink is also what `Writing.held` and `Writing.failure?` say of the writing. -/
theorem outcome_limited (op : Operation) :
    (∀ room, op.outcome room = ⟨op.writing.held room, op.writing.failure? room⟩) ∧
    ∀ room, op.outcome (.limited room) =
      if (op.outcome .unlimited).taken.length ≤ room then op.outcome .unlimited
      else ⟨(op.outcome .unlimited).taken.take room, some (.error (.system .sinkFull))⟩ := by
  refine ⟨op.outcome_eq, fun room => ?_⟩
  rw [outcome_eq, outcome_eq, Writing.held_eq_take, Writing.failure?_eq, Writing.held_unlimited,
    Writing.failure?_unlimited, Capacity.take, Capacity.fits]
  by_cases hroom : op.writing.text.bytes.length ≤ room
  · rw [List.take_of_length_le hroom, if_pos hroom, if_pos (decide_eq_true hroom)]
  · rw [if_neg hroom, if_neg (by simpa using hroom)]

-- A character of two bytes can be cut in half.
example : (token .error ['\u00e9']).outcome (.limited 8) =
    ⟨Text.bytes "ERROR: ".toList ++ [0xc3], some (.error (.system .sinkFull))⟩ := by
  decide +kernel

end Operation

end CMinusFrontEnd
