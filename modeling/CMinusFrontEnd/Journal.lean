import CMinusFrontEnd.Scan

/-!
# The journal

What a run reports about itself while it works, apart from its results. An `Event` belongs to a
level, and a journal kept at some level shows the events of that level and of the more important
ones. Times are not part of an event: where a line speaks of elapsed time it shows a blank mark.
-/

namespace CMinusFrontEnd

/-- How important an event is. -/
inductive Level where
  | trace
  | debug
  | info
  | warn
deriving DecidableEq

namespace Level

/-- The place of a level in the order of importance. -/
def rank : Level → Nat
  | trace => 0
  | debug => 1
  | info => 2
  | warn => 3

/-- The name of a level. -/
def name : Level → Text
  | trace => "TRACE".toList
  | debug => "DEBUG".toList
  | info => "INFO".toList
  | warn => "WARN".toList

end Level

/-- Something that happens during a run. -/
inductive Event where
  /-- the compilation of a file begins -/
  | started (path : Text)
  /-- the file has been read and has this many bytes -/
  | sourceRead (size : Nat)
  /-- a token has been found -/
  | tokenFound (token : Token)
  /-- the end of the source has been reached with this many tokens, the last one included -/
  | scanFinished (count : Nat) (line : Count)
  /-- the compilation has its tokens -/
  | analysed (count : Nat) (line : Count)
  /-- the listing has been written -/
  | completed
deriving DecidableEq

namespace Event

/-- The level of an event. -/
def level : Event → Level
  | started _ => .info
  | sourceRead _ => .debug
  | tokenFound _ => .trace
  | scanFinished .. => .debug
  | analysed .. => .info
  | completed => .info

/-- The journal line of an event, without its line end. -/
def line (e : Event) : Text :=
  e.level.name ++ ' ' :: match e with
    | started path => "starting compilation path=".toList ++ path
    | sourceRead size => "read source file bytes=".toList ++ Text.ofNat size
    | tokenFound t =>
      "scanned token line=".toList ++ Text.ofNat t.line.toNat ++ " kind=".toList ++ t.kind.name ++
        " lexeme=".toList ++ t.lexeme
    | scanFinished count line =>
      "scan finished count=".toList ++ Text.ofNat count ++ " lines=".toList ++
        Text.ofNat line.toNat
    | analysed count line =>
      "lexical analysis completed tokens=".toList ++ Text.ofNat count ++ " lines=".toList ++
        Text.ofNat line.toNat ++ " elapsed=_".toList
    | completed => "compilation completed elapsed=_".toList

end Event

/-- What a journal kept at level `least` shows of the events. -/
def journal (least : Level) (events : List Event) : List Text :=
  (events.filter fun e => least.rank ≤ e.level.rank).map Event.line

/-- The events of a scan: each token found, and the end of the source if it was reached. -/
def Scan.events (s : Scan) : List Event :=
  s.found.map .tokenFound ++
    match s.ending with
    | .finished => [.scanFinished (s.found.length + 1) s.line]
    | _ => []

end CMinusFrontEnd
