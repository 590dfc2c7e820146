import CMinusFrontEnd.Count
import CMinusFrontEnd.Text.Basic

/-!
# What can go wrong

Two kinds of failure are kept apart:

* an `Error` is an answer: the source, a file or a sink was not as it should be, and the message
  says why;
* a `Fault` is the end of the computation: a count left its range or a text was to be padded
  beyond what padding allows, and there is nothing to answer with.

Every cause is a constructor, and every wording stands in one `message` function, so that other
modules can say which failure arises without quoting a text.
-/

namespace CMinusFrontEnd

/-- Why the system refused an input or output operation. -/
inductive SystemCause where
  /-- nothing has this name -/
  | noSuchFile
  /-- a name is used as a directory and is none -/
  | notADirectory
  /-- a directory is used as a file -/
  | isADirectory
  /-- a name or a path has more bytes than one may have -/
  | nameTooLong
  /-- this is not allowed -/
  | permissionDenied
  /-- a file or a device takes no more bytes -/
  | noSpace
  /-- nobody is left who would take the bytes -/
  | brokenPipe
  /-- a device is not connected -/
  | noDevice
  /-- the bytes of a file are no text -/
  | invalidUtf8
  /-- no file name may contain the character U+0000 -/
  | nulInName
  /-- a sink takes no more bytes -/
  | sinkFull
  /-- any other cause, in the system's own words -/
  | other (text : Text)
deriving DecidableEq

/-- The system's words for a cause. -/
def SystemCause.message : SystemCause → Text
  | noSuchFile => "No such file or directory (os error 2)".toList
  | notADirectory => "Not a directory (os error 20)".toList
  | isADirectory => "Is a directory (os error 21)".toList
  | nameTooLong => "File name too long (os error 36)".toList
  | permissionDenied => "Permission denied (os error 13)".toList
  | noSpace => "No space left on device (os error 28)".toList
  | brokenPipe => "Broken pipe (os error 32)".toList
  | noDevice => "No such device or address (os error 6)".toList
  | invalidUtf8 => "stream did not contain valid UTF-8".toList
  | nulInName => "file name contained an unexpected NUL byte".toList
  | sinkFull => "failed to write whole buffer".toList
  | other text => text

/-- An answer that says what was wrong. -/
inductive Error where
  /-- the file is none that may be compiled -/
  | fileRead (reason : Text)
  /-- the system refused to read or to write -/
  | system (cause : SystemCause)
  /-- no memory for a text, while at this line -/
  | outOfMemory (line : Count)
  /-- the comment that starts at this line is never closed -/
  | unterminatedComment (line : Count)
  /-- the node at this line has no child slot with this index -/
  | childIndexOutOfRange (index : Nat) (line : Count)
deriving DecidableEq

/-- The text shown for an error. -/
def Error.message : Error → Text
  | fileRead reason => "File read error: ".toList ++ reason
  | system cause => "I/O error: ".toList ++ cause.message
  | outOfMemory line => "Out of memory error at line ".toList ++ Text.ofNat line.toNat
  | unterminatedComment line =>
    "Unterminated comment starting at line ".toList ++ Text.ofNat line.toNat
  | childIndexOutOfRange index line =>
    "Child index ".toList ++ Text.ofNat index ++ " out of range for node at line ".toList ++
      Text.ofNat line.toNat

/-- Why a computation ended without an answer. -/
inductive Fault where
  /-- a sum of counts is larger than every count -/
  | addOverflow
  /-- more padding than a formatted text may have -/
  | widthOutOfRange
deriving DecidableEq

/-- The text shown for a fault. -/
def Fault.message : Fault → Text
  | addOverflow => "attempt to add with overflow".toList
  | widthOutOfRange => "Formatting argument out of range".toList

/-- An error or a fault. -/
inductive Failure where
  /-- there is an answer, and it is an error -/
  | error (cause : Error)
  /-- there is no answer -/
  | fault (cause : Fault)
deriving DecidableEq

end CMinusFrontEnd
