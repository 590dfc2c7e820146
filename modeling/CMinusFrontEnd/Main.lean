import CMinusFrontEnd.Compilation

/-!
# The command line program

Runs the program on the real machine. Everything that is decided is decided in
`CMinusFrontEnd.Compilation`; here are only the operations of the machine.
-/

namespace CMinusFrontEnd

/-- The cause that a failed operation of the machine stands for. The machine tells causes of one
kind apart by a number, which may come negated. -/
def SystemCause.ofIOError (failed : IO.Error) : SystemCause :=
  let isNumbered (number known : UInt32) : Bool := number = known || -number = known
  let asTold : SystemCause := .other (toString failed).toList
  match failed with
  | .noFileOrDirectory .. => .noSuchFile
  | .inappropriateType _ number _ =>
    if isNumbered number 20 then .notADirectory
    else if isNumbered number 21 then .isADirectory
    else asTold
  | .noSuchThing _ number _ => if isNumbered number 6 then .noDevice else asTold
  | .invalidArgument _ number _ => if isNumbered number 36 then .nameTooLong else asTold
  | .permissionDenied _ number _ => if isNumbered number 13 then .permissionDenied else asTold
  | .resourceExhausted _ number _ => if isNumbered number 28 then .noSpace else asTold
  | .resourceVanished number _ => if isNumbered number 32 then .brokenPipe else asTold
  | _ => asTold

/-- The machine that the program really runs on. -/
def realMachine : Machine IO where
  read path := do
    try
      let content ← IO.FS.readBinFile (String.ofList path)
      return .ok content.toList
    catch cause => return .error (.ofIOError cause)
  write path content := do
    try
      let handle ← IO.FS.Handle.mk (String.ofList path) .write
      handle.write content.toByteArray
      handle.flush
      return .ok ()
    catch cause => return .error (.ofIOError cause)
  send content channel := do
    try
      let stream ← match channel with
        | .output => IO.getStdout
        | .messages => IO.getStderr
      stream.write content.toByteArray
      stream.flush
      return .ok ()
    catch cause => return .error (.ofIOError cause)

end CMinusFrontEnd

/-- Runs the program with the arguments of the command line. -/
def main (arguments : List String) : IO UInt32 :=
  CMinusFrontEnd.run CMinusFrontEnd.realMachine (arguments.map String.toList)
