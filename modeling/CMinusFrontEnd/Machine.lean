import CMinusFrontEnd.FileSystem

/-!
# Machines

What a program needs of the machine it runs on: to read a file and to write one, each by its path,
and to speak on its two channels, and to be told of all this if it fails. A program that is written
for any machine runs on the real one, and it runs on a `FileSystem` as well, where all that it does
to files and all that it says can be seen.
-/

namespace CMinusFrontEnd

/-- The operations of a machine, as actions of some kind. -/
structure Machine (m : Type → Type) where
  /-- the contents of the file with this path -/
  read : Text → m (Except SystemCause Bytes)
  /-- makes or empties the file with this path and fills it -/
  write : Text → Bytes → m (Except SystemCause Unit)
  /-- says something on a channel -/
  send : Bytes → Channel → m (Except SystemCause Unit)

/-- Says a text on a channel. -/
def Machine.say {m : Type → Type} (machine : Machine m) (t : Text) (channel : Channel) :
    m (Except SystemCause Unit) :=
  machine.send t.bytes channel

/-- The machine that a file system is. -/
def FileSystem.machine : Machine (StateM FileSystem) where
  read path fs := (fs.read path, fs)
  write path content fs := fs.write path content
  send content channel fs := ((fs.room (.channel channel)).answer content, fs.send content channel)

end CMinusFrontEnd
