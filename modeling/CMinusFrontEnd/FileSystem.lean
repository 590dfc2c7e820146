import CMinusFrontEnd.Capacity

/-!
# File systems

Files and directories, and what it means to read or to write a file by its path. A file system is
a table from locations to entries, together with the directory from which relative paths start.
There are no links, and no device is endless.

What is refused is a table of its own, again by location. A file may be closed to readers or to
writers, a directory to those who look something up in it or make a file in it, and every place
takes only as many bytes as it has room for. A file is emptied before it is written, so if there is
not enough room, what it had is lost and it is left with a beginning of what it should have got.

A program also has two channels on which it speaks without naming a file. They belong to the file
system all the same: an entry may stand for a channel, and then what is written to it by a path
arrives there, behind all that has been said before. The standard output has a room like a file,
and whoever listens to it may have gone. The messages are never refused.

A path is walked name by name. Each name but the last has to be a directory. `.` stays in a
directory and `..` leaves it, and empty names, which repeated slashes make, mean nothing. A slash
at the end demands a directory: it makes a file unreadable, and nothing can be written through it.

Names and paths have a greatest length, counted in bytes. A path that is too long is refused
before it is walked. A name that is too long is refused when the walk comes to it, so what is
wrong with the names before it is found first.
-/

namespace CMinusFrontEnd

/-- The names that lead from the root to a file or a directory. -/
abbrev Location := List Text

/-- A channel on which a program speaks. -/
inductive Channel where
  /-- the standard output, for results -/
  | output
  /-- the standard error output, for what is said about the work -/
  | messages
deriving DecidableEq

/-- What can be found at a location. -/
inductive Entry where
  /-- a directory -/
  | directory
  /-- a file and its contents -/
  | file (content : Bytes)
  /-- a device and the bytes that come from it; it keeps nothing of what is written to it -/
  | device (content : Bytes)
  /-- a channel, from which nothing comes -/
  | channel (channel : Channel)
deriving DecidableEq

/-- Where bytes are written to. -/
inductive Destination where
  /-- a file at this location, that is there or will be made -/
  | file (l : Location)
  /-- a device at this location -/
  | device (l : Location)
  /-- a channel -/
  | channel (channel : Channel)
deriving DecidableEq

/-- What is refused at a location. What has no cause is not refused. -/
structure Limits where
  /-- why it cannot be read -/
  reading : Option SystemCause := none
  /-- why it cannot be opened for writing, or if it is a directory, why no file can be made in it -/
  writing : Option SystemCause := none
  /-- why no name can be looked up in it -/
  entering : Option SystemCause := none
  /-- how much it takes -/
  room : Room := {}
deriving DecidableEq

/-- Files and directories by location, and what the channels have carried. The root is a directory
without being listed. -/
structure FileSystem where
  /-- what there is besides the root -/
  entries : List (Location × Entry)
  /-- the directory from which relative paths start -/
  here : Location
  /-- what is refused, where anything is -/
  limits : List (Location × Limits) := []
  /-- what has been said on the standard output -/
  output : Bytes := []
  /-- how much more can be said there -/
  outputRoom : Room := {}
  /-- what has been said on the standard error output -/
  messages : Bytes := []
deriving DecidableEq

namespace FileSystem

/-! ## The tables -/

/-- What there is at a location. -/
def lookup? (fs : FileSystem) (l : Location) : Option Entry :=
  if l = [] then some .directory else fs.entries.lookup l

/-- What is refused at a location. -/
def limitsAt (fs : FileSystem) (l : Location) : Limits := (fs.limits.lookup l).getD {}

/-- Puts an entry at a location, in place of what was there. -/
def put (fs : FileSystem) (l : Location) (e : Entry) : FileSystem :=
  { fs with entries := (l, e) :: fs.entries.filter fun entry => entry.1 != l }

/-- Says something on a channel, as far as there is room for it. -/
def send (fs : FileSystem) (content : Bytes) : Channel → FileSystem
  | .output =>
    { fs with
      output := fs.output ++ fs.outputRoom.take content
      outputRoom := fs.outputRoom.less content }
  | .messages => { fs with messages := fs.messages ++ content }

/-- Saying something changes no entry. -/
@[simp] theorem lookup?_send (fs : FileSystem) (content : Bytes) (channel : Channel)
    (l : Location) : (fs.send content channel).lookup? l = fs.lookup? l := by
  cases channel <;> rfl

@[simp] theorem limitsAt_send (fs : FileSystem) (content : Bytes) (channel : Channel)
    (l : Location) : (fs.send content channel).limitsAt l = fs.limitsAt l := by
  cases channel <;> rfl

/-! ## Paths -/

/-- The names in a path. -/
def names (path : Text) : List Text := (path.splitOn '/').filter fun name => name != []

/-- The most bytes that a name may have. -/
def maxNameBytes : Nat := 255

/-- The most bytes that a path may have. -/
def maxPathBytes : Nat := 4095

/-- Looks a name up in a directory. A name that is too long is not even looked for. -/
def find (fs : FileSystem) (l : Location) (name : Text) : Except SystemCause (Option Entry) :=
  if maxNameBytes < name.bytes.length then .error .nameTooLong
  else .ok (fs.lookup? (l ++ [name]))

/-- Goes into directories, one after the other. In a directory that cannot be entered no name is
looked at, not even one that is made of dots. -/
def enter (fs : FileSystem) (l : Location) : List Text → Except SystemCause Location
  | [] => .ok l
  | name :: rest =>
    match (fs.limitsAt l).entering with
    | some cause => .error cause
    | none =>
      if name = ['.'] then fs.enter l rest
      else if name = ['.', '.'] then fs.enter l.dropLast rest
      else
        match fs.find l name with
        | .ok (some .directory) => fs.enter (l ++ [name]) rest
        | .ok (some _) => .error .notADirectory
        | .ok none => .error .noSuchFile
        | .error cause => .error cause

/-- The last name of a path, or that the path has to be a directory. -/
inductive Target where
  /-- the path ends in a name in this directory -/
  | named (directory : Location) (name : Text)
  /-- the path ends in this directory itself, by one of the dots or because it is the root -/
  | itself (directory : Location)

/-- The directory that a path starts from. -/
def base (fs : FileSystem) (path : Text) : Location :=
  if path.head? = some '/' then [] else fs.here

/-- Walks a path up to its last name. -/
def target (fs : FileSystem) (path : Text) : Except SystemCause Target :=
  if path.contains '\x00' then .error .nulInName
  else if maxPathBytes < path.bytes.length then .error .nameTooLong
  else if path = [] then .error .noSuchFile
  else
    match (names path).getLast? with
    | none => .ok (.itself (fs.base path))
    | some last =>
      match fs.enter (fs.base path) (names path).dropLast with
      | .error cause => .error cause
      | .ok l =>
        match (fs.limitsAt l).entering with
        | some cause => .error cause
        | none =>
          if last = ['.'] then .ok (.itself l)
          else if last = ['.', '.'] then .ok (.itself l.dropLast)
          else .ok (.named l last)

/-- Whether a path demands a directory by a slash at its end. -/
def endsInSlash (path : Text) : Bool := path.getLast? = some '/'

/-! ## Reading -/

/-- The bytes that come from an entry at a location. -/
def readAt (fs : FileSystem) (l : Location) (e : Entry) : Except SystemCause Bytes :=
  match (fs.limitsAt l).reading with
  | some cause => .error cause
  | none =>
    match e with
    | .directory => .error .isADirectory
    | .file content | .device content => .ok content
    | .channel _ => .ok []

/-- The bytes that come from what a path leads to. -/
def read (fs : FileSystem) (path : Text) : Except SystemCause Bytes :=
  match fs.target path with
  | .error cause => .error cause
  | .ok (.itself l) => fs.readAt l .directory
  | .ok (.named l name) =>
    match fs.find l name with
    | .error cause => .error cause
    | .ok none => .error .noSuchFile
    | .ok (some e) =>
      if endsInSlash path && e != .directory then .error .notADirectory
      else fs.readAt (l ++ [name]) e

/-! ## Writing -/

/-- What a path for writing leads to, or why nothing can be written through it. A file that is not
there yet is made, unless its directory refuses that. -/
def destination (fs : FileSystem) (path : Text) : Except SystemCause Destination :=
  match fs.target path with
  | .error cause => .error cause
  | .ok (.itself _) => .error .isADirectory
  | .ok (.named l name) =>
    if endsInSlash path then .error .isADirectory
    else
      let opened (refusal : Option SystemCause) (d : Destination) : Except SystemCause Destination :=
        refusal.elim (.ok d) .error
      match fs.find l name with
      | .error cause => .error cause
      | .ok none => opened (fs.limitsAt l).writing (.file (l ++ [name]))
      | .ok (some .directory) => .error .isADirectory
      | .ok (some (.file _)) => opened (fs.limitsAt (l ++ [name])).writing (.file (l ++ [name]))
      | .ok (some (.device _)) => opened (fs.limitsAt (l ++ [name])).writing (.device (l ++ [name]))
      | .ok (some (.channel channel)) =>
        opened (fs.limitsAt (l ++ [name])).writing (.channel channel)

/-- How much a destination takes. -/
def room (fs : FileSystem) : Destination → Room
  | .file l | .device l => (fs.limitsAt l).room
  | .channel .output => fs.outputRoom
  | .channel .messages => {}

/-- Fills a destination with as many of the bytes as it takes. A file is made or emptied before. -/
def fill (fs : FileSystem) (content : Bytes) : Destination → FileSystem
  | .file l => fs.put l (.file ((fs.room (.file l)).take content))
  | .device _ => fs
  | .channel channel => fs.send content channel

/-- Makes the file that a path leads to, or empties it, and fills it. Nothing changes if it can be
neither made nor opened. If it takes only a beginning of the bytes, it is left with that. -/
def write (fs : FileSystem) (path : Text) (content : Bytes) :
    Except SystemCause Unit × FileSystem :=
  match fs.destination path with
  | .error cause => (.error cause, fs)
  | .ok d => ((fs.room d).answer content, fs.fill content d)

end FileSystem

end CMinusFrontEnd
