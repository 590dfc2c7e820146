import CMinusFrontEnd.Machine

/-!
# Source files

A file may be compiled if the last name of its path has the extension `cm`. This is decided by the
path alone, before any file is touched. The rules for the last name and its extension:

* slashes at the end of a path, and names that are a single dot, do not count;
* a path that ends in `..` has no last name;
* the extension is what follows the last dot of the name, but the dot at the start of a name
  begins no extension.
-/

namespace CMinusFrontEnd.SourceFile

/-- The extension of a source file. -/
def extension : Text := ['c', 'm']

/-- The last name of a path, if it ends in one. -/
def lastName? (path : Text) : Option Text :=
  match ((FileSystem.names path).filter fun name => name != ['.']).getLast? with
  | some name => if name = ['.', '.'] then none else some name
  | none => none

/-- What follows the last dot of a name, if there is a dot behind its first character. -/
def extension? (name : Text) : Option Text :=
  let backwards := name.reverse
  let isPart := fun c : Char => c != '.'
  match backwards.dropWhile isPart with
  | '.' :: _ :: _ => some (backwards.takeWhile isPart).reverse
  | _ => none

/-- Whether the path is that of a source file. -/
def isSource (path : Text) : Bool := (lastName? path).bind extension? == some extension

/-- The text of bytes that a file holds. -/
def decode (content : Bytes) : Except Error Text :=
  match Text.ofBytes? content with
  | some text => .ok text
  | none => .error (.system .invalidUtf8)

/-- The error for a path that is not that of a source file. -/
def wrongExtension : Error := .fileRead ("File must have a .".toList ++ extension ++ " extension".toList)

/-- The text of the source file with this path. -/
def read {m : Type → Type} [Monad m] (machine : Machine m) (path : Text) :
    m (Except Error Text) := do
  if isSource path then
    match ← machine.read path with
    | .ok content => return decode content
    | .error cause => return .error (.system cause)
  else
    return .error wrongExtension

end CMinusFrontEnd.SourceFile
