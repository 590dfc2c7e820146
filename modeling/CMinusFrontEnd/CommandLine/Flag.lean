import CMinusFrontEnd.Text.Basic

/-!
# Flags and their help

The flags of the command line in one table, which both the interpretation of arguments and the
help texts use. A flag has a long name, some also have a letter, and one takes a value.

There are two help texts. The short one gives each flag a line, with the explanations in one
column; the long one gives each flag a paragraph and begins with an introduction.
-/

namespace CMinusFrontEnd

/-- A flag of the command line. -/
inductive Flag where
  /-- where to write the listing; takes a value -/
  | output
  /-- show the source lines in the listing -/
  | echoSource
  /-- leave the tokens out of the listing -/
  | noTraceScan
  /-- keep a journal -/
  | verbose
  /-- show a help text and do nothing else -/
  | help
  /-- show the version and do nothing else -/
  | version
deriving DecidableEq

namespace Flag

/-- Every flag, in the order of the help texts. -/
def all : List Flag := [output, echoSource, noTraceScan, verbose, help, version]

/-- The long name of a flag. -/
def name : Flag → Text
  | output => "output".toList
  | echoSource => "echo-source".toList
  | noTraceScan => "no-trace-scan".toList
  | verbose => "verbose".toList
  | help => "help".toList
  | version => "version".toList

/-- The letter of a flag, if it has one. -/
def letter? : Flag → Option Char
  | output => some 'o'
  | echoSource => none
  | noTraceScan => none
  | verbose => some 'v'
  | help => some 'h'
  | version => some 'V'

/-- The flag with this long name. Names are not abbreviated. -/
def ofName? (name : Text) : Option Flag := all.find? fun flag => flag.name == name

/-- The flag with this letter. -/
def ofLetter? (c : Char) : Option Flag := all.find? fun flag => flag.letter? == some c

/-- The explanation of a flag in the long help text or in the short one. -/
def explanation (long : Bool) : Flag → Text
  | help =>
    if long then "Print help (see a summary with '-h')".toList
    else "Print help (see more with '--help')".toList
  | version => "Print version".toList
  | _ => []

/-- How a flag is written, with its letter, its name and its value. -/
def usage (flag : Flag) : Text :=
  let letter := match flag.letter? with
    | some c => ['-', c, ',', ' ']
    | none => "    ".toList
  let value := match flag with
    | output => " <OUTPUT>".toList
    | _ => []
  "  ".toList ++ letter ++ "--".toList ++ flag.name ++ value

end Flag

namespace CommandLine

/-- The name and the version of the program, as a line. -/
def versionText : Text := "cminus 0.1.0\n".toList

/-- The lines with the general form of a command. -/
def usageLines : List Text :=
  ["Usage: cminus [OPTIONS] <PATH>".toList, [], "Arguments:".toList]

/-- The lines that open the long help text. -/
def introduction : List Text :=
  [ "C-Minus compiler front end.".toList,
    "Scans a C-Minus source file and writes the compilation listing.".toList,
    [],
    "Example usage:".toList,
    "cminus input.cm                    # Trace tokens to stdout".toList,
    "cminus input.cm -o input.lst       # Write the listing to a file".toList,
    "cminus input.cm --echo-source      # Interleave numbered source lines".toList,
    "cminus input.cm --verbose          # Log compilation phases".toList,
    [] ]

/-- A text filled up on the right with spaces. -/
def alignLeft (width : Nat) (t : Text) : Text := t.rightpad width ' '

/-- The column at which the short help text explains the flags: two behind the longest flag. -/
def explanationColumn : Nat := (Flag.all.map fun flag => flag.usage.length).foldl max 0 + 2

/-- The lines of the short help text. -/
def shortHelp : List Text :=
  ["C-Minus compiler front end".toList, []] ++ usageLines ++
    ["  <PATH>  ".toList, [], "Options:".toList] ++
    Flag.all.map fun flag => alignLeft explanationColumn flag.usage ++ flag.explanation false

/-- The lines of the long help text. -/
def longHelp : List Text :=
  let indent := List.replicate 10 ' '
  introduction ++ usageLines ++ ["  <PATH>".toList, indent, [], "Options:".toList] ++
    ([[]] : List Text).intercalate
      (Flag.all.map fun flag => [flag.usage, indent ++ flag.explanation true])

/-- A help text. -/
def helpText (long : Bool) : Text :=
  (if long then longHelp else shortHelp).flatMap fun line => line ++ ['\n']

end CommandLine

end CMinusFrontEnd
