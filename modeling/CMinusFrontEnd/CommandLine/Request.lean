import CMinusFrontEnd.CommandLine.Flag

/-!
# What the command line asks for

The arguments of the program are read from left to right, and the first of these decides: a
request for help or for the version, or a mistake. Only when all arguments are read and none of
them has decided is it known whether there is anything to compile.

A flag may be given once. The value of a flag is attached to it or is the next argument, which
then must not look like a flag, and it is not empty. The letters of several flags may share one
dash; behind the letter of a flag with a value all that is left is the value. Behind `--` every
argument is a path.
-/

namespace CMinusFrontEnd

/-- What to compile and how. -/
structure Options where
  /-- the path of the source file -/
  path : Text
  /-- where to write the listing, unless to the standard output -/
  output : Option Text
  /-- show the source lines in the listing -/
  echoSource : Bool
  /-- show the tokens in the listing -/
  traceScan : Bool
  /-- keep a journal -/
  verbose : Bool
deriving DecidableEq

/-- What the arguments ask for. -/
inductive Request where
  /-- a compilation -/
  | compile (options : Options)
  /-- the long or the short help text -/
  | help (long : Bool)
  /-- the version -/
  | version
  /-- nothing that can be understood -/
  | misuse
deriving DecidableEq

namespace CommandLine

/-! ## One argument -/

/-- What an argument looks like. -/
inductive Argument where
  /-- a path or a value; a single dash is one, too -/
  | plain (text : Text)
  /-- a flag by its name, with the value that is attached to it -/
  | named (name : Text) (value : Option Text)
  /-- flags by their letters -/
  | letters (letters : Text)
  /-- the end of the flags -/
  | endOfFlags
deriving DecidableEq

/-- Tells apart what an argument looks like. -/
def Argument.ofText : Text → Argument
  | ['-', '-'] => endOfFlags
  | '-' :: '-' :: body =>
    let name := body.takeWhile fun c => c != '='
    match body.dropWhile fun c => c != '=' with
    | _ :: value => named name (some value)
    | [] => named name none
  | '-' :: c :: rest => letters (c :: rest)
  | t => plain t

/-! ## What has been given so far -/

/-- What the arguments read so far have set. -/
structure Given where
  /-- the path -/
  path : Option Text
  /-- the value of `Flag.output` -/
  output : Option Text
  /-- whether `Flag.echoSource` is set -/
  echoSource : Bool
  /-- whether `Flag.noTraceScan` is set -/
  noTraceScan : Bool
  /-- whether `Flag.verbose` is set -/
  verbose : Bool
deriving DecidableEq

namespace Given

/-- Nothing has been given. -/
def nothing : Given := ⟨none, none, false, false, false⟩

/-- Sets the path, of which there is one. -/
def setPath (g : Given) (path : Text) : Except Request Given :=
  if path = [] || g.path.isSome then .error .misuse else .ok { g with path := some path }

/-- Sets the value of `Flag.output`. -/
def setOutput (g : Given) (value : Text) : Except Request Given :=
  if value = [] || g.output.isSome then .error .misuse else .ok { g with output := some value }

/-- Sets a flag that takes no value, by its name or by its letter. -/
def setFlag (g : Given) (byName : Bool) : Flag → Except Request Given
  | .output => .error .misuse
  | .echoSource => if g.echoSource then .error .misuse else .ok { g with echoSource := true }
  | .noTraceScan => if g.noTraceScan then .error .misuse else .ok { g with noTraceScan := true }
  | .verbose => if g.verbose then .error .misuse else .ok { g with verbose := true }
  | .help => .error (.help byName)
  | .version => .error .version

/-- Sets the flags of a run of letters. The second part of the answer says whether the value of
`Flag.output` is still to come. -/
def setLetters (g : Given) : Text → Except Request (Given × Bool)
  | [] => .ok (g, false)
  | c :: rest =>
    match Flag.ofLetter? c, rest with
    | none, _ => .error .misuse
    | some .output, [] => .ok (g, true)
    | some .output, '=' :: value => (g.setOutput value).map fun g => (g, false)
    | some .output, value => (g.setOutput value).map fun g => (g, false)
    | some flag, rest =>
      match g.setFlag false flag with
      | .ok g => g.setLetters rest
      | .error request => .error request

/-- Sets a flag by its name. The second part of the answer is as for `setLetters`. -/
def setNamed (g : Given) (name : Text) (value : Option Text) : Except Request (Given × Bool) :=
  match Flag.ofName? name, value with
  | none, _ => .error .misuse
  | some .output, none => .ok (g, true)
  | some .output, some value => (g.setOutput value).map fun g => (g, false)
  | some _, some _ => .error .misuse
  | some flag, none => (g.setFlag true flag).map fun g => (g, false)

/-- What is asked for when all arguments have been read. -/
def request (g : Given) : Request :=
  match g.path with
  | some path =>
    .compile
      { path
        output := g.output
        echoSource := g.echoSource
        traceScan := !g.noTraceScan
        verbose := g.verbose }
  | none => .misuse

end Given

/-! ## All arguments -/

/-- Reads arguments all of which are paths. -/
def readPaths (g : Given) : List Text → Except Request Given
  | [] => .ok g
  | path :: rest =>
    match g.setPath path with
    | .ok g => readPaths g rest
    | .error request => .error request

mutual

/-- Reads arguments. -/
def readArguments (g : Given) : List Text → Except Request Given
  | [] => .ok g
  | text :: rest =>
    match Argument.ofText text with
    | .endOfFlags => readPaths g rest
    | .plain path =>
      match g.setPath path with
      | .ok g => readArguments g rest
      | .error request => .error request
    | .named name value =>
      match g.setNamed name value with
      | .ok (g, false) => readArguments g rest
      | .ok (g, true) => readValue g rest
      | .error request => .error request
    | .letters letters =>
      match g.setLetters letters with
      | .ok (g, false) => readArguments g rest
      | .ok (g, true) => readValue g rest
      | .error request => .error request

/-- Reads the value of `Flag.output` and then the other arguments. -/
def readValue (g : Given) : List Text → Except Request Given
  | [] => .error .misuse
  | text :: rest =>
    match Argument.ofText text with
    | .plain value =>
      match g.setOutput value with
      | .ok g => readArguments g rest
      | .error request => .error request
    | _ => .error .misuse

end

/-- What the arguments of the program ask for. -/
def interpret (arguments : List Text) : Request :=
  match readArguments .nothing arguments with
  | .ok g => g.request
  | .error request => request

end CommandLine

end CMinusFrontEnd
