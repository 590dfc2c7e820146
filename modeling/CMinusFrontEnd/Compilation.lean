import CMinusFrontEnd.CommandLine.Request
import CMinusFrontEnd.Journal
import CMinusFrontEnd.Listing
import CMinusFrontEnd.SourceFile

/-!
# Compilations

A compilation reads a source file, scans it and writes the listing. The order of these stages
matters: nothing is opened for writing before the source has been read and scanned, so that a
source that cannot be compiled costs no file its contents, and a listing may be written over the
source it belongs to.

`Options.analyse` is what happens to a source once it has been read. `compile` puts the stages
together for any machine, and `run` is the whole program. What a compilation says about itself is
said as it happens: if the listing goes to the channel of the messages, it stands between them.
-/

namespace CMinusFrontEnd

/-! ## From a source to its listing -/

/-- The line at the top of every listing. -/
def Options.header (o : Options) : Text :=
  '\n' :: endLine ("C-MINUS COMPILATION: ".toList ++ o.path)

/-- All that is written for a source with these tokens. -/
def Options.written (o : Options) (source : Text) (tokens : List Token) : Writing :=
  .write (.text o.header) <|
    if o.traceScan then listing o.echoSource source tokens
    else if o.echoSource then listing true source []
    else .done

/-- What becomes of a source. -/
structure Analysis where
  /-- what happens on the way -/
  events : List Event
  /-- what is to be written, or why nothing is -/
  result : Except Failure Writing

/-- Analyses a source. -/
def Options.analyse (o : Options) (source : Text) : Analysis :=
  let scan := Scan.ofSource 1 source
  match scan.tokens with
  | .ok tokens =>
    { events := scan.events ++ [.analysed tokens.length scan.line]
      result := .ok (o.written source tokens) }
  | .error failure =>
    { events := scan.events
      result := .error failure }

/-! ## Messages -/

/-- Events as the journal shows them. They are shown only if a journal is wanted. -/
def Options.journal (o : Options) (events : List Event) : Text :=
  (CMinusFrontEnd.journal (if o.verbose then .debug else .warn) events).flatMap endLine

/-- What is said in the end about a compilation that failed. -/
def Failure.report : Failure → Text
  | error cause => endLine ("Error: Compilation failed: ".toList ++ cause.message)
  | fault cause => endLine cause.message

/-- The exit code of a program that ends without an answer. -/
def faultCode : UInt32 := 101

/-- The exit code of a compilation that failed. A fault is the end of the program. -/
def Failure.code : Failure → UInt32
  | error _ => 1
  | fault _ => faultCode

/-! ## The program -/

variable {m : Type → Type} [Monad m]

/-- Hands over a listing: to the file that is named for it, else on the standard output. -/
def Options.deliver (o : Options) (machine : Machine m) (content : Bytes) :
    m (Except SystemCause Unit) :=
  match o.output with
  | some path => machine.write path content
  | none => machine.send content .output

/-- Adds events to the journal. What the journal cannot take is lost, and the work goes on. -/
def Options.note (o : Options) (machine : Machine m) (events : List Event) : m Unit := do
  let _ ← machine.say (o.journal events) .messages

/-- Compiles a file. -/
def compile (machine : Machine m) (o : Options) : m (Except Failure Unit) := do
  o.note machine [.started o.path]
  match ← SourceFile.read machine o.path with
  | .error cause => return .error (.error cause)
  | .ok source =>
    let analysis := o.analyse source
    o.note machine (.sourceRead source.bytes.length :: analysis.events)
    match analysis.result with
    | .error failure => return .error failure
    | .ok written =>
      match ← o.deliver machine (written.held .unlimited) with
      | .error cause => return .error (.error (.system cause))
      | .ok () =>
        o.note machine [.completed]
        return .ok ()

/-- Runs the program with these arguments and answers with the exit code. A failure that cannot be
reported is the end of the program, like a fault. For all else that is shown it makes no difference
whether it can be shown. -/
def run (machine : Machine m) (arguments : List Text) : m UInt32 := do
  match CommandLine.interpret arguments with
  | .compile options =>
    match ← compile machine options with
    | .ok () => return 0
    | .error failure =>
      match ← machine.say failure.report .messages with
      | .ok () => return failure.code
      | .error _ => return faultCode
  | .help long =>
    let _ ← machine.say (CommandLine.helpText long) .output
    return 0
  | .version =>
    let _ ← machine.say CommandLine.versionText .output
    return 0
  | .misuse =>
    let _ ← machine.say (CommandLine.usageLines.head?.elim [] endLine) .messages
    return 2

end CMinusFrontEnd
