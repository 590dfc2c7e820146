import CMinusFrontEnd.Compilation
import CMinusFrontEnd.Proofs.Destination
import CMinusFrontEnd.Proofs.OpenComment

/-!
# Compilations are all or nothing

A compilation goes through its stages until one of them stops it, and whichever stage that is, no
file has been touched by then. `Options.Stops` lists what can stop it, in the order of the stages.
If nothing does, there is a place for the listing, and the listing is handed over. The main statement
is `run_compile`.

Even then a compilation can fail. A place takes only as many bytes as it has room for: a disk may be
full, and nobody may be left to listen to the standard output. So the listing arrives in full, or a
beginning of it does and the compilation fails. That is the one failure that leaves something behind.
And not every path leads to a file: a device keeps nothing, and a channel carries the listing on
(`run_compile_places`). What arrives where is `FileSystem.Receives`.
-/

namespace CMinusFrontEnd

/-! ## Compilations in a file system -/

/-- The text of the source file with this path. -/
def SourceFile.load (fs : FileSystem) (path : Text) : Except Error Text :=
  if isSource path then
    match fs.read path with
    | .ok content => decode content
    | .error cause => .error (.system cause)
  else .error wrongExtension

/-- Reading a source leaves the file system as it is. -/
theorem SourceFile.read_machine (path : Text) (fs : FileSystem) :
    read FileSystem.machine path fs = (load fs path, fs) := by
  rw [read, load]
  cases isSource path with
  | false => rfl
  | true =>
    simp only [if_true, FileSystem.machine, bind, StateT.bind, pure]
    cases fs.read path <;> rfl

/-- Where a listing goes, or why it can go nowhere. -/
def FileSystem.place (fs : FileSystem) : Option Text → Except SystemCause Destination
  | some path => fs.destination path
  | none => .ok (.channel .output)

@[simp] theorem FileSystem.place_send (fs : FileSystem) (said : Bytes) (channel : Channel)
    (output : Option Text) : (fs.send said channel).place output = fs.place output := by
  cases output with
  | none => rfl
  | some path => exact destination_send fs said channel path

/-- A listing that has a place is handed over there, and what is answered is up to the room. A
listing without a place changes nothing. -/
theorem Options.deliver_machine (o : Options) (content : Bytes) (fs : FileSystem) :
    o.deliver FileSystem.machine content fs =
      match fs.place o.output with
      | .error cause => (.error cause, fs)
      | .ok d => ((fs.room d).answer content, fs.fill content d) := by
  rw [deliver]
  cases o.output <;> rfl

/-- Messages are never refused, so a journal is kept in full, and the work goes on behind it in the
same file system, but for what was said. -/
theorem Options.note_machine (o : Options) (events : List Event) (fs : FileSystem) :
    o.note FileSystem.machine events fs = ((), fs.send (o.journal events).bytes .messages) := rfl

/-- The stages of a compilation, one after the other. What they touch can be seen here: the messages
at every stage, and something else only at the last one. -/
theorem compile_machine (o : Options) (fs : FileSystem) :
    compile FileSystem.machine o fs =
      let fs := fs.send (o.journal [.started o.path]).bytes .messages
      match SourceFile.load fs o.path with
      | .error cause => (.error (.error cause), fs)
      | .ok source =>
        let analysis := o.analyse source
        let fs := fs.send
          (o.journal (.sourceRead source.bytes.length :: analysis.events)).bytes .messages
        match analysis.result with
        | .error failure => (.error failure, fs)
        | .ok written =>
          let content := written.held .unlimited
          match fs.place o.output with
          | .error cause => (.error (.error (.system cause)), fs)
          | .ok d =>
            match (fs.room d).answer content with
            | .error cause => (.error (.error (.system cause)), fs.fill content d)
            | .ok () =>
              (.ok (), (fs.fill content d).send (o.journal [.completed]).bytes .messages) := by
  simp only [compile, bind, StateT.bind, Options.note_machine, SourceFile.read_machine]
  cases SourceFile.load (fs.send (o.journal [.started o.path]).bytes .messages) o.path with
  | error cause => rfl
  | ok source =>
    simp only [bind, StateT.bind, Options.note_machine]
    cases (o.analyse source).result with
    | error failure => rfl
    | ok written =>
      simp only [bind, StateT.bind, Options.deliver_machine]
      generalize FileSystem.place _ _ = place
      cases place with
      | error cause => rfl
      | ok d =>
        simp only
        generalize Room.answer _ _ = answer
        rcases answer with cause | ⟨⟨⟩⟩ <;> rfl

/-- The exit code of the program follows from how the compilation ends, and a failure is reported
behind everything that was said before. -/
theorem run_machine {arguments : List Text} {o : Options}
    (h : CommandLine.interpret arguments = .compile o) (fs : FileSystem) :
    run FileSystem.machine arguments fs =
      match compile FileSystem.machine o fs with
      | (.ok (), fs) => (0, fs)
      | (.error failure, fs) => (failure.code, fs.send failure.report.bytes .messages) := by
  simp only [run, h, bind, StateT.bind]
  generalize compile FileSystem.machine o fs = ended
  obtain ⟨result, fs⟩ := ended
  cases result <;> rfl

/-- Without being asked for, a journal is empty, since no event of a compilation is a warning. -/
theorem Options.journal_eq_nil {o : Options} (h : o.verbose = false) (events : List Event) :
    o.journal events = [] := by
  have hnone : events.filter (fun e => Level.warn.rank ≤ e.level.rank) = [] := by
    refine List.filter_eq_nil_iff.2 fun e _ => ?_
    cases e <;> simp [Event.level, Level.rank]
  simp only [journal, h, CMinusFrontEnd.journal, Bool.false_eq_true, if_false]
  rw [hnone]
  rfl

theorem Options.journal_append (o : Options) (events events' : List Event) :
    o.journal (events ++ events') = o.journal events ++ o.journal events' := by
  simp only [journal, CMinusFrontEnd.journal, List.filter_append, List.map_append,
    List.flatMap_append]

/-! ## What stops a compilation -/

/-- Whether a source is read as a text. -/
structure Options.Loads (o : Options) (fs : FileSystem) (source : Text) : Prop where
  /-- the path is that of a source file -/
  path : SourceFile.isSource o.path = true
  /-- the file holds the text -/
  read : fs.read o.path = .ok source.bytes

/-- The first failure of a compilation, in the order of the stages. -/
inductive Options.Stops (o : Options) (fs : FileSystem) : Error → Prop
  /-- the path is not that of a source file -/
  | extension (hpath : SourceFile.isSource o.path = false) : Stops o fs SourceFile.wrongExtension
  /-- the source cannot be read -/
  | unread {cause : SystemCause} (hpath : SourceFile.isSource o.path = true)
      (hread : fs.read o.path = .error cause) : Stops o fs (.system cause)
  /-- the source is no text -/
  | undecoded {content : Bytes} (hpath : SourceFile.isSource o.path = true)
      (hread : fs.read o.path = .ok content) (htext : ∀ source : Text, content ≠ source.bytes) :
      Stops o fs (.system .invalidUtf8)
  /-- a comment of the source is not closed -/
  | unclosed {source front rest : Text} (hsource : o.Loads fs source)
      (hcount : (1 : Count).toNat + source.newlines < UInt64.size)
      (hcomment : Scan.BreaksOff 1 source front rest) :
      Stops o fs (.unterminatedComment ((1 : Count).after front))
  /-- the file for the listing can be neither made nor emptied -/
  | uncreated {source : Text} {tokens : List Token} {path : Text} {cause : SystemCause}
      (hsource : o.Loads fs source) (hscan : (Scan.ofSource 1 source).tokens = .ok tokens)
      (houtput : o.output = some path) (hcreate : (fs.write path []).1 = .error cause) :
      Stops o fs (.system cause)

/-- A path holds one source at most. -/
theorem Options.Loads.unique {o : Options} {fs : FileSystem} {source source' : Text}
    (h : o.Loads fs source) (h' : o.Loads fs source') : source = source' :=
  Text.bytes_injective (Except.ok.inj (h.read.symm.trans h'.read))

/-- Nothing stops a compilation whose source is read and scanned and whose listing has a place. Each
of the five failures contradicts what is known about one of the stages. -/
theorem Options.not_stops {o : Options} {fs : FileSystem} {source : Text} {tokens : List Token}
    {d : Destination} (hsource : o.Loads fs source)
    (hscan : (Scan.ofSource 1 source).tokens = .ok tokens) (hplace : fs.place o.output = .ok d)
    (error : Error) : ¬ o.Stops fs error := by
  intro hstops
  cases hstops with
  | extension hpath =>
    rw [hsource.path] at hpath
    cases hpath
  | unread hpath hread =>
    rw [hsource.read] at hread
    cases hread
  | undecoded hpath hread htext =>
    exact htext source (Except.ok.inj (hread.symm.trans hsource.read))
  | unclosed hsource' hcount hcomment =>
    obtain rfl := hsource.unique hsource'
    rw [hcomment.ofSource_eq hcount] at hscan
    cases hscan
  | uncreated hsource' hscan' houtput hcreate =>
    rw [houtput, FileSystem.place, FileSystem.write_nil_eq_error_iff.1 hcreate] at hplace
    cases hplace

/-! ## Where the listing arrives -/

/-- All that is handed over for a source with these tokens: the line at the top, and then the listing
that is asked for. -/
def Options.content (o : Options) (source : Text) (tokens : List Token) : Bytes :=
  Text.bytes ("\nC-MINUS COMPILATION: ".toList ++ o.path ++ ['\n']) ++
    if o.traceScan then (listing o.echoSource source tokens).held .unlimited
    else if o.echoSource then (listing true source []).held .unlimited
    else []

/-- The file system `after` is `fs` with a content in a destination. Nothing else has changed, apart
from what was said on the messages. -/
inductive FileSystem.Receives (fs : FileSystem) (content : Bytes) (after : FileSystem) :
    Destination → Prop
  /-- a file, old or new, has the content and nothing else, and the paths that it can be written by
  lead to the content, unless the file is closed to readers -/
  | file {l : Location} (hfile : after.lookup? l = some (.file content))
      (hread : ∀ path, fs.destination path = .ok (.file l) → (fs.limitsAt l).reading = none →
        after.read path = .ok content)
      (hfiles : ∀ l', l' ≠ l → after.lookup? l' = fs.lookup? l')
      (houtput : after.output = fs.output) : Receives fs content after (.file l)
  /-- a device keeps nothing -/
  | device {l : Location} (hfiles : ∀ l', after.lookup? l' = fs.lookup? l')
      (houtput : after.output = fs.output) : Receives fs content after (.device l)
  /-- the standard output carries the content -/
  | output (hfiles : ∀ l, after.lookup? l = fs.lookup? l)
      (houtput : after.output = fs.output ++ content) : Receives fs content after (.channel .output)
  /-- the content stands between the messages -/
  | messages (said behind : Text) (hfiles : ∀ l, after.lookup? l = fs.lookup? l)
      (houtput : after.output = fs.output)
      (hmessages : after.messages = fs.messages ++ said.bytes ++ content ++ behind.bytes) :
      Receives fs content after (.channel .messages)

/-- What is said when a compilation fails: the journal, if it is wanted, and then the error. -/
def Options.Reports (o : Options) (error : Error) (said : Text) : Prop :=
  ∃ noted : Text, (o.verbose = false → noted = []) ∧
    said = noted ++ "Error: Compilation failed: ".toList ++ error.message ++ ['\n']

/-! ## The stages -/

section Stages

variable {o : Options} {fs : FileSystem} {source : Text} {tokens : List Token}

theorem SourceFile.load_send (fs : FileSystem) (said : Bytes) (path : Text) :
    load (fs.send said .messages) path = load fs path := by
  simp only [load, FileSystem.read_send]

theorem Options.Loads.load_eq (h : o.Loads fs source) :
    SourceFile.load fs o.path = .ok source := by
  simp only [SourceFile.load, h.path, h.read, if_true, SourceFile.decode, Text.ofBytes?_bytes]

theorem Options.header_eq (o : Options) :
    o.header = "\nC-MINUS COMPILATION: ".toList ++ o.path ++ ['\n'] := by
  simp only [header, endLine, List.append_assoc]
  rfl

/-- An unlimited sink holds the header and then the listing, or the header alone if neither the
source nor the tokens are asked for. -/
theorem Options.held_written (o : Options) (source : Text) (tokens : List Token) :
    (o.written source tokens).held .unlimited = o.content source tokens := by
  rw [written, Writing.held, Capacity.fits, if_pos rfl, Capacity.less, Chunk.bytes, Chunk.content,
    header_eq, content]
  split
  · rfl
  · split <;> rfl

/-- A source that is not read ends the compilation. -/
theorem compile_of_load_error {error : Error} (h : SourceFile.load fs o.path = .error error) :
    compile FileSystem.machine o fs =
      (.error (.error error), fs.send (o.journal [.started o.path]).bytes .messages) := by
  simp only [compile_machine, SourceFile.load_send, h]

/-- A source that is not scanned to its end ends the compilation, be it for an open comment or for
too many lines. The events up to there are in the journal. -/
theorem compile_of_scan_error (hsource : o.Loads fs source) {failure : Failure}
    (h : (Scan.ofSource 1 source).tokens = .error failure) :
    ∃ events, compile FileSystem.machine o fs =
      (.error failure, fs.send (o.journal events).bytes .messages) := by
  refine ⟨[.started o.path] ++ .sourceRead source.bytes.length ::
    (Scan.ofSource 1 source).events, ?_⟩
  rw [Options.journal_append, Text.bytes_append, ← FileSystem.send_send]
  simp only [compile_machine, SourceFile.load_send, hsource.load_eq, Options.analyse, h]

/-- A source with its tokens gets a listing, and what then happens is up to the place for it. Behind
the listing the journal goes on only if all went well. -/
theorem compile_of_tokens (hsource : o.Loads fs source)
    (h : (Scan.ofSource 1 source).tokens = .ok tokens) :
    ∃ events, compile FileSystem.machine o fs =
      let fs' := fs.send (o.journal events).bytes .messages
      match fs.place o.output with
      | .error cause => (.error (.error (.system cause)), fs')
      | .ok d =>
        match (fs.room d).answer (o.content source tokens) with
        | .error cause => (.error (.error (.system cause)), fs'.fill (o.content source tokens) d)
        | .ok () =>
          (.ok (), (fs'.fill (o.content source tokens) d).send (o.journal [.completed]).bytes
            .messages) := by
  refine ⟨[.started o.path] ++ .sourceRead source.bytes.length ::
    ((Scan.ofSource 1 source).events ++ [.analysed tokens.length (Scan.ofSource 1 source).line]), ?_⟩
  rw [Options.journal_append, Text.bytes_append, ← FileSystem.send_send]
  simp only [compile_machine, SourceFile.load_send, hsource.load_eq, Options.analyse, h,
    Options.held_written, FileSystem.place_send, FileSystem.room_send_messages]

/-- What fills a destination is received there as far as there is room for it, and nothing else changes
but the messages, whatever was said before and is said behind. -/
theorem FileSystem.receives_fill {output : Option Text} {d : Destination}
    (hplace : fs.place output = .ok d) (content : Bytes) (said behind : Text) :
    fs.Receives ((fs.room d).take content)
      (((fs.send said.bytes .messages).fill content d).send behind.bytes .messages) d := by
  rcases d with l | l | (_ | _)
  · -- only a path leads to a file
    obtain ⟨path, hpath⟩ : ∃ path, fs.destination path = .ok (.file l) := by
      cases output with
      | none => cases hplace
      | some path => exact ⟨path, hplace⟩
    have hl := ne_nil_of_destination hpath
    simp only [fill, room_send_messages]
    refine .file ?_ (fun path' hpath' hreading => ?_) (fun l' hl' => ?_) rfl
    · rw [lookup?_send, lookup?_put hl, if_pos rfl]
    · rw [read_send, read_put ((destination_send fs _ _ path').trans hpath')
        ((congrArg Limits.reading (limitsAt_send fs _ _ l)).trans hreading)]
    · rw [lookup?_send, lookup?_put hl, if_neg hl', lookup?_send]
  · refine .device (fun l' => ?_) rfl
    simp only [fill, lookup?_send]
  · refine .output (fun l' => ?_) rfl
    simp only [fill, lookup?_send]
  · refine .messages said behind (fun l' => ?_) rfl rfl
    simp only [fill, lookup?_send]

/-- Only a listing that goes to the messages adds to what is said before and behind. Everywhere else
the messages are the journal and the report. -/
theorem FileSystem.messages_fill {d : Destination} (hd : d ≠ .channel .messages)
    (content said behind : Bytes) :
    (((fs.send said .messages).fill content d).send behind .messages).messages =
      fs.messages ++ (said ++ behind) := by
  rcases d with l | l | (_ | _)
  · exact List.append_assoc _ _ _
  · exact List.append_assoc _ _ _
  · exact List.append_assoc _ _ _
  · exact absurd rfl hd

end Stages

/-! ## The program -/

/-- A compilation that is stopped ends with the error, and has touched nothing. All five failures
come before the listing is handed over. -/
theorem compile_of_stops {o : Options} {fs : FileSystem} {error : Error} (h : o.Stops fs error) :
    ∃ events, compile FileSystem.machine o fs =
      (.error (.error error), fs.send (o.journal events).bytes .messages) := by
  cases h with
  | extension hpath =>
    refine ⟨_, compile_of_load_error ?_⟩
    simp only [SourceFile.load, hpath, Bool.false_eq_true, if_false]
  | unread hpath hread =>
    refine ⟨_, compile_of_load_error ?_⟩
    simp only [SourceFile.load, hpath, hread, if_true]
  | @undecoded content hpath hread htext =>
    refine ⟨_, compile_of_load_error ?_⟩
    have hnone : Text.ofBytes? content = none := by
      cases hsource : Text.ofBytes? content with
      | none => rfl
      | some source => exact absurd (Text.ofBytes?_eq_some_iff.1 hsource) (htext source)
    simp only [SourceFile.load, hpath, hread, if_true, SourceFile.decode, hnone]
  | unclosed hsource hcount hcomment =>
    refine compile_of_scan_error hsource ?_
    rw [hcomment.ofSource_eq hcount]
    rfl
  | uncreated hsource hscan houtput hcreate =>
    obtain ⟨events, hcompile⟩ := compile_of_tokens hsource hscan
    refine ⟨events, ?_⟩
    simp only [hcompile, houtput, FileSystem.place, FileSystem.write_nil_eq_error_iff.1 hcreate]

/-- There is one first failure. The stages are in order, and each failure says that the stages
before it went well. -/
theorem Options.Stops.unique {o : Options} {fs : FileSystem} {error error' : Error}
    (h : o.Stops fs error) (h' : o.Stops fs error') : error = error' := by
  obtain ⟨events, hcompile⟩ := compile_of_stops h
  obtain ⟨events', hcompile'⟩ := compile_of_stops h'
  have hresult := congrArg Prod.fst (hcompile.symm.trans hcompile')
  exact Failure.error.inj (Except.error.inj hresult)

/-- A source that nothing stops can be read, and its scan comes to the end or runs out of lines. The
latter is a fault, which is not among the failures. -/
theorem exists_loads_of_not_stops {o : Options} {fs : FileSystem} (h : ∀ error, ¬ o.Stops fs error) :
    ∃ source, o.Loads fs source ∧
      ((1 : Count).toNat + source.newlines < UInt64.size →
        ∃ tokens, (Scan.ofSource 1 source).tokens = .ok tokens) := by
  have hpath : SourceFile.isSource o.path = true := by
    cases hpath : SourceFile.isSource o.path with
    | true => rfl
    | false => exact absurd (.extension hpath) (h _)
  cases hread : fs.read o.path with
  | error cause => exact absurd (.unread hpath hread) (h _)
  | ok content =>
    obtain ⟨source, rfl⟩ : ∃ source : Text, content = source.bytes := by
      by_contra hnone
      exact h _ (.undecoded hpath hread fun source hsource => hnone ⟨source, hsource⟩)
    have hsource : o.Loads fs source := ⟨hpath, hread⟩
    refine ⟨source, hsource, fun hcount => ?_⟩
    cases hscan : (Scan.ofSource 1 source).tokens with
    | ok tokens => exact ⟨tokens, rfl⟩
    | error failure =>
      obtain ⟨front, rest, hcomment⟩ := Scan.breaksOff_of_error hcount hscan
      exact absurd (.unclosed hsource hcount hcomment) (h _)

/-- Where nothing stops the compilation, there is a place for the listing: the standard output or
what the path leads to. -/
theorem exists_place_of_not_stops {o : Options} {fs : FileSystem} {source : Text}
    {tokens : List Token} (h : ∀ error, ¬ o.Stops fs error) (hsource : o.Loads fs source)
    (hscan : (Scan.ofSource 1 source).tokens = .ok tokens) : ∃ d, fs.place o.output = .ok d := by
  cases houtput : o.output with
  | none => exact ⟨_, rfl⟩
  | some path =>
    cases hpath : fs.destination path with
    | ok d => exact ⟨d, hpath⟩
    | error cause =>
      have hcreate := FileSystem.write_nil_eq_error_iff.2 hpath
      exact absurd (.uncreated hsource hscan houtput hcreate) (h _)

/-- A compilation that failed without touching anything is reported, and nothing is touched. This
holds of faults as well as of errors. -/
theorem run_of_failure {arguments : List Text} {o : Options} {fs : FileSystem} {failure : Failure}
    {said : Text} (h : CommandLine.interpret arguments = .compile o)
    (hcompile : compile FileSystem.machine o fs =
      (.error failure, fs.send said.bytes .messages)) :
    run FileSystem.machine arguments fs =
      (failure.code, fs.send (said ++ failure.report).bytes .messages) := by
  rw [run_machine h, hcompile, Text.bytes_append, ← FileSystem.send_send]

/-- What the program says about a failure is what was noted before and then the report. -/
theorem Options.reports_journal (o : Options) (events : List Event) (error : Error) :
    o.Reports error (o.journal events ++ (Failure.error error).report) := by
  refine ⟨o.journal events, fun hverbose => o.journal_eq_nil hverbose events, ?_⟩
  rw [Failure.report, endLine, List.append_assoc, List.append_assoc, List.append_assoc]

section Program

variable {arguments : List Text} {o : Options} {fs : FileSystem} {source : Text}
  {tokens : List Token} {d : Destination}

/-- A listing for which there is room arrives, and the program ends well. Without a journal nothing
is said, unless the listing itself goes to the messages. -/
theorem run_of_room (h : CommandLine.interpret arguments = .compile o) (hsource : o.Loads fs source)
    (hscan : (Scan.ofSource 1 source).tokens = .ok tokens) (hplace : fs.place o.output = .ok d)
    (hroom : (fs.room d).answer (o.content source tokens) = .ok ()) :
    ∃ after, run FileSystem.machine arguments fs = (0, after) ∧
      fs.Receives (o.content source tokens) after d ∧
      (o.verbose = false → d ≠ .channel .messages → after.messages = fs.messages) := by
  obtain ⟨events, hcompile⟩ := compile_of_tokens hsource hscan
  simp only [hplace, hroom] at hcompile
  have hreceives := FileSystem.receives_fill hplace (o.content source tokens) (o.journal events)
    (o.journal [.completed])
  rw [Room.take_of_answer hroom] at hreceives
  refine ⟨_, by rw [run_machine h, hcompile], hreceives, fun hverbose hd => ?_⟩
  rw [FileSystem.messages_fill hd, o.journal_eq_nil hverbose, o.journal_eq_nil hverbose,
    Text.bytes_nil, List.append_nil, List.append_nil]

/-- A listing for which there is not enough room arrives in part, and the program says so. The
messages are always told apart from the listing here, since they have room for everything. -/
theorem run_of_no_room (h : CommandLine.interpret arguments = .compile o)
    (hsource : o.Loads fs source) (hscan : (Scan.ofSource 1 source).tokens = .ok tokens)
    (hplace : fs.place o.output = .ok d) {cause : SystemCause}
    (hroom : (fs.room d).answer (o.content source tokens) = .error cause) :
    ∃ after, run FileSystem.machine arguments fs = (1, after) ∧
      fs.Receives ((fs.room d).take (o.content source tokens)) after d ∧
      ∃ said, o.Reports (.system cause) said ∧ after.messages = fs.messages ++ said.bytes := by
  obtain ⟨events, hcompile⟩ := compile_of_tokens hsource hscan
  simp only [hplace, hroom] at hcompile
  have hd : d ≠ .channel .messages := by
    rintro rfl
    cases hroom
  refine ⟨_, by rw [run_machine h, hcompile]; rfl,
    FileSystem.receives_fill hplace (o.content source tokens) (o.journal events) _, _,
    o.reports_journal events (.system cause), ?_⟩
  rw [FileSystem.messages_fill hd, Text.bytes_append]

end Program

/-- **All or nothing.** A compilation that is stopped exits with code 1, says why at the end of its
messages, says nothing else without a journal, and leaves the standard output and every file as they
were. Any other compilation has a place for its listing. If there is room for all of it, the program
exits with code 0, and the whole listing has arrived in that place, which holds nothing else if it is
a file; all other files, and without a journal the messages, are as they were. If there is not enough
room, the program exits with code 1 and says why, and a beginning of the listing has arrived, as much
of it as there is room for. The listing is that of the source as it was before, even if it has been
written over it.

A source with more line feeds than the counter can count ends the program instead, and then nothing
has been touched either. -/
theorem run_compile {arguments : List Text} {o : Options}
    (h : CommandLine.interpret arguments = .compile o) (fs : FileSystem) :
    (∀ error, o.Stops fs error → ∃ said, o.Reports error said ∧
      run FileSystem.machine arguments fs = (1, fs.send said.bytes .messages)) ∧
    ((∀ error, ¬ o.Stops fs error) → ∃ source, o.Loads fs source ∧
      ((1 : Count).toNat + source.newlines < UInt64.size →
        ∃ tokens d after, (Scan.ofSource 1 source).tokens = .ok tokens ∧
          fs.place o.output = .ok d ∧
          match (fs.room d).answer (o.content source tokens) with
          | .ok () =>
            run FileSystem.machine arguments fs = (0, after) ∧
            fs.Receives (o.content source tokens) after d ∧
            (o.verbose = false → d ≠ .channel .messages → after.messages = fs.messages)
          | .error cause =>
            run FileSystem.machine arguments fs = (1, after) ∧
            fs.Receives ((fs.room d).take (o.content source tokens)) after d ∧
            ∃ said, o.Reports (.system cause) said ∧ after.messages = fs.messages ++ said.bytes) ∧
      (UInt64.size ≤ (1 : Count).toNat + source.newlines →
        ∃ said : Text, run FileSystem.machine arguments fs = (101, fs.send said.bytes .messages))) := by
  refine ⟨fun error hstops => ?_, fun hnone => ?_⟩
  · obtain ⟨events, hcompile⟩ := compile_of_stops hstops
    exact ⟨_, o.reports_journal events error, run_of_failure h hcompile⟩
  · obtain ⟨source, hsource, htokens⟩ := exists_loads_of_not_stops hnone
    refine ⟨source, hsource, fun hcount => ?_, fun hcount => ?_⟩
    · obtain ⟨tokens, hscan⟩ := htokens hcount
      obtain ⟨d, hplace⟩ := exists_place_of_not_stops hnone hsource hscan
      cases hroom : (fs.room d).answer (o.content source tokens) with
      | ok answer =>
        obtain ⟨after, hafter⟩ := run_of_room h hsource hscan hplace hroom
        exact ⟨tokens, d, after, hscan, hplace, by simpa only [hroom] using hafter⟩
      | error cause =>
        obtain ⟨after, hafter⟩ := run_of_no_room h hsource hscan hplace hroom
        exact ⟨tokens, d, after, hscan, hplace, by simpa only [hroom] using hafter⟩
    · -- an overflow is a fault, and so it does not count as a failure that stops
      have hfailure : (Scan.ofSource 1 source).tokens = .error (.fault .addOverflow) := by
        rw [Scan.tokens, Scan.failure?, (Scan.ofSource_overflow hcount).2]
      obtain ⟨events, hcompile⟩ := compile_of_scan_error hsource hfailure
      exact ⟨_, run_of_failure h hcompile⟩

/-- A listing that is to go over the file `b`: a source with an open comment leaves the file alone, and
a source that can be scanned replaces it. -/
theorem run_compile_over_file :
    let arguments := ["a.cm".toList, "-o".toList, "b".toList]
    let o : Options := ⟨"a.cm".toList, some "b".toList, false, true, false⟩
    let files (source : Text) : FileSystem :=
      { entries := [(["a.cm".toList], .file source.bytes), (["b".toList], .file [0])], here := [] }
    CommandLine.interpret arguments = .compile o ∧
    run FileSystem.machine arguments (files "/*".toList) =
      (1, (files "/*".toList).send
        (Text.bytes ("Error: Compilation failed: Unterminated comment starting at line 1\n".toList))
        .messages) ∧
    ∃ after, run FileSystem.machine arguments (files "x".toList) = (0, after) ∧
      after.read "b".toList =
        .ok (o.content "x".toList [⟨.identifier, "x".toList, 1⟩, .endFile 1]) := by
  intro arguments o files
  have h : CommandLine.interpret arguments = .compile o := by decide +kernel
  have hloads (source : Text) : o.Loads (files source) source := ⟨by decide +kernel, rfl⟩
  have hscan : (Scan.ofSource 1 "x".toList).tokens =
      .ok [⟨.identifier, "x".toList, 1⟩, .endFile 1] := by decide +kernel
  have hplace (source : Text) : (files source).place o.output = .ok (.file ["b".toList]) := rfl
  refine ⟨h, ?_, ?_⟩
  · have hcomment : Scan.BreaksOff 1 "/*".toList [] [] :=
      ⟨rfl, ⟨[.endFile 1], by decide +kernel⟩, by decide⟩
    obtain ⟨said, ⟨noted, hnoted, rfl⟩, hrun⟩ := (run_compile h (files "/*".toList)).1 _
      (.unclosed (hloads _) (by decide +kernel) hcomment)
    have hsays : ([] ++ "Error: Compilation failed: ".toList ++
        (Error.unterminatedComment ((1 : Count).after [])).message ++ ['\n'] : Text) =
        "Error: Compilation failed: Unterminated comment starting at line 1\n".toList := by
      decide +kernel
    rw [hrun, hnoted rfl, hsays]
  · have hnone := Options.not_stops (hloads _) hscan (hplace _)
    obtain ⟨source, hsource, hrun, -⟩ := (run_compile h (files "x".toList)).2 hnone
    obtain rfl := hsource.unique (hloads "x".toList)
    obtain ⟨tokens, d, after, htokens, hd, hafter⟩ := hrun (by decide +kernel)
    obtain rfl := Except.ok.inj (htokens.symm.trans hscan)
    obtain rfl := Except.ok.inj (hd.symm.trans (hplace _))
    have hroom : ((files "x".toList).room (.file ["b".toList])).answer
        (o.content "x".toList [⟨.identifier, "x".toList, 1⟩, .endFile 1]) = .ok () := rfl
    simp only [hroom] at hafter
    obtain ⟨hcode, hreceives, -⟩ := hafter
    refine ⟨after, hcode, ?_⟩
    cases hreceives with
    | file _ hread _ _ => exact hread _ (hplace _) rfl

/-- A source without fault and four places for its listing. A device that can be opened but takes no
bytes, a file on a full disk and a standard output that nobody listens to any more: there the
compilation fails at its last stage, and of the listing as much is left as there was room for, even if
a file had to be emptied for it. And a device that swallows everything: there it ends well, and the
listing is nowhere. -/
theorem run_compile_places :
    let fs : FileSystem :=
      { entries := [(["a.cm".toList], .file (Text.bytes ['x'])), (["b".toList], .file [0]),
          (["dev".toList], .directory), (["dev".toList, "full".toList], .device []),
          (["dev".toList, "null".toList], .device [])]
        here := []
        limits := [(["dev".toList, "full".toList], { room := ⟨.limited 0, .noSpace⟩ }),
          (["b".toList], { room := ⟨.limited 3, .noSpace⟩ })]
        outputRoom := ⟨.limited 5, .brokenPipe⟩ }
    let o (output : Option Text) : Options := ⟨"a.cm".toList, output, false, true, false⟩
    let tokens : List Token := [⟨.identifier, ['x'], 1⟩, .endFile 1]
    let arguments (path : Text) : List Text := ["a.cm".toList, "-o".toList, path]
    (∀ path ∈ ["/dev/full".toList, "/dev/null".toList, "b".toList],
      CommandLine.interpret (arguments path) = .compile (o (some path)) ∧
      (fs.write path []).1 = .ok ()) ∧
    CommandLine.interpret ["a.cm".toList] = .compile (o none) ∧
    (∀ output, (o output).Loads fs ['x']) ∧ (Scan.ofSource 1 ['x']).tokens = .ok tokens ∧
    (∃ after, run FileSystem.machine (arguments "/dev/full".toList) fs = (1, after) ∧
      after.messages = Text.bytes
        "Error: Compilation failed: I/O error: No space left on device (os error 28)\n".toList) ∧
    (∃ after, run FileSystem.machine (arguments "b".toList) fs = (1, after) ∧
      after.read "b".toList = .ok (((o none).content ['x'] tokens).take 3)) ∧
    (∃ after, run FileSystem.machine ["a.cm".toList] fs = (1, after) ∧
      after.output = ((o none).content ['x'] tokens).take 5) ∧
    ∃ after, run FileSystem.machine (arguments "/dev/null".toList) fs = (0, after) ∧
      (∀ l, after.lookup? l = fs.lookup? l) ∧ after.output = [] ∧ after.messages = [] := by
  intro fs o tokens arguments
  have hpaths : ∀ path ∈ ["/dev/full".toList, "/dev/null".toList, "b".toList],
      CommandLine.interpret (arguments path) = .compile (o (some path)) ∧
      (fs.write path []).1 = .ok () := by decide
  have hnone : CommandLine.interpret ["a.cm".toList] = .compile (o none) := by decide
  have hsource (output : Option Text) : (o output).Loads fs ['x'] :=
    ⟨show SourceFile.isSource "a.cm".toList = true by decide,
      show fs.read "a.cm".toList = .ok (Text.bytes ['x']) by decide⟩
  have hscan : (Scan.ofSource 1 ['x']).tokens = .ok tokens := by decide +kernel
  have hfull : fs.place (some "/dev/full".toList) = .ok (.device ["dev".toList, "full".toList]) := by
    decide
  have hnull : fs.place (some "/dev/null".toList) = .ok (.device ["dev".toList, "null".toList]) := by
    decide
  have hfile : fs.place (some "b".toList) = .ok (.file ["b".toList]) := by decide
  refine ⟨hpaths, hnone, hsource, hscan, ?_, ?_, ?_, ?_⟩
  · obtain ⟨after, hrun, -, said, ⟨noted, hnoted, rfl⟩, hmessages⟩ :=
      run_of_no_room (hpaths _ (by decide)).1 (hsource _) hscan hfull rfl
    exact ⟨after, hrun, by rw [hmessages, hnoted rfl]; rfl⟩
  · obtain ⟨after, hrun, hreceives, -⟩ :=
      run_of_no_room (hpaths _ (by decide)).1 (hsource _) hscan hfile rfl
    cases hreceives with
    | file _ hread _ _ => exact ⟨after, hrun, hread _ hfile rfl⟩
  · obtain ⟨after, hrun, hreceives, -⟩ := run_of_no_room hnone (hsource _) hscan rfl rfl
    cases hreceives with
    | output _ houtput => exact ⟨after, hrun, houtput⟩
  · obtain ⟨after, hrun, hreceives, hmessages⟩ :=
      run_of_room (hpaths _ (by decide)).1 (hsource _) hscan hnull rfl
    cases hreceives with
    | device hfiles houtput => exact ⟨after, hrun, hfiles, houtput, hmessages rfl (by decide)⟩

end CMinusFrontEnd
