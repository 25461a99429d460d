import Glyph8.Assembly.Artifact
import Glyph8.Assembly.Dump
import Glyph8.Assembly.Journal
import Glyph8.Command.Outcome
import Glyph8.Listing
import Glyph8.Loader.Header

/-!
# Commands

What each command does to a file tree. A command first loads the settings and chooses the level of
its reports; only then does it touch any file. Assembling writes nothing unless the whole source is
assembled, and an executable that cannot be written is removed.

A command is a function from its surroundings, which are the files and the input, to an `Outcome`:
the files afterwards, what was printed, what was reported, and an error if there is one. Every
command loads the settings, also one that uses none of them, so bad settings stop all of them
(`prepared`).

Options on the command line go before settings, and for the dump either is enough. A download needs
a serial line, and no node of a file tree is one; so here it fails, with what stands in the way of
opening the device.
-/

namespace Glyph8

/-- What a command finds: the files, and its standard input. -/
structure Surroundings where
  files : FileTree
  input : Text := []
  /-- Whether the input is typed at a terminal. -/
  interactive : Bool := false

namespace Command

/-! ## Assembling -/

/-- Writes an executable to the artifact for `output`. If it cannot be written it is removed. -/
def writeArtifact (t : FileTree) (path : Text) (code : List Word) :
    Except Diagnostic Unit × FileTree :=
  match t.create path with
  | .error f => (.error ⟨0, .creating path f.message⟩, t)
  | .ok (handle, opened) =>
    match opened.write path handle code with
    | .error f => (.error ⟨0, .writing path f.message⟩, opened.remove path)
    | .ok written => (.ok (), written)

/-- What is reported about a written executable. -/
def artifactReport (path : Text) (size : Nat) : List LogEntry :=
  [.detail "asm" (utf8 "wrote " ++ Text.decimal size ++ utf8 " bytes to " ++ path),
    .result (path ++ utf8 ": " ++ Text.decimal size ++ utf8 " instructions")]

/-- Assembles a source text into the artifact for `output`. -/
def assembleText (t : FileTree) (dump : Bool) (src output : Text) : Outcome :=
  let journal := (Journal.assembly src).map (LogEntry.detail "asm")
  match Glyph8.assemble src with
  | .error d => { files := t, journal, error := some (.assembly d) }
  | .ok p =>
    let path := Artifact.path output
    match writeArtifact t path p.words with
    | (.error d, files) => { files, journal, error := some (.assembly d) }
    | (.ok (), files) =>
      { files
        output := if dump then p.dumpLines.flatten else []
        journal := journal ++ artifactReport path p.size }

/-- Assembles a source file into the artifact for `output`. -/
def assembleFile (t : FileTree) (dump : Bool) (source output : Text) : Outcome :=
  match t.read source with
  | .error f => .failed t (.assembly ⟨0, .reading f.message⟩)
  | .ok src => assembleText t dump src output

/-! ## The other commands -/

/-- Prints the listing of an executable. -/
def disassembleFile (t : FileTree) (executable : Text) : Outcome :=
  match t.read executable with
  | .error f => .failed t (.executable f)
  | .ok code => { files := t, output := (Listing.rows code).flatten }

/-- Runs an executable on a console. -/
def simulateFile (t : FileTree) (limit : Option Nat) (console : Console) (executable : Text) :
    Outcome :=
  match t.read executable with
  | .error f => .failed t (.file f)
  | .ok code =>
    let loaded := .detail "sim" (utf8 "loaded " ++ Text.decimal code.length ++
      utf8 " instructions from " ++ executable)
    let (stop, m) := (Machine.load code console).run limit
    let output := m.console.output.text
    match stop.error? with
    | some message => { files := t, output, journal := [loaded], error := some (.run message) }
    | none =>
      let halted := .detail "sim" (utf8 "halted after " ++ Text.decimal m.steps ++
        utf8 " instructions")
      { files := t, output, journal := [loaded, halted] }

/-- Sends an executable to the board at a device. -/
def downloadFile (t : FileTree) (device executable : Text) : Outcome :=
  match t.read executable with
  | .error f => .failed t (.executable f)
  | .ok _ => .failed t (.serial device (t.serialFailure device))

/-- Writes the protocol header. -/
def writeHeader (t : FileTree) : Outcome :=
  match t.create Header.file with
  | .error f => .failed t (.file f)
  | .ok (handle, opened) =>
    match opened.write Header.file handle Header.text with
    | .error f => .failed opened (.file f)
    | .ok files => { files, journal := [.result (utf8 "wrote " ++ Header.file)] }

/-! ## Settings and requests -/

/-- Loads the settings that the options name, and the level of reports. -/
def prepare (t : FileTree) (o : Options) : Except CommandError (Settings × Level) :=
  match Settings.load t o.config with
  | .error e => .error (.settings (Settings.fileFor o.config) e)
  | .ok s =>
    let name := o.logLevel.getD s.logLevel
    match Level.parse? name with
    | none => .error (.logLevel name)
    | some level => .ok (s, level)

/-- Carries out a command once its settings are loaded. -/
def prepared (t : FileTree) (o : Options) (run : Settings → Outcome) : Outcome :=
  match prepare t o with
  | .error e => .failed t e
  | .ok (s, level) => { run s with level }

/-- The text that explains the commands. -/
def helpText : Text :=
  utf8 "Usage:\n" ++
    Command.names.flatMap fun (name, _) =>
      utf8 "  " ++ programName ++ utf8 " " ++ name ++ utf8 "\n"

/-- Carries out a request. -/
def carryOut (w : Surroundings) : Request → Outcome
  | .help => { files := w.files, output := helpText }
  | .assemble o source output =>
    prepared w.files o fun s => assembleFile w.files (o.dump || s.dump) source output
  | .disassemble o executable =>
    prepared w.files o fun _ => disassembleFile w.files executable
  | .simulate o executable =>
    prepared w.files o fun s =>
      let console : Console := { input := w.input, interactive := w.interactive }
      simulateFile w.files (Machine.stepBound (o.maxSteps.getD s.maxSteps)) console executable
  | .download o executable =>
    prepared w.files o fun s =>
      downloadFile w.files (if o.device.isEmpty then s.device else o.device) executable
  | .header o => prepared w.files o fun _ => writeHeader w.files

/-- Carries out a command line. -/
def execute (w : Surroundings) (arguments : List Text) : Outcome :=
  match Request.parse arguments with
  | .error e => .failed w.files (.request e)
  | .ok request => carryOut w request

end Command

end Glyph8
