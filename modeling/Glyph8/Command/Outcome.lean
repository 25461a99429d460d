import Glyph8.Assembly.Diagnostic
import Glyph8.Command.Log
import Glyph8.Command.Request
import Glyph8.Machine.Run
import Glyph8.Settings

/-!
# Outcomes

What a command leaves behind: the file tree, what it printed, what it reported and the error that it
ended with, if it did not succeed.
-/

namespace Glyph8

/-- Why a command fails. -/
inductive CommandError where
  | request (e : RequestError)
  | settings (file : Text) (e : SettingsError)
  | logLevel (name : Text)
  | assembly (d : Diagnostic)
  | executable (f : FileFailure)
  | file (f : FileFailure)
  | run (message : Text)
  | serial (device message : Text)

namespace CommandError

/-- The text of an error. -/
def message : CommandError → Text
  | request e => e.message
  | settings name e => e.message name
  | logLevel name => utf8 "log level: not a valid logrus Level: " ++ name.quote
  | assembly d => d.text
  | executable f => utf8 "reading executable: " ++ f.message
  | file f => f.message
  | run message => message
  | serial device message => utf8 "open " ++ device ++ utf8 ": " ++ message

/-- The lines that show an error. A word that is no command is followed by a hint. -/
def lines (e : CommandError) : Text :=
  let hint := match e with
    | request (.unknownCommand _) =>
      utf8 "Run '" ++ programName ++ utf8 " --help' for usage.\n"
    | _ => []
  utf8 "Error: " ++ e.message ++ utf8 "\n" ++ hint

end CommandError

/-- What a command leaves behind. -/
structure Outcome where
  files : FileTree
  output : Text := []
  /-- Everything reported, in order, at whatever level. -/
  journal : List LogEntry := []
  /-- The level from which reports are shown. -/
  level : Level := .info
  error : Option CommandError := none

namespace Outcome

/-- The outcome of a command that only fails. -/
def failed (files : FileTree) (e : CommandError) : Outcome := { files, error := some e }

/-- Whether a command succeeded. -/
def succeeded (o : Outcome) : Bool := o.error.isNone

/-- The exit code of a command. -/
def exitCode (o : Outcome) : Nat := if o.succeeded then 0 else 1

/-- What a command shows beside its output: its reports, and the error at the end. -/
def messages (o : Outcome) : Text :=
  let shown := (o.journal.filter (·.isShown o.level)).flatMap LogEntry.line
  match o.error with
  | some e => shown ++ e.lines
  | none => shown

end Outcome

end Glyph8
