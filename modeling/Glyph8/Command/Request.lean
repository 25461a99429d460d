import Glyph8.Command.Flag

/-!
# Requests

A command line names a command and gives its flags and arguments. The command's name is the first
word that is no flag and cannot be the value of one.

Flags may stand before the command too. Which words are values is not known before the command is,
as its flags are not; so for finding the command, the word after a flag without an equals sign is
taken for its value, even if the flag is a switch (`mayTakeValue`). When the command is known, its
name is taken out, and all that is left is read with the flags of that command.

Help is a request of its own, and it wins over wrong arguments but not over wrong flags. Without a
command the flags that every command has are read, and help is given.
-/

namespace Glyph8

/-- The commands. -/
inductive Command where
  | assemble
  | disassemble
  | simulate
  | download
  | header
deriving DecidableEq

/-- The name of the program. -/
def programName : Text := utf8 "formasm"

namespace Command

/-- All commands by their names. -/
def names : List (Text × Command) := [
  (utf8 "asm", assemble), (utf8 "dis", disassemble), (utf8 "sim", simulate),
  (utf8 "download", download), (utf8 "protogen", header)]

/-- The flags that every command has. -/
def commonFlags : List Flag := [.config, .logLevel, .help]

/-- The flags of a command. -/
def flags : Command → List Flag
  | assemble => .dump :: commonFlags
  | simulate => .maxSteps :: commonFlags
  | download => .device :: commonFlags
  | disassemble | header => commonFlags

/-- How many arguments a command takes. -/
def arity : Command → Nat
  | assemble => 2
  | disassemble | simulate | download => 1
  | header => 0

end Command

/-- Why a command line is no request. -/
inductive RequestError where
  | unknownCommand (word : Text)
  | flag (e : FlagError)
  | argumentCount (wanted found : Nat)
  /-- An argument to the command that takes none. -/
  | extraWord (word : Text)
deriving DecidableEq

/-- The text of a request error. -/
def RequestError.message : RequestError → Text
  | unknownCommand word =>
    utf8 "unknown command " ++ word.quote ++ utf8 " for " ++ programName.quote
  | flag e => e.message
  | argumentCount wanted found =>
    utf8 "accepts " ++ Text.decimal wanted ++ utf8 " arg(s), received " ++ Text.decimal found
  | extraWord word =>
    utf8 "unknown command " ++ word.quote ++ utf8 " for " ++
      (programName ++ utf8 " protogen").quote

/-- What a command line asks for. -/
inductive Request where
  | help
  | assemble (options : Options) (source output : Text)
  | disassemble (options : Options) (executable : Text)
  | simulate (options : Options) (executable : Text)
  | download (options : Options) (executable : Text)
  | header (options : Options)
deriving DecidableEq

namespace Request

/-- Whether an argument is a flag that the next argument may be the value of. -/
def mayTakeValue (argument : Text) : Bool :=
  !argument.contains Options.equals &&
    match argument with
    | 0x2D :: 0x2D :: _ => true
    | [0x2D, _] => true
    | _ => false

/-- The words of a command line that are neither flags nor may be values of flags. -/
def commandWords : List Text → List Text
  | [] => []
  | argument :: rest =>
    if argument = utf8 "--" then []
    else if mayTakeValue argument then
      match rest with
      | [] => []
      | _ :: rest => commandWords rest
    else if argument.isEmpty || argument.head? == some Options.dash then commandWords rest
    else argument :: commandWords rest

/-- The words that ask for help in place of a command. -/
def helpWords : List Text := [utf8 "help", utf8 "completion"]

/-- The request of a command with its options and plain arguments. -/
def ofArguments (command : Command) (options : Options) (arguments : List Text) :
    Except RequestError Request :=
  match command, arguments with
  | .assemble, [source, output] => .ok (.assemble options source output)
  | .disassemble, [executable] => .ok (.disassemble options executable)
  | .simulate, [executable] => .ok (.simulate options executable)
  | .download, [executable] => .ok (.download options executable)
  | .header, [] => .ok (.header options)
  | .header, word :: _ => .error (.extraWord word)
  | command, arguments => .error (.argumentCount command.arity arguments.length)

/-- Reads flags and arguments. -/
def readFlags (flags : List Flag) (arguments : List Text) :
    Except RequestError (Options × List Text) :=
  (Options.parse flags {} arguments).mapError .flag

/-- The request of a command with all that follows its name. -/
def ofCommand (command : Command) (arguments : List Text) : Except RequestError Request := do
  let (options, plain) ← readFlags command.flags arguments
  if options.help then return .help else ofArguments command options plain

/-- The request that a command line makes. -/
def parse (arguments : List Text) : Except RequestError Request :=
  match commandWords arguments with
  | [] => (readFlags Command.commonFlags arguments).map fun _ => .help
  | word :: _ =>
    match Command.names.lookup word with
    | some command => ofCommand command (arguments.erase word)
    | none => if helpWords.contains word then .ok .help else .error (.unknownCommand word)

end Request

end Glyph8
