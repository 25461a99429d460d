import Glyph8.Text.Based
import Glyph8.Text.Quoted

/-!
# Flags

The arguments of a command are flags and plain arguments in any order; `--` ends the flags. A flag
has a long name and takes a value, as `--name value` or `--name=value`; a switch takes one only in
the second form and may have a letter too.

Arguments are told apart by their first bytes (`Shape`), and then read from left to right, with the
options that have been set so far carried along. The first thing that is wrong is reported, so an
unknown flag is reported only if all before it is in order. A flag that is given twice has its last
value.

Letters can be put together behind one dash, and the last may have a value. Numbers may be written
in several bases, and truth values in a few spellings.
-/

namespace Glyph8

/-- The flags of the commands. -/
inductive Flag where
  | config
  | logLevel
  | help
  | dump
  | maxSteps
  | device
deriving DecidableEq

namespace Flag

/-- The long name of a flag. -/
def name : Flag → Text
  | config => utf8 "config"
  | logLevel => utf8 "log-level"
  | help => utf8 "help"
  | dump => utf8 "dump"
  | maxSteps => utf8 "max-steps"
  | device => utf8 "device"

/-- The letter of a flag. Only switches have one. -/
def letter? : Flag → Option UInt8
  | help => some 0x68
  | dump => some 0x64
  | _ => none

/-- The value of a switch that stands without one. -/
def switchedOn : Text := utf8 "true"

/-- The value of a flag that stands without one. Only switches have such a value. -/
def impliedValue? : Flag → Option Text
  | help | dump => some switchedOn
  | _ => none

/-- A flag as messages show it. -/
def shown (f : Flag) : Text :=
  match f.letter? with
  | some b => utf8 "-" ++ [b] ++ utf8 ", --" ++ f.name
  | none => utf8 "--" ++ f.name

end Flag

/-- Why a value does not suit a flag. -/
inductive FlagValueError where
  | notBoolean
  | notInteger (e : NumeralError)
deriving DecidableEq

/-- The text of a value error. -/
def FlagValueError.message (value : Text) : FlagValueError → Text
  | notBoolean => utf8 "strconv.ParseBool: parsing " ++ value.quote ++ utf8 ": invalid syntax"
  | notInteger e =>
    let reason := match e with
      | .malformed => utf8 "invalid syntax"
      | .outOfRange => utf8 "value out of range"
    utf8 "strconv.ParseInt: parsing " ++ value.quote ++ utf8 ": " ++ reason

/-- Why flags cannot be read. -/
inductive FlagError where
  | badSyntax (argument : Text)
  | unknownName (name : Text)
  | unknownLetter (letter : UInt8) (letters : Text)
  | valueMissing (argument : Text)
  | invalidValue (flag : Flag) (value : Text) (e : FlagValueError)
deriving DecidableEq

/-- The text of a flag error. -/
def FlagError.message : FlagError → Text
  | badSyntax argument => utf8 "bad flag syntax: " ++ argument
  | unknownName name => utf8 "unknown flag: --" ++ name
  | unknownLetter letter letters =>
    utf8 "unknown shorthand flag: " ++ Text.quoteChar (Char.ofNat letter.toNat) ++ utf8 " in -" ++
      letters
  | valueMissing argument => utf8 "flag needs an argument: " ++ argument
  | invalidValue flag value e =>
    utf8 "invalid argument " ++ value.quote ++ utf8 " for " ++ flag.shown.quote ++ utf8 " flag: " ++
      e.message value

/-- What the flags say. -/
structure Options where
  config : Text := []
  logLevel : Option Text := none
  help : Bool := false
  dump : Bool := false
  maxSteps : Option Int := none
  device : Text := []
deriving DecidableEq

namespace Options

/-- The texts for true and false. -/
def booleans : List (Text × Bool) := [
  (utf8 "1", true), (utf8 "t", true), (utf8 "T", true), (utf8 "TRUE", true), (utf8 "true", true),
  (utf8 "True", true), (utf8 "0", false), (utf8 "f", false), (utf8 "F", false),
  (utf8 "FALSE", false), (utf8 "false", false), (utf8 "False", false)]

/-- The truth value of a switch. -/
def boolean (value : Text) : Except FlagValueError Bool :=
  match booleans.lookup value with
  | some b => .ok b
  | none => .error .notBoolean

/-- The options with a flag set to a value. -/
def assign (o : Options) (flag : Flag) (value : Text) : Except FlagValueError Options :=
  match flag with
  | .config => .ok { o with config := value }
  | .logLevel => .ok { o with logLevel := some value }
  | .device => .ok { o with device := value }
  | .help => (boolean value).map fun b => { o with help := b }
  | .dump => (boolean value).map fun b => { o with dump := b }
  | .maxSteps =>
    match value.basedInteger with
    | .ok n => .ok { o with maxSteps := some n }
    | .error e => .error (.notInteger e)

/-- The options with a flag set to a value, or what is wrong with the flag. -/
def set (o : Options) (flag : Flag) (value : Text) : Except FlagError Options :=
  (o.assign flag value).mapError (.invalidValue flag value)

/-- The first byte of a flag. -/
def dash : UInt8 := 0x2D

/-- The byte between a flag and its value. -/
def equals : UInt8 := 0x3D

/-- Sets the switches whose letters are given. A value may follow the last letter. Letters that
begin with `test.` are skipped. -/
def setLetters (allowed : List Flag) (o : Options) : Text → Except FlagError Options
  | [] => .ok o
  | letter :: rest =>
    if (utf8 "test.").isPrefixOf (letter :: rest) then .ok o
    else
      match allowed.find? fun f => f.letter? == some letter with
      | none => .error (.unknownLetter letter (letter :: rest))
      | some flag =>
        if rest.head? = some equals ∧ 1 < rest.length then o.set flag rest.tail
        else
          match o.set flag Flag.switchedOn with
          | .error e => .error e
          | .ok o => setLetters allowed o rest

/-- A long flag split into its name and its value, if that is given with it. -/
def splitValue (body : Text) : Text × Option Text :=
  match body.span (· != equals) with
  | (name, _ :: value) => (name, some value)
  | (name, []) => (name, none)

/-- Whether a long flag has no proper name. -/
def hasBadName (body : Text) : Bool :=
  body.isEmpty || body.head? == some dash || body.head? == some equals

/-- The flag with a long name. -/
def findName (allowed : List Flag) (name : Text) : Except FlagError Flag :=
  match allowed.find? fun f => f.name == name with
  | some flag => .ok flag
  | none => .error (.unknownName name)

/-- How an argument is read. -/
inductive Shape where
  | plain
  | endOfFlags
  | long (body : Text)
  | letters (body : Text)

/-- The shape of an argument. A dash alone is a plain argument. -/
def shape : Text → Shape
  | [0x2D, 0x2D] => .endOfFlags
  | 0x2D :: 0x2D :: body => .long body
  | 0x2D :: b :: body => .letters (b :: body)
  | _ => .plain

/-- Reads arguments: the options after all flags, and the plain arguments. -/
def parse (allowed : List Flag) (o : Options) :
    List Text → Except FlagError (Options × List Text)
  | [] => .ok (o, [])
  | argument :: rest =>
    match shape argument with
    | .plain => do
      let (o, plain) ← parse allowed o rest
      return (o, argument :: plain)
    | .endOfFlags => .ok (o, rest)
    | .letters body => do
      let o ← o.setLetters allowed body
      parse allowed o rest
    | .long body =>
      if hasBadName body then .error (.badSyntax argument)
      else do
        let (name, value?) := splitValue body
        let flag ← findName allowed name
        match value?.or flag.impliedValue? with
        | some value =>
          let o ← o.set flag value
          parse allowed o rest
        | none =>
          match rest with
          | [] => .error (.valueMissing argument)
          | value :: rest =>
            let o ← o.set flag value
            parse allowed o rest

end Options

end Glyph8
