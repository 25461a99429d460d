import Glyph8.Duration.Parser
import Glyph8.FileTree.Access
import Glyph8.Toml.Document
import Glyph8.Toml.Parser

/-!
# Settings

Settings come from a TOML file and lie over defaults: a setting that the file does not give keeps
its default. A file is refused if it is malformed, gives a setting a value of the wrong type, has a
key that is no setting, or gives a number that makes no sense.

A document is decoded entry by entry, in the order of its tables, and a key counts for the setting
whose name it has without regard to case. Keys without a setting are passed over there and refused
afterwards, all of them in one error. The keys are those that were written, in order, and not those
of the tables: a key may have been written and its value be lost again.

The names are data (`topNames`, `sections`), and decoding and the search for unknown keys go by the
same lists. A file that was asked for by name must be there. Without a name the default file is
read, and it may be missing.
-/

namespace Glyph8

/-- The settings of the tools. -/
structure Settings where
  logLevel : Text := utf8 "info"
  /-- Whether assembling prints a listing. -/
  dump : Bool := false
  /-- How many instructions a run may execute; 0 means no limit. -/
  maxSteps : Int := 100000
  device : Text := utf8 "/dev/ttyUSB0"
  baud : Int := 115200
  responseTimeout : Duration := ⟨500000000⟩
deriving DecidableEq

/-- One setting. -/
inductive Setting where
  | logLevel
  | dump
  | maxSteps
  | device
  | baud
  | responseTimeout
deriving DecidableEq

/-- Why settings cannot be used. -/
inductive SettingsError where
  | unreadable (failure : FileFailure)
  | malformed
  | offsetTooLarge
  | unknownKeys (keys : List Toml.KeyPath)
  | negativeMaxSteps
  | baudNotPositive
  | timeoutNotPositive
deriving DecidableEq

namespace SettingsError

/-- The text of an error. -/
def text : SettingsError → Text
  | unreadable failure => failure.message
  | malformed => utf8 "malformed"
  | offsetTooLarge => utf8 "Time.MarshalText: timezone hour outside of range [0,23]"
  | unknownKeys keys =>
    utf8 "unknown keys: " ++ (utf8 ", ").intercalate (keys.map Toml.KeyPath.text)
  | negativeMaxSteps => utf8 "sim.max_steps must not be negative"
  | baudNotPositive => utf8 "download.baud must be positive"
  | timeoutNotPositive => utf8 "download.response_timeout must be positive"

/-- The text of an error in the settings file of the given name. -/
def message (file : Text) (e : SettingsError) : Text :=
  utf8 "config " ++ file ++ utf8 ": " ++ e.text

end SettingsError

namespace Settings

/-! ## Names -/

/-- The settings outside of any section. -/
def topNames : List (Text × Setting) := [(utf8 "log_level", .logLevel)]

/-- The sections with their settings. -/
def sections : List (Text × List (Text × Setting)) := [
  (utf8 "asm", [(utf8 "dump", .dump)]),
  (utf8 "sim", [(utf8 "max_steps", .maxSteps)]),
  (utf8 "download", [(utf8 "device", .device), (utf8 "baud", .baud),
    (utf8 "response_timeout", .responseTimeout)])]

/-- A character without regard to case. Besides capitals, two characters outside ASCII are the same
as an ASCII letter: the long s and the Kelvin sign. -/
def foldCase (c : Char) : Char :=
  if 'A' ≤ c ∧ c ≤ 'Z' then Char.ofNat (c.toNat + 0x20)
  else if c = '\u017f' then 's'
  else if c = '\u212a' then 'k'
  else c

/-- A rune without regard to case. -/
def foldRune : Rune → Rune
  | .scalar c => .scalar (foldCase c)
  | .stray b => .stray b

/-- Whether two names are the same without regard to case. -/
def sameName (a b : Text) : Bool := a.runes.map foldRune == b.runes.map foldRune

/-- What a key stands for among names. -/
def named? {α : Type} (names : List (Text × α)) (key : Text) : Option α :=
  (names.find? fun entry => sameName entry.1 key).map Prod.snd

/-! ## Values -/

/-- The duration that a text gives. -/
def timeoutText (t : Text) : Except SettingsError Duration :=
  match Duration.parse t with
  | .ok d => .ok d
  | .error _ => .error .malformed

/-- A response timeout: a duration as text, or a number, which has no unit and so can only be 0. A
moment is no duration, and one that is a day or more away from universal time is not even a text. -/
def timeout : Toml.Value → Except SettingsError Duration
  | .text t => timeoutText t
  | .integer n => timeoutText (Text.signedDecimal n)
  | .moment offset => .error (if offset.natAbs < 24 * 60 then .malformed else .offsetTooLarge)
  | _ => .error .malformed

/-- Sets a setting, if the value has its type. -/
def set (s : Settings) : Setting → Toml.Value → Except SettingsError Settings
  | .logLevel, .text t => .ok { s with logLevel := t }
  | .dump, .boolean b => .ok { s with dump := b }
  | .maxSteps, .integer n => .ok { s with maxSteps := n }
  | .device, .text t => .ok { s with device := t }
  | .baud, .integer n => .ok { s with baud := n }
  | .responseTimeout, v => (timeout v).map fun d => { s with responseTimeout := d }
  | _, _ => .error .malformed

/-- Sets what the entries of one table give. Keys that are no setting are left for later. -/
def setAll (names : List (Text × Setting)) (s : Settings) (t : Toml.Table) :
    Except SettingsError Settings :=
  t.foldlM (fun s (key, v) =>
    match named? names key with
    | some setting => s.set setting v
    | none => .ok s) s

/-- Sets what an entry at the top of a document gives. -/
def setTop (s : Settings) (key : Text) (v : Toml.Value) : Except SettingsError Settings :=
  match named? topNames key, named? sections key, v with
  | some setting, _, v => s.set setting v
  | none, some names, .table t => s.setAll names t
  | none, some _, _ => .error .malformed
  | none, none, _ => .ok s

/-- The defaults under what a document gives. -/
def decode (root : Toml.Table) : Except SettingsError Settings :=
  root.foldlM (fun s (key, v) => s.setTop key v) {}

/-- Whether a path of a document is a section or a setting. -/
def isKnown (root : Toml.Table) : Toml.KeyPath → Bool
  | [key] =>
    (root.find? key).isSome && ((named? topNames key).isSome || (named? sections key).isSome)
  | [key, inner] =>
    match named? sections key, root.find? key with
    | some names, some (.table t) =>
      (Toml.Table.find? t inner).isSome && (named? names inner).isSome
    | _, _ => false
  | _ => false

/-- The keys of a document that are no settings. -/
def unknownKeys (doc : Toml.Document) : List Toml.KeyPath :=
  doc.keys.filter (!isKnown doc.root ·)

/-- Refuses numbers that make no sense. -/
def validate (s : Settings) : Except SettingsError Settings :=
  if s.maxSteps < 0 then .error .negativeMaxSteps
  else if s.baud ≤ 0 then .error .baudNotPositive
  else if s.responseTimeout.nanoseconds ≤ 0 then .error .timeoutNotPositive
  else .ok s

/-- The settings that a document gives. -/
def ofDocument (doc : Toml.Document) : Except SettingsError Settings :=
  match decode doc.root with
  | .error e => .error e
  | .ok s =>
    if (unknownKeys doc).isEmpty then s.validate else .error (.unknownKeys (unknownKeys doc))

/-- The settings that the text of a file gives. -/
def ofText (t : Text) : Except SettingsError Settings :=
  match (Toml.parse t).bind Toml.Document.ofStatements with
  | none => .error .malformed
  | some doc => ofDocument doc

/-! ## Files -/

/-- The file that is read when none is named. -/
def defaultFile : Text := utf8 "formasm.toml"

/-- The file that is read for a name. -/
def fileFor (name : Text) : Text := if name.isEmpty then defaultFile else name

/-- The settings in the named file. If no file is named, the absence of the default file is no
error. -/
def load (t : FileTree) (name : Text) : Except SettingsError Settings :=
  match t.read (fileFor name) with
  | .ok content => ofText content
  | .error failure =>
    if name.isEmpty && failure.error == .missing then .ok {} else .error (.unreadable failure)

end Settings

end Glyph8
