import Glyph8.Text.Quoted

/-!
# Log lines

What the commands report beside their results. Every entry has a level, and only entries at or
above the chosen level are shown, one line each.
-/

namespace Glyph8

/-- How important an entry is. -/
inductive Level where
  | panic
  | fatal
  | error
  | warning
  | info
  | debug
  | trace
deriving DecidableEq

namespace Level

/-- How far down a level is; the most important one is 0. -/
def depth : Level → Nat
  | panic => 0
  | fatal => 1
  | error => 2
  | warning => 3
  | info => 4
  | debug => 5
  | trace => 6

/-- The name of a level. -/
def name : Level → Text
  | panic => utf8 "panic"
  | fatal => utf8 "fatal"
  | error => utf8 "error"
  | warning => utf8 "warning"
  | info => utf8 "info"
  | debug => utf8 "debug"
  | trace => utf8 "trace"

/-- The names that a level may be chosen by. -/
def names : List (Text × Level) := [
  (utf8 "panic", panic), (utf8 "fatal", fatal), (utf8 "error", error), (utf8 "warn", warning),
  (utf8 "warning", warning), (utf8 "info", info), (utf8 "debug", debug), (utf8 "trace", trace)]

/-- A character in lower case, as far as that is a letter of a level's name. Besides the capitals,
the dotted capital I of Turkish has such a lower case. -/
def lowerCase (c : Char) : Char :=
  if 'A' ≤ c ∧ c ≤ 'Z' then Char.ofNat (c.toNat + 0x20)
  else if c = 'İ' then 'i'
  else c

/-- The level with the given name, in letters of any case. -/
def parse? (t : Text) : Option Level :=
  match t.chars? with
  | none => none
  | some cs => names.lookup (Text.ofChars (cs.map lowerCase))

end Level

/-- One thing reported. -/
structure LogEntry where
  level : Level
  message : Text
  /-- The part of the tools that reports. -/
  component : Option Text := none
deriving DecidableEq

namespace LogEntry

/-- A detail that a part of the tools reports. -/
def detail (component : String) (message : Text) : LogEntry :=
  ⟨.debug, message, some (utf8 component)⟩

/-- A result that a command reports. -/
def result (message : Text) : LogEntry := ⟨.info, message, none⟩

/-- Whether a character can stand in a field without quotation marks. -/
def isPlain (c : Char) : Bool :=
  ('A' ≤ c && c ≤ 'Z') || ('a' ≤ c && c ≤ 'z') || ('0' ≤ c && c ≤ '9') ||
    ['-', '.', '_', '/', '@', '^', '+'].contains c

/-- The text of a field: quoted unless all of its characters are plain. -/
def fieldText (t : Text) : Text :=
  let plain := t.runes.all fun
    | .scalar c => isPlain c
    | .stray _ => false
  if plain then t else t.quote

/-- The line that shows an entry. -/
def line (e : LogEntry) : Text :=
  let component := match e.component with
    | some c => utf8 " component=" ++ fieldText c
    | none => []
  utf8 "level=" ++ e.level.name ++ utf8 " msg=" ++ fieldText e.message ++ component ++ utf8 "\n"

/-- Whether an entry is shown at the chosen level. -/
def isShown (e : LogEntry) (chosen : Level) : Bool := e.level.depth ≤ chosen.depth

end LogEntry

end Glyph8
