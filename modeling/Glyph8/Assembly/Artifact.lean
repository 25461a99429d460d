import Glyph8.Assembly.Diagnostic

/-!
# Artifacts

The file that holds an executable. Its name has a suffix of its own.
-/

namespace Glyph8.Artifact

/-- The suffix of executables. -/
def suffix : Text := utf8 ".formexe"

/-- The file that the executable for `output` is written to. -/
def path (output : Text) : Text :=
  if suffix.isSuffixOf output then output else output ++ suffix

/-- The failure to close a file, together with the failure before it, if there was one. -/
def closeFailure (earlier : Option Text) (path closing : Text) : Diagnostic :=
  ⟨0, .closing path (earlier.toList ++ [closing])⟩

end Glyph8.Artifact
