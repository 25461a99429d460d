import Glyph8.Assembly.Program

/-!
# The journal of an assembly

What assembling a source text reports about its progress, up to the point where it ends or fails.
-/

namespace Glyph8.Journal

/-- What is reported about a use of a macro. -/
def invocation (i : Invocation) : Text :=
  utf8 "line " ++ Text.signedDecimal i.num ++ utf8 ": expanding " ++ i.used.name ++ utf8 "(" ++
    i.argument ++ utf8 ")"

/-- What is reported while macros are expanded: every use before the first that fails. -/
def expansion (ranked : List Macro) : List Line → List Text
  | [] => []
  | line :: rest =>
    match line.invocation? ranked with
    | .error _ => []
    | .ok none => expansion ranked rest
    | .ok (some i) => invocation i :: expansion ranked rest

/-- What is reported after the first pass. -/
def surveyed (s : Survey) : Text :=
  Text.decimal s.symbols.entries.length ++ utf8 " labels over " ++ Text.decimal s.count ++
    utf8 " instructions"

/-- What is reported once macros are expanded. -/
def code (code : List Line) : List Text :=
  match survey code with
  | .error _ => []
  | .ok s =>
    surveyed s ::
      match encodeAll s.symbols code with
      | .error _ => []
      | .ok placed => [utf8 "assembled " ++ Text.decimal placed.length ++ utf8 " instructions"]

/-- What is reported while a source text is assembled. -/
def assembly (src : Text) : List Text :=
  match sections src with
  | .error _ => []
  | .ok parts =>
    let opening := Text.decimal parts.macros.length ++ utf8 " macros, " ++
      Text.decimal parts.code.length ++ utf8 " code lines"
    let uses := expansion (Macro.longestFirst parts.macros) parts.code
    opening :: uses ++
      match expand parts.macros parts.code with
      | .error _ => []
      | .ok expanded => code expanded

end Glyph8.Journal
