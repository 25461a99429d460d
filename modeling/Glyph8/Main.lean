import Glyph8.Command.Execute

/-!
# The command line

The commands work on a file tree. Here the part of the real file system that a request names is
taken into such a tree, the request is carried out, and what changed in the tree is written back.
-/

namespace Glyph8.Main

/-- A text as a string. -/
def stringOf (t : Text) : String := (String.fromUTF8? ⟨t.toArray⟩).getD ""

/-- A path without `.` and `..`. -/
def clean (parts : List Text) : Path :=
  parts.foldl (fun path part =>
    if part = utf8 "." then path else if part = utf8 ".." then path.dropLast else path ++ [part]) []

/-- The absolute name of a path. -/
def absolute (path : List Text) : String := stringOf (utf8 "/" ++ Text.joinWith 0x2F path)

/-- The options of a request. -/
def optionsOf : Request → Options
  | .help => {}
  | .assemble o _ _ | .disassemble o _ | .simulate o _ | .download o _ | .header o => o

/-- The files that a request names, apart from the settings. -/
def namesOf (s : Settings) : Request → List Text
  | .help => []
  | .assemble _ source output => [source, Artifact.path output]
  | .disassemble _ executable | .simulate _ executable => [executable]
  | .download o executable => [executable, if o.device.isEmpty then s.device else o.device]
  | .header _ => [Header.file]

/-- What stands at an absolute path of the file system. -/
def nodeAt (path : List Text) : IO (Option Node) := do
  let file := (← IO.currentDir) / absolute path
  if ← file.isDir then return some .directory
  else if !(← file.pathExists) then return none
  else
    match (← file.metadata).type with
    | .file => return some (.file (← IO.FS.readBinFile file).toList)
    | _ =>
      let isFull := toString (← IO.FS.realPath file) == "/dev/full"
      return some (.device (if isFull then .full else .null))

/-- Takes what stands at a name, and at every directory above it, into a tree. -/
def snapshot (t : FileTree) (name : Text) : IO FileTree := do
  let start := if FileName.isAbsolute name then [] else t.workingDirectory
  let parts := start ++ FileName.parts name
  let mut tree := t
  for i in List.range parts.length do
    let above := parts.take (i + 1)
    if let some node ← nodeAt above then
      unless (clean above).isEmpty do tree := tree.insert (clean above) node
  return tree

/-- Writes back the files that changed, and removes those that are gone. -/
def writeBack (before after : FileTree) : IO Unit := do
  for (path, node) in after.entries do
    if before.find? path ≠ some node then
      if let .file content := node then
        IO.FS.writeBinFile (absolute path) ⟨content.toArray⟩
  for (path, _) in before.entries do
    if (after.find? path).isNone then IO.FS.removeFile (absolute path)

/-- Everything that is left of a stream. -/
partial def readAll (stream : IO.FS.Stream) (done : ByteArray) : IO ByteArray := do
  let chunk ← stream.read 65536
  if chunk.isEmpty then return done else readAll stream (done ++ chunk)

/-- The standard input of a request. Only running a program reads it. -/
def inputFor (request : Request) : IO Text := do
  match request with
  | .simulate _ _ => return (← readAll (← IO.getStdin) .empty).toList
  | _ => return []

/-- What a request finds in the file system. -/
def surroundingsOf (request : Request) : IO Surroundings := do
  let start : FileTree := { workingDirectory := FileName.parts (utf8 (toString (← IO.currentDir))) }
  let o := optionsOf request
  let tree ← snapshot start (Settings.fileFor o.config)
  let settings := (Settings.load tree o.config).toOption.getD {}
  let files ← (namesOf settings request).foldlM snapshot tree
  let interactive ← (← IO.getStdin).isTty
  return { files, input := ← inputFor request, interactive }

/-- Writes a text to a stream. -/
def put (stream : IO.FS.Stream) (t : Text) : IO Unit := do
  stream.write ⟨t.toArray⟩
  stream.flush

end Glyph8.Main

open Glyph8

/-- Carries out the command line. -/
def main (args : List String) : IO UInt32 := do
  let arguments := args.map utf8
  let w ← match Request.parse arguments with
    | .ok request => Main.surroundingsOf request
    | .error _ => pure { files := {} }
  let o := Command.execute w arguments
  Main.writeBack w.files o.files
  Main.put (← IO.getStdout) o.output
  Main.put (← IO.getStderr) o.messages
  return o.exitCode.toUInt32
