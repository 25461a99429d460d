import Glyph8.Command.Execute
import Glyph8.Proofs.Attempt
import Glyph8.Proofs.FileTree.Writing

/-!
# Assembling is all or nothing

Assembling reads the settings, reads and assembles the source, and only then opens the artifact. The
order matters: opening the artifact empties the file that stands there, so after it nothing may
fail.

`Spares` says of an outcome that the files are as they were if the command failed. Most commands
change no file at all. Two open a file, the artifact or the header, and of these it is shown that
what can fail comes before. One thing could still fail afterwards: a name may lead to a device, on
which a write can be refused. So the tree is to have no devices (`NoDevices`), and then a file that
can be opened can be written (`write_of_opens`).

`Assembles` is what has to be given for assembling to succeed, settings aside: the source can be
read and assembled, and the name of the artifact leads to a place where a file can be. Either this
holds, or assembling fails with the files as they were (`assembleFile_cases`).

The main result is `assembling_all_or_nothing`. It is about command lines, so it also says that
every settings file, source and output can be asked for by one (`parse_assembleLine`). The double
dash before the names is what lets them begin with a dash.
-/

namespace Glyph8

/-! ## Command lines -/

/-- An option that is spelled out with its value is set, and parsing goes on. -/
theorem Options.parse_long {allowed : List Flag} {o o' : Options} {argument body name value : Text}
    {value? : Option Text} {flag : Flag} (hshape : shape argument = .long body)
    (hname : hasBadName body = false) (hsplit : splitValue body = (name, value?))
    (hfind : findName allowed name = .ok flag) (hvalue : value?.or flag.impliedValue? = some value)
    (hset : o.set flag value = .ok o') (rest : List Text) :
    parse allowed o (argument :: rest) = parse allowed o' rest := by
  rw [parse]
  simp [hshape, hname, hsplit, hfind, hvalue, hset, bind, Except.bind]

namespace Command

/-- A command line that assembles a source, with options as they are chosen. -/
def assembleLine (config : Text) (logLevel : Option Text) (dump : Bool) (source output : Text) :
    List Text :=
  let level := (logLevel.map (utf8 "--log-level=" ++ ·)).toList
  let listing := if dump then [utf8 "--dump"] else []
  utf8 "asm" :: (utf8 "--config=" ++ config) :: (level ++ (listing ++ [utf8 "--", source, output]))

section

variable (o : Options) (rest : List Text)

/-- The name of the settings file may be any text. -/
theorem parse_config (value : Text) :
    Options.parse assemble.flags o ((utf8 "--config=" ++ value) :: rest) =
      Options.parse assemble.flags { o with config := value } rest :=
  Options.parse_long rfl rfl rfl rfl rfl rfl rest

/-- The level is taken as it is; whether there is such a level is found out later. -/
theorem parse_logLevel (value : Text) :
    Options.parse assemble.flags o ((utf8 "--log-level=" ++ value) :: rest) =
      Options.parse assemble.flags { o with logLevel := some value } rest :=
  Options.parse_long rfl rfl rfl rfl rfl rfl rest

theorem parse_dump :
    Options.parse assemble.flags o (utf8 "--dump" :: rest) =
      Options.parse assemble.flags { o with dump := true } rest :=
  Options.parse_long rfl rfl rfl rfl rfl rfl rest

end

/-- Any source, output and choice of options can be asked for. -/
theorem parse_assembleLine (config : Text) (logLevel : Option Text) (dump : Bool)
    (source output : Text) :
    Request.parse (assembleLine config logLevel dump source output) =
      .ok (.assemble { config, logLevel, dump } source output) := by
  have hflags : Request.readFlags assemble.flags
      ((assembleLine config logLevel dump source output).erase (utf8 "asm")) =
        .ok ({ config, logLevel, dump }, [source, output]) := by
    unfold assembleLine Request.readFlags
    rw [List.erase_cons_head, parse_config]
    cases logLevel with
    | none =>
      cases dump with
      | false => rfl
      | true => exact congrArg (Except.mapError RequestError.flag) (parse_dump _ _)
    | some level =>
      cases dump with
      | false => exact congrArg (Except.mapError RequestError.flag) (parse_logLevel _ _ level)
      | true =>
        exact congrArg (Except.mapError RequestError.flag)
          ((parse_logLevel _ _ level).trans (parse_dump _ _))
  show Request.ofCommand assemble
    ((assembleLine config logLevel dump source output).erase (utf8 "asm")) = _
  unfold Request.ofCommand
  rw [hflags]
  rfl

/-! ## Failures -/

/-- Whether a command left the files alone if it failed. -/
def Spares (t : FileTree) (o : Outcome) : Prop := o.succeeded = false → o.files = t

theorem spares_of_files_eq {t : FileTree} {o : Outcome} (h : o.files = t) : Spares t o :=
  fun _ => h

/-- Settings that cannot be used end a command before it runs. -/
theorem prepared_of_error {t : FileTree} {o : Options} {e : CommandError}
    (h : prepare t o = .error e)
    (run : Settings → Outcome) : prepared t o run = .failed t e := by
  unfold prepared
  rw [h]

theorem prepared_of_ok {t : FileTree} {o : Options} {s : Settings} {level : Level}
    (h : prepare t o = .ok (s, level)) (run : Settings → Outcome) :
    prepared t o run = { run s with level } := by
  unfold prepared
  rw [h]

/-- Getting the settings changes no file. -/
theorem spares_prepared {t : FileTree} {run : Settings → Outcome} (h : ∀ s, Spares t (run s))
    (o : Options) : Spares t (prepared t o run) := by
  cases hprepare : prepare t o with
  | error e =>
    rw [prepared_of_error hprepare]
    exact spares_of_files_eq rfl
  | ok chosen =>
    rw [prepared_of_ok hprepare]
    exact h chosen.1

theorem files_disassembleFile (t : FileTree) (executable : Text) :
    (disassembleFile t executable).files = t := by
  unfold disassembleFile
  split <;> rfl

theorem files_simulateFile (t : FileTree) (limit : Option Nat) (console : Console)
    (executable : Text) : (simulateFile t limit console executable).files = t := by
  unfold simulateFile
  split
  · rfl
  · dsimp only
    split <;> rfl

theorem files_downloadFile (t : FileTree) (device executable : Text) :
    (downloadFile t device executable).files = t := by
  unfold downloadFile
  split <;> rfl

section

variable {t : FileTree}

/-- A file that can be opened is emptied first, and is then written in full. -/
theorem write_of_opens {name : Text} {path : Path} (h : t.Opens name path) (content : Text) :
    t.create name = .ok (.file path, t.insert path (.file [])) ∧
      (t.insert path (.file [])).write name (.file path) content =
        .ok (t.insert path (.file content)) :=
  ⟨FileTree.create_of_opens h, congrArg Except.ok (t.insert_insert path _ _)⟩

/-- Writing the header fails only before its file is opened. -/
theorem spares_writeHeader (h : t.NoDevices) : Spares t (writeHeader t) := by
  unfold writeHeader
  obtain ⟨path, hopens⟩ | ⟨f, hcreate⟩ := h.create_cases Header.file
  · obtain ⟨hcreate, hwrite⟩ := write_of_opens hopens Header.text
    simp only [hcreate, hwrite]
    exact nofun
  · rw [hcreate]
    exact spares_of_files_eq rfl

/-! ## Assembling -/

/-- Whether a source can be read and assembled, and its artifact be opened as the file at a path. -/
structure Assembles (t : FileTree) (source output : Text) (p : Program) (path : Path) : Prop where
  assembled : ∃ src, t.read source = .ok src ∧ Glyph8.assemble src = .ok p
  opens : t.Opens (Artifact.path output) path

/-- If all is given, assembling writes the words of the program. -/
theorem assembleFile_of_assembles {source output : Text} {p : Program} {path : Path}
    (h : Assembles t source output p path) (dump : Bool) :
    (assembleFile t dump source output).error = none ∧
      (assembleFile t dump source output).files = t.insert path (.file p.words) := by
  obtain ⟨src, hread, hassemble⟩ := h.assembled
  obtain ⟨hcreate, hwrite⟩ := write_of_opens h.opens p.words
  simp only [assembleFile, hread, assembleText, hassemble, writeArtifact, hcreate, hwrite, and_self]

/-- Without devices, assembling does not fail once the artifact is open. -/
theorem assembleFile_cases (h : t.NoDevices) (dump : Bool) (source output : Text) :
    (∃ p path, Assembles t source output p path) ∨
      (assembleFile t dump source output).error ≠ none ∧
        (assembleFile t dump source output).files = t := by
  unfold assembleFile
  cases hread : t.read source with
  | error f => exact .inr ⟨nofun, rfl⟩
  | ok src =>
    simp only [assembleText]
    cases hassemble : Glyph8.assemble src with
    | error d => exact .inr ⟨nofun, rfl⟩
    | ok p =>
      obtain ⟨path, hopens⟩ | ⟨f, hcreate⟩ := h.create_cases (Artifact.path output)
      · exact .inl ⟨p, path, ⟨src, hread, hassemble⟩, hopens⟩
      · exact .inr (by simp [writeArtifact, hcreate])

theorem spares_assembleFile (h : t.NoDevices) (dump : Bool) (source output : Text) :
    Spares t (assembleFile t dump source output) := by
  obtain ⟨p, path, hassembles⟩ | ⟨-, hfiles⟩ := assembleFile_cases h dump source output
  · intro hfailed
    rw [Outcome.succeeded, (assembleFile_of_assembles hassembles dump).1] at hfailed
    cases hfailed
  · exact spares_of_files_eq hfiles

end

/-- In a tree without devices no command that fails leaves anything behind. -/
theorem spares_execute {w : Surroundings} (h : w.files.NoDevices) (arguments : List Text) :
    Spares w.files (execute w arguments) := by
  unfold execute
  cases Request.parse arguments with
  | error e => exact spares_of_files_eq rfl
  | ok request =>
    cases request with
    | help => exact spares_of_files_eq rfl
    | assemble o source output =>
      exact spares_prepared (fun s => spares_assembleFile h _ source output) o
    | disassemble o executable =>
      exact spares_prepared (fun s => spares_of_files_eq (files_disassembleFile _ _)) o
    | simulate o executable =>
      exact spares_prepared (fun s => spares_of_files_eq (files_simulateFile _ _ _ _)) o
    | download o executable =>
      exact spares_prepared (fun s => spares_of_files_eq (files_downloadFile _ _ _)) o
    | header o => exact spares_prepared (fun s => spares_writeHeader h) o

/-- Assembling succeeds exactly if it can be done, and then it has written the artifact. -/
theorem carryOut_assemble {w : Surroundings} (h : w.files.NoDevices) (o : Options)
    (source output : Text) :
    ((carryOut w (.assemble o source output)).succeeded = true ↔
        (∃ chosen, prepare w.files o = .ok chosen) ∧
          ∃ p path, Assembles w.files source output p path) ∧
      ∀ p path, Assembles w.files source output p path →
        (carryOut w (.assemble o source output)).succeeded = true →
        (carryOut w (.assemble o source output)).files = w.files.insert path (.file p.words) := by
  cases hprepare : prepare w.files o with
  | error e =>
    have hfailed : carryOut w (.assemble o source output) = .failed w.files e :=
      prepared_of_error hprepare _
    rw [hfailed]
    exact ⟨⟨nofun, fun ⟨⟨_, hchosen⟩, _⟩ => nomatch hchosen⟩, fun _ _ _ hok => nomatch hok⟩
  | ok chosen =>
    obtain ⟨s, level⟩ := chosen
    have hcarry : carryOut w (.assemble o source output) =
        { assembleFile w.files (o.dump || s.dump) source output with level } :=
      prepared_of_ok hprepare _
    rw [hcarry]
    -- the settings choose how much is reported, not whether the source can be assembled
    refine ⟨⟨fun hok => ⟨⟨(s, level), rfl⟩, ?_⟩, ?_⟩, fun p path hassembles _ => ?_⟩
    · obtain hfeasible | ⟨herror, -⟩ := assembleFile_cases h (o.dump || s.dump) source output
      · exact hfeasible
      · exact absurd (Option.isNone_iff_eq_none.mp hok) herror
    · rintro ⟨-, p, path, hassembles⟩
      exact Option.isNone_iff_eq_none.mpr (assembleFile_of_assembles hassembles _).1
    · exact (assembleFile_of_assembles hassembles _).2

/-- What a command line does to the files of a tree without devices. If it fails, whatever it asks
for, all files are as they were. If it asks to assemble a source, it succeeds exactly if the
settings can be used, the source assembled and the artifact opened; then the artifact holds the
words of the program, under its path and under its name, and at every other path stands what stood
there before. Every source, output and choice of options can be asked for. -/
theorem assembling_all_or_nothing (w : Surroundings) (h : w.files.NoDevices) :
    (∀ arguments, (execute w arguments).succeeded = false →
      (execute w arguments).files = w.files) ∧
      (∀ arguments o source output, Request.parse arguments = .ok (.assemble o source output) →
        ((execute w arguments).succeeded = true ↔
          (∃ chosen, prepare w.files o = .ok chosen) ∧
            ∃ p path, Assembles w.files source output p path) ∧
        ∀ p path, Assembles w.files source output p path →
          (execute w arguments).succeeded = true →
          (execute w arguments).files.find? path = some (.file p.words) ∧
            (∀ other, other ≠ path →
              (execute w arguments).files.find? other = w.files.find? other) ∧
            (execute w arguments).files.read (Artifact.path output) = .ok p.words) ∧
      ∀ config logLevel dump source output,
        Request.parse (assembleLine config logLevel dump source output) =
          .ok (.assemble { config, logLevel, dump } source output) := by
  refine ⟨fun arguments => spares_execute h arguments, ?_, parse_assembleLine⟩
  intro arguments o source output hparse
  have hexecute : execute w arguments = carryOut w (.assemble o source output) := by
    unfold execute
    rw [hparse]
  rw [hexecute]
  obtain ⟨hiff, hfiles⟩ := carryOut_assemble h o source output
  refine ⟨hiff, fun p path hassembles hok => ?_⟩
  rw [hfiles p path hassembles hok]
  exact ⟨FileTree.find?_insert_self _ hassembles.opens.takes.ne_nil _,
    fun other hother => FileTree.find?_insert_of_ne _ hother _,
    hassembles.opens.read_insert p.words⟩

/-- A source that stands under the name of its own artifact. -/
def selfNamed : FileTree where
  entries := [([utf8 "w"], .directory), ([utf8 "w", utf8 "p.formexe"], .file (utf8 "💬\n🤖 🔪\n"))]
  workingDirectory := [utf8 "w"]

/-- The source is read before it is written over. -/
theorem assembling_all_or_nothing_selfNamed :
    (execute { files := selfNamed }
      (assembleLine [] none false (utf8 "p.formexe") (utf8 "p.formexe"))).succeeded = true ∧
    (execute { files := selfNamed }
      (assembleLine [] none false (utf8 "p.formexe") (utf8 "p.formexe"))).files.read
        (utf8 "p.formexe") = .ok [0xE2] := by
  have hdevices : selfNamed.NoDevices := FileTree.noDevices_of_entries (by
    simp [selfNamed])
  obtain ⟨-, hassembling, hlines⟩ := assembling_all_or_nothing { files := selfNamed } hdevices
  obtain ⟨hiff, hwritten⟩ := hassembling _ _ _ _ (hlines [] none false _ _)
  have hassembles : Assembles selfNamed (utf8 "p.formexe") (utf8 "p.formexe")
      ⟨[⟨2, 0xE2⟩], ⟨[]⟩⟩ [utf8 "w", utf8 "p.formexe"] :=
    ⟨⟨utf8 "💬\n🤖 🔪\n", by decide +kernel, by decide +kernel⟩,
      ⟨.file [utf8 "w", utf8 "p.formexe"] (utf8 "💬\n🤖 🔪\n"), by decide +kernel, .inr ⟨_, rfl⟩⟩⟩
  have hmissing : selfNamed.read (Settings.fileFor []) =
      .error ⟨.opening, Settings.defaultFile, .missing⟩ := by decide +kernel
  have hlevel : Level.parse? (utf8 "info") = some .info := by decide +kernel
  have hok := hiff.mpr ⟨⟨({}, .info), by
    simp [prepare, Settings.load, hmissing, hlevel]⟩, _, _, hassembles⟩
  exact ⟨hok, (hwritten _ _ hassembles hok).2.2⟩

end Command

end Glyph8
