import Glyph8.Proofs.FileTree.Writing
import Glyph8.Proofs.Settings.Overlay
import Glyph8.Proofs.Toml.Building

/-!
# Loading settings

Settings are loaded from a file exactly when its document has known keys only (`Known`), its values
decode, and the numbers make sense (`Sensible`); what is loaded then lies over the defaults. A file
that is missing is no error if it is the default one.

Which keys are known is not said by their names in the program. It goes along each key and tests
what it meets: a section must be a table of the document, and a setting must be in it. Here known
keys are told by their names alone (`knownPaths`). The two agree because a key of a document leads
to a value, so a key that has the name of a setting was taken as one (`isKnown_iff`). That keys lead
to values is a fact about how documents are built, and it has an exception: a section that is given
an array first and a table later keeps the key from the array and loses its value.
`SectionsGivenOnce` excludes this, and `not_sectionsGivenOnce_regiven` is a text that shows why it
has to.

Decoding and the known keys are tested one after the other, and then the numbers. Each test is an
equivalence (`decode_eq_ok_iff`, `isKnown_iff`, `validate_eq_ok_iff`), so together they are one
(`ofDocument_eq_ok_iff_overlays`).

The main result, `load_overlays_defaults`, is about files. Its hypotheses on a document are that no
key is given twice in different spellings (`Unambiguous`), since then the order would count, and the
one above.
-/

namespace Glyph8.Settings

/-- The paths of the sections and the settings. -/
def knownPaths : List Toml.KeyPath := [
  [utf8 "log_level"],
  [utf8 "asm"], [utf8 "asm", utf8 "dump"],
  [utf8 "sim"], [utf8 "sim", utf8 "max_steps"],
  [utf8 "download"], [utf8 "download", utf8 "device"], [utf8 "download", utf8 "baud"],
  [utf8 "download", utf8 "response_timeout"]]

/-- Whether a path is that of a section or a setting, without regard to case. -/
def Known (path : Toml.KeyPath) : Prop := ∃ known ∈ knownPaths, SamePath known path

/-- Whether the numbers in settings make sense. -/
structure Sensible (s : Settings) : Prop where
  maxSteps : 0 ≤ s.maxSteps
  baud : 0 < s.baud
  responseTimeout : 0 < s.responseTimeout.nanoseconds

/-- Whether no section is given an array first and then a table: an array may be given again, and
its key with it. -/
def SectionsGivenOnce (ss : List Toml.Statement) (root : Toml.Table) : Prop :=
  ∀ key t, Toml.GivenArray ss key → (key, .table t) ∈ root →
    ∀ name ∈ sectionNames, sameName name key = false

/-- A section that is given an array first and a table later. -/
def regivenText : Text := utf8 "sim = [\x7bmax_steps = 1\x7d]\n[sim]\n"

/-- The statements of the text. -/
def regivenStatements : List Toml.Statement := [
  .assign [utf8 "sim"] (.array [.table [([utf8 "max_steps"], .integer 1)]]),
  .header [utf8 "sim"]]

/-- Their document: the key inside the array is still there, its value is not. -/
def regivenDocument : Toml.Document where
  root := [(utf8 "sim", .table [])]
  keys := [[utf8 "sim"], [utf8 "sim", utf8 "max_steps"], [utf8 "sim"]]

/-- Names alone do not tell known keys in such a document. All its keys have the names of sections
and settings, and the defaults lie over it, but the key without a value is refused. -/
theorem not_sectionsGivenOnce_regiven :
    Toml.parse regivenText = some regivenStatements ∧
      Toml.Document.ofStatements regivenStatements = some regivenDocument ∧
      ¬SectionsGivenOnce regivenStatements regivenDocument.root ∧
      Unambiguous regivenDocument.root ∧ (∀ path ∈ regivenDocument.keys, Known path) ∧
      SectionsAreTables regivenDocument.root ∧ Overlays regivenDocument.root {} ∧ Sensible {} ∧
      ofDocument regivenDocument =
        .error (.unknownKeys [[utf8 "sim", utf8 "max_steps"]]) := by
  have hapart : Unambiguous regivenDocument.root := by
    refine ⟨List.pairwise_singleton _ _, ?_⟩
    intro key t hmem outer names _ _
    obtain ⟨-, rfl⟩ : key = utf8 "sim" ∧ t = [] := by simpa [regivenDocument] using hmem
    exact List.Pairwise.nil
  have honce : ¬SectionsGivenOnce regivenStatements regivenDocument.root := by
    intro h
    have harray : Toml.GivenArray regivenStatements (utf8 "sim") :=
      ⟨[.table [([utf8 "max_steps"], .integer 1)]], by decide +kernel⟩
    have hname := h (utf8 "sim") [] harray List.mem_cons_self (utf8 "sim") (by decide)
    exact absurd hname (by decide +kernel)
  have hknown : ∀ path ∈ regivenDocument.keys, Known path := by
    intro path hpath
    have hall : ∀ path ∈ regivenDocument.keys, path ∈ knownPaths := by decide +kernel
    exact ⟨path, hall path hpath, List.forall₂_same.mpr fun _ _ => sameName_iff.mpr rfl⟩
  have hdecode : decode regivenDocument.root = .ok {} := by decide +kernel
  obtain ⟨htables, hoverlays⟩ := (decode_eq_ok_iff hapart).mp hdecode
  exact ⟨by decide +kernel, by decide +kernel, honce, hapart, hknown, htables, hoverlays,
    ⟨by decide, by decide, by decide⟩, by decide +kernel⟩

/-! ## Known keys -/

/-- Known paths of one part are the setting at the top and the sections. -/
theorem singleton_mem_knownPaths {name : Text} :
    [name] ∈ knownPaths ↔ name ∈ utf8 "log_level" :: sectionNames := by
  simp [knownPaths, sectionNames]

/-- Known paths of two parts are the settings in sections. -/
theorem pair_mem_knownPaths {outer name : Text} :
    [outer, name] ∈ knownPaths ↔ ∃ x : Setting, x.path = [outer, name] := by
  constructor
  · intro h
    simp only [knownPaths, List.mem_cons, List.cons.injEq, and_true, List.not_mem_nil, or_false,
      reduceCtorEq, and_false, false_or] at h
    obtain ⟨rfl, rfl⟩ | ⟨rfl, rfl⟩ | ⟨rfl, rfl⟩ | ⟨rfl, rfl⟩ | ⟨rfl, rfl⟩ := h
    · exact ⟨.dump, rfl⟩
    · exact ⟨.maxSteps, rfl⟩
    · exact ⟨.device, rfl⟩
    · exact ⟨.baud, rfl⟩
    · exact ⟨.responseTimeout, rfl⟩
  · rintro ⟨x, hx⟩
    rw [← hx]
    cases x with
    | logLevel => cases hx
    | _ => simp [knownPaths, Setting.path]

theorem length_le_of_mem_knownPaths {path : Toml.KeyPath} (h : path ∈ knownPaths) :
    1 ≤ path.length ∧ path.length ≤ 2 := by
  simp only [knownPaths, List.mem_cons, List.not_mem_nil, or_false] at h
  obtain rfl | rfl | rfl | rfl | rfl | rfl | rfl | rfl | rfl := h <;> simp

/-- A key at the top is known if it stands for a setting or a section. -/
theorem known_singleton_iff {key : Text} :
    Known [key] ↔ (named? topNames key).isSome ∨ (named? sections key).isSome := by
  have htop : (named? topNames key).isSome ↔ sameName (utf8 "log_level") key = true := by
    simp [named?, topNames]
  rw [htop, isSome_named?_sections]
  constructor
  · rintro ⟨known, hmem, hsame⟩
    obtain ⟨name, rest, hname, hrest, rfl⟩ := List.forall₂_cons_right_iff.1 hsame
    obtain rfl := List.forall₂_nil_right_iff.1 hrest
    obtain rfl | hmem := List.mem_cons.1 (singleton_mem_knownPaths.1 hmem)
    · exact .inl hname
    · exact .inr ⟨name, hmem, hname⟩
  · rintro (hname | ⟨name, hmem, hname⟩)
    · exact ⟨_, singleton_mem_knownPaths.2 List.mem_cons_self, .cons hname .nil⟩
    · exact ⟨_, singleton_mem_knownPaths.2 (List.mem_cons_of_mem _ hmem), .cons hname .nil⟩

/-- A key in a section is known if it stands for a setting of that section. -/
theorem known_pair_iff {key inner : Text} :
    Known [key, inner] ↔
      ∃ names, named? sections key = some names ∧ (named? names inner).isSome := by
  constructor
  · rintro ⟨known, hmem, hsame⟩
    obtain ⟨outer, rest, houter, hrest, rfl⟩ := List.forall₂_cons_right_iff.1 hsame
    obtain ⟨name, rest', hname, hrest', rfl⟩ := List.forall₂_cons_right_iff.1 hrest
    obtain rfl := List.forall₂_nil_right_iff.1 hrest'
    obtain ⟨x, hx⟩ := pair_mem_knownPaths.1 hmem
    obtain ⟨names, hnames, hx⟩ := path_eq_pair_iff.1 hx
    refine ⟨names, (named?_eq_some_iff sections_pairwise).2 ⟨outer, hnames, houter⟩, ?_⟩
    rw [(named?_eq_some_iff (names_pairwise _ hnames)).2 ⟨name, hx, hname⟩]
    rfl
  · rintro ⟨names, hsection, hinner⟩
    obtain ⟨outer, hnames, houter⟩ := (named?_eq_some_iff sections_pairwise).1 hsection
    obtain ⟨x, hx⟩ := Option.isSome_iff_exists.1 hinner
    obtain ⟨name, hmem, hname⟩ := (named?_eq_some_iff (names_pairwise _ hnames)).1 hx
    exact ⟨_, pair_mem_knownPaths.2 ⟨x, path_eq_pair_iff.2 ⟨names, hnames, hmem⟩⟩,
      .cons houter (.cons hname .nil)⟩

theorem Known.length {path : Toml.KeyPath} (h : Known path) :
    1 ≤ path.length ∧ path.length ≤ 2 := by
  obtain ⟨known, hmem, hsame⟩ := h
  rw [← hsame.length_eq]
  exact length_le_of_mem_knownPaths hmem

/-- A path of a document that is taken for a section or a setting has its name. -/
theorem known_of_isKnown {root : Toml.Table} {path : Toml.KeyPath}
    (h : isKnown root path = true) : Known path := by
  match path, h with
  | [key], h =>
    simp only [isKnown, Bool.and_eq_true, Bool.or_eq_true] at h
    exact known_singleton_iff.2 h.2
  | [key, inner], h =>
    simp only [isKnown] at h
    split at h
    case h_1 names _ hsection _ =>
      rw [Bool.and_eq_true] at h
      exact known_pair_iff.2 ⟨names, hsection, h.2⟩
    case h_2 => exact absurd h (by simp)

/-- An empty name is no name of a setting. -/
theorem not_known_pair_nil (key : Text) : ¬Known [key, []] := by
  rw [known_pair_iff]
  rintro ⟨names, hsection, hinner⟩
  obtain ⟨outer, hnames, -⟩ := (named?_eq_some_iff sections_pairwise).1 hsection
  have hnone : ∀ entry ∈ sections, (named? entry.2 []).isSome = false := by decide +kernel
  simp [hnone _ hnames] at hinner

section

variable {ss : List Toml.Statement} {doc : Toml.Document}

/-- In a document, keys that have the names of sections and settings are taken for these. -/
theorem isKnown_iff (hdoc : Toml.Document.ofStatements ss = some doc)
    (htables : SectionsAreTables doc.root) (honce : SectionsGivenOnce ss doc.root) :
    (∀ path ∈ doc.keys, isKnown doc.root path = true) ↔ ∀ path ∈ doc.keys, Known path := by
  refine ⟨fun h path hpath => known_of_isKnown (h path hpath), fun h path hpath => ?_⟩
  have hknown := h path hpath
  match path, hpath, hknown, hknown.length with
  | [key], hpath, hknown, _ =>
    simp only [isKnown, Bool.and_eq_true, Bool.or_eq_true]
    exact ⟨Toml.Document.isSome_find?_of_mem_keys hdoc hpath, known_singleton_iff.1 hknown⟩
  | [key, inner], hpath, hknown, _ =>
    obtain ⟨names, hsection, hinner⟩ := known_pair_iff.1 hknown
    obtain ⟨name, hname, hsame⟩ := isSome_named?_sections.1 (by rw [hsection]; rfl)
    obtain ⟨v, hfind, hvalue⟩ := Toml.Document.exists_of_mem_keys hdoc hpath
    have hmem := Toml.Table.mem_of_find? hfind
    obtain ⟨t, rfl⟩ := htables key v hmem name hname hsame
    simp only [isKnown, hsection, hfind, Bool.and_eq_true]
    refine ⟨?_, hinner⟩
    -- of the two ways to lose a value, one is excluded and the other takes an empty key
    obtain hgiven | hempty | hvalue := hvalue
    · simp [honce key t hgiven hmem name hname] at hsame
    · exact absurd (h _ hempty) (not_known_pair_nil key)
    · exact hvalue t rfl
  | [], _, _, hlength => simp at hlength
  | _ :: _ :: _ :: _, _, _, hlength => simp at hlength

/-! ## Documents -/

/-- Validating changes nothing, and succeeds on numbers that make sense. -/
theorem validate_eq_ok_iff {s s' : Settings} : s.validate = .ok s' ↔ s = s' ∧ s.Sensible := by
  unfold validate
  split
  case isTrue h => exact ⟨nofun, fun ⟨_, hs⟩ => absurd hs.maxSteps (by omega)⟩
  case isFalse hmaxSteps =>
    split
    case isTrue h => exact ⟨nofun, fun ⟨_, hs⟩ => absurd hs.baud (by omega)⟩
    case isFalse hbaud =>
      split
      case isTrue h => exact ⟨nofun, fun ⟨_, hs⟩ => absurd hs.responseTimeout (by omega)⟩
      case isFalse htimeout =>
        exact ⟨fun h => ⟨Except.ok.inj h, ⟨by omega, by omega, by omega⟩⟩, fun h => congrArg _ h.1⟩

/-- The three tests that a document has to pass. -/
theorem ofDocument_eq_ok_iff {s : Settings} :
    ofDocument doc = .ok s ↔
      decode doc.root = .ok s ∧ (∀ path ∈ doc.keys, isKnown doc.root path = true) ∧ s.Sensible := by
  have hempty : (unknownKeys doc).isEmpty = true ↔
      ∀ path ∈ doc.keys, isKnown doc.root path = true := by
    simp [unknownKeys]
  unfold ofDocument
  cases decode doc.root with
  | error e => simp
  | ok s₁ =>
    rw [← hempty, Except.ok.injEq]
    by_cases h : (unknownKeys doc).isEmpty = true
    · simp only [h, if_true, validate_eq_ok_iff, true_and]
      exact and_congr_right fun hs => hs ▸ Iff.rfl
    · simp [h]

/-- A document gives settings exactly when its keys are known, its sections are tables, and the
settings lie over the defaults and make sense. -/
theorem ofDocument_eq_ok_iff_overlays (hdoc : Toml.Document.ofStatements ss = some doc)
    (hapart : Unambiguous doc.root) (honce : SectionsGivenOnce ss doc.root) {s : Settings} :
    ofDocument doc = .ok s ↔ (∀ path ∈ doc.keys, Known path) ∧ SectionsAreTables doc.root ∧
      Overlays doc.root s ∧ s.Sensible := by
  rw [ofDocument_eq_ok_iff, decode_eq_ok_iff hapart]
  constructor
  · rintro ⟨⟨htables, hoverlays⟩, hknown, hsensible⟩
    exact ⟨(isKnown_iff hdoc htables honce).1 hknown, htables, hoverlays, hsensible⟩
  · rintro ⟨hknown, htables, hoverlays, hsensible⟩
    exact ⟨⟨htables, hoverlays⟩, (isKnown_iff hdoc htables honce).2 hknown, hsensible⟩

end

/-! ## Files -/

/-- The settings that a readable file gives. -/
theorem load_of_read {t : FileTree} {name content : Text}
    (h : t.read (fileFor name) = .ok content) : load t name = ofText content := by
  simp [load, h]

/-- Only the absence of the default file is no failure. -/
theorem load_of_failure {t : FileTree} {name : Text} {failure : FileFailure}
    (h : t.read (fileFor name) = .error failure) :
    load t name = if name = [] ∧ failure.error = .missing then .ok {} else
      .error (.unreadable failure) := by
  simp [load, h]

/-- A file of the default name that is not in the working directory cannot be read. -/
theorem read_defaultFile_of_absent {t : FileTree}
    (h : t.find? (t.workingDirectory ++ [defaultFile]) = none) :
    t.read defaultFile = .error ⟨.opening, defaultFile, .missing⟩ := by
  have hname : FileTree.IsName defaultFile := ⟨by decide, by decide, by decide⟩
  have hparts : FileName.parts defaultFile = [defaultFile] := by decide +kernel
  have hresolve : t.resolve defaultFile = t.follow FileTree.linkLimit false t.workingDirectory
      [defaultFile] := by
    rw [← hparts]
    rfl
  have hplace : t.Leads false t.workingDirectory [defaultFile]
      (.place (.vacant (t.workingDirectory ++ [defaultFile]) false)) := .vacant hname h
  simp only [FileTree.read, hresolve, FileTree.follow_of_place FileTree.linkLimit hplace]

/-- Loading lays what a file gives over the defaults. It gives settings exactly when the keys of the
document are known, its values decode to these settings, and their numbers make sense; a text that
is no document is refused. Of the failures to read, only the absence of the default file is none. -/
theorem load_overlays_defaults (t : FileTree) (name : Text) :
    (∀ content ss doc, t.read (fileFor name) = .ok content → Toml.parse content = some ss →
      Toml.Document.ofStatements ss = some doc → Unambiguous doc.root →
      SectionsGivenOnce ss doc.root → ∀ s, load t name = .ok s ↔
        (∀ path ∈ doc.keys, Known path) ∧ SectionsAreTables doc.root ∧
          Overlays doc.root s ∧ s.Sensible) ∧
    (∀ content, t.read (fileFor name) = .ok content →
      (Toml.parse content).bind Toml.Document.ofStatements = none → ∃ e, load t name = .error e) ∧
    (name = [] → t.find? (t.workingDirectory ++ [defaultFile]) = none → load t name = .ok {}) ∧
    ∀ failure, t.read (fileFor name) = .error failure →
      load t name = if name = [] ∧ failure.error = .missing then .ok {} else
        .error (.unreadable failure) := by
  refine ⟨fun content ss doc hread hparse hdoc hapart honce s => ?_, fun content hread hnone => ?_,
    fun hname habsent => ?_, fun failure hread => load_of_failure hread⟩
  · have hload : load t name = ofDocument doc := by
      rw [load_of_read hread]
      simp [ofText, hparse, hdoc]
    rw [hload]
    exact ofDocument_eq_ok_iff_overlays hdoc hapart honce
  · exact ⟨.malformed, by rw [load_of_read hread]; simp [ofText, hnone]⟩
  · subst hname
    rw [load_of_failure (read_defaultFile_of_absent habsent)]
    rfl

/-- A tree whose working directory holds a default file. -/
def treeWith (content : Text) : FileTree := { entries := [([defaultFile], .file content)] }

/-- Settings by a name in capitals, by a dotted key and in a section. -/
def mixedText : Text :=
  utf8 "LOG_LEVEL = \"debug\"\nsim.Max_Steps = 7\n[download]\nbaud = 9600\n"

def mixedStatements : List Toml.Statement := [
  .assign [utf8 "LOG_LEVEL"] (.text (utf8 "debug")),
  .assign [utf8 "sim", utf8 "Max_Steps"] (.integer 7),
  .header [utf8 "download"],
  .assign [utf8 "baud"] (.integer 9600)]

def mixedDocument : Toml.Document where
  root := [(utf8 "LOG_LEVEL", .text (utf8 "debug")),
    (utf8 "sim", .table [(utf8 "Max_Steps", .integer 7)]),
    (utf8 "download", .table [(utf8 "baud", .integer 9600)])]
  keys := [[utf8 "LOG_LEVEL"], [utf8 "sim", utf8 "Max_Steps"], [utf8 "download"],
    [utf8 "download", utf8 "baud"]]

theorem unambiguous_mixedDocument : Unambiguous mixedDocument.root := by
  refine ⟨by unfold Apart; decide +kernel, fun key t hmem outer names _ _ => ?_⟩
  obtain ⟨-, rfl⟩ | ⟨-, rfl⟩ : key = utf8 "sim" ∧ t = _ ∨ key = utf8 "download" ∧ t = _ := by
    simpa [mixedDocument] using hmem
  · exact List.pairwise_singleton _ _
  · exact List.pairwise_singleton _ _

theorem sectionsGivenOnce_mixedStatements :
    SectionsGivenOnce mixedStatements mixedDocument.root := by
  rintro key t ⟨items, hmem⟩
  simp [mixedStatements, Toml.topAssignments] at hmem

/-- The settings of the mixed text lie over the defaults; a malformed file and the absence of a
named file are errors, and the absence of the default file is none. -/
theorem load_overlays_defaults_mixed :
    let s : Settings := { logLevel := utf8 "debug", maxSteps := 7, baud := 9600 }
    (load (treeWith mixedText) [] = .ok s ∧ (∀ path ∈ mixedDocument.keys, Known path) ∧
      Overlays mixedDocument.root s ∧ s.Sensible) ∧
    (∃ e, load (treeWith (utf8 "sim = ")) [] = .error e) ∧
    load {} [] = .ok {} ∧
    load {} (utf8 "x") = .error (.unreadable ⟨.opening, utf8 "x", .missing⟩) := by
  intro s
  have hread : (treeWith mixedText).read (fileFor []) = .ok mixedText := by decide +kernel
  have hparse : Toml.parse mixedText = some mixedStatements := by decide +kernel
  have hdoc : Toml.Document.ofStatements mixedStatements = some mixedDocument := by decide +kernel
  have hload : load (treeWith mixedText) [] = .ok s := by decide +kernel
  have hmalformed : (Toml.parse (utf8 "sim = ")).bind Toml.Document.ofStatements = none :=
    Option.isNone_iff_eq_none.1 (by decide +kernel)
  refine ⟨⟨hload, ?_⟩, ?_, ?_, ?_⟩
  · obtain ⟨hknown, -, hoverlays⟩ := ((load_overlays_defaults (treeWith mixedText) []).1 mixedText
      mixedStatements mixedDocument hread hparse hdoc unambiguous_mixedDocument
      sectionsGivenOnce_mixedStatements s).1 hload
    exact ⟨hknown, hoverlays⟩
  · exact (load_overlays_defaults (treeWith (utf8 "sim = ")) []).2.1 (utf8 "sim = ")
      (by decide +kernel) hmalformed
  · exact (load_overlays_defaults {} []).2.2.1 rfl (by decide +kernel)
  · exact (load_overlays_defaults {} (utf8 "x")).2.2.2 ⟨.opening, utf8 "x", .missing⟩
      (by decide +kernel)

end Glyph8.Settings
