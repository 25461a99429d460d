import Mathlib.Data.List.Nodup
import Glyph8.Proofs.Attempt
import Glyph8.Proofs.Duration.RoundTrip
import Glyph8.Settings

/-!
# Settings over defaults

A document is decoded entry by entry: each key is looked up among the names, without regard to case,
and the setting that it stands for is set to the value. What comes out of this is said here without
an order. A document gives a setting a value if a path that is the setting's own, up to case, leads
to it (`Gives`). Settings lie over the defaults if they hold what the document gives and are as the
defaults elsewhere (`Overlays`).

Two keys of one table may stand for the same thing, as case does not count; then the later one wins,
and the order matters after all. If there are no such keys (`Unambiguous`), a document decodes to
settings exactly when its sections are tables and the settings lie over the defaults
(`decode_eq_ok_iff`).

The proof has three steps. Decoding is setting a list of settings, one after the other
(`decode_eq_ok_iff_setEach`). The list holds what the document gives (`gives_iff`), and each setting
once (`nodup_assignments`). And setting several settings, each once, takes all the values, whatever
their order (`setEach_eq_ok_iff`).

What it is to hold a value is `Shows`. For most settings it is equality. A duration is given by a
text, or by an integer, which counts as its digits; a duration in its printed form is given as
itself (`shows_text_iff`).
-/

namespace Glyph8

/-- Whether a path of keys leads to a value. -/
def Toml.Table.Holds (t : Toml.Table) : Toml.KeyPath → Toml.Value → Prop
  | [], _ => False
  | [key], v => (key, v) ∈ t
  | key :: rest, v => ∃ inner, (key, .table inner) ∈ t ∧ Holds inner rest v

/-- The path of a setting. -/
def Setting.path : Setting → Toml.KeyPath
  | logLevel => [utf8 "log_level"]
  | dump => [utf8 "asm", utf8 "dump"]
  | maxSteps => [utf8 "sim", utf8 "max_steps"]
  | device => [utf8 "download", utf8 "device"]
  | baud => [utf8 "download", utf8 "baud"]
  | responseTimeout => [utf8 "download", utf8 "response_timeout"]

namespace Settings

/-! ## Names -/

/-- The names of the sections. -/
def sectionNames : List Text := [utf8 "asm", utf8 "sim", utf8 "download"]

/-- Whether two paths are the same without regard to case. -/
def SamePath : Toml.KeyPath → Toml.KeyPath → Prop := List.Forall₂ fun a b => sameName a b = true

/-- Names are the same if their characters are, up to case. -/
theorem sameName_iff {a b : Text} :
    sameName a b = true ↔ a.runes.map foldRune = b.runes.map foldRune := beq_iff_eq

/-- Two names that a key has are the same. -/
theorem sameName_of_key {a b key : Text} (ha : sameName a key = true) (hb : sameName b key = true) :
    sameName a b = true := by
  rw [sameName_iff] at *
  rw [ha, hb]

/-- Among names that differ, a key stands for what it has the name of. -/
theorem named?_eq_some_iff {α : Type} {names : List (Text × α)}
    (hnames : names.Pairwise fun a b => sameName a.1 b.1 = false) {key : Text} {a : α} :
    named? names key = some a ↔ ∃ name, (name, a) ∈ names ∧ sameName name key = true := by
  induction names with
  | nil => simp [named?]
  | cons entry rest ih =>
    obtain ⟨name, x⟩ := entry
    obtain ⟨hfirst, hrest⟩ := List.pairwise_cons.1 hnames
    cases hsame : sameName name key with
    | true =>
      -- the names differ, so no later one has this key too
      have hnone : ∀ other, (other, a) ∈ rest → sameName other key = true → False := by
        intro other hmem hother
        have := hfirst _ hmem
        simp [sameName_of_key hsame hother] at this
      have hfind : named? ((name, x) :: rest) key = some x := by simp [named?, hsame]
      rw [hfind]
      constructor
      · rintro ⟨⟩
        exact ⟨name, List.mem_cons_self, hsame⟩
      · rintro ⟨other, hmem, hother⟩
        obtain hmem | hmem := List.mem_cons.1 hmem
        · rw [Prod.mk.inj hmem |>.2]
        · exact (hnone other hmem hother).elim
    | false =>
      have hskip : named? ((name, x) :: rest) key = named? rest key := by simp [named?, hsame]
      rw [hskip, ih hrest]
      constructor
      · rintro ⟨other, hmem, hother⟩
        exact ⟨other, List.mem_cons_of_mem _ hmem, hother⟩
      · rintro ⟨other, hmem, hother⟩
        obtain hmem | hmem := List.mem_cons.1 hmem
        · rw [(Prod.mk.inj hmem).1, hsame] at hother
          exact absurd hother (by simp)
        · exact ⟨other, hmem, hother⟩

theorem topNames_pairwise : topNames.Pairwise fun a b => sameName a.1 b.1 = false :=
  List.pairwise_singleton _ _

theorem sections_pairwise : sections.Pairwise fun a b => sameName a.1 b.1 = false := by
  decide +kernel

theorem names_pairwise : ∀ entry ∈ sections,
    entry.2.Pairwise fun a b => sameName a.1 b.1 = false := by
  decide +kernel

/-- The paths of settings are those of the sections with their names. -/
theorem path_eq_pair_iff {x : Setting} {outer name : Text} :
    x.path = [outer, name] ↔ ∃ names, (outer, names) ∈ sections ∧ (name, x) ∈ names := by
  constructor
  · intro h
    cases x with
    | logLevel => cases h
    | dump => cases h; exact ⟨_, .head _, .head _⟩
    | maxSteps => cases h; exact ⟨_, .tail _ (.head _), .head _⟩
    | device => cases h; exact ⟨_, .tail _ (.tail _ (.head _)), .head _⟩
    | baud => cases h; exact ⟨_, .tail _ (.tail _ (.head _)), .tail _ (.head _)⟩
    | responseTimeout =>
      cases h
      exact ⟨_, .tail _ (.tail _ (.head _)), .tail _ (.tail _ (.head _))⟩
  · rintro ⟨names, hmem, hname⟩
    simp only [sections, List.mem_cons, Prod.mk.injEq, List.not_mem_nil, or_false] at hmem
    obtain ⟨rfl, rfl⟩ | ⟨rfl, rfl⟩ | ⟨rfl, rfl⟩ := hmem
    · obtain ⟨rfl, rfl⟩ : name = _ ∧ x = _ := by simpa using hname
      rfl
    · obtain ⟨rfl, rfl⟩ : name = _ ∧ x = _ := by simpa using hname
      rfl
    · simp only [List.mem_cons, Prod.mk.injEq, List.not_mem_nil, or_false] at hname
      obtain ⟨rfl, rfl⟩ | ⟨rfl, rfl⟩ | ⟨rfl, rfl⟩ := hname
      · rfl
      · rfl
      · rfl

/-! ## Values -/

/-- The text that a value gives a duration by. -/
def spelling : Toml.Value → Option Text
  | .text t => some t
  | .integer n => some (Text.signedDecimal n)
  | _ => none

/-- Whether settings have the value that a document gives a setting. -/
def Shows (s : Settings) : Setting → Toml.Value → Prop
  | .logLevel, v => v = .text s.logLevel
  | .dump, v => v = .boolean s.dump
  | .maxSteps, v => v = .integer s.maxSteps
  | .device, v => v = .text s.device
  | .baud, v => v = .integer s.baud
  | .responseTimeout, v => ∃ t, spelling v = some t ∧ Duration.parse t = .ok s.responseTimeout

/-- A duration in its printed form is given as itself: no other duration has this text. -/
theorem shows_text_iff {s : Settings} {d : Duration} (hd : d.InRange) :
    Shows s .responseTimeout (.text d.text) ↔ s.responseTimeout = d := by
  have hparse := Duration.parse_text hd
  constructor
  · rintro ⟨t, ht, hs⟩
    obtain rfl := Option.some.inj ht
    exact Except.ok.inj (hs.symm.trans hparse)
  · rintro rfl
    exact ⟨_, rfl, hparse⟩

/-- Whether settings agree at a setting. -/
def Agrees (s s' : Settings) : Setting → Prop
  | .logLevel => s.logLevel = s'.logLevel
  | .dump => s.dump = s'.dump
  | .maxSteps => s.maxSteps = s'.maxSteps
  | .device => s.device = s'.device
  | .baud => s.baud = s'.baud
  | .responseTimeout => s.responseTimeout = s'.responseTimeout

/-- Settings with one setting taken from others. -/
def take (s s' : Settings) : Setting → Settings
  | .logLevel => { s with logLevel := s'.logLevel }
  | .dump => { s with dump := s'.dump }
  | .maxSteps => { s with maxSteps := s'.maxSteps }
  | .device => { s with device := s'.device }
  | .baud => { s with baud := s'.baud }
  | .responseTimeout => { s with responseTimeout := s'.responseTimeout }

theorem eq_of_agrees {s s' : Settings} (h : ∀ x, s.Agrees s' x) : s = s' := by
  cases s
  cases s'
  simp only [mk.injEq]
  exact ⟨h .logLevel, h .dump, h .maxSteps, h .device, h .baud, h .responseTimeout⟩

theorem Agrees.trans {s₁ s₂ s₃ : Settings} {x : Setting} (h₁ : s₁.Agrees s₂ x)
    (h₂ : s₂.Agrees s₃ x) : s₁.Agrees s₃ x := by
  cases x <;> exact Eq.trans h₁ h₂

theorem Agrees.symm {s s' : Settings} {x : Setting} (h : s.Agrees s' x) : s'.Agrees s x := by
  cases x <;> exact Eq.symm h

theorem Agrees.shows {s s' : Settings} {x : Setting} (h : s.Agrees s' x) {v : Toml.Value}
    (hs : s.Shows x v) : s'.Shows x v := by
  cases x <;> simp_all [Agrees, Shows]

theorem agrees_take (s s' : Settings) (x : Setting) : (s.take s' x).Agrees s' x := by
  cases x <;> rfl

theorem agrees_take_of_ne (s s' : Settings) {x y : Setting} (h : y ≠ x) :
    (s.take s' x).Agrees s y := by
  cases x <;> cases y <;> first | rfl | exact absurd rfl h

theorem timeout_eq_ok_iff {v : Toml.Value} {d : Duration} :
    timeout v = .ok d ↔ ∃ t, spelling v = some t ∧ Duration.parse t = .ok d := by
  have htext : ∀ t, timeoutText t = .ok d ↔ Duration.parse t = .ok d := by
    intro t
    unfold timeoutText
    cases Duration.parse t <;> simp
  cases v <;> simp [timeout, spelling, htext]

/-- Setting a setting takes its value and leaves the others as they are. -/
theorem set_eq_ok_iff {s s' : Settings} {x : Setting} {v : Toml.Value} :
    s.set x v = .ok s' ↔ s'.Shows x v ∧ ∀ y, y ≠ x → s'.Agrees s y := by
  -- the result is the old settings with the one setting taken from it, so it is determined
  have hset : s.set x v = .ok s' ↔ s'.Shows x v ∧ s' = s.take s' x := by
    cases x with
    | responseTimeout =>
      rw [set, map_eq_ok_iff]
      simp only [timeout_eq_ok_iff, Shows, take]
      constructor
      · rintro ⟨d, hd, rfl⟩
        exact ⟨hd, rfl⟩
      · rintro ⟨hd, hs⟩
        exact ⟨s'.responseTimeout, hd, hs.symm⟩
    | _ =>
      cases v <;> simp only [set, Shows, take, Except.ok.injEq, reduceCtorEq, false_and,
        Toml.Value.text.injEq, Toml.Value.boolean.injEq, Toml.Value.integer.injEq]
      constructor
      · rintro rfl
        exact ⟨rfl, rfl⟩
      · rintro ⟨rfl, hs⟩
        exact hs.symm
  rw [hset]
  refine and_congr_right fun _ => ⟨fun hs y hy => ?_, fun h => eq_of_agrees fun y => ?_⟩
  · rw [hs]
    exact agrees_take_of_ne s s' hy
  · by_cases hy : y = x
    · exact hy ▸ (agrees_take s s' x).symm
    · exact (h y hy).trans (agrees_take_of_ne s s' hy).symm

/-- Sets several settings, in order. -/
def setEach (s : Settings) (given : List (Setting × Toml.Value)) :
    Except SettingsError Settings :=
  given.foldlM (fun s entry => s.set entry.1 entry.2) s

theorem setEach_cons (s : Settings) (x : Setting) (v : Toml.Value)
    (rest : List (Setting × Toml.Value)) :
    s.setEach ((x, v) :: rest) = s.set x v >>= fun s => s.setEach rest := List.foldlM_cons

theorem setEach_append (s : Settings) (first second : List (Setting × Toml.Value)) :
    s.setEach (first ++ second) = s.setEach first >>= fun s => s.setEach second :=
  List.foldlM_append

/-- Setting several settings, each of them once, takes all values, and leaves the other settings as
they are. -/
theorem setEach_eq_ok_iff {given : List (Setting × Toml.Value)} {s s' : Settings}
    (hgiven : (given.map Prod.fst).Nodup) :
    s.setEach given = .ok s' ↔
      (∀ x v, (x, v) ∈ given → s'.Shows x v) ∧ ∀ y, y ∉ given.map Prod.fst → s'.Agrees s y := by
  induction given generalizing s with
  | nil =>
    have hpure : s.setEach [] = .ok s' ↔ s = s' := ⟨Except.ok.inj, congrArg _⟩
    simp only [hpure, List.not_mem_nil, false_imp_iff, implies_true, true_and,
      List.map_nil, not_false_eq_true, forall_const]
    constructor
    · rintro rfl y
      cases y <;> rfl
    · intro h
      exact (eq_of_agrees h).symm
  | cons entry rest ih =>
    obtain ⟨x, v⟩ := entry
    obtain ⟨hx, hrest⟩ := List.nodup_cons.1 hgiven
    rw [setEach_cons, bind_eq_ok_iff]
    simp only [set_eq_ok_iff, ih hrest]
    constructor
    · rintro ⟨s₁, ⟨hshows, hothers⟩, hall, hkept⟩
      refine ⟨fun y w hmem => ?_, fun y hy => ?_⟩
      · obtain hmem | hmem := List.mem_cons.1 hmem
        · obtain ⟨rfl, rfl⟩ := Prod.mk.inj hmem
          exact (hkept y hx).symm.shows hshows
        · exact hall y w hmem
      · obtain ⟨hne, hmem⟩ := not_or.1 (mt List.mem_cons.2 hy)
        exact (hkept y hmem).trans (hothers y hne)
    · -- Between the first value and the others stand the settings with only the first one taken.
      rintro ⟨hall, hkept⟩
      refine ⟨s.take s' x, ⟨?_, fun y hy => agrees_take_of_ne s s' hy⟩,
        fun y w hmem => hall y w (List.mem_cons_of_mem _ hmem), fun y hy => ?_⟩
      · exact (agrees_take s s' x).symm.shows (hall x v List.mem_cons_self)
      · by_cases hyx : y = x
        · exact hyx ▸ (agrees_take s s' x).symm
        · have hout : y ∉ ((x, v) :: rest).map Prod.fst := by simp_all
          exact (hkept y hout).trans (agrees_take_of_ne s s' hyx).symm

/-! ## What a document gives -/

/-- Whether a document gives a setting a value. -/
def Gives (root : Toml.Table) (x : Setting) (v : Toml.Value) : Prop :=
  ∃ keys, SamePath x.path keys ∧ root.Holds keys v

/-- Whether settings have what a document gives, and are as the defaults elsewhere. -/
structure Overlays (root : Toml.Table) (s : Settings) : Prop where
  given : ∀ x v, Gives root x v → s.Shows x v
  kept : ∀ x, (∀ v, ¬Gives root x v) → s.Agrees {} x

/-- Whether the sections of a document are tables. -/
def SectionsAreTables (root : Toml.Table) : Prop :=
  ∀ key v, (key, v) ∈ root → ∀ name ∈ sectionNames, sameName name key = true → ∃ t, v = .table t

/-- Whether no two keys of a table have the same one of the names. -/
def Apart (names : List Text) (t : Toml.Table) : Prop :=
  t.Pairwise fun a b => ∀ name ∈ names, ¬(sameName name a.1 = true ∧ sameName name b.1 = true)

/-- Whether no two keys at the top, or in a section, stand for the same section or setting. -/
structure Unambiguous (root : Toml.Table) : Prop where
  top : Apart (utf8 "log_level" :: sectionNames) root
  inner : ∀ key t, (key, .table t) ∈ root → ∀ outer names, (outer, names) ∈ sections →
    sameName outer key = true → Apart (names.map Prod.fst) t

/-- The settings that the entries of a section give, in order. -/
def entrySettings (names : List (Text × Setting)) (t : Toml.Table) :
    List (Setting × Toml.Value) :=
  t.filterMap fun entry => (named? names entry.1).map (·, entry.2)

/-- The settings that an entry at the top gives, in order. -/
def topSettings (entry : Text × Toml.Value) : List (Setting × Toml.Value) :=
  match named? topNames entry.1, named? sections entry.1, entry.2 with
  | some x, _, v => [(x, v)]
  | none, some names, .table t => entrySettings names t
  | none, _, _ => []

/-- The settings that a document gives, in order. -/
def assignments (root : Toml.Table) : List (Setting × Toml.Value) := root.flatMap topSettings

/-- Setting the entries of a section is setting what they give, in order. -/
theorem setAll_eq (names : List (Text × Setting)) (s : Settings) (t : Toml.Table) :
    s.setAll names t = s.setEach (entrySettings names t) := by
  induction t generalizing s with
  | nil => rfl
  | cons entry rest ih =>
    obtain ⟨key, v⟩ := entry
    cases hnamed : named? names key with
    | none =>
      have hskip : entrySettings names ((key, v) :: rest) = entrySettings names rest := by
        simp [entrySettings, hnamed]
      rw [hskip, ← ih]
      simp only [setAll, List.foldlM_cons, hnamed, ok_bind]
    | some x =>
      have htake : entrySettings names ((key, v) :: rest) = (x, v) :: entrySettings names rest := by
        simp [entrySettings, hnamed]
      rw [htake, setEach_cons, ← funext ih]
      simp only [setAll, List.foldlM_cons, hnamed]

/-- There is one setting outside of any section. -/
theorem named?_topNames_iff {key : Text} {x : Setting} :
    named? topNames key = some x ↔ x.path = [utf8 "log_level"] ∧
      sameName (utf8 "log_level") key = true := by
  have hpath : x.path = [utf8 "log_level"] ↔ x = .logLevel := by
    cases x <;> simp [Setting.path]
  rw [named?_eq_some_iff topNames_pairwise, hpath]
  simp [topNames]

/-- A key stands for a section if it has its name. -/
theorem isSome_named?_sections {key : Text} :
    (named? sections key).isSome ↔ ∃ name ∈ sectionNames, sameName name key = true := by
  have hnames : sectionNames = sections.map Prod.fst := rfl
  simp [named?, hnames]

/-- A key has the name of a section or of a setting outside of any section, not both. -/
theorem named?_topNames_of_section {key name : Text} (hname : name ∈ sectionNames)
    (h : sameName name key = true) : named? topNames key = none := by
  have hapart : ∀ name ∈ sectionNames, sameName (utf8 "log_level") name = false := by
    decide +kernel
  refine Option.eq_none_iff_forall_ne_some.2 fun x hx => ?_
  have hsame := sameName_of_key (named?_topNames_iff.1 hx).2 h
  simp [hapart name hname] at hsame

/-- An entry at the top sets what it gives, unless it is a section and no table. -/
theorem setTop_eq_ok_iff {s s' : Settings} {key : Text} {v : Toml.Value} :
    s.setTop key v = .ok s' ↔
      (∀ name ∈ sectionNames, sameName name key = true → ∃ t, v = .table t) ∧
      s.setEach (topSettings (key, v)) = .ok s' := by
  cases htop : named? topNames key with
  | some x =>
    -- a key for the setting at the top is no section, so there is no condition on it
    have hsection : ∀ name ∈ sectionNames, sameName name key = true → ∃ t, v = .table t :=
      fun name hname h => by simp [named?_topNames_of_section hname h] at htop
    simp only [setTop, topSettings, htop]
    rw [setEach_cons]
    simp only [setEach, List.foldlM_nil, bind_pure]
    exact ⟨fun h => ⟨hsection, h⟩, fun h => h.2⟩
  | none =>
    cases hsection : named? sections key with
    | none =>
      have hno : ∀ name ∈ sectionNames, sameName name key = true → ∃ t, v = .table t :=
        fun name hname h => by
          have := isSome_named?_sections.2 ⟨name, hname, h⟩
          simp [hsection] at this
      simp only [setTop, topSettings, htop, hsection]
      exact ⟨fun h => ⟨hno, h⟩, fun h => h.2⟩
    | some names =>
      obtain ⟨name, hname, hsame⟩ := isSome_named?_sections.1 (by rw [hsection]; rfl)
      cases v with
      | table t => simp [setTop, topSettings, htop, hsection, setAll_eq]
      -- a section that is no table is refused, and the condition fails too
      | _ =>
        simp only [setTop, htop, hsection, reduceCtorEq, false_iff, not_and]
        intro h
        obtain ⟨t, ht⟩ := h name hname hsame
        cases ht

/-- Decoding is setting what the document gives, in order, if the sections are tables. -/
theorem decode_eq_ok_iff_setEach {root : Toml.Table} {s : Settings} :
    decode root = .ok s ↔ SectionsAreTables root ∧
      ({} : Settings).setEach (assignments root) = .ok s := by
  unfold decode
  -- for the induction, the settings at the start may be any
  generalize ({} : Settings) = s₀
  induction root generalizing s₀ with
  | nil => simp [assignments, SectionsAreTables, setEach]
  | cons entry rest ih =>
    obtain ⟨key, v⟩ := entry
    have hsections : SectionsAreTables ((key, v) :: rest) ↔
        (∀ name ∈ sectionNames, sameName name key = true → ∃ t, v = .table t) ∧
          SectionsAreTables rest := by
      simp [SectionsAreTables, or_imp, forall_and]
    rw [List.foldlM_cons, bind_eq_ok_iff, hsections]
    simp only [setTop_eq_ok_iff, ih, assignments, List.flatMap_cons, setEach_append,
      bind_eq_ok_iff]
    constructor
    · rintro ⟨s₁, ⟨hkey, hfirst⟩, hrest, hothers⟩
      exact ⟨⟨hkey, hrest⟩, s₁, hfirst, hothers⟩
    · rintro ⟨⟨hkey, hrest⟩, s₁, hfirst, hothers⟩
      exact ⟨s₁, ⟨hkey, hfirst⟩, hrest, hothers⟩

/-! ## Each setting once -/

theorem path_cases (x : Setting) :
    x.path = [utf8 "log_level"] ∨ ∃ outer name, x.path = [outer, name] := by
  cases x <;> simp [Setting.path]

theorem mem_entrySettings {outer : Text} {names : List (Text × Setting)}
    (hnames : (outer, names) ∈ sections) {t : Toml.Table} {x : Setting} {v : Toml.Value} :
    (x, v) ∈ entrySettings names t ↔
      ∃ name, (name, x) ∈ names ∧ ∃ key, sameName name key = true ∧ (key, v) ∈ t := by
  have hmem : (x, v) ∈ entrySettings names t ↔ ∃ key, (key, v) ∈ t ∧ named? names key = some x := by
    simp [entrySettings]
  rw [hmem]
  simp only [named?_eq_some_iff (names_pairwise _ hnames)]
  constructor
  · rintro ⟨key, hkey, name, hname, hsame⟩
    exact ⟨name, hname, key, hsame, hkey⟩
  · rintro ⟨name, hname, key, hsame, hkey⟩
    exact ⟨key, hkey, name, hname, hsame⟩

theorem mem_sectionNames_of_path {x : Setting} {outer name : Text} (h : x.path = [outer, name]) :
    outer ∈ sectionNames := by
  obtain ⟨names, hmem, -⟩ := path_eq_pair_iff.1 h
  exact List.mem_map_of_mem (f := Prod.fst) hmem

/-- What an entry at the top gives: a setting of its name, or the settings of its section. -/
theorem mem_topSettings {key : Text} {w v : Toml.Value} {x : Setting} :
    (x, v) ∈ topSettings (key, w) ↔
      (x.path = [utf8 "log_level"] ∧ sameName (utf8 "log_level") key = true ∧ v = w) ∨
      ∃ outer name, x.path = [outer, name] ∧ sameName outer key = true ∧
        ∃ t, w = .table t ∧ ∃ inner, sameName name inner = true ∧ (inner, v) ∈ t := by
  cases htop : named? topNames key with
  | some y =>
    obtain ⟨hpath, hsame⟩ := named?_topNames_iff.1 htop
    simp only [topSettings, htop, List.mem_singleton, Prod.mk.injEq]
    constructor
    · rintro ⟨rfl, rfl⟩
      exact .inl ⟨hpath, hsame, rfl⟩
    · rintro (⟨hx, -, rfl⟩ | ⟨outer, name, hx, houter, -⟩)
      · have hnamed := named?_topNames_iff.2 ⟨hx, hsame⟩
        exact ⟨Option.some.inj (hnamed.symm.trans htop), rfl⟩
      · simp [named?_topNames_of_section (mem_sectionNames_of_path hx) houter] at htop
  | none =>
    have hlevel : ¬(x.path = [utf8 "log_level"] ∧ sameName (utf8 "log_level") key = true ∧
        v = w) := by
      rintro ⟨hx, hsame, -⟩
      simp [named?_topNames_iff.2 ⟨hx, hsame⟩] at htop
    -- the key is not that of the setting at the top, so only the second case can hold
    rw [or_iff_right hlevel]
    cases hsection : named? sections key with
    | none =>
      simp only [topSettings, htop, hsection, List.not_mem_nil, false_iff]
      rintro ⟨outer, name, hx, houter, -⟩
      have := isSome_named?_sections.2 ⟨outer, mem_sectionNames_of_path hx, houter⟩
      simp [hsection] at this
    | some names =>
      obtain ⟨outer, hmem, hsame⟩ := (named?_eq_some_iff sections_pairwise).1 hsection
      cases w with
      | table t =>
        simp only [topSettings, htop, hsection, mem_entrySettings hmem]
        constructor
        · rintro ⟨name, hname, inner, hinner⟩
          exact ⟨outer, name, path_eq_pair_iff.2 ⟨names, hmem, hname⟩, hsame, t, rfl, inner, hinner⟩
        · rintro ⟨outer', name, hx, houter', t', ht, inner, hinner⟩
          cases ht
          obtain ⟨names', hmem', hname⟩ := path_eq_pair_iff.1 hx
          have hnames := (named?_eq_some_iff sections_pairwise).2 ⟨outer', hmem', houter'⟩
          -- a key stands for one section, so both have the same names
          obtain rfl : names = names' := Option.some.inj (hsection.symm.trans hnames)
          exact ⟨name, hname, inner, hinner⟩
      | _ => simp [topSettings, htop, hsection]

/-- The list has what the document gives. -/
theorem gives_iff {root : Toml.Table} {x : Setting} {v : Toml.Value} :
    Gives root x v ↔ (x, v) ∈ assignments root := by
  simp only [assignments, List.mem_flatMap, Prod.exists, mem_topSettings]
  constructor
  · rintro ⟨keys, hsame, hholds⟩
    obtain hx | ⟨outer, name, hx⟩ := path_cases x
    · rw [hx] at hsame
      obtain ⟨key, rest, hkey, hrest, rfl⟩ := List.forall₂_cons_left_iff.1 hsame
      obtain rfl := List.forall₂_nil_left_iff.1 hrest
      exact ⟨key, v, hholds, .inl ⟨hx, hkey, rfl⟩⟩
    · rw [hx] at hsame
      obtain ⟨key, rest, hkey, hrest, rfl⟩ := List.forall₂_cons_left_iff.1 hsame
      obtain ⟨inner, rest', hinner, hrest', rfl⟩ := List.forall₂_cons_left_iff.1 hrest
      obtain rfl := List.forall₂_nil_left_iff.1 hrest'
      obtain ⟨t, ht, hv⟩ := hholds
      exact ⟨key, .table t, ht, .inr ⟨outer, name, hx, hkey, t, rfl, inner, hinner, hv⟩⟩
  · rintro ⟨key, w, hmem, ⟨hx, hkey, rfl⟩ | ⟨outer, name, hx, hkey, t, rfl, inner, hinner, hv⟩⟩
    · exact ⟨[key], by rw [hx]; exact .cons hkey .nil, hmem⟩
    · exact ⟨[key, inner], by rw [hx]; exact .cons hkey (.cons hinner .nil), t, hmem, hv⟩

/-- The entries of a section give each setting once. -/
theorem nodup_entrySettings {outer : Text} {names : List (Text × Setting)}
    (hnames : (outer, names) ∈ sections) {t : Toml.Table} (h : Apart (names.map Prod.fst) t) :
    ((entrySettings names t).map Prod.fst).Nodup := by
  have hmap : (entrySettings names t).map Prod.fst =
      t.filterMap fun entry => named? names entry.1 := by
    simp [entrySettings, List.map_filterMap, Function.comp_def]
  rw [hmap, List.Nodup, List.pairwise_filterMap]
  refine h.imp fun {a b} hab x hx y hy hxy => ?_
  obtain ⟨name, hmem, hsame⟩ := (named?_eq_some_iff (names_pairwise _ hnames)).1 hx
  obtain ⟨name', hmem', hsame'⟩ := (named?_eq_some_iff (names_pairwise _ hnames)).1 hy
  have hpath := path_eq_pair_iff.2 ⟨names, hnames, hmem⟩
  have hpath' := path_eq_pair_iff.2 ⟨names, hnames, hmem'⟩
  obtain rfl : name = name' := by simpa [← hxy, hpath] using hpath'
  exact hab name (List.mem_map_of_mem (f := Prod.fst) hmem) ⟨hsame, hsame'⟩

/-- One entry at the top gives each setting once. -/
theorem nodup_topSettings {root : Toml.Table} (h : Unambiguous root)
    {entry : Text × Toml.Value} (hentry : entry ∈ root) :
    ((topSettings entry).map Prod.fst).Nodup := by
  obtain ⟨key, w⟩ := entry
  unfold topSettings
  split
  case h_1 => simp
  case h_2 _ names t _ hsection hw =>
    obtain rfl : w = .table t := hw
    obtain ⟨outer, hmem, hsame⟩ := (named?_eq_some_iff sections_pairwise).1 hsection
    exact nodup_entrySettings hmem (h.inner key t hentry outer names hmem hsame)
  case h_3 => simp

/-- A setting is given by entries of one name at the top. -/
theorem exists_name_of_mem_topSettings {entry : Text × Toml.Value} {x : Setting} {v : Toml.Value}
    (h : (x, v) ∈ topSettings entry) : ∃ name ∈ utf8 "log_level" :: sectionNames,
      x.path.head? = some name ∧ sameName name entry.1 = true := by
  obtain ⟨hx, hsame, -⟩ | ⟨outer, name, hx, hsame, -⟩ := mem_topSettings.1 h
  · exact ⟨_, List.mem_cons_self, by rw [hx]; rfl, hsame⟩
  · exact ⟨outer, List.mem_cons_of_mem _ (mem_sectionNames_of_path hx), by rw [hx]; rfl, hsame⟩

/-- A document gives each setting once, if no two keys stand for the same. -/
theorem nodup_assignments {root : Toml.Table} (h : Unambiguous root) :
    ((assignments root).map Prod.fst).Nodup := by
  rw [assignments, List.map_flatMap, List.nodup_flatMap]
  refine ⟨fun entry hentry => nodup_topSettings h hentry, h.top.imp fun {a b} hab x ha hb => ?_⟩
  obtain ⟨⟨x, v⟩, hv, rfl⟩ := List.mem_map.1 ha
  obtain ⟨⟨y, w⟩, hw, hxy⟩ := List.mem_map.1 hb
  obtain ⟨name, hname, hhead, hsame⟩ := exists_name_of_mem_topSettings hv
  obtain ⟨name', -, hhead', hsame'⟩ := exists_name_of_mem_topSettings hw
  obtain rfl : y = x := hxy
  obtain rfl : name = name' := Option.some.inj (hhead.symm.trans hhead')
  exact hab name hname ⟨hsame, hsame'⟩

/-- A document decodes to settings exactly when its sections are tables and the settings lie over
the defaults. -/
theorem decode_eq_ok_iff {root : Toml.Table} (h : Unambiguous root) {s : Settings} :
    decode root = .ok s ↔ SectionsAreTables root ∧ Overlays root s := by
  have hgiven : ∀ y, y ∉ (assignments root).map Prod.fst ↔ ∀ v, ¬Gives root y v := by
    simp [gives_iff]
  rw [decode_eq_ok_iff_setEach, setEach_eq_ok_iff (nodup_assignments h)]
  simp only [← gives_iff, hgiven]
  exact and_congr_right fun _ => ⟨fun ⟨hshows, hkept⟩ => ⟨hshows, hkept⟩,
    fun ⟨hshows, hkept⟩ => ⟨hshows, hkept⟩⟩

end Settings

end Glyph8
