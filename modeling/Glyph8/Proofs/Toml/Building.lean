import Mathlib.Data.List.Basic
import Glyph8.Proofs.Toml.Places
import Glyph8.Proofs.Toml.Tables

/-!
# The keys of a document lead to values

While a document is built, each key is noted as it is written and gets its value. Both stay: a noted
key of one or two parts leads to a value in the finished document
(`Document.isSome_find?_of_mem_keys`, `Document.exists_of_mem_keys`). Longer keys are left out, as
there are no settings for them, and as the register of keys may confuse them.

The exception is a table that is lost because its key may be given again: a key that was given an
array, at the top of the document, or one under which an empty key was given one, since the empty
key stands for its table there. `Renewable` names these keys. Which keys are given an array at the
top is known from the statements, so it is a parameter of all that follows.

The construction goes through many small steps, and the order in which keys are noted, tables are
entered and values are written differs between them. `Follows` says what every step keeps: places in
the register, noted keys and keys in tables, and that a key which is noted on the way leads to a
value at the end of the way. It is transitive, so a step is followed through the functions it is
made of. `Writes` and `Returns` are special cases, for steps that only write entries and for those
that come back to where they were. `Sound` is the invariant that the steps need of the builder.

Values are nested, so evaluating them is an induction over literals, with one theorem each for
values, for items of arrays and for entries of tables (`evaluate_returns`). Statements are then
followed one by one (`visit_complete`).
-/

namespace Glyph8.Toml

namespace Builder

variable {given : Text → Prop}

/-! ## What the steps keep -/

/-- Whether a key at the top may be given again. Those that are given an array in statements at the
top are a parameter. -/
def Renewable (given : Text → Prop) (b : Builder) (k : Text) : Prop :=
  given k ∨ ∃ place ∈ b.keys, b.register.Settled place [k, []]

/-- Whether the key at a place leads to a value. -/
def Reached (given : Text → Prop) (b : Builder) (place : Place) : Prop :=
  ∃ path, b.register.Settled place path ∧ b.root.Has (b.Renewable given) path

/-- Whether a builder comes after another one: no key was lost, and every key noted in between leads
to a value. -/
structure Follows (given : Text → Prop) (b b' : Builder) : Prop where
  register : b.register.Grows b'.register
  keys : b.keys ⊆ b'.keys
  root : b.root.Keeps (b'.Renewable given) b'.root
  noted : ∀ place ∈ b'.keys, place ∈ b.keys ∨ b'.Reached given place

/-- Whether only such keys at the top are marked as arrays as may be given again. -/
def Marked (given : Text → Prop) (b : Builder) : Prop :=
  ∀ k, [k] ∈ b.arrays → b.Renewable given k

/-- The invariant of a builder: its current place stands for its current path, and its marks are as
they should be. -/
structure Sound (given : Text → Prop) (b : Builder) : Prop where
  context : b.register.Settled b.context.place b.context.path
  marked : b.Marked given

theorem Renewable.mono {b b' : Builder} {k : Text} (hkeys : b.keys ⊆ b'.keys)
    (hregister : b.register.Grows b'.register) (h : b.Renewable given k) :
    b'.Renewable given k := by
  obtain hgiven | ⟨place, hmem, hplace⟩ := h
  · exact .inl hgiven
  · exact .inr ⟨place, hkeys hmem, hregister _ _ hplace⟩

theorem Follows.renewable {b b' : Builder} (h : Follows given b b') {k : Text}
    (hk : b.Renewable given k) : b'.Renewable given k :=
  hk.mono h.keys h.register

theorem Follows.has {b b' : Builder} (h : Follows given b b') {path : KeyPath}
    (hpath : b.root.Has (b.Renewable given) path) : b'.root.Has (b'.Renewable given) path :=
  hpath.mono h.root fun _ => h.renewable

/-- A key that leads to a value goes on doing so. -/
theorem Follows.reached {b b' : Builder} (h : Follows given b b') {place : Place}
    (hplace : b.Reached given place) : b'.Reached given place := by
  obtain ⟨path, hsettled, hhas⟩ := hplace
  exact ⟨path, h.register _ _ hsettled, h.has hhas⟩

/-- If no array is marked, the marks stay as they should be. -/
theorem Follows.marked {b b' : Builder} (h : Follows given b b') (harrays : b'.arrays = b.arrays)
    (hmarked : b.Marked given) : b'.Marked given :=
  fun k hk => h.renewable (hmarked k (harrays ▸ hk))

theorem Follows.trans {b₁ b₂ b₃ : Builder} (h₁ : Follows given b₁ b₂) (h₂ : Follows given b₂ b₃) :
    Follows given b₁ b₃ where
  register := h₁.register.trans h₂.register
  keys := List.Subset.trans h₁.keys h₂.keys
  root := (h₁.root.mono fun _ => h₂.renewable).trans h₂.root
  noted place hmem := by
    obtain hmem | hreached := h₂.noted place hmem
    · exact (h₁.noted place hmem).imp_right h₂.reached
    · exact .inr hreached

/-- A step that notes no key follows if it keeps the keys in the tables. -/
theorem Follows.of_keys_eq {b b' : Builder} (hregister : b.register.Grows b'.register)
    (hkeys : b'.keys = b.keys) (hroot : b.root.Keeps (b.Renewable given) b'.root) :
    Follows given b b' where
  register := hregister
  keys := hkeys ▸ List.Subset.refl _
  root := hroot.mono fun _ hk => hk.mono (hkeys ▸ List.Subset.refl _) hregister
  noted _ hmem := .inl (hkeys ▸ hmem)

theorem Follows.refl (b : Builder) : Follows given b b :=
  .of_keys_eq (.refl _) rfl (.refl _ _)

/-- Going to another table changes nothing. -/
theorem follows_context (b : Builder) (context : Context) :
    Follows given b { b with context } :=
  .of_keys_eq (.refl _) rfl (.refl _ _)

/-! ## Writing entries -/

/-- Whether two builders differ only by entries that were written, and by which tables are marked
as made for the sake of a longer key. -/
structure Writes (given : Text → Prop) (b b' : Builder) : Prop where
  context : b'.context = b.context
  arrays : b'.arrays = b.arrays
  register : b'.register = b.register
  keys : b'.keys = b.keys
  root : b.root.Keeps (b.Renewable given) b'.root

theorem Writes.follows {b b' : Builder} (h : Writes given b b') : Follows given b b' :=
  .of_keys_eq (h.register ▸ .refl _) h.keys h.root

theorem Writes.refl (b : Builder) : Writes given b b := ⟨rfl, rfl, rfl, rfl, .refl _ _⟩

theorem Writes.trans {b₁ b₂ b₃ : Builder} (h₁ : Writes given b₁ b₂) (h₂ : Writes given b₂ b₃) :
    Writes given b₁ b₃ where
  context := h₂.context.trans h₁.context
  arrays := h₂.arrays.trans h₁.arrays
  register := h₂.register.trans h₁.register
  keys := h₂.keys.trans h₁.keys
  root := h₁.root.trans (h₂.root.mono fun _ hk =>
    hk.mono (h₁.keys ▸ List.Subset.refl _) (h₁.register ▸ .refl _))

/-- Writing an entry of the table at a path. At the top, it matters what was there before. -/
theorem writes_store {b : Builder} {path : KeyPath} {t : Table} (h : b.root.at? path = some t)
    {key : Text} {v : Value}
    (htop : path = [] → ∀ old, t.find? key = some old → b.Renewable given key ∨
      ∀ inner', v ≠ .table inner') :
    Writes given b (b.store path t key v) := by
  refine ⟨rfl, rfl, rfl, rfl, ?_⟩
  cases path with
  | nil =>
    obtain rfl : b.root = t := by simpa [Table.at?] using h
    refine Table.keeps_set fun old hold => ?_
    exact (htop rfl old hold).imp_right fun hne inner' hv => absurd hv (hne inner')
  | cons c rest => exact Table.keeps_replaceAt _ (by simp) h key v

/-- An entry that is written is there. -/
theorem has_store (exempt : Text → Prop) {b : Builder} {path : KeyPath} {t : Table}
    (h : b.root.at? path = some t) (key : Text) (v : Value) :
    (b.store path t key v).root.Has exempt (path ++ [key]) :=
  Table.has_of_at? exempt (Table.at?_replaceAt h _) (by rw [Table.find?_set_self]; rfl)

/-- The ways in which a key can be given a value. -/
theorem setValue_cases {b b' : Builder} {key : Text} {v : Value} (h : b.setValue key v = some b') :
    ∃ t, b.root.at? b.context.path = some t ∧
      (t.find? key = none ∧ b' = b.store b.context.path t key v ∨
      b.context.path ++ [key] ∈ b.arrays ∧
        b' = (b.markExplicit (b.context.path ++ [key])).store b.context.path t key v ∨
      (t.find? key).isSome ∧ b' = b.markExplicit (b.context.path ++ [key])) := by
  obtain ⟨t, ht, h⟩ := Option.bind_eq_some_iff.1 h
  refine ⟨t, ht, ?_⟩
  split at h
  case isTrue habsent => exact .inl ⟨by simpa using habsent, (Option.some.inj h).symm⟩
  case isFalse hpresent =>
    split at h
    case isTrue harray => exact .inr (.inl ⟨by simpa using harray, (Option.some.inj h).symm⟩)
    case isFalse =>
      split at h
      case isTrue => exact .inr (.inr ⟨by simpa [Option.isSome_iff_ne_none] using hpresent,
        (Option.some.inj h).symm⟩)
      case isFalse => exact absurd h (by simp)

/-- A key that is given a value has one. -/
theorem setValue_writes {b b' : Builder} {key : Text} {v : Value} (hb : b.Marked given)
    (h : b.setValue key v = some b') :
    Writes given b b' ∧ b'.root.Has (b'.Renewable given) (b.context.path ++ [key]) := by
  obtain ⟨t, ht, ⟨habsent, rfl⟩ | ⟨harray, rfl⟩ | ⟨hpresent, rfl⟩⟩ := setValue_cases h
  · exact ⟨writes_store ht fun _ old hold => by simp [habsent] at hold, has_store _ ht key v⟩
  · have hmark : Writes given b (b.markExplicit (b.context.path ++ [key])) :=
      ⟨rfl, rfl, rfl, rfl, .refl _ _⟩
    refine ⟨hmark.trans (writes_store (b := b.markExplicit _) ht fun htop _ _ => .inl ?_),
      has_store (b := b.markExplicit _) _ ht key v⟩
    rw [htop] at harray
    exact hb key harray
  · exact ⟨⟨rfl, rfl, rfl, rfl, .refl _ _⟩, Table.has_of_at? _ ht hpresent⟩

/-- The tables that a key goes through are made if they are not there. -/
theorem makeParents_writes {b b' : Builder} {done rest : KeyPath}
    (h : b.makeParents done rest = some b') : Writes given b b' := by
  induction rest generalizing b done with
  | nil =>
    obtain rfl : b = b' := by simpa [makeParents] using h
    exact .refl b
  | cons k rest ih =>
    obtain ⟨t, ht, h⟩ := Option.bind_eq_some_iff.1 h
    cases hfind : t.find? k with
    | none =>
      simp only [hfind] at h
      have hmark : Writes given b (b.markImplicit (done ++ [k])) := ⟨rfl, rfl, rfl, rfl, .refl _ _⟩
      have hstore : Writes given (b.markImplicit (done ++ [k]))
          ((b.markImplicit (done ++ [k])).store done t k (.table [])) :=
        writes_store (b := b.markImplicit _) ht fun _ old hold => by simp [hfind] at hold
      exact (hmark.trans hstore).trans (ih h)
    | some v =>
      simp only [hfind] at h
      split at h
      -- a table that is there is passed through
      case isTrue => exact ih h
      case isFalse => exact absurd h (by simp)

/-- One more table of an array is made, and the array is there. -/
theorem addElement_writes {b b' : Builder} {parents : KeyPath} {key : Text}
    (h : b.addElement parents key = some b') :
    Writes given b b' ∧ b'.root.Has (b'.Renewable given) (parents ++ [key]) := by
  obtain ⟨t, ht, h⟩ := Option.bind_eq_some_iff.1 h
  -- Both ways, what is written is no single table.
  obtain ⟨elements, rfl⟩ : ∃ elements, b' = b.store parents t key (.tables elements) := by
    split at h
    case h_1 => exact ⟨_, (Option.some.inj h).symm⟩
    case h_2 elements _ => exact ⟨_, (Option.some.inj h).symm⟩
    case h_3 => exact absurd h (by simp)
  exact ⟨writes_store ht fun _ _ _ => .inr fun _ => nofun, has_store _ ht key _⟩

/-! ## Entering tables -/

theorem enter_eq (b : Builder) (path : KeyPath) (repeated : Bool) :
    b.enter path repeated = path.getLast?.bind fun key =>
      (b.makeParents [] path.dropLast).bind fun b₁ =>
      (if repeated then b₁.addElement path.dropLast key
        else ({ b₁ with context := { path := path.dropLast } } : Builder).setValue key
          (.table [])).bind fun b₂ =>
      some { b₂ with
        context := ⟨path, (b₂.register.addTable path).1⟩
        register := (b₂.register.addTable path).2 } := by
  cases repeated <;> rfl

/-- The table that is entered is there, and the builder is at it. -/
theorem enter_sound {b b' : Builder} {path : KeyPath} {repeated : Bool} (hb : b.Marked given)
    (h : b.enter path repeated = some b') :
    Follows given b b' ∧ b'.Sound given ∧ b'.context.path = path ∧
      b'.root.Has (b'.Renewable given) path := by
  rw [enter_eq] at h
  obtain ⟨key, hkey, h⟩ := Option.bind_eq_some_iff.1 h
  obtain ⟨b₁, hparents, h⟩ := Option.bind_eq_some_iff.1 h
  obtain ⟨b₂, hmade, h⟩ := Option.bind_eq_some_iff.1 h
  have hpath : path.dropLast ++ [key] = path := List.dropLast_append_getLast? key hkey
  have hne : path ≠ [] := by rw [← hpath]; simp
  have h₁ : Writes given b b₁ := makeParents_writes hparents
  have hmarked₁ := h₁.follows.marked h₁.arrays hb
  -- the table is made as one more element of an array, or as the value of its key
  have h₂ : Follows given b₁ b₂ ∧ b₂.arrays = b₁.arrays ∧
      b₂.root.Has (b₂.Renewable given) path := by
    rw [← hpath]
    split at hmade
    case isTrue =>
      have hwrites : Writes given b₁ b₂ ∧ _ := addElement_writes hmade
      exact ⟨hwrites.1.follows, hwrites.1.arrays, hwrites.2⟩
    case isFalse =>
      have hwrites : Writes given { b₁ with context := { path := path.dropLast } } b₂ ∧ _ :=
        setValue_writes hmarked₁ hmade
      exact ⟨(follows_context b₁ _).trans hwrites.1.follows, hwrites.1.arrays, hwrites.2⟩
  obtain ⟨hfollows₂, harrays₂, hhas₂⟩ := h₂
  obtain rfl := Option.some.inj h
  -- being at a table changes the register only
  have hfollows : Follows given b₂ { b₂ with
      context := ⟨path, (b₂.register.addTable path).1⟩
      register := (b₂.register.addTable path).2 } :=
    .of_keys_eq (b₂.register.grows_addRow _ _) rfl (.refl _ _)
  refine ⟨(h₁.follows.trans hfollows₂).trans hfollows, ⟨b₂.register.settled_addTable hne, ?_⟩, rfl,
    hfollows.has hhas₂⟩
  exact hfollows.marked rfl (hfollows₂.marked harrays₂ hmarked₁)

/-- A new name behind the current table in the register disturbs nothing. -/
theorem addStem_sound {b : Builder} (hb : b.Sound given) (name : Text) :
    Follows given b (b.addStem name).2 ∧ (b.addStem name).2.Sound given ∧
      (b.addStem name).2.register.Settled (b.addStem name).1 (b.context.path ++ [name]) := by
  have hgrows : b.register.Grows (b.addStem name).2.register :=
    b.register.grows_extend hb.context name _
  have hfollows : Follows given b (b.addStem name).2 := .of_keys_eq hgrows rfl (.refl _ _)
  exact ⟨hfollows, ⟨hgrows _ _ hb.context, hfollows.marked rfl hb.marked⟩,
    b.register.settled_addStem hb.context name⟩

/-- Entering a table right below the current one, which is registered before. -/
theorem enter_below_sound {b b' : Builder} {name : Text} {repeated : Bool} (hb : b.Sound given)
    (h : ((b.addStem name).2.markImplicit (b.context.path ++ [name])).enter
      (b.context.path ++ [name]) repeated = some b') :
    Follows given b b' ∧ b'.Sound given ∧ b'.context.path = b.context.path ++ [name] ∧
      b'.register.Settled (b.addStem name).1 (b.context.path ++ [name]) := by
  obtain ⟨hstem, hsound, hplace⟩ := addStem_sound hb name
  have hmark : Follows given (b.addStem name).2
      ((b.addStem name).2.markImplicit (b.context.path ++ [name])) :=
    .of_keys_eq (.refl _) rfl (.refl _ _)
  obtain ⟨hfollows, hsound', hpath, -⟩ := enter_sound (hmark.marked rfl hsound.marked) h
  exact ⟨(hstem.trans hmark).trans hfollows, hsound', hpath, hfollows.register _ _ hplace⟩

/-- The parts of a dotted key are entered one by one. -/
theorem enterParts_sound {b b' : Builder} {parts : List Text} (hb : b.Sound given)
    (h : b.enterParts parts = some b') :
    Follows given b b' ∧ b'.Sound given ∧ b'.context.path = b.context.path ++ parts := by
  induction parts generalizing b with
  | nil =>
    obtain rfl : b = b' := by simpa [enterParts] using h
    exact ⟨.refl b, hb, by simp⟩
  | cons part rest ih =>
    obtain ⟨b₁, henter, h⟩ := Option.bind_eq_some_iff.1 h
    obtain ⟨hfollows₁, hsound₁, hpath₁, -⟩ := enter_below_sound hb henter
    obtain ⟨hfollows₂, hsound₂, hpath₂⟩ := ih hsound₁ h
    exact ⟨hfollows₁.trans hfollows₂, hsound₂, by rw [hpath₂, hpath₁, List.append_assoc]; rfl⟩

/-! ## Marking arrays -/

/-- The path that is marked when `key` is given an array. -/
def kindPath (b : Builder) (key : Text) : KeyPath :=
  let path := if key.isEmpty then b.context.path else b.context.path ++ [key]
  if path.isEmpty then [[]] else path

/-- Whether giving `key` an array marks only such keys at the top as may be given again. -/
def MayMark (given : Text → Prop) (b : Builder) (key : Text) : Prop :=
  ∀ k, b.kindPath key = [k] → b.Renewable given k

/-- Only a key at the top, and an empty key right under one, stand for a key at the top. -/
theorem kindPath_eq_singleton {b : Builder} {key k : Text} (h : b.kindPath key = [k]) :
    b.context.path = [] ∧ key = k ∨ b.context.path ++ [key] = [k, []] := by
  unfold kindPath at h
  cases key with
  | nil =>
    cases hpath : b.context.path with
    | nil => simp_all
    | cons c rest => simp_all
  | cons x xs => cases hpath : b.context.path <;> simp_all

/-- A key that was noted may be marked, if it is given an array at the top or is not at the top. -/
theorem mayMark_of_noted {b : Builder} {key : Text} {place : Place} (hmem : place ∈ b.keys)
    (hplace : b.register.Settled place (b.context.path ++ [key]))
    (htop : b.context.path = [] → given key) : b.MayMark given key := by
  intro k hk
  obtain ⟨hcontext, rfl⟩ | hcontext := kindPath_eq_singleton hk
  · exact .inl (htop hcontext)
  · exact .inr ⟨place, hmem, hcontext ▸ hplace⟩

theorem MayMark.mono {b b' : Builder} {key : Text} (h : b.MayMark given key)
    (hfollows : Follows given b b') (hcontext : b'.context = b.context) : b'.MayMark given key := by
  intro k hk
  unfold kindPath at hk
  rw [hcontext] at hk
  exact hfollows.renewable (h k hk)

/-- Marking an array, or that there is none, keeps the marks as they should be. -/
theorem noteKind_marked {b : Builder} {key : Text} {isArray : Bool} (hb : b.Marked given)
    (hmay : isArray = true → b.MayMark given key) :
    Follows given b (b.noteKind key isArray) ∧ (b.noteKind key isArray).Marked given := by
  refine ⟨.of_keys_eq (.refl _) rfl (.refl _ _), fun k hk => ?_⟩
  have hold : ∀ k, [k] ∈ b.arrays.filter (· != b.kindPath key) → b.Renewable given k :=
    fun k hk => hb k (List.mem_filter.1 hk).1
  cases isArray with
  | false => exact hold k hk
  | true =>
    obtain hk | hk := List.mem_cons.1 hk
    · exact hmay rfl k hk.symm
    · exact hold k hk

/-! ## Giving a key its value -/

/-- Whether a builder comes after another one and is at the same table. -/
structure Returns (given : Text → Prop) (b b' : Builder) : Prop where
  follows : Follows given b b'
  sound : b'.Sound given
  context : b'.context = b.context

theorem Returns.refl {b : Builder} (hb : b.Sound given) : Returns given b b :=
  ⟨.refl b, hb, rfl⟩

theorem Returns.trans {b₁ b₂ b₃ : Builder} (h₁ : Returns given b₁ b₂) (h₂ : Returns given b₂ b₃) :
    Returns given b₁ b₃ :=
  ⟨h₁.follows.trans h₂.follows, h₂.sound, h₂.context.trans h₁.context⟩

/-- What noting a key does: its place stands for it, and only the key is yet without a value. -/
theorem noteKey_sound {b : Builder} (hb : b.Sound given) (key : Text) :
    (b.noteKey key).Sound given ∧ b.register.Grows (b.noteKey key).register ∧
      ∃ place, (b.noteKey key).keys = b.keys ++ [place] ∧
        (b.noteKey key).register.Settled place (b.context.path ++ [key]) := by
  have hgrows : b.register.Grows (b.noteKey key).register :=
    b.register.grows_extend hb.context key (b.context.place.length + 1)
  refine ⟨⟨hgrows _ _ hb.context, fun k hk => (hb.marked k hk).mono ?_ hgrows⟩, hgrows, _, rfl,
    b.register.settled_addKey hb.context key⟩
  exact List.subset_append_left _ _

/-- A key is entered, noted, evaluated, given its value and marked. The value is evaluated by what
returns to the table of the key. -/
theorem assign_follows {b b₁ b₂ b₃ : Builder} {parts : List Text} {key : Text} {isArray : Bool}
    {v : Value} (hb : b.Sound given) (henter : b.enterParts parts = some b₁)
    (htop : isArray = true → b.context.path ++ parts = [] → given key)
    (heval : (isArray = true → (b₁.noteKey key).MayMark given key) →
      Returns given (b₁.noteKey key) b₂)
    (hset : b₂.setValue key v = some b₃) :
    Follows given b (b₃.noteKind key isArray) ∧ (b₃.noteKind key isArray).Marked given := by
  obtain ⟨hfollows₁, hsound₁, hpath₁⟩ := enterParts_sound hb henter
  obtain ⟨hsound, hgrows, place, hkeys, hplace⟩ := noteKey_sound hsound₁ key
  have hmay : isArray = true → (b₁.noteKey key).MayMark given key := fun harray =>
    mayMark_of_noted (by simp [hkeys]) hplace fun hempty =>
      htop harray (hpath₁ ▸ hempty)
  obtain ⟨hfollows₂, hsound₂, hcontext₂⟩ := heval hmay
  obtain ⟨hwrites, hhas⟩ := setValue_writes hsound₂.marked hset
  have hfollows₃ := hfollows₂.trans hwrites.follows
  -- The key itself was noted before its value was there, so its place is looked at once more.
  have hstep : Follows given b₁ b₃ := {
    register := hgrows.trans hfollows₃.register
    keys := fun p hp => hfollows₃.keys (by simp [hkeys, hp])
    root := hfollows₃.root
    noted := fun p hp => by
      obtain hp | hreached := hfollows₃.noted p hp
      · obtain hp | hp : p ∈ b₁.keys ∨ p = place := by simpa [hkeys] using hp
        · exact .inl hp
        · refine .inr ⟨b₁.context.path ++ [key], hp ▸ hfollows₃.register _ _ hplace, ?_⟩
          rw [hcontext₂] at hhas
          exact hhas
      · exact .inr hreached }
  have hcontext₃ : b₃.context = (b₁.noteKey key).context := hwrites.context.trans hcontext₂
  obtain ⟨hkind, hmarked⟩ := noteKind_marked
    (hwrites.follows.marked hwrites.arrays hsound₂.marked)
    fun harray => (hmay harray).mono hfollows₃ hcontext₃
  exact ⟨(hfollows₁.trans hstep).trans hkind, hmarked⟩

end Builder

open Builder

variable {given : Text → Prop}

mutual

/-- Evaluating a value keeps the document as it is but for what the value enters, and returns to the
table that it was given in. -/
theorem evaluate_returns {b b' : Builder} {key : Text} {inArray : Bool} {v : Value}
    (literal : Literal) (hb : b.Sound given)
    (hmay : literal.isArray = true → b.MayMark given key)
    (h : evaluate b key inArray literal = some (v, b')) : Returns given b b' := by
  match literal with
  | .text _ | .integer _ | .boolean _ | .real | .moment _ =>
    simp only [evaluate, Option.some.injEq, Prod.mk.injEq] at h
    exact h.2 ▸ .refl hb
  | .array items =>
    rw [evaluate] at h
    obtain ⟨b₁, hitems, h⟩ := Option.bind_eq_some_iff.1 h
    obtain rfl : b₁ = b' := congrArg Prod.snd (Option.some.inj h)
    -- the array is marked before its items are looked at, and the items may mark it again
    obtain ⟨hkind, hmarked⟩ := noteKind_marked hb.marked hmay
    have hsound : (b.noteKind key true).Sound given := ⟨hb.context, hmarked⟩
    have hreturns := evaluateItems_returns items hsound ((hmay rfl).mono hkind rfl) hitems
    exact .trans ⟨hkind, hsound, rfl⟩ hreturns
  | .table entries =>
    rw [evaluate] at h
    obtain ⟨b₁, henter, h⟩ := Option.bind_eq_some_iff.1 h
    obtain ⟨⟨t, b₂⟩, hentries, h⟩ := Option.bind_eq_some_iff.1 h
    obtain rfl : { b₂ with context := b.context } = b' := congrArg Prod.snd (Option.some.inj h)
    -- a table is entered below the current one, filled, and left again
    obtain ⟨hfollows₁, hsound₁, hpath₁, hplace⟩ := enter_below_sound hb henter
    obtain ⟨hfollows₂, hmarked₂⟩ := evaluateEntries_follows ⟨b.context.path ++ [key], _⟩ entries
      hsound₁ hpath₁ hplace (by simp) hentries
    have hfollows := hfollows₁.trans hfollows₂
    exact ⟨hfollows.trans (follows_context b₂ b.context),
      ⟨hfollows.register _ _ hb.context, hmarked₂⟩, rfl⟩

/-- So does evaluating the items of an array. -/
theorem evaluateItems_returns {b b' : Builder} {key : Text} (items : List Literal)
    (hb : b.Sound given) (hmay : b.MayMark given key)
    (h : evaluateItems b key items = some b') : Returns given b b' := by
  match items with
  | [] =>
    obtain rfl : b = b' := by simpa [evaluateItems] using h
    exact .refl hb
  | item :: rest =>
    rw [evaluateItems] at h
    obtain ⟨⟨v, b₁⟩, hitem, h⟩ := Option.bind_eq_some_iff.1 h
    have h₁ := evaluate_returns item hb (fun _ => hmay) hitem
    exact h₁.trans (evaluateItems_returns rest h₁.sound (hmay.mono h₁.follows h₁.context) h)

/-- The entries of an inline table stay in that table. -/
theorem evaluateEntries_follows {b b' : Builder} (context : Context) {t t' : Table}
    (entries : List (KeyPath × Literal)) (hb : b.Sound given)
    (hpath : b.context.path = context.path)
    (hcontext : b.register.Settled context.place context.path) (hne : context.path ≠ [])
    (h : evaluateEntries b context t entries = some (t', b')) :
    Follows given b b' ∧ b'.Marked given := by
  match entries with
  | [] =>
    rw [evaluateEntries] at h
    obtain rfl : b = b' := congrArg Prod.snd (Option.some.inj h)
    exact ⟨.refl b, hb.marked⟩
  | (parts, literal) :: rest =>
    rw [evaluateEntries] at h
    obtain ⟨key, -, h⟩ := Option.bind_eq_some_iff.1 h
    obtain ⟨b₁, henter, h⟩ := Option.bind_eq_some_iff.1 h
    obtain ⟨⟨v, b₂⟩, heval, h⟩ := Option.bind_eq_some_iff.1 h
    obtain ⟨b₃, hset, h⟩ := Option.bind_eq_some_iff.1 h
    obtain ⟨t₁, -, h⟩ := Option.bind_eq_some_iff.1 h
    obtain ⟨-, hsound₁, -⟩ := enterParts_sound hb henter
    -- an inline table is never at the top, so no key at the top is given an array in it
    have htop : b.context.path ++ parts.dropLast ≠ [] := by simp [hpath, hne]
    obtain ⟨hfollows, hmarked⟩ := assign_follows hb henter
      (fun _ hempty => absurd hempty htop)
      (fun hmay => evaluate_returns literal (noteKey_sound hsound₁ key).1 hmay heval) hset
    have hback := hfollows.trans (follows_context _ context)
    have hplace := hfollows.register _ _ hcontext
    have hsound : Sound given { b₃.noteKind key literal.isArray with context } := ⟨hplace, hmarked⟩
    obtain ⟨hfollows', hmarked'⟩ := evaluateEntries_follows context rest hsound rfl hplace hne h
    exact ⟨hback.trans hfollows', hmarked'⟩

end

/-! ## Statements -/

/-- The assignments before the first header, which go to the top of a document. -/
def topAssignments : List Statement → List (KeyPath × Literal)
  | .assign path literal :: rest => (path, literal) :: topAssignments rest
  | _ => []

namespace Builder

/-- Whether every key that was noted leads to a value. -/
structure Complete (given : Text → Prop) (b : Builder) : Prop extends Sound given b where
  reached : ∀ place ∈ b.keys, b.Reached given place

/-- At first there are no keys. -/
theorem complete_empty : Complete given {} where
  context := Register.settled_top
  marked := by simp [Marked]
  reached := by simp

theorem Complete.of_follows {b b' : Builder} (hb : b.Complete given) (h : Follows given b b')
    (hsound : b'.Sound given) : b'.Complete given where
  toSound := hsound
  reached place hmem := by
    obtain hmem | hreached := h.noted place hmem
    · exact h.reached (hb.reached place hmem)
    · exact hreached

/-- The key of a header is noted when its table is there. -/
theorem noteHeader_follows {b : Builder} {path : KeyPath}
    (h : b.root.Has (b.Renewable given) path) : Follows given b (b.noteHeader path) := by
  have hgrows : b.register.Grows (b.noteHeader path).register :=
    b.register.grows_addRow path path.length
  have hkeys : b.keys ⊆ (b.noteHeader path).keys := List.subset_append_left _ _
  have hhas : (b.noteHeader path).root.Has ((b.noteHeader path).Renewable given) path :=
    h.mono (.refl _ _) fun _ hk => hk.mono hkeys hgrows
  refine ⟨hgrows, hkeys, .refl _ _, fun p hp => ?_⟩
  obtain hp | hp := List.mem_append.1 hp
  · exact .inl hp
  · obtain rfl := List.mem_singleton.1 hp
    exact .inr ⟨path, b.register.settled_addRow rfl (fun _ => rfl) fun _ => Nat.le_refl _, hhas⟩

/-- A header enters its table and notes its key, which leads to that table. -/
theorem header_complete {b b₁ : Builder} {path : KeyPath} {repeated : Bool}
    (hb : b.Complete given) (h : b.enter path repeated = some b₁) :
    ((b₁.noteKind [] false).noteHeader path).Complete given ∧ b₁.context.path ≠ [] := by
  obtain ⟨hfollows, hsound, hpath, hhas⟩ := enter_sound hb.marked h
  have hne : path ≠ [] := by
    rintro rfl
    simp [enter_eq] at h
  obtain ⟨hkind, hmarked⟩ : Follows given b₁ (b₁.noteKind [] false) ∧
      (b₁.noteKind [] false).Marked given := noteKind_marked hsound.marked nofun
  have hnoted := noteHeader_follows (hkind.has hhas)
  refine ⟨hb.of_follows ((hfollows.trans hkind).trans hnoted) ⟨?_, ?_⟩, hpath ▸ hne⟩
  · exact hnoted.register _ _ hsound.context
  · exact hnoted.marked rfl hmarked

/-- A statement keeps every key leading to a value. An assignment stays at its table, and a header
leaves the top. -/
theorem visit_complete {b b' : Builder} {s : Statement} (hb : b.Complete given)
    (htop : b.context.path = [] → ∀ key items, s = .assign [key] (.array items) → given key)
    (h : b.visit s = some b') :
    b'.Complete given ∧
      ((∃ path literal, s = .assign path literal ∧ b'.context = b.context) ∨
        b'.context.path ≠ []) := by
  cases s with
  | header path =>
    obtain ⟨b₁, henter, h⟩ := Option.bind_eq_some_iff.1 h
    obtain rfl := Option.some.inj h
    obtain ⟨hcomplete, hne⟩ := header_complete hb henter
    exact ⟨hcomplete, .inr hne⟩
  | arrayHeader path =>
    obtain ⟨b₁, henter, h⟩ := Option.bind_eq_some_iff.1 h
    obtain rfl := Option.some.inj h
    obtain ⟨hcomplete, hne⟩ := header_complete hb henter
    exact ⟨hcomplete, .inr hne⟩
  | assign path literal =>
    obtain ⟨key, hkey, h⟩ := Option.bind_eq_some_iff.1 h
    obtain ⟨b₁, henter, h⟩ := Option.bind_eq_some_iff.1 h
    obtain ⟨⟨v, b₂⟩, heval, h⟩ := Option.bind_eq_some_iff.1 h
    obtain ⟨b₃, hset, h⟩ := Option.bind_eq_some_iff.1 h
    obtain rfl := Option.some.inj h
    -- an array at the top comes from a key of one part, which the statement gives it to
    have hgiven : literal.isArray = true → b.context.path ++ path.dropLast = [] → given key := by
      intro harray hempty
      obtain ⟨hcontext, hparents⟩ := List.append_eq_nil_iff.1 hempty
      have hpath := List.dropLast_append_getLast? key hkey
      rw [hparents] at hpath
      cases literal with
      | array items => exact htop hcontext key items (by rw [← hpath]; rfl)
      | _ => simp [Literal.isArray] at harray
    obtain ⟨-, hsound₁, -⟩ := enterParts_sound hb.toSound henter
    obtain ⟨hfollows, hmarked⟩ := assign_follows hb.toSound henter hgiven
      (fun hmay => evaluate_returns literal (noteKey_sound hsound₁ key).1 hmay heval) hset
    -- the assignment returns to the table of the last header
    have hback := hfollows.trans (follows_context _ b.context)
    exact ⟨hb.of_follows hback ⟨hfollows.register _ _ hb.context, hmarked⟩,
      .inl ⟨path, literal, rfl, rfl⟩⟩

/-- All statements together do, by induction on them. -/
theorem foldlM_visit_complete {b b' : Builder} {ss : List Statement} (hb : b.Complete given)
    (htop : b.context.path = [] →
      ∀ key items, ([key], .array items) ∈ topAssignments ss → given key)
    (h : ss.foldlM visit b = some b') : b'.Complete given := by
  induction ss generalizing b with
  | nil =>
    obtain rfl : b = b' := by simpa using h
    exact hb
  | cons s rest ih =>
    rw [List.foldlM_cons] at h
    obtain ⟨b₁, hvisit, h⟩ := Option.bind_eq_some_iff.1 h
    obtain ⟨hcomplete, hcontext⟩ := visit_complete hb
      (fun hempty key items hs => htop hempty key items (by simp [hs, topAssignments])) hvisit
    refine ih hcomplete (fun hempty key items hmem => ?_) h
    obtain ⟨path, literal, rfl, hcontext⟩ | hne := hcontext
    · exact htop (hcontext ▸ hempty) key items (List.mem_cons_of_mem _ hmem)
    · exact absurd hempty hne

end Builder

/-! ## Documents -/

/-- Whether a key is given an array at the top of a document. -/
def GivenArray (ss : List Statement) (key : Text) : Prop :=
  ∃ items, ([key], .array items) ∈ topAssignments ss

/-- The keys of one or two parts lead to values, in the document as it is built. -/
theorem Document.exists_complete {ss : List Statement} {doc : Document}
    (h : Document.ofStatements ss = some doc) :
    ∃ b : Builder, doc.root = b.root ∧ doc.keys = b.keys.map b.register.path ∧
      ∀ path ∈ doc.keys, path.length ≤ 2 → b.root.Has (b.Renewable (GivenArray ss)) path := by
  obtain ⟨b, hrun, h⟩ := Option.bind_eq_some_iff.1 h
  obtain rfl := Option.some.inj h
  refine ⟨b, rfl, rfl, fun path hmem hshort => ?_⟩
  have hcomplete : b.Complete (GivenArray ss) :=
    foldlM_visit_complete complete_empty (fun _ _ items hmem => ⟨items, hmem⟩) hrun
  obtain ⟨place, hplace, rfl⟩ := List.mem_map.1 hmem
  obtain ⟨path, hsettled, hhas⟩ := hcomplete.reached place hplace
  rw [hsettled.eq_path hshort]
  exact hhas

/-- A key of one part leads to a value. -/
theorem Document.isSome_find?_of_mem_keys {ss : List Statement} {doc : Document}
    (h : Document.ofStatements ss = some doc) {k : Text} (hk : [k] ∈ doc.keys) :
    (doc.root.find? k).isSome := by
  obtain ⟨b, hroot, -, hhas⟩ := exists_complete h
  rw [hroot]
  exact hhas [k] hk (by simp)

/-- A key of two parts leads to a value, if the table that it is in was not lost. -/
theorem Document.exists_of_mem_keys {ss : List Statement} {doc : Document}
    (h : Document.ofStatements ss = some doc) {k i : Text} (hk : [k, i] ∈ doc.keys) :
    ∃ v, doc.root.find? k = some v ∧ (GivenArray ss k ∨ [k, []] ∈ doc.keys ∨
      ∀ inner, v = .table inner → (Table.find? inner i).isSome) := by
  obtain ⟨b, hroot, hkeys, hhas⟩ := exists_complete h
  obtain ⟨v, hfind, hinner⟩ := hhas [k, i] hk (by simp)
  refine ⟨v, hroot ▸ hfind, ?_⟩
  obtain (hgiven | ⟨place, hmem, hplace⟩) | hinner := hinner
  · exact .inl hgiven
  · refine .inr (.inl ?_)
    rw [hkeys, ← hplace.names (by simp)]
    exact List.mem_map_of_mem hmem
  · exact .inr (.inr hinner)

end Glyph8.Toml
