import Glyph8.Toml.Document

/-!
# What writing an entry keeps

A document is a tree of tables, and it is built by writing entries, each into the table at some
path. The table is looked up, changed and put back, and with it all the tables on the way. What
other paths lead to should not depend on this.

Writing an entry somewhere keeps the keys that were there: those at the top, and those of the tables
right under it (`Keeps`). The one exception is a key at the top that is given another value, whose
table is lost with its keys; such keys are exempt, and which they are is a parameter. So a path of
one or two keys that leads to a value goes on doing so (`Has`). Two keys are enough: settings are no
deeper.

A table can also be the last of an array of tables, and paths go through it as through a table
(`inner?`, `withInner`). This is why a value at the top that is an array need not keep anything.

The two main lemmas are `keeps_replaceAt`, for entries below the top, and `keeps_set`, for entries
at the top, where the key that is set has to be looked at.
-/

namespace Glyph8.Toml

namespace Table

/-! ## Entries -/

theorem find?_set_self (t : Table) (key : Text) (v : Value) : (t.set key v).find? key = some v := by
  induction t with
  | nil => simp [set, find?]
  | cons entry rest ih =>
    obtain ⟨k, old⟩ := entry
    by_cases hk : k = key
    · simp [set, find?, hk]
    · have hne : (key == k) = false := by simpa using Ne.symm hk
      simpa [set, find?, hk, List.lookup_cons, hne] using ih

theorem find?_set_of_ne (t : Table) {key k : Text} (h : k ≠ key) (v : Value) :
    (t.set key v).find? k = t.find? k := by
  induction t with
  | nil => simp [set, find?, h]
  | cons entry rest ih =>
    obtain ⟨k', old⟩ := entry
    by_cases hk : k' = key
    · subst hk
      have hne : (k == k') = false := by simpa using h
      simp [set, find?, List.lookup_cons, hne]
    · cases hkk : k == k' with
      | true => simp [set, find?, hk, List.lookup_cons, hkk]
      | false => simpa [set, find?, hk, List.lookup_cons, hkk] using ih

/-- Setting a key loses no key. -/
theorem isSome_find?_set {t : Table} {k : Text} (h : (t.find? k).isSome) (key : Text) (v : Value) :
    ((t.set key v).find? k).isSome := by
  by_cases hk : k = key
  · rw [hk, find?_set_self]
    rfl
  · rw [find?_set_of_ne t hk]
    exact h

theorem mem_of_find? {t : Table} {key : Text} {v : Value} (h : t.find? key = some v) :
    (key, v) ∈ t := by
  obtain ⟨before, after, rfl, -⟩ := List.lookup_eq_some_iff.1 h
  simp

/-! ## Tables within tables -/

/-- The way to a table goes through a table or the last one of an array. -/
theorem at?_cons {t inner : Table} {k : Text} {rest : KeyPath} :
    t.at? (k :: rest) = some inner ↔
      ∃ v mid, t.find? k = some v ∧ v.inner? = some mid ∧ at? mid rest = some inner := by
  simp [at?, Option.bind_eq_some_iff]

/-- A table is put back into the ones on the way. -/
theorem replaceAt_cons {t mid : Table} {k : Text} {v : Value} (hfind : t.find? k = some v)
    (hinner : v.inner? = some mid) (rest : KeyPath) (new : Table) :
    t.replaceAt (k :: rest) new = t.set k (v.withInner (replaceAt mid rest new)) := by
  simp [replaceAt, hfind, hinner]

theorem inner?_withInner {v : Value} {mid : Table} (h : v.inner? = some mid) (t : Table) :
    (v.withInner t).inner? = some t := by
  cases v <;> simp_all [Value.inner?, Value.withInner]

/-- The table that was put at a path is found there. -/
theorem at?_replaceAt {t inner : Table} {path : KeyPath} (h : t.at? path = some inner)
    (new : Table) : (t.replaceAt path new).at? path = some new := by
  induction path generalizing t with
  | nil => rfl
  | cons c rest ih =>
    obtain ⟨v, mid, hfind, hinner, hrest⟩ := at?_cons.1 h
    rw [replaceAt_cons hfind hinner]
    exact at?_cons.2 ⟨_, _, find?_set_self t c _, inner?_withInner hinner _, ih hrest⟩

/-- Writing an entry of the table at a path loses no key at the top. -/
theorem isSome_find?_replaceAt {t inner : Table} {path : KeyPath} (h : t.at? path = some inner)
    {k : Text} (hk : (t.find? k).isSome) (key : Text) (v : Value) :
    ((t.replaceAt path (inner.set key v)).find? k).isSome := by
  cases path with
  | nil =>
    obtain rfl : t = inner := by simpa [at?] using h
    exact isSome_find?_set hk key v
  | cons c rest =>
    obtain ⟨old, mid, hfind, hinner, -⟩ := at?_cons.1 h
    rw [replaceAt_cons hfind hinner]
    exact isSome_find?_set hk c _

/-! ## Keys that are kept -/

/-- Whether the keys of one table, and of the tables right under it, are there in another one. The
tables under exempt keys need not keep their keys. -/
def Keeps (exempt : Text → Prop) (t t' : Table) : Prop :=
  ∀ k v, t.find? k = some v → ∃ v', t'.find? k = some v' ∧
    (exempt k ∨ ∀ inner', v' = .table inner' → ∃ inner, v = .table inner ∧
      ∀ i, (find? inner i).isSome → (find? inner' i).isSome)

theorem Keeps.refl (exempt : Text → Prop) (t : Table) : Keeps exempt t t :=
  fun _ v h => ⟨v, h, .inr fun inner' hv => ⟨inner', hv, fun _ hi => hi⟩⟩

theorem Keeps.mono {exempt exempt' : Text → Prop} {t t' : Table} (h : Keeps exempt t t')
    (hle : ∀ k, exempt k → exempt' k) : Keeps exempt' t t' := by
  intro k v hfind
  obtain ⟨v', hfind', hkept⟩ := h k v hfind
  exact ⟨v', hfind', hkept.imp_left (hle k)⟩

theorem Keeps.trans {exempt : Text → Prop} {t₁ t₂ t₃ : Table} (h₁ : Keeps exempt t₁ t₂)
    (h₂ : Keeps exempt t₂ t₃) : Keeps exempt t₁ t₃ := by
  intro k v₁ hfind₁
  obtain ⟨v₂, hfind₂, hexempt | hkept₁⟩ := h₁ k v₁ hfind₁
  · obtain ⟨v₃, hfind₃, -⟩ := h₂ k v₂ hfind₂
    exact ⟨v₃, hfind₃, .inl hexempt⟩
  · obtain ⟨v₃, hfind₃, hexempt | hkept₂⟩ := h₂ k v₂ hfind₂
    · exact ⟨v₃, hfind₃, .inl hexempt⟩
    · refine ⟨v₃, hfind₃, .inr fun inner₃ hv₃ => ?_⟩
      obtain ⟨inner₂, hv₂, hkeys₂⟩ := hkept₂ inner₃ hv₃
      obtain ⟨inner₁, hv₁, hkeys₁⟩ := hkept₁ inner₂ hv₂
      exact ⟨inner₁, hv₁, fun i hi => hkeys₂ i (hkeys₁ i hi)⟩

/-- Setting a key keeps the others; it is enough to look at the key that is set. -/
theorem keeps_set {exempt : Text → Prop} {t : Table} {key : Text} {v : Value}
    (h : ∀ old, t.find? key = some old → exempt key ∨ ∀ inner', v = .table inner' →
      ∃ inner, old = .table inner ∧ ∀ i, (find? inner i).isSome → (find? inner' i).isSome) :
    Keeps exempt t (t.set key v) := by
  intro k old hfind
  by_cases hk : k = key
  · subst hk
    exact ⟨v, find?_set_self t k v, h old hfind⟩
  · rw [find?_set_of_ne t hk]
    exact Keeps.refl exempt t k old hfind

/-- Writing an entry of a table other than the top one keeps every key. -/
theorem keeps_replaceAt (exempt : Text → Prop) {t inner : Table} {path : KeyPath}
    (hpath : path ≠ []) (h : t.at? path = some inner) (key : Text) (v : Value) :
    Keeps exempt t (t.replaceAt path (inner.set key v)) := by
  cases path with
  | nil => exact absurd rfl hpath
  | cons c rest =>
    obtain ⟨old, mid, hfind, hinner, hrest⟩ := at?_cons.1 h
    rw [replaceAt_cons hfind hinner]
    refine keeps_set fun old' hfind' => .inr fun inner' hv => ?_
    obtain rfl : old = old' := by simpa [hfind] using hfind'
    cases old with
    | table entries =>
      obtain rfl : entries = mid := by simpa [Value.inner?] using hinner
      obtain rfl : replaceAt entries rest (inner.set key v) = inner' := by
        simpa [Value.withInner] using hv
      exact ⟨entries, rfl, fun i hi => isSome_find?_replaceAt hrest hi key v⟩
    | tables elements => simp [Value.withInner] at hv
    | _ => simp [Value.inner?] at hinner

/-! ## Paths that lead to a value -/

/-- Whether a path of one or two keys leads to a value. What is under several tables, or under an
exempt key, is not looked at, and neither are longer paths. -/
def Has (exempt : Text → Prop) (t : Table) : KeyPath → Prop
  | [k] => (t.find? k).isSome
  | [k, i] => ∃ v, t.find? k = some v ∧
      (exempt k ∨ ∀ inner, v = .table inner → (find? inner i).isSome)
  | _ => True

theorem Has.mono {exempt exempt' : Text → Prop} {t t' : Table} (h : Keeps exempt' t t')
    (hle : ∀ k, exempt k → exempt' k) {path : KeyPath} (hpath : Has exempt t path) :
    Has exempt' t' path := by
  match path, hpath with
  | [], _ => trivial
  | [k], hpath =>
    obtain ⟨v, hfind⟩ := Option.isSome_iff_exists.1 hpath
    obtain ⟨v', hfind', -⟩ := h k v hfind
    exact Option.isSome_iff_exists.2 ⟨v', hfind'⟩
  | [k, i], ⟨v, hfind, hinner⟩ =>
    obtain ⟨v', hfind', hkept⟩ := h k v hfind
    refine ⟨v', hfind', ?_⟩
    obtain hexempt | hkept := hkept
    · exact .inl hexempt
    obtain hexempt | hinner := hinner
    · exact .inl (hle k hexempt)
    refine .inr fun inner' hv => ?_
    obtain ⟨inner, hv, hkeys⟩ := hkept inner' hv
    exact hkeys i (hinner inner hv)
  | _ :: _ :: _ :: _, _ => trivial

/-- A key that the table at a path has is reached by the path with the key. -/
theorem has_of_at? (exempt : Text → Prop) {t inner : Table} {path : KeyPath} {key : Text}
    (h : t.at? path = some inner) (hkey : (inner.find? key).isSome) :
    Has exempt t (path ++ [key]) := by
  match path, h with
  | [], h =>
    obtain rfl : t = inner := by simpa [at?] using h
    exact hkey
  | [c], h =>
    obtain ⟨v, mid, hfind, hinner, hrest⟩ := at?_cons.1 h
    obtain rfl : mid = inner := by simpa [at?] using hrest
    refine ⟨v, hfind, .inr fun entries hv => ?_⟩
    obtain rfl : entries = mid := by simpa [hv, Value.inner?] using hinner
    exact hkey
  | c :: d :: rest, _ => cases rest <;> trivial

end Table

end Glyph8.Toml
