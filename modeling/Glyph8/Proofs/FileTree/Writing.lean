import Glyph8.FileTree.Access

/-!
# What writing a file changes

A name that can be opened for writing leads to one path: to a file there, or to a vacant place
(`Opens`). Writing changes what stands at that path and nothing else. That the name then leads to
what was written has to be shown, since the way along a name looks at the tree over and over, and
could have come by the place that was written.

It has not. The way stops only at its end, and what it comes by are directories and links, while at
the path there was a file or nothing (`Takes`). So every node on the way stands somewhere else and
is as it was (`Takes.find?_insert`).

`Leads` is the way along the parts of a name up to the next link, one constructor for each kind of
part. It is what `descend` computes (`leads_of_descend`, `Leads.descend_eq`), and the inductions go
over it. Links are followed a bounded number of times, so `follow` is taken apart by `follow_cases`
and the induction is on the bound.

The main result for reading is `Opens.read_insert`. For opening, it is `NoDevices.create_cases`: in
a tree without devices, a name can be opened as a file, or opening fails and nothing has changed.
-/

namespace Glyph8.FileTree

/-- Inserting again at a path leaves only what was inserted last. -/
theorem insert_insert (t : FileTree) (path : Path) (first second : Node) :
    (t.insert path first).insert path second = t.insert path second := by
  simp [insert, erase, List.filter_filter]

/-! ## Going along the parts of a name -/

/-- Whether a part of a name has to be looked up. -/
structure IsName (part : Text) : Prop where
  ne_same : part ≠ utf8 "."
  ne_up : part ≠ utf8 ".."
  length_le : part.length ≤ FileName.partLimit

/-- Where the way along the parts of a name stops, part by part. -/
inductive Leads (t : FileTree) (asDirectory : Bool) : Path → List Text → Stop → Prop where
  | here {here : Path} : Leads t asDirectory here [] (.place (.directory here))
  | same {here : Path} {rest : List Text} {stop : Stop} :
      Leads t asDirectory here rest stop → Leads t asDirectory here (utf8 "." :: rest) stop
  | up {here : Path} {rest : List Text} {stop : Stop} :
      Leads t asDirectory here.dropLast rest stop →
      Leads t asDirectory here (utf8 ".." :: rest) stop
  | into {here : Path} {part : Text} {rest : List Text} {stop : Stop} : IsName part →
      t.find? (here ++ [part]) = some .directory →
      Leads t asDirectory (here ++ [part]) rest stop → Leads t asDirectory here (part :: rest) stop
  | link {here : Path} {part target : Text} {rest : List Text} : IsName part →
      t.find? (here ++ [part]) = some (.link target) →
      Leads t asDirectory here (part :: rest) (.link here target rest)
  | vacant {here : Path} {part : Text} : IsName part → t.find? (here ++ [part]) = none →
      Leads t asDirectory here [part] (.place (.vacant (here ++ [part]) asDirectory))
  | file {here : Path} {part content : Text} : IsName part → asDirectory = false →
      t.find? (here ++ [part]) = some (.file content) →
      Leads t asDirectory here [part] (.place (.file (here ++ [part]) content))
  | device {here : Path} {part : Text} {d : Device} : IsName part → asDirectory = false →
      t.find? (here ++ [part]) = some (.device d) →
      Leads t asDirectory here [part] (.place (.device d))

section

variable {t : FileTree} {asDirectory : Bool} {here : Path} {parts : List Text} {stop : Stop}

/-- A part that is a name is looked up where the way has come to. -/
theorem descend_cons {part : Text} (h : IsName part) (rest : List Text) :
    t.descend asDirectory here (part :: rest) =
      match t.find? (here ++ [part]) with
      | none =>
        if rest.isEmpty then .ok (.place (.vacant (here ++ [part]) asDirectory))
        else .error .missing
      | some .directory => t.descend asDirectory (here ++ [part]) rest
      | some (.link target) => .ok (.link here target rest)
      | some (.file content) =>
        if rest.isEmpty && !asDirectory then .ok (.place (.file (here ++ [part]) content))
        else .error .notDirectory
      | some (.device d) =>
        if rest.isEmpty && !asDirectory then .ok (.place (.device d)) else .error .notDirectory :=
  (if_neg h.ne_same).trans ((if_neg h.ne_up).trans (if_neg (Nat.not_lt.mpr h.length_le)))

theorem leads_of_descend (h : t.descend asDirectory here parts = .ok stop) :
    t.Leads asDirectory here parts stop := by
  induction parts generalizing here with
  | nil =>
    obtain rfl := Except.ok.inj h
    exact .here
  | cons part rest ih =>
    by_cases hsame : part = utf8 "."
    · subst hsame
      rw [descend, if_pos rfl] at h
      exact .same (ih h)
    by_cases hup : part = utf8 ".."
    · subst hup
      rw [descend, if_neg hsame, if_pos rfl] at h
      exact .up (ih h)
    by_cases hlong : FileName.partLimit < part.length
    · rw [descend, if_neg hsame, if_neg hup, if_pos hlong] at h
      cases h
    -- what remains is a name, and what stands there decides
    have hname : IsName part := ⟨hsame, hup, Nat.not_lt.mp hlong⟩
    rw [descend_cons hname] at h
    split at h
    · next hfind =>
      split at h
      · next hlast =>
        obtain rfl := List.isEmpty_iff.mp hlast
        obtain rfl := Except.ok.inj h
        exact .vacant hname hfind
      · cases h
    · next hfind => exact .into hname hfind (ih h)
    · next hfind =>
      obtain rfl := Except.ok.inj h
      exact .link hname hfind
    · next hfind =>
      split at h
      · next hlast =>
        rw [Bool.and_eq_true, Bool.not_eq_true', List.isEmpty_iff] at hlast
        obtain ⟨rfl, hdirectory⟩ := hlast
        obtain rfl := Except.ok.inj h
        exact .file hname hdirectory hfind
      · cases h
    · next hfind =>
      split at h
      · next hlast =>
        rw [Bool.and_eq_true, Bool.not_eq_true', List.isEmpty_iff] at hlast
        obtain ⟨rfl, hdirectory⟩ := hlast
        obtain rfl := Except.ok.inj h
        exact .device hname hdirectory hfind
      · cases h

/-- The way along the parts is where descending ends. -/
theorem Leads.descend_eq (h : t.Leads asDirectory here parts stop) :
    t.descend asDirectory here parts = .ok stop := by
  induction h with
  | here => rfl
  | same _ ih => rw [descend, if_pos rfl, ih]
  | up _ ih => rw [descend, if_neg (by decide), if_pos rfl, ih]
  | into hname hfind _ ih => simp only [descend_cons hname, hfind, ih]
  | link hname hfind => simp only [descend_cons hname, hfind]
  | vacant hname hfind => simp only [descend_cons hname, hfind, List.isEmpty_nil, if_true]
  | file hname hdirectory hfind => simp [descend_cons hname, hfind, hdirectory]
  | device hname hdirectory hfind => simp [descend_cons hname, hfind, hdirectory]

/-- A way without links ends at its place. -/
theorem follow_of_place {place : Place} (links : Nat)
    (h : t.Leads asDirectory here parts (.place place)) :
    t.follow links asDirectory here parts = .ok place := by
  unfold follow
  rw [h.descend_eq]
  rfl

/-- At a link the way goes on with its target, and takes one from the bound. -/
theorem follow_of_link {directory : Path} {target : Text} {rest : List Text} (links : Nat)
    (h : t.Leads asDirectory here parts (.link directory target rest)) :
    t.follow (links + 1) asDirectory here parts =
      t.follow links (asDirectory || (rest.isEmpty && FileName.asksDirectory target))
        (startOf target directory) (FileName.parts target ++ rest) := by
  rw [follow, h.descend_eq]
  rfl

/-- A way that ends goes to its place directly, or through a link first. -/
theorem follow_cases {links : Nat} {place : Place}
    (h : t.follow links asDirectory here parts = .ok place) :
    t.Leads asDirectory here parts (.place place) ∨
      ∃ fewer directory target rest, links = fewer + 1 ∧
        t.Leads asDirectory here parts (.link directory target rest) ∧
        t.follow fewer (asDirectory || (rest.isEmpty && FileName.asksDirectory target))
          (startOf target directory) (FileName.parts target ++ rest) = .ok place := by
  cases hdescend : t.descend asDirectory here parts with
  | error e =>
    rw [follow, hdescend] at h
    cases h
  | ok stop =>
    have hleads := leads_of_descend hdescend
    cases stop with
    | place p =>
      rw [follow_of_place links hleads] at h
      obtain rfl := Except.ok.inj h
      exact .inl hleads
    | link directory target rest =>
      cases links with
      -- too many links
      | zero =>
        rw [follow, hdescend] at h
        cases h
      | succ fewer =>
        rw [follow_of_link fewer hleads] at h
        exact .inr ⟨fewer, directory, target, rest, rfl, hleads, h⟩

end

/-! ## What stands where a name leads -/

/-- Whether a place is what a tree has at its path. -/
def Holds (t : FileTree) : Place → Prop
  | .directory _ => True
  | .file path content => t.find? path = some (.file content)
  | .device d => ∃ path, t.find? path = some (.device d)
  | .vacant path _ => t.find? path = none

section

variable {t : FileTree} {asDirectory : Bool} {here : Path} {parts : List Text} {place : Place}

/-- The place that a way ends at is in the tree. -/
theorem Leads.holds {stop : Stop} (h : t.Leads asDirectory here parts stop)
    (hstop : stop = .place place) : t.Holds place := by
  induction h with
  | here =>
    obtain rfl := Stop.place.inj hstop
    exact trivial
  | same _ ih => exact ih hstop
  | up _ ih => exact ih hstop
  | into _ _ _ ih => exact ih hstop
  | link => cases hstop
  | vacant _ hfind =>
    obtain rfl := Stop.place.inj hstop
    exact hfind
  | file _ _ hfind =>
    obtain rfl := Stop.place.inj hstop
    exact hfind
  | device _ _ hfind =>
    obtain rfl := Stop.place.inj hstop
    exact ⟨_, hfind⟩

theorem holds_of_follow {links : Nat} (h : t.follow links asDirectory here parts = .ok place) :
    t.Holds place := by
  induction links generalizing asDirectory here parts with
  | zero =>
    obtain hleads | ⟨_, _, _, _, hlinks, -⟩ := follow_cases h
    · exact hleads.holds rfl
    · cases hlinks
  | succ links ih =>
    obtain hleads | ⟨_, _, _, _, hlinks, -, hnext⟩ := follow_cases h
    · exact hleads.holds rfl
    · obtain rfl := Nat.succ.inj hlinks
      exact ih hnext

end

/-- A name that leads somewhere in one tree is followed in every tree. -/
theorem resolve_eq_follow {t : FileTree} {name : Text} {place : Place}
    (h : t.resolve name = .ok place) :
    ∀ other : FileTree, other.resolve name =
      other.follow linkLimit (FileName.asksDirectory name) (startOf name other.workingDirectory)
        (FileName.parts name) := by
  intro other
  unfold resolve at h ⊢
  split at h
  · cases h
  · next hzero =>
    split at h
    · cases h
    · next hempty =>
      split at h
      · cases h
      · next hlength => rw [if_neg hzero, if_neg hempty, if_neg hlength]

theorem holds_of_resolve {t : FileTree} {name : Text} {place : Place}
    (h : t.resolve name = .ok place) : t.Holds place :=
  holds_of_follow ((resolve_eq_follow h t).symm.trans h)

/-! ## Names that can be opened -/

/-- Whether a place is where a file at a path can be written. -/
def Writable (path : Path) (place : Place) : Prop :=
  place = .vacant path false ∨ ∃ content, place = .file path content

/-- Whether a name can be opened for writing, as the file at a path. -/
def Opens (t : FileTree) (name : Text) (path : Path) : Prop :=
  ∃ place, t.resolve name = .ok place ∧ Writable path place

/-- Whether a file stands at a path, or nothing. -/
def Takes (t : FileTree) (path : Path) : Prop :=
  ∀ node, t.find? path = some node → ∃ content, node = .file content

section

variable {t : FileTree} {path : Path}

/-- The root is a directory. -/
theorem Takes.ne_nil (h : t.Takes path) : path ≠ [] := by
  rintro rfl
  obtain ⟨content, hcontent⟩ := h .directory rfl
  cases hcontent

/-- A place where a file can be written has a file or is vacant. -/
theorem Takes.of_holds {place : Place} (hholds : t.Holds place) (h : Writable path place) :
    t.Takes path := by
  intro node hnode
  obtain rfl | ⟨content, rfl⟩ := h
  · have hfind : t.find? path = none := hholds
    rw [hfind] at hnode
    cases hnode
  · have hfind : t.find? path = some (.file content) := hholds
    rw [hfind] at hnode
    exact ⟨content, (Option.some.inj hnode).symm⟩

theorem Opens.takes {name : Text} (h : t.Opens name path) : t.Takes path := by
  obtain ⟨place, hresolve, hwritable⟩ := h
  exact .of_holds (holds_of_resolve hresolve) hwritable

/-! ## The way to a file that was written -/

variable {asDirectory : Bool} {here : Path} {parts : List Text} (content : Text)

/-- Nodes that are no files are not written over. -/
theorem Takes.find?_insert (h : t.Takes path) {other : Path} {node : Node}
    (hfind : t.find? other = some node) (hnode : ∀ c, node ≠ .file c) :
    (t.insert path (.file content)).find? other = some node := by
  have hne : other ≠ path := by
    rintro rfl
    obtain ⟨c, hc⟩ := h node hfind
    exact hnode c hc
  rw [find?_insert_of_ne t hne, hfind]

/-- The way to a link is the same after writing. -/
theorem Leads.insert_link (htakes : t.Takes path) {stop : Stop}
    (h : t.Leads asDirectory here parts stop) {directory : Path} {target : Text} {rest : List Text}
    (hstop : stop = .link directory target rest) :
    (t.insert path (.file content)).Leads asDirectory here parts stop := by
  induction h with
  | here => exact .here
  | same _ ih => exact .same (ih hstop)
  | up _ ih => exact .up (ih hstop)
  | into hname hfind _ ih =>
    exact .into hname (htakes.find?_insert content hfind nofun) (ih hstop)
  | link hname hfind => exact .link hname (htakes.find?_insert content hfind nofun)
  | vacant => cases hstop
  | file => cases hstop
  | device => cases hstop

/-- The way to the place itself now ends at the new file. -/
theorem Leads.insert_place (htakes : t.Takes path) {stop : Stop}
    (h : t.Leads asDirectory here parts stop) {place : Place} (hstop : stop = .place place)
    (hwritable : Writable path place) :
    (t.insert path (.file content)).Leads asDirectory here parts
      (.place (.file path content)) := by
  have hfile : (t.insert path (.file content)).find? path = some (.file content) :=
    find?_insert_self t htakes.ne_nil _
  induction h with
  | here =>
    obtain rfl := Stop.place.inj hstop
    obtain hplace | ⟨_, hplace⟩ := hwritable <;> cases hplace
  | same _ ih => exact .same (ih hstop)
  | up _ ih => exact .up (ih hstop)
  -- a directory on the way is no file, so it was not written over
  | into hname hfind _ ih =>
    exact .into hname (htakes.find?_insert content hfind nofun) (ih hstop)
  | link => cases hstop
  | vacant hname hfind =>
    obtain rfl := Stop.place.inj hstop
    obtain hplace | ⟨_, hplace⟩ := hwritable
    · obtain ⟨rfl, hdirectory⟩ := Place.vacant.inj hplace
      exact .file hname hdirectory hfile
    · cases hplace
  | file hname hdirectory hfind =>
    obtain rfl := Stop.place.inj hstop
    obtain hplace | ⟨_, hplace⟩ := hwritable
    · cases hplace
    · obtain ⟨rfl, -⟩ := Place.file.inj hplace
      exact .file hname hdirectory hfile
  | device =>
    obtain rfl := Stop.place.inj hstop
    obtain hplace | ⟨_, hplace⟩ := hwritable <;> cases hplace

/-- Links included, a name still leads to the place that was written. -/
theorem follow_insert (htakes : t.Takes path) {links : Nat} {place : Place}
    (h : t.follow links asDirectory here parts = .ok place) (hwritable : Writable path place) :
    (t.insert path (.file content)).follow links asDirectory here parts =
      .ok (.file path content) := by
  induction links generalizing asDirectory here parts with
  | zero =>
    obtain hleads | ⟨_, _, _, _, hlinks, -⟩ := follow_cases h
    · exact follow_of_place 0 (hleads.insert_place content htakes rfl hwritable)
    · cases hlinks
  | succ links ih =>
    obtain hleads | ⟨_, _, _, _, hlinks, hlink, hnext⟩ := follow_cases h
    · exact follow_of_place _ (hleads.insert_place content htakes rfl hwritable)
    · obtain rfl := Nat.succ.inj hlinks
      rw [follow_of_link links (hlink.insert_link content htakes rfl)]
      exact ih hnext

/-- A name leads to the file that was written under it. -/
theorem Opens.read_insert {name : Text} (h : t.Opens name path) :
    (t.insert path (.file content)).read name = .ok content := by
  obtain ⟨place, hresolve, hwritable⟩ := h
  have hfollow := (resolve_eq_follow hresolve t).symm.trans hresolve
  have hfile : (t.insert path (.file content)).resolve name = .ok (.file path content) := by
    rw [resolve_eq_follow hresolve]
    exact follow_insert content (Opens.takes ⟨place, hresolve, hwritable⟩) hfollow hwritable
  unfold read
  rw [hfile]

end

/-! ## Opening and writing -/

/-- Whether no node of a tree is a device. -/
def NoDevices (t : FileTree) : Prop := ∀ path d, t.find? path ≠ some (.device d)

theorem noDevices_of_entries {t : FileTree} (h : ∀ entry ∈ t.entries, ∀ d, entry.2 ≠ .device d) :
    t.NoDevices := by
  intro path d hfind
  unfold find? at hfind
  split at hfind
  · cases hfind
  · obtain ⟨before, after, hentries, -⟩ := List.lookup_eq_some_iff.mp hfind
    exact h (path, .device d) (hentries ▸ List.mem_append_right before (.head _)) d rfl

/-- Opening a name that can be opened empties the file. -/
theorem create_of_opens {t : FileTree} {name : Text} {path : Path} (h : t.Opens name path) :
    t.create name = .ok (.file path, t.insert path (.file [])) := by
  obtain ⟨place, hresolve, rfl | ⟨content, rfl⟩⟩ := h <;> simp [create, hresolve]

/-- Without devices, opening a name either fails or opens a file. -/
theorem NoDevices.create_cases {t : FileTree} (h : t.NoDevices) (name : Text) :
    (∃ path, t.Opens name path) ∨ ∃ f, t.create name = .error f := by
  unfold create
  split
  · exact .inr ⟨_, rfl⟩
  · exact .inr ⟨_, rfl⟩
  · next path asDirectory hresolve =>
    cases asDirectory with
    | true => exact .inr ⟨_, rfl⟩
    | false => exact .inl ⟨path, _, hresolve, .inl rfl⟩
  · next path content hresolve => exact .inl ⟨path, _, hresolve, .inr ⟨content, rfl⟩⟩
  · next d hresolve =>
    obtain ⟨path, hfind⟩ : t.Holds (.device d) := holds_of_resolve hresolve
    exact absurd hfind (h path d)

end Glyph8.FileTree
