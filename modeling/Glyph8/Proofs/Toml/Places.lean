import Glyph8.Toml.Register

/-!
# The names at a place

The keys of a document are kept in a register of rows, and a place in it is a row and a number of
names. A key that continues another one may be written behind it on the same row, if the row has
room, and two keys that continue the same one may then share a slot: the second writes over the name
of the first. So what a place shows can change after it was made.

It changes only for long keys. Rows get room to spare when they have three names or more, so a path
of up to three parts keeps its names, and even a longer one keeps its length. This is `Settled`: a
place is settled for a path if it is as long, shows the names as long as the path is short, and has
no slot to spare behind one or two names. `Grows` says that all places stay settled.

For each way to register a key there are two lemmas. One says that the register grows, so that no
earlier place is disturbed. The other says that the new place is settled for its path. Names are
added on a new row (`settled_addRow`) or in a slot (`settled_fill`), and the rest is put together
from these.
-/

namespace Glyph8.Toml

namespace Register

/-- Whether a place stands for a path: it is as long, and shows the names as long as the path is
short. There is no slot to spare behind a place for one or two names. -/
structure Settled (r : Register) (p : Place) (path : KeyPath) : Prop where
  inside : p.row < r.rows.length
  length : p.length = path.length
  shown : (r.path p).length = path.length
  names : path.length ≤ 3 → r.path p = path
  full : path.length ≤ 2 → r.hasSlot p = false

/-- Whether every place that is settled in one register is in the other too. -/
def Grows (r r' : Register) : Prop := ∀ p path, r.Settled p path → r'.Settled p path

theorem Grows.refl (r : Register) : r.Grows r := fun _ _ h => h

theorem Grows.trans {r₁ r₂ r₃ : Register} (h₁ : r₁.Grows r₂) (h₂ : r₂.Grows r₃) : r₁.Grows r₃ :=
  fun p path h => h₂ p path (h₁ p path h)

theorem settled_top : empty.Settled top [] where
  inside := Nat.zero_lt_one
  length := rfl
  shown := rfl
  names _ := rfl
  full _ := rfl

/-- A place that shows one or two names was made for these. -/
theorem Settled.eq_path {r : Register} {p : Place} {path : KeyPath} (h : r.Settled p path)
    (hshort : (r.path p).length ≤ 2) : r.path p = path :=
  h.names (by rw [← h.shown]; omega)

/-! ## New rows -/

theorem hasSlot_addRow_of_lt (r : Register) {p : Place} (h : p.row < r.rows.length)
    (names : KeyPath) (room : Nat) : (r.addRow names room).2.hasSlot p = r.hasSlot p := by
  simp [addRow, hasSlot, List.getElem?_append_left h]

/-- A new row disturbs nothing. -/
theorem grows_addRow (r : Register) (names : KeyPath) (room : Nat) :
    r.Grows (r.addRow names room).2 := by
  intro p path h
  have hpath := r.path_addRow_of_lt h.inside names room
  exact {
    inside := by
      show p.row < (r.rows ++ [_]).length
      rw [List.length_append]
      exact Nat.lt_add_right _ h.inside
    length := h.length
    shown := by rw [hpath]; exact h.shown
    names := fun hshort => by rw [hpath]; exact h.names hshort
    full := fun hshort => by rw [r.hasSlot_addRow_of_lt h.inside]; exact h.full hshort }

/-- The place of a new row stands for the path that its names are to be, if a row of one or two
names is made with no more room than it needs. -/
theorem settled_addRow (r : Register) {names path : KeyPath} {room : Nat}
    (hlength : names.length = path.length) (hnames : path.length ≤ 3 → names = path)
    (hroom : path.length ≤ 2 → room ≤ path.length) :
    (r.addRow names room).2.Settled (r.addRow names room).1 path where
  inside := by simp [addRow]
  length := hlength
  shown := by rw [r.path_addRow, hlength]
  names hshort := by rw [r.path_addRow, hnames hshort]
  full hshort := by
    have hle : room ≤ names.length := hlength ▸ hroom hshort
    simp only [addRow, hasSlot, List.getElem?_concat_length]
    exact decide_eq_false (Nat.not_lt.2 hle)

/-! ## Slots -/

theorem hasSlot_fill (r : Register) (q p : Place) (name : Text) :
    (r.fill q name).2.hasSlot p = r.hasSlot p := by
  unfold hasSlot fill
  by_cases hrow : q.row = p.row
  · cases hget : r.rows[p.row]? <;> simp [hrow, hget]
  · simp [hrow]

/-- The names on a row after its slot `n` was filled. -/
theorem take_filled (names : KeyPath) (name : Text) {k n : Nat} (hk : k ≤ n)
    (hn : k ≤ names.length) :
    (names.take n ++ name :: names.drop (n + 1)).take k = names.take k := by
  rw [List.take_append_of_le_length (by rw [List.length_take]; omega), List.take_take,
    Nat.min_eq_left hk]

theorem length_le_filled (names : KeyPath) (name : Text) (n : Nat) :
    names.length ≤ (names.take n ++ name :: names.drop (n + 1)).length := by
  simp only [List.length_append, List.length_take, List.length_cons, List.length_drop]
  omega

/-- A settled place is the beginning of a row that is long enough. -/
theorem Settled.exists_row {r : Register} {p : Place} {path : KeyPath} (h : r.Settled p path) :
    ∃ row, r.rows[p.row]? = some row ∧ p.length ≤ row.names.length := by
  obtain ⟨row, hrow⟩ : ∃ row, r.rows[p.row]? = some row := ⟨_, List.getElem?_eq_getElem h.inside⟩
  refine ⟨row, hrow, ?_⟩
  have hshown : (row.names.take p.length).length = p.length := by
    simpa [Register.path, hrow, h.length] using h.shown
  rw [List.length_take] at hshown
  omega

theorem path_of_row {r : Register} {p : Place} {row : Row} (h : r.rows[p.row]? = some row) :
    r.path p = row.names.take p.length := by
  simp [Register.path, h]

/-- What a place shows after a slot on its row was filled. -/
theorem path_fill_of_row {r : Register} {p q : Place} {row : Row} (hrow : q.row = p.row)
    (h : r.rows[p.row]? = some row) (name : Text) :
    (r.fill q name).2.path p =
      (row.names.take q.length ++ name :: row.names.drop (q.length + 1)).take p.length := by
  simp [Register.path, fill, hrow, h]

/-- Filling a slot behind three names or more disturbs no short path. -/
theorem grows_fill (r : Register) {q : Place} (hq : 3 ≤ q.length) (name : Text) :
    r.Grows (r.fill q name).2 := by
  intro p path h
  obtain ⟨row, hget, hlong⟩ := h.exists_row
  have hpath := path_of_row hget
  refine ⟨by simpa [fill] using h.inside, h.length, ?_, fun hshort => ?_, fun hshort => ?_⟩
  · by_cases hrow : q.row = p.row
    · have := length_le_filled row.names name q.length
      rw [path_fill_of_row hrow hget, List.length_take, ← h.length]
      omega
    · rw [path_fill_of_ne r (Ne.symm hrow)]
      exact h.shown
  · by_cases hrow : q.row = p.row
    · have hle : p.length ≤ q.length := by rw [h.length]; omega
      rw [path_fill_of_row hrow hget, take_filled row.names name hle hlong, ← hpath]
      exact h.names hshort
    · rw [path_fill_of_ne r (Ne.symm hrow)]
      exact h.names hshort
  · rw [hasSlot_fill]
    exact h.full hshort

/-- A slot was only left behind three names or more. -/
theorem Settled.three_le_of_hasSlot {r : Register} {p : Place} {path : KeyPath}
    (h : r.Settled p path) (hslot : r.hasSlot p = true) : 3 ≤ path.length := by
  refine Nat.lt_of_not_le fun hshort => ?_
  simp [h.full hshort] at hslot

/-- The place behind a filled slot is settled for the longer path. -/
theorem settled_fill (r : Register) {p : Place} {path : KeyPath} (h : r.Settled p path)
    (hlong : 3 ≤ path.length) (name : Text) :
    (r.fill p name).2.Settled (r.fill p name).1 (path ++ [name]) := by
  obtain ⟨row, hget, hle⟩ := h.exists_row
  have hlength : (path ++ [name]).length = path.length + 1 := by simp
  refine ⟨by simpa [fill] using h.inside, by simp [fill, h.length], ?_, fun _ => by omega,
    fun _ => by omega⟩
  have hshown : (r.fill p name).2.path (r.fill p name).1 =
      (row.names.take p.length ++ name :: row.names.drop (p.length + 1)).take (p.length + 1) := by
    simp [Register.path, fill, hget]
  rw [hshown, hlength, ← h.length]
  simp only [List.length_take, List.length_append, List.length_cons, List.length_drop]
  omega

/-! ## Keys and tables -/

theorem grows_extend (r : Register) {p : Place} {path : KeyPath} (h : r.Settled p path)
    (name : Text) (room : Nat) : r.Grows (r.extend p name room).2 := by
  unfold extend
  split
  case isTrue hslot => exact r.grows_fill (h.length ▸ h.three_le_of_hasSlot hslot) name
  case isFalse => exact r.grows_addRow _ room

/-- A key that is continued has a place for its path, if short rows get no room to spare. -/
theorem settled_extend (r : Register) {p : Place} {path : KeyPath} (h : r.Settled p path)
    (name : Text) {room : Nat} (hroom : path.length ≤ 1 → room ≤ path.length + 1) :
    (r.extend p name room).2.Settled (r.extend p name room).1 (path ++ [name]) := by
  have hlength : (path ++ [name]).length = path.length + 1 := by simp
  unfold extend
  split
  case isTrue hslot => exact r.settled_fill h (h.three_le_of_hasSlot hslot) name
  case isFalse =>
    refine r.settled_addRow (by simp [h.shown]) (fun hshort => ?_) (fun hshort => ?_)
    · rw [h.names (by omega)]
    · rw [hlength]
      exact hroom (by omega)

/-- A row that one or two names are continued on has no slot to spare. -/
theorem roomBeyond_le {n : Nat} (h : n ≤ 1) : roomBeyond n ≤ n + 1 := by
  obtain rfl | rfl : n = 0 ∨ n = 1 := by omega
  · decide
  · decide

/-- A key of a table has a place for its path. -/
theorem settled_addKey (r : Register) {p : Place} {path : KeyPath} (h : r.Settled p path)
    (key : Text) : (r.addKey p key).2.Settled (r.addKey p key).1 (path ++ [key]) :=
  r.settled_extend h key fun _ => h.length ▸ Nat.le_refl _

theorem settled_addStem (r : Register) {p : Place} {path : KeyPath} (h : r.Settled p path)
    (name : Text) : (r.addStem p name).2.Settled (r.addStem p name).1 (path ++ [name]) :=
  r.settled_extend h name fun hshort => by
    rw [h.length]
    exact roomBeyond_le hshort

/-- So has the table of a header. -/
theorem settled_addTable (r : Register) {path : KeyPath} (h : path ≠ []) :
    (r.addTable path).2.Settled (r.addTable path).1 path := by
  have hpos := List.length_pos_iff.2 h
  refine r.settled_addRow rfl (fun _ => rfl) fun hshort => ?_
  have := roomBeyond_le (n := path.length - 1) (by omega)
  omega

end Register

end Glyph8.Toml
