import Mathlib.Data.List.Forall2

/-!
# Computations that may fail

Assembling, loading settings and writing files are chains of computations in `Except`: the first one
that fails ends the chain. A proof about such a chain should not unfold it and split it apart at
every place where it could have failed. The lemmas here do that once, and say what a chain went
through in terms of its parts.

`bind_eq_ok_iff` is for two computations, `mapM_eq_ok_iff` for one computation on every element of a
list, and `foldlM_invariant` for a state that is carried along a list. The last is the induction
behind every statement about a pass over the lines of a program: the invariant speaks of the lines
already passed, so that a step lemma adds one line at the end and the conclusion is about all lines.

The `_error_iff` lemmas say where a chain that failed stopped, and that everything before that place
succeeded. An error message names the first bad line, so both halves are needed.

`EndsAlike` compares two chains whose parts are related one by one. Both succeed with related
results, or both fail with related errors. It is a congruence for `bind`, `mapM` and `foldlM`, so
two runs over texts that differ line by line are compared without looking at either run.
-/

namespace Glyph8

variable {ε α β : Type}

instance decidableEqExcept [DecidableEq ε] [DecidableEq α] : DecidableEq (Except ε α)
  | .error d, .error e => decidable_of_decidable_of_eq (Except.error.injEq d e).symm
  | .ok a, .ok b => decidable_of_decidable_of_eq (Except.ok.injEq a b).symm
  | .error _, .ok _ => isFalse nofun
  | .ok _, .error _ => isFalse nofun

@[simp] theorem ok_bind (a : α) (f : α → Except ε β) : (Except.ok a >>= f) = f a := rfl

@[simp] theorem error_bind (e : ε) (f : α → Except ε β) : (Except.error e >>= f) = .error e := rfl

/-- A chain of two computations succeeds exactly when the first one does and the second one succeeds
on its result. -/
theorem bind_eq_ok_iff {x : Except ε α} {f : α → Except ε β} {b : β} :
    (x >>= f) = .ok b ↔ ∃ a, x = .ok a ∧ f a = .ok b := by
  cases x with
  | error e => simp [bind, Except.bind]
  | ok a => simp [bind, Except.bind]

/-- A function of a result is a result, and an error stays an error. -/
theorem map_eq_ok_iff {x : Except ε α} {f : α → β} {b : β} :
    x.map f = .ok b ↔ ∃ a, x = .ok a ∧ f a = b := by
  cases x with
  | error e => simp [Except.map]
  | ok a => simp [Except.map]

/-- A computation succeeds on a whole list exactly when it succeeds on each element. -/
theorem mapM_eq_ok_iff {f : α → Except ε β} :
    ∀ {xs : List α} {ys : List β},
      xs.mapM f = .ok ys ↔ List.Forall₂ (fun x y => f x = .ok y) xs ys := by
  intro xs
  induction xs with
  | nil =>
    intro ys
    rw [List.forall₂_nil_left_iff, List.mapM_nil]
    exact ⟨fun h => (Except.ok.inj h).symm, fun h => congrArg _ h.symm⟩
  | cons x xs ih =>
    intro ys
    rw [List.mapM_cons, bind_eq_ok_iff, List.forall₂_cons_left_iff]
    constructor
    · rintro ⟨y, hy, h⟩
      obtain ⟨zs, hzs, h⟩ := bind_eq_ok_iff.mp h
      exact ⟨y, zs, hy, ih.mp hzs, (Except.ok.inj h).symm⟩
    · rintro ⟨y, zs, hy, hzs, rfl⟩
      exact ⟨y, hy, bind_eq_ok_iff.mpr ⟨zs, ih.mpr hzs, rfl⟩⟩

/-- A result of a computation on a list comes from an element of the list. -/
theorem exists_of_mem_right {R : α → β → Prop} {xs : List α} {ys : List β}
    (h : List.Forall₂ R xs ys) {y : β} (hy : y ∈ ys) : ∃ x ∈ xs, R x y := by
  induction h with
  | nil => cases hy
  | cons hxy _ ih =>
    rcases List.mem_cons.mp hy with rfl | hy
    · exact ⟨_, List.mem_cons_self, hxy⟩
    · obtain ⟨x, hx, hxy⟩ := ih hy
      exact ⟨x, List.mem_cons_of_mem _ hx, hxy⟩

/-- What every step keeps, relative to the elements already passed, holds at the end. -/
theorem foldlM_invariant {f : β → α → Except ε β} {Inv : List α → β → Prop}
    (step : ∀ done s a s', Inv done s → f s a = .ok s' → Inv (done ++ [a]) s') :
    ∀ (rest done : List α) (s s' : β), Inv done s → rest.foldlM f s = .ok s' →
      Inv (done ++ rest) s' := by
  intro rest
  induction rest with
  | nil =>
    intro done s s' hs h
    rw [List.append_nil]
    exact Except.ok.inj h ▸ hs
  | cons a rest ih =>
    intro done s s' hs h
    rw [List.foldlM_cons, bind_eq_ok_iff] at h
    obtain ⟨t, ht, h⟩ := h
    rw [List.append_cons]
    exact ih (done ++ [a]) t s' (step done s a t hs ht) h

/-! ## Where a chain fails -/

/-- A chain of two computations fails in the first one, or in the second one on the result of the
first. -/
theorem bind_eq_error_iff {x : Except ε α} {f : α → Except ε β} {e : ε} :
    (x >>= f) = .error e ↔ x = .error e ∨ ∃ a, x = .ok a ∧ f a = .error e := by
  cases x with
  | error d => simp [bind, Except.bind]
  | ok a => simp [bind, Except.bind]

/-- A computation on every element of a list ends with the error of the first element on which it
fails. -/
theorem mapM_eq_error_iff {f : α → Except ε β} {e : ε} :
    ∀ {xs : List α}, xs.mapM f = .error e ↔
      ∃ before x after, xs = before ++ x :: after ∧ (∀ a ∈ before, ∃ b, f a = .ok b) ∧
        f x = .error e := by
  intro xs
  induction xs with
  | nil =>
    constructor
    · intro h; cases h
    · rintro ⟨before, x, after, hxs, _⟩
      exact absurd hxs.symm (List.append_ne_nil_of_right_ne_nil _ (List.cons_ne_nil _ _))
  | cons x xs ih =>
    rw [List.mapM_cons, bind_eq_error_iff]
    constructor
    · rintro (hx | ⟨b, hb, h⟩)
      · exact ⟨[], x, xs, rfl, nofun, hx⟩
      · -- the first element succeeds, so the error is that of a later one
        rcases bind_eq_error_iff.mp h with h | ⟨_, _, h⟩
        · obtain ⟨before, y, after, rfl, hbefore, hy⟩ := ih.mp h
          exact ⟨x :: before, y, after, rfl, List.forall_mem_cons.mpr ⟨⟨b, hb⟩, hbefore⟩, hy⟩
        · cases h
    · rintro ⟨before, y, after, hxs, hbefore, hy⟩
      -- the element that fails is the first one or comes later
      cases before with
      | nil =>
        left
        rw [List.nil_append] at hxs
        injection hxs with hx _
        rw [hx]
        exact hy
      | cons z before =>
        right
        rw [List.cons_append] at hxs
        injection hxs with hz hxs
        subst hz
        obtain ⟨b, hb⟩ := hbefore x List.mem_cons_self
        refine ⟨b, hb, bind_eq_error_iff.mpr (Or.inl (ih.mpr ⟨before, y, after, hxs, ?_, hy⟩))⟩
        exact fun a ha => hbefore a (List.mem_cons_of_mem x ha)

/-- A check of every element of a list succeeds exactly when it succeeds on each. -/
theorem forM_eq_ok_iff {f : α → Except ε PUnit} {xs : List α} :
    xs.forM f = .ok () ↔ ∀ x ∈ xs, f x = .ok () := by
  induction xs with
  | nil => exact ⟨fun _ => nofun, fun _ => rfl⟩
  | cons x xs ih =>
    show (f x >>= fun _ => xs.forM f) = .ok () ↔ _
    rw [bind_eq_ok_iff, List.forall_mem_cons, ← ih]
    exact ⟨fun ⟨_, hx, hxs⟩ => ⟨hx, hxs⟩, fun ⟨hx, hxs⟩ => ⟨(), hx, hxs⟩⟩

/-- A check of every element of a list ends with the error of the first element that fails it. -/
theorem exists_of_forM_error {f : α → Except ε PUnit} {e : ε} :
    ∀ {xs : List α}, xs.forM f = .error e →
      ∃ before x after, xs = before ++ x :: after ∧ (∀ a ∈ before, f a = .ok ()) ∧
        f x = .error e := by
  intro xs
  induction xs with
  | nil =>
    intro h
    cases h
  | cons x xs ih =>
    intro h
    have h : (f x >>= fun _ => xs.forM f) = .error e := h
    rcases bind_eq_error_iff.mp h with hx | ⟨_, hx, h⟩
    · exact ⟨[], x, xs, rfl, nofun, hx⟩
    · obtain ⟨before, y, after, rfl, hbefore, hy⟩ := ih h
      exact ⟨x :: before, y, after, rfl, List.forall_mem_cons.mpr ⟨hx, hbefore⟩, hy⟩

/-- A state that is carried along a list is lost at the first element whose step fails. -/
theorem exists_of_foldlM_error {f : β → α → Except ε β} {e : ε} :
    ∀ {xs : List α} {s : β}, xs.foldlM f s = .error e →
      ∃ before x after t, xs = before ++ x :: after ∧ before.foldlM f s = .ok t ∧
        f t x = .error e := by
  intro xs
  induction xs with
  | nil =>
    intro s h
    cases h
  | cons x xs ih =>
    intro s h
    rw [List.foldlM_cons] at h
    rcases bind_eq_error_iff.mp h with hx | ⟨t, ht, h⟩
    · exact ⟨[], x, xs, s, rfl, rfl, hx⟩
    · obtain ⟨before, y, after, u, rfl, hbefore, hy⟩ := ih h
      refine ⟨x :: before, y, after, u, rfl, ?_, hy⟩
      rw [List.foldlM_cons, ht, ok_bind, hbefore]

/-! ## Chains that end alike -/

/-- Both computations succeed with results in `R`, or both fail with errors in `E`. -/
inductive EndsAlike {ε δ α β : Type} (E : ε → δ → Prop) (R : α → β → Prop) :
    Except ε α → Except δ β → Prop
  | error {e : ε} {d : δ} (h : E e d) : EndsAlike E R (.error e) (.error d)
  | ok {a : α} {b : β} (h : R a b) : EndsAlike E R (.ok a) (.ok b)

namespace EndsAlike

variable {δ α' β' : Type} {E : ε → δ → Prop} {R : α → α' → Prop} {S : β → β' → Prop}

/-- Chains end alike if their first computations do and the second ones do on related results. -/
theorem bind {x : Except ε α} {y : Except δ α'} {f : α → Except ε β} {g : α' → Except δ β'}
    (hxy : EndsAlike E R x y) (hfg : ∀ a b, R a b → EndsAlike E S (f a) (g b)) :
    EndsAlike E S (x >>= f) (y >>= g) := by
  cases hxy with
  | error h => exact .error h
  | ok h => exact hfg _ _ h

/-- Related elements give related lists of results, or related errors at the same place. -/
theorem mapM {f : α → Except ε β} {g : α' → Except δ β'}
    (hfg : ∀ a b, R a b → EndsAlike E S (f a) (g b)) :
    ∀ {xs : List α} {ys : List α'}, List.Forall₂ R xs ys →
      EndsAlike E (List.Forall₂ S) (xs.mapM f) (ys.mapM g) := by
  intro xs ys h
  induction h with
  | nil => exact .ok .nil
  | cons hxy _ ih =>
    rw [List.mapM_cons, List.mapM_cons]
    refine (hfg _ _ hxy).bind fun b c hbc => ih.bind fun bs cs hbs => ?_
    exact .ok (.cons hbc hbs)

/-- Two states that are carried along related lists stay related. -/
theorem foldlM {f : β → α → Except ε β} {g : β' → α' → Except δ β'}
    (hfg : ∀ s t a b, S s t → R a b → EndsAlike E S (f s a) (g t b)) :
    ∀ {xs : List α} {ys : List α'}, List.Forall₂ R xs ys → ∀ {s : β} {t : β'}, S s t →
      EndsAlike E S (xs.foldlM f s) (ys.foldlM g t) := by
  intro xs ys h
  induction h with
  | nil =>
    intro s t hst
    exact .ok hst
  | cons hxy _ ih =>
    intro s t hst
    rw [List.foldlM_cons, List.foldlM_cons]
    exact (hfg _ _ _ _ hst hxy).bind fun s' t' hst' => ih hst'

/-- What ends like a success is one. -/
theorem exists_ok {x : Except ε α} {y : Except δ α'} (h : EndsAlike E R x y) {a : α}
    (hx : x = .ok a) : ∃ b, y = .ok b ∧ R a b := by
  subst hx
  cases h with
  | ok h => exact ⟨_, rfl, h⟩

end EndsAlike

end Glyph8
