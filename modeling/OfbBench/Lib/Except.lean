import Mathlib

/-!
# Computations that may fail

What a successful `>>=` and a successful `mapM` in `Except` did, and a `mapM` in `Option`.
-/

namespace OfbBench

variable {ε α β : Type}

theorem bind_eq_ok {x : Except ε α} {f : α → Except ε β} {b : β} :
    x >>= f = .ok b ↔ ∃ a, x = .ok a ∧ f a = .ok b := by
  cases x with
  | error e => simp [bind, Except.bind]
  | ok a => simp [bind, Except.bind]

theorem mapM_eq_ok {f : α → Except ε β} {xs : List α} {ys : List β} :
    xs.mapM f = .ok ys ↔ List.Forall₂ (fun x y => f x = .ok y) xs ys := by
  induction xs generalizing ys with
  | nil =>
    rw [List.mapM_nil, List.forall₂_nil_left_iff]
    simp only [pure, Except.pure, Except.ok.injEq, eq_comm]
  | cons x xs ih =>
    rw [List.mapM_cons, List.forall₂_cons_left_iff, bind_eq_ok]
    constructor
    · rintro ⟨y, hy, h⟩
      obtain ⟨ys', hys, h⟩ := bind_eq_ok.1 h
      obtain rfl : y :: ys' = ys := Except.ok.inj h
      exact ⟨y, ys', hy, ih.1 hys, rfl⟩
    · rintro ⟨y, ys', hy, hys, rfl⟩
      exact ⟨y, hy, bind_eq_ok.2 ⟨ys', ih.2 hys, rfl⟩⟩

/-- A `mapM` fails as its function does on the first element it fails on. -/
theorem mapM_eq_error {f : α → Except ε β} {xs : List α} {e : ε} :
    xs.mapM f = .error e ↔ ∃ before x after, xs = before ++ x :: after ∧
      (∀ y ∈ before, ∃ z, f y = .ok z) ∧ f x = .error e := by
  induction xs with
  | nil =>
    constructor
    · intro h
      cases h
    · rintro ⟨before, x, after, hsplit, -⟩
      simp at hsplit
  | cons x xs ih =>
    rw [List.mapM_cons]
    rcases hx : f x with e' | y
    · change Except.error e' = .error e ↔ _
      rw [Except.error.injEq]
      constructor
      · rintro rfl
        exact ⟨[], x, xs, rfl, by simp, hx⟩
      · rintro ⟨before, x', after, hsplit, hbefore, hx'⟩
        cases before with
        | nil =>
          obtain ⟨rfl, -⟩ := List.cons.inj hsplit
          exact Except.error.inj (hx.symm.trans hx')
        | cons _ before =>
          obtain ⟨rfl, -⟩ := List.cons.inj hsplit
          obtain ⟨z, hz⟩ := hbefore _ List.mem_cons_self
          exact absurd (hx.symm.trans hz) (by simp)
    · have hrest : (Except.ok y >>= fun y => xs.mapM f >>= fun ys => pure (y :: ys))
          = .error e ↔ xs.mapM f = .error e := by
        rcases xs.mapM f with e' | ys
        · exact Iff.rfl
        · simp [bind, Except.bind, pure, Except.pure]
      rw [hrest, ih]
      constructor
      · rintro ⟨before, x', after, rfl, hbefore, hx'⟩
        exact ⟨x :: before, x', after, rfl, List.forall_mem_cons.2 ⟨⟨y, hx⟩, hbefore⟩, hx'⟩
      · rintro ⟨before, x', after, hsplit, hbefore, hx'⟩
        cases before with
        | nil =>
          obtain ⟨rfl, -⟩ := List.cons.inj hsplit
          exact absurd (hx.symm.trans hx') (by simp)
        | cons _ before =>
          obtain ⟨rfl, rfl⟩ := List.cons.inj hsplit
          exact ⟨before, x', after, rfl, (List.forall_mem_cons.1 hbefore).2, hx'⟩

theorem mapM_of_forall {f : α → Except ε β} {g : α → β} {xs : List α}
    (h : ∀ x ∈ xs, f x = .ok (g x)) : xs.mapM f = .ok (xs.map g) := by
  rw [mapM_eq_ok, List.forall₂_map_right_iff, List.forall₂_same]
  exact h

theorem mapM_map {γ : Type} (f : α → Except ε β) (g : β → γ) (xs : List α) :
    xs.mapM (fun x => g <$> f x) = List.map g <$> xs.mapM f := by
  induction xs with
  | nil => rfl
  | cons x xs ih =>
    rw [List.mapM_cons, List.mapM_cons, ih]
    rcases f x with e | y
    · rfl
    · rcases xs.mapM f with e | ys
      · rfl
      · rfl

theorem exists_mapM_iff {f : α → Except ε β} {xs : List α} :
    (∃ ys, xs.mapM f = .ok ys) ↔ ∀ x ∈ xs, ∃ y, f x = .ok y := by
  induction xs with
  | nil => exact ⟨fun _ => by simp, fun _ => ⟨[], rfl⟩⟩
  | cons x xs ih =>
    rw [List.forall_mem_cons, ← ih]
    simp only [mapM_eq_ok, List.forall₂_cons_left_iff]
    constructor
    · rintro ⟨_, y, ys, hy, hys, -⟩
      exact ⟨⟨y, hy⟩, ys, hys⟩
    · rintro ⟨⟨y, hy⟩, ys, hys⟩
      exact ⟨_, y, ys, hy, hys, rfl⟩

theorem mem_of_mapM {f : α → Except ε β} {xs : List α} {ys : List β}
    (h : xs.mapM f = .ok ys) (y : β) : y ∈ ys ↔ ∃ x ∈ xs, f x = .ok y := by
  have hall := mapM_eq_ok.1 h
  clear h
  induction hall with
  | nil => simp
  | @cons x y' xs ys hx _ ih =>
    rw [List.mem_cons, List.exists_mem_cons_iff, hx, Except.ok.injEq]
    exact or_congr eq_comm ih

/-- A successful `mapM` is a map of what its function returns. -/
theorem eq_map_of_mapM {f : α → Except ε β} {g : α → β} {xs : List α} {ys : List β}
    (hg : ∀ x y, f x = .ok y → g x = y) (h : xs.mapM f = .ok ys) :
    ys = xs.map g ∧ ∀ x ∈ xs, f x = .ok (g x) := by
  have hall := mapM_eq_ok.1 h
  clear h
  induction hall with
  | nil => simp
  | @cons x y xs ys hx _ ih =>
    rw [List.map_cons, hg x y hx, ← ih.1, List.forall_mem_cons, hg x y hx]
    exact ⟨rfl, hx, ih.2⟩

theorem mapM_perm {f : α → Except ε β} {xs xs' : List α} {ys : List β}
    (hperm : xs.Perm xs') (h : xs.mapM f = .ok ys) : ∃ ys', xs'.mapM f = .ok ys' ∧ ys'.Perm ys := by
  obtain ⟨ys', hall, hys⟩ := List.perm_comp_forall₂ hperm.symm (mapM_eq_ok.1 h)
  exact ⟨ys', mapM_eq_ok.2 hall, hys⟩

theorem mapM_eq_some {f : α → Option β} {xs : List α} {ys : List β} :
    xs.mapM f = some ys ↔ List.Forall₂ (fun x y => f x = some y) xs ys := by
  induction xs generalizing ys with
  | nil => simp [eq_comm]
  | cons x xs ih =>
    rw [List.mapM_cons, List.forall₂_cons_left_iff]
    simp only [Option.bind_eq_bind, Option.bind_eq_some_iff, ih, Option.pure_def,
      Option.some.injEq]
    constructor
    · rintro ⟨y, hy, ys', hys, rfl⟩
      exact ⟨y, ys', hy, hys, rfl⟩
    · rintro ⟨y, ys', hy, hys, rfl⟩
      exact ⟨y, hy, ys', hys, rfl⟩

end OfbBench
