import Mathlib

/-!
# Acquisitions and releases

A log of the acquisitions and releases of objects. `ReleasedOnce` is what a program owes: nothing
is released that is not held, and in the end everything acquired has been released. A program is
verified through `Holds`, which says what a log leaves held; an object may be acquired while it is
not held, so that addresses can be used again.
-/

namespace OfbBench

inductive Act (ρ : Type)
  | acquire (r : ρ)
  | release (r : ρ)
  deriving DecidableEq, Repr

namespace Ledger

variable {ρ : Type} [DecidableEq ρ]

def acquired (log : List (Act ρ)) (r : ρ) : ℕ := log.count (.acquire r)

def released (log : List (Act ρ)) (r : ρ) : ℕ := log.count (.release r)

/-- Between any two acquisitions of an object it is released once, it is released only when it has
been acquired, and every acquisition has its release. -/
structure ReleasedOnce (log : List (Act ρ)) : Prop where
  alternating : ∀ p, p <+: log → ∀ r,
    released p r ≤ acquired p r ∧ acquired p r ≤ released p r + 1
  settled : ∀ r, acquired log r = released log r

/-- An object that may be acquired: it is not held. -/
def Fresh (log : List (Act ρ)) (r : ρ) : Prop := acquired log r = released log r

/-- Each acquisition in `acts`, taken one after the other, is of an object not held then. -/
def FreshActs : (log acts : List (Act ρ)) → Prop
  | _, [] => True
  | log, .acquire r :: acts => Fresh log r ∧ FreshActs (log ++ [.acquire r]) acts
  | log, .release r :: acts => FreshActs (log ++ [.release r]) acts

instance (log : List (Act ρ)) (r : ρ) : Decidable (Fresh log r) :=
  inferInstanceAs (Decidable (acquired log r = released log r))

instance decidableFreshActs : (log acts : List (Act ρ)) → Decidable (FreshActs log acts)
  | _, [] => inferInstanceAs (Decidable True)
  | log, .acquire r :: acts =>
    have : Decidable (FreshActs (log ++ [.acquire r]) acts) := decidableFreshActs _ acts
    inferInstanceAs (Decidable (Fresh log r ∧ FreshActs (log ++ [.acquire r]) acts))
  | log, .release r :: acts => decidableFreshActs (log ++ [.release r]) acts

/-- What a well kept log leaves held. -/
structure Holds (log : List (Act ρ)) (held : Multiset ρ) : Prop where
  alternating : ∀ p, p <+: log → ∀ r,
    released p r ≤ acquired p r ∧ acquired p r ≤ released p r + 1
  balance : ∀ r, acquired log r = released log r + held.count r

section Counts

variable (log : List (Act ρ)) (r s : ρ)

theorem acquired_acquire :
    acquired (log ++ [.acquire r]) s = acquired log s + if r = s then 1 else 0 := by
  unfold acquired
  rw [List.count_append, List.count_singleton]
  simp only [beq_iff_eq, Act.acquire.injEq]

theorem acquired_release : acquired (log ++ [.release r]) s = acquired log s := by
  unfold acquired
  rw [List.count_append, List.count_singleton]
  simp

theorem released_release :
    released (log ++ [.release r]) s = released log s + if r = s then 1 else 0 := by
  unfold released
  rw [List.count_append, List.count_singleton]
  simp only [beq_iff_eq, Act.release.injEq]

theorem released_acquire : released (log ++ [.acquire r]) s = released log s := by
  unfold released
  rw [List.count_append, List.count_singleton]
  simp

end Counts

variable {log : List (Act ρ)} {held : Multiset ρ} {r s : ρ}

theorem Holds.nil : Holds ([] : List (Act ρ)) 0 := by
  refine ⟨fun p hp r => ?_, fun r => rfl⟩
  rw [List.prefix_nil.1 hp]
  exact ⟨le_refl _, Nat.zero_le _⟩

theorem Holds.fresh_iff (h : Holds log held) : Fresh log r ↔ r ∉ held := by
  unfold Fresh
  rw [h.balance r, ← Multiset.count_eq_zero]
  omega

/-- One more act keeps a log well kept if it alternates with the acts before it. -/
theorem alternating_concat {a : Act ρ}
    (h : ∀ p, p <+: log → ∀ r, released p r ≤ acquired p r ∧ acquired p r ≤ released p r + 1)
    (ha : ∀ r, released (log ++ [a]) r ≤ acquired (log ++ [a]) r
      ∧ acquired (log ++ [a]) r ≤ released (log ++ [a]) r + 1) :
    ∀ p, p <+: log ++ [a] → ∀ r,
      released p r ≤ acquired p r ∧ acquired p r ≤ released p r + 1 := by
  intro p hp
  rcases List.prefix_concat_iff.1 hp with rfl | hp
  · exact ha
  · exact h p hp

theorem Holds.acquire (h : Holds log held) (hr : Fresh log r) :
    Holds (log ++ [.acquire r]) (r ::ₘ held) := by
  refine ⟨alternating_concat h.alternating fun s => ?_, fun s => ?_⟩
  · rw [acquired_acquire, released_acquire]
    have hs := h.alternating log List.prefix_rfl s
    unfold Fresh at hr
    split_ifs with he
    · subst he
      omega
    · omega
  · rw [acquired_acquire, released_acquire, h.balance s, Multiset.count_cons]
    simp only [eq_comm (a := s), Nat.add_assoc]

theorem Holds.release (h : Holds log (r ::ₘ held)) : Holds (log ++ [.release r]) held := by
  have hb : ∀ s, acquired log s = released log s + (held.count s + if r = s then 1 else 0) := by
    intro s
    rw [h.balance s, Multiset.count_cons]
    simp only [eq_comm (a := s)]
  refine ⟨alternating_concat h.alternating fun s => ?_, fun s => ?_⟩
  · rw [acquired_release, released_release]
    have hs := h.alternating log List.prefix_rfl s
    have := hb s
    split_ifs at this ⊢ <;> omega
  · rw [acquired_release, released_release, hb s]
    omega

/-- Releasing some of what is held, one after the other. -/
theorem Holds.releases {rs : List ρ} (h : Holds log (rs + held)) :
    Holds (log ++ rs.map .release) held := by
  induction rs generalizing log with
  | nil =>
    rw [List.map_nil, List.append_nil]
    simpa using h
  | cons r rs ih =>
    rw [← Multiset.cons_coe, Multiset.cons_add] at h
    rw [List.map_cons, List.append_cons]
    exact ih h.release

theorem Holds.releasedOnce (h : Holds log 0) : ReleasedOnce log :=
  ⟨h.alternating, fun r => by rw [h.balance r, Multiset.count_zero, Nat.add_zero]⟩

theorem Holds.nodup (h : Holds log held) : held.Nodup := by
  rw [Multiset.nodup_iff_count_le_one]
  intro r
  have ha := h.alternating log List.prefix_rfl r
  have := h.balance r
  omega

end Ledger

end OfbBench
