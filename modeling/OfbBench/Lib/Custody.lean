import OfbBench.Lib.Ledger
import OfbBench.Lib.Prog

/-!
# Objects with phases

An interface whose calls acquire, use and release objects, each of which is in a phase
(`Custody`). As an environment it asks that a call is made only on objects that are held then and in
the phases it is for. A program verified against it uses nothing before it is acquired or after it
is released, makes the calls on an object in their order, and releases once what it acquires.

A call is verified by one of three rules: it leaves the objects where they are (`wp_neutral`),
acquires some (`wp_acquires`) or releases some (`wp_releases`).
-/

namespace OfbBench

namespace Ledger

variable {ρ : Type} [DecidableEq ρ] {log : List (Act ρ)} {S : Multiset ρ} {r : ρ}

/-- An object that was acquired and not yet released. -/
def Held (log : List (Act ρ)) (r : ρ) : Prop := released log r < acquired log r

theorem Holds.held (h : Holds log S) (hr : r ∈ S) : Held log r := by
  unfold Held
  rw [h.balance r]
  have := Multiset.count_pos.2 hr
  omega

/-- Acquiring objects that are not held, one after the other. -/
theorem Holds.acquires {rs : List ρ} (h : Holds log S) (hfresh : FreshActs log (rs.map .acquire)) :
    Holds (log ++ rs.map .acquire) ((rs : Multiset ρ) + S) := by
  induction rs generalizing log S with
  | nil =>
    rw [List.map_nil, List.append_nil]
    simpa using h
  | cons r rs ih =>
    rw [List.map_cons, List.append_cons]
    have hih := ih (h.acquire hfresh.1) hfresh.2
    rwa [← Multiset.cons_coe, Multiset.cons_add, ← Multiset.add_cons]

def objectOf : Act ρ → ρ
  | .acquire r => r
  | .release r => r

/-- An address above all those of the objects in a log. -/
def nextAddress (address : ρ → ℕ) (log : List (Act ρ)) : ℕ :=
  (log.map fun act => address (objectOf act) + 1).foldr max 0

omit [DecidableEq ρ] in
theorem address_lt_next (address : ρ → ℕ) {act : Act ρ} (h : act ∈ log) :
    address (objectOf act) < nextAddress address log := by
  unfold nextAddress
  induction log with
  | nil => simp at h
  | cons a log ih =>
    rw [List.map_cons, List.foldr_cons]
    rcases List.mem_cons.1 h with rfl | h
    · exact lt_max_of_lt_left (Nat.lt_succ_self _)
    · exact lt_max_of_lt_right (ih h)

/-- An object at such an address may be acquired. -/
theorem fresh_of_next_le {address : ρ → ℕ} (h : nextAddress address log ≤ address r) :
    Fresh log r := by
  have hcount : ∀ act : Act ρ, objectOf act = r → log.count act = 0 := by
    intro act hact
    rw [List.count_eq_zero]
    intro hmem
    have := address_lt_next address hmem
    rw [hact] at this
    omega
  unfold Fresh acquired released
  rw [hcount _ rfl, hcount _ rfl]

/-- An object stays fresh while another is acquired. -/
theorem Fresh.acquire_of_ne {s : ρ} (h : Fresh log s) (hne : r ≠ s) :
    Fresh (log ++ [.acquire r]) s := by
  unfold Fresh
  rw [acquired_acquire, released_acquire, if_neg hne, Nat.add_zero]
  exact h

theorem freshActs_release (rs : List ρ) : FreshActs log (rs.map .release) := by
  induction rs generalizing log with
  | nil => trivial
  | cons r rs ih => exact ih

end Ledger

/-- What the calls of an interface do with objects, each in a phase: the objects a call is made on,
what it asks of its arguments and of the phases, how it may be answered, what it then acquires or
releases, and the phases after it. -/
structure Custody (A : Api) (ρ φ : Type) where
  uses : A.Call → List ρ
  asks : (ρ → φ) → A.Call → Prop
  answers : (ρ → φ) → (c : A.Call) → A.Resp c → Prop
  acts : (ρ → φ) → (c : A.Call) → A.Resp c → List (Act ρ)
  after : (ρ → φ) → (c : A.Call) → A.Resp c → ρ → φ

/-- The acquisitions and releases so far, and the phase of each object. -/
structure Custody.Books (ρ φ : Type) where
  log : List (Act ρ)
  phase : ρ → φ

namespace Custody

open Ledger

variable {A : Api} {ρ φ : Type} [DecidableEq ρ] (K : Custody A ρ φ)

def env : Env A (Books ρ φ) where
  pre books c := (∀ r ∈ K.uses c, Held books.log r) ∧ K.asks books.phase c
  step books c r books' := K.answers books.phase c r
    ∧ FreshActs books.log (K.acts books.phase c r)
    ∧ books' = ⟨books.log ++ K.acts books.phase c r, K.after books.phase c r⟩

/-- The library that answers by `answer`, and keeps its books. -/
def handler (answer : Books ρ φ → (c : A.Call) → A.Resp c) (books : Books ρ φ) (c : A.Call) :
    A.Resp c × Books ρ φ :=
  (answer books c, ⟨books.log ++ K.acts books.phase c (answer books c),
    K.after books.phase c (answer books c)⟩)

variable {K} {books : Books ρ φ} {S : Multiset ρ} {c : A.Call} {Q : A.Resp c → Books ρ φ → Prop}

theorem wp_neutral (h : Holds books.log S) (huses : ∀ r ∈ K.uses c, r ∈ S)
    (hasks : K.asks books.phase c) (hacts : ∀ r, K.acts books.phase c r = [])
    (hQ : ∀ r, K.answers books.phase c r → Q r ⟨books.log, K.after books.phase c r⟩) :
    K.env.wp (Prog.ask c) Q books := by
  refine ⟨⟨fun r hr => h.held (huses r hr), hasks⟩, ?_⟩
  rintro r _ ⟨hanswers, -, rfl⟩
  rw [hacts, List.append_nil]
  exact hQ r hanswers

theorem wp_acquires (objects : A.Resp c → List ρ) (h : Holds books.log S)
    (huses : ∀ r ∈ K.uses c, r ∈ S) (hasks : K.asks books.phase c)
    (hacts : ∀ r, K.acts books.phase c r = (objects r).map .acquire)
    (hQ : ∀ r log, K.answers books.phase c r → Holds log ((objects r : Multiset ρ) + S) →
      Q r ⟨log, K.after books.phase c r⟩) : K.env.wp (Prog.ask c) Q books := by
  refine ⟨⟨fun r hr => h.held (huses r hr), hasks⟩, ?_⟩
  rintro r _ ⟨hanswers, hfresh, rfl⟩
  rw [hacts] at hfresh ⊢
  exact hQ r _ hanswers (h.acquires hfresh)

theorem wp_releases (objects : List ρ) (h : Holds books.log (objects + S))
    (huses : ∀ r ∈ K.uses c, r ∈ (objects : Multiset ρ) + S) (hasks : K.asks books.phase c)
    (hacts : ∀ r, K.acts books.phase c r = objects.map .release)
    (hQ : ∀ r log, Holds log S → Q r ⟨log, K.after books.phase c r⟩) :
    K.env.wp (Prog.ask c) Q books := by
  refine ⟨⟨fun r hr => h.held (huses r hr), hasks⟩, ?_⟩
  rintro r _ ⟨-, -, rfl⟩
  rw [hacts]
  exact hQ r _ h.releases

/-- A library that answers as is expected, and hands out objects that are not held. -/
theorem handler_step {answer : Books ρ φ → (c : A.Call) → A.Resp c} (books : Books ρ φ)
    (c : A.Call) (hanswers : K.answers books.phase c (answer books c))
    (hfresh : FreshActs books.log (K.acts books.phase c (answer books c))) :
    K.env.step books c (K.handler answer books c).1 (K.handler answer books c).2 :=
  ⟨hanswers, hfresh, rfl⟩

end Custody

end OfbBench
