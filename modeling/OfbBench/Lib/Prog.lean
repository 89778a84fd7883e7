import Mathlib

/-!
# Programs that call an environment

A `Prog` is a tree of calls: each call is answered by the environment, and what follows may depend
on the answer. `Runs p t a` says that `p` can return `a` having made the calls of `t` and received
the answers `t` records; quantifying over `t` is quantifying over every behaviour of the
environment, adaptive ones included.

An `Env` restricts the answers, by a step relation on a state of its own, and says what it asks of
a call. `wp` is the weakest precondition of a program against an `Env`; `wp_sound` turns it into a
statement about runs.
-/

namespace OfbBench

/-- The calls a program can make, and the type of the answer to each. -/
structure Api where
  Call : Type
  Resp : Call → Type

/-- A call together with the answer it got. -/
abbrev Event (A : Api) := (c : A.Call) × A.Resp c

abbrev Trace (A : Api) := List (Event A)

/-- A program over the calls of `A`: it returns, or makes a call and goes on with the answer. -/
inductive Prog (A : Api) (α : Type) : Type
  | ret (a : α) : Prog A α
  | call (c : A.Call) (k : A.Resp c → Prog A α) : Prog A α

namespace Prog

variable {A : Api} {α β γ : Type}

def bind : Prog A α → (α → Prog A β) → Prog A β
  | ret a, f => f a
  | call c k, f => call c fun r => (k r).bind f

instance : Monad (Prog A) where
  pure := ret
  bind := bind

/-- One call, and its answer. -/
def ask (c : A.Call) : Prog A (A.Resp c) := call c ret

@[simp] theorem ret_bind (a : α) (f : α → Prog A β) : (ret a : Prog A α) >>= f = f a := rfl

@[simp] theorem call_bind (c : A.Call) (k : A.Resp c → Prog A α) (f : α → Prog A β) :
    call c k >>= f = call c fun r => k r >>= f := rfl

@[simp] theorem ask_bind (c : A.Call) (f : A.Resp c → Prog A β) : ask c >>= f = call c f := rfl

theorem bind_ret (p : Prog A α) : p >>= ret = p := by
  induction p with
  | ret a => rfl
  | call c k ih => simp only [call_bind, ih]

protected theorem bind_assoc (p : Prog A α) (f : α → Prog A β) (g : β → Prog A γ) :
    p >>= f >>= g = p >>= fun a => f a >>= g := by
  induction p with
  | ret a => rfl
  | call c k ih => simp only [call_bind, ih]

instance : LawfulMonad (Prog A) :=
  LawfulMonad.mk' _ (fun p => bind_ret p) (fun _ _ => rfl) Prog.bind_assoc

/-! ## Runs -/

section Runs

/-- `p` can return `a` by making the calls of `t` and getting the answers recorded there. -/
def Runs : Prog A α → Trace A → α → Prop
  | ret a, t, b => t = [] ∧ b = a
  | call c k, t, b => ∃ r t', t = ⟨c, r⟩ :: t' ∧ Runs (k r) t' b

@[simp] theorem runs_ret {a b : α} {t : Trace A} : Runs (ret a) t b ↔ t = [] ∧ b = a := Iff.rfl

@[simp] theorem runs_pure {a b : α} {t : Trace A} :
    Runs (pure a : Prog A α) t b ↔ t = [] ∧ b = a := Iff.rfl

@[simp] theorem runs_call {c : A.Call} {k : A.Resp c → Prog A α} {t : Trace A} {b : α} :
    Runs (call c k) t b ↔ ∃ r t', t = ⟨c, r⟩ :: t' ∧ Runs (k r) t' b := Iff.rfl

theorem runs_call_cons {c : A.Call} {k : A.Resp c → Prog A α} {r : A.Resp c} {t : Trace A} {b : α} :
    Runs (call c k) (⟨c, r⟩ :: t) b ↔ Runs (k r) t b := by
  constructor
  · rintro ⟨r', t', ht, h⟩
    cases ht
    exact h
  · intro h
    exact ⟨r, t, rfl, h⟩

@[simp] theorem runs_ask {c : A.Call} {t : Trace A} {b : A.Resp c} :
    Runs (ask c) t b ↔ t = [⟨c, b⟩] := by
  constructor
  · rintro ⟨r, t', rfl, rfl, rfl⟩
    rfl
  · rintro rfl
    exact ⟨b, [], rfl, rfl, rfl⟩

theorem runs_ask_bind {c : A.Call} {f : A.Resp c → Prog A β} {t : Trace A} {b : β} :
    Runs (ask c >>= f) t b ↔ ∃ r t', t = ⟨c, r⟩ :: t' ∧ Runs (f r) t' b := Iff.rfl

/-- A run of a sequence is a run of its first part followed by one of its second. -/
theorem runs_bind {p : Prog A α} {f : α → Prog A β} {t : Trace A} {b : β} :
    Runs (p >>= f) t b ↔ ∃ t₁ t₂ a, t = t₁ ++ t₂ ∧ Runs p t₁ a ∧ Runs (f a) t₂ b := by
  induction p generalizing t with
  | ret a =>
    constructor
    · intro h
      exact ⟨[], t, a, rfl, ⟨rfl, rfl⟩, h⟩
    · rintro ⟨_, t₂, _, rfl, ⟨rfl, rfl⟩, h⟩
      exact h
  | call c k ih =>
    simp only [call_bind, runs_call]
    constructor
    · rintro ⟨r, t', rfl, h⟩
      obtain ⟨t₁, t₂, a, rfl, h₁, h₂⟩ := (ih r).1 h
      exact ⟨⟨c, r⟩ :: t₁, t₂, a, rfl, ⟨r, t₁, rfl, h₁⟩, h₂⟩
    · rintro ⟨_, t₂, a, rfl, ⟨r, t₁, rfl, h₁⟩, h₂⟩
      exact ⟨r, t₁ ++ t₂, rfl, (ih r).2 ⟨t₁, t₂, a, rfl, h₁, h₂⟩⟩

/-- Whatever it is answered, `p` returns only what `Q` holds of. -/
def Ensures (p : Prog A α) (Q : α → Prop) : Prop := ∀ t a, p.Runs t a → Q a

theorem ensures_ret {a : α} {Q : α → Prop} (h : Q a) : (ret a : Prog A α).Ensures Q := by
  rintro t b ⟨-, rfl⟩
  exact h

theorem Ensures.bind {p : Prog A α} {f : α → Prog A β} {P : α → Prop} {Q : β → Prop}
    (hp : p.Ensures P) (hf : ∀ a, P a → (f a).Ensures Q) : (p >>= f).Ensures Q := by
  intro t b h
  obtain ⟨t₁, t₂, a, -, h₁, h₂⟩ := runs_bind.1 h
  exact hf a (hp t₁ a h₁) t₂ b h₂

theorem ensures_bind {p : Prog A α} {f : α → Prog A β} {Q : β → Prop}
    (hf : ∀ a, (f a).Ensures Q) : (p >>= f).Ensures Q :=
  Ensures.bind (P := fun _ => True) (fun _ _ _ => trivial) fun a _ => hf a

end Runs

/-! ## Running a program against a handler -/

section Run

variable {σ : Type}

/-- The run of a program whose calls are answered by `h`, from the state `s` of `h`. -/
def run (h : σ → (c : A.Call) → A.Resp c × σ) : Prog A α → σ → Trace A × α × σ
  | ret a, s => ([], a, s)
  | call c k, s =>
    let (r, s₁) := h s c
    let (t, a, s₂) := (k r).run h s₁
    (⟨c, r⟩ :: t, a, s₂)

theorem runs_run (h : σ → (c : A.Call) → A.Resp c × σ) (p : Prog A α) (s : σ) :
    Runs p (p.run h s).1 (p.run h s).2.1 := by
  induction p generalizing s with
  | ret a => exact ⟨rfl, rfl⟩
  | call c k ih => exact ⟨(h s c).1, _, rfl, ih _ _⟩

/-- Whatever answers its calls, `p` returns after at most `bound` of them. -/
def EndsWithin (p : Prog A α) (bound : ℕ) : Prop :=
  ∀ (σ : Type) (h : σ → (c : A.Call) → A.Resp c × σ) (s : σ),
    p.Runs (p.run h s).1 (p.run h s).2.1 ∧ (p.run h s).1.length ≤ bound

theorem endsWithin {p : Prog A α} {bound : ℕ} (h : ∀ t a, p.Runs t a → t.length ≤ bound) :
    p.EndsWithin bound :=
  fun _ f s => ⟨runs_run f p s, h _ _ (runs_run f p s)⟩

end Run

end Prog

/-! ## Environments -/

/-- What an environment asks of a call made in a state, and how it may answer it. -/
structure Env (A : Api) (σ : Type) where
  pre : σ → A.Call → Prop
  step : σ → (c : A.Call) → A.Resp c → σ → Prop

namespace Env

variable {A : Api} {σ α β : Type} (E : Env A σ)

/-- The calls and answers of `t` lead the environment from the first state to the second. -/
def Path : σ → Trace A → σ → Prop
  | s, [], s' => s' = s
  | s, e :: t, s' => ∃ s₁, E.step s e.1 e.2 s₁ ∧ Path s₁ t s'

@[simp] theorem path_nil {s s' : σ} : E.Path s [] s' ↔ s' = s := Iff.rfl

@[simp] theorem path_cons {s s' : σ} {e : Event A} {t : Trace A} :
    E.Path s (e :: t) s' ↔ ∃ s₁, E.step s e.1 e.2 s₁ ∧ E.Path s₁ t s' := Iff.rfl

theorem path_append {s s' : σ} {t₁ t₂ : Trace A} :
    E.Path s (t₁ ++ t₂) s' ↔ ∃ s₁, E.Path s t₁ s₁ ∧ E.Path s₁ t₂ s' := by
  induction t₁ generalizing s with
  | nil => simp
  | cons e t ih =>
    simp only [List.cons_append, path_cons, ih]
    constructor
    · rintro ⟨s₁, h₁, s₂, h₂, h₃⟩
      exact ⟨s₂, ⟨s₁, h₁, h₂⟩, h₃⟩
    · rintro ⟨s₂, ⟨s₁, h₁, h₂⟩, h₃⟩
      exact ⟨s₁, h₁, s₂, h₂, h₃⟩

/-- A relation between the trace so far and the state, kept by each step, holds to the end. -/
theorem Path.hist {H : Trace A → σ → Prop}
    (hH : ∀ t s e s', H t s → E.step s e.1 e.2 s' → H (t ++ [e]) s') {t₀ t : Trace A} {s s' : σ}
    (h : E.Path s t s') (hs : H t₀ s) : H (t₀ ++ t) s' := by
  induction t generalizing t₀ s with
  | nil =>
    rw [path_nil] at h
    rw [List.append_nil]
    exact h ▸ hs
  | cons e t ih =>
    obtain ⟨s₁, h₁, h⟩ := h
    rw [List.append_cons]
    exact ih h (hH t₀ s e s₁ hs h₁)

/-- Every call of `t` is made where the environment allows it. -/
def Safe (s : σ) (t : Trace A) : Prop :=
  ∀ t₁ e t₂ s₁, t = t₁ ++ e :: t₂ → E.Path s t₁ s₁ → E.pre s₁ e.1

theorem safe_nil (s : σ) : E.Safe s [] := by
  intro t₁ e t₂ s₁ h
  simp at h

theorem safe_cons {s : σ} {e : Event A} {t : Trace A} :
    E.Safe s (e :: t) ↔ E.pre s e.1 ∧ ∀ s₁, E.step s e.1 e.2 s₁ → E.Safe s₁ t := by
  constructor
  · intro h
    refine ⟨h [] e t s rfl rfl, fun s₁ hs t₁ e' t₂ s₂ ht hp => ?_⟩
    exact h (e :: t₁) e' t₂ s₂ (by rw [ht]; rfl) ⟨s₁, hs, hp⟩
  · rintro ⟨hpre, h⟩ t₁ e' t₂ s₂ ht hp
    rcases t₁ with _ | ⟨e₁, t₁⟩
    · simp only [List.nil_append, List.cons.injEq] at ht
      obtain ⟨rfl, -⟩ := ht
      rw [path_nil] at hp
      exact hp ▸ hpre
    · simp only [List.cons_append, List.cons.injEq] at ht
      obtain ⟨rfl, rfl⟩ := ht
      obtain ⟨s₁, hs, hp⟩ := hp
      exact h s₁ hs t₁ e' t₂ s₂ rfl hp

theorem Safe.append {s : σ} {t₁ t₂ : Trace A} (h₁ : E.Safe s t₁)
    (h₂ : ∀ s₁, E.Path s t₁ s₁ → E.Safe s₁ t₂) : E.Safe s (t₁ ++ t₂) := by
  induction t₁ generalizing s with
  | nil => exact h₂ s rfl
  | cons e t ih =>
    rw [List.cons_append, safe_cons] at *
    exact ⟨h₁.1, fun s₁ hs => ih (h₁.2 s₁ hs) fun s₂ hp => h₂ s₂ ⟨s₁, hs, hp⟩⟩

/-- The weakest precondition: every call is allowed where it is made, and however the environment
answers, the program ends with a result and a state in `Q`. -/
def wp : Prog A α → (α → σ → Prop) → σ → Prop
  | .ret a, Q, s => Q a s
  | .call c k, Q, s => E.pre s c ∧ ∀ r s', E.step s c r s' → wp (k r) Q s'

@[simp] theorem wp_ret {a : α} {Q : α → σ → Prop} {s : σ} : E.wp (.ret a) Q s ↔ Q a s := Iff.rfl

@[simp] theorem wp_pure {a : α} {Q : α → σ → Prop} {s : σ} :
    E.wp (pure a) Q s ↔ Q a s := Iff.rfl

@[simp] theorem wp_call {c : A.Call} {k : A.Resp c → Prog A α} {Q : α → σ → Prop} {s : σ} :
    E.wp (.call c k) Q s ↔ E.pre s c ∧ ∀ r s', E.step s c r s' → E.wp (k r) Q s' := Iff.rfl

@[simp] theorem wp_ask {c : A.Call} {Q : A.Resp c → σ → Prop} {s : σ} :
    E.wp (Prog.ask c) Q s ↔ E.pre s c ∧ ∀ r s', E.step s c r s' → Q r s' := Iff.rfl

@[simp] theorem wp_bind {p : Prog A α} {f : α → Prog A β} {Q : β → σ → Prop} {s : σ} :
    E.wp (p >>= f) Q s ↔ E.wp p (fun a => E.wp (f a) Q) s := by
  induction p generalizing s with
  | ret a => rfl
  | call c k ih => simp only [Prog.call_bind, wp_call, ih]

theorem wp_mono {p : Prog A α} {Q Q' : α → σ → Prop} {s : σ} (h : E.wp p Q s)
    (hQ : ∀ a s', Q a s' → Q' a s') : E.wp p Q' s := by
  induction p generalizing s with
  | ret a => exact hQ a s h
  | call c k ih => exact ⟨h.1, fun r s' hs => ih r (h.2 r s' hs)⟩

/-- A run on which the environment answers as it may ends in the postcondition. -/
theorem wp_sound {p : Prog A α} {Q : α → σ → Prop} {s s' : σ} {t : Trace A} {a : α}
    (h : E.wp p Q s) (hr : p.Runs t a) (hp : E.Path s t s') : Q a s' := by
  induction p generalizing s t with
  | ret b =>
    obtain ⟨rfl, rfl⟩ := hr
    rw [path_nil] at hp
    exact hp ▸ h
  | call c k ih =>
    obtain ⟨r, t', rfl, hr⟩ := hr
    obtain ⟨s₁, hs, hp⟩ := hp
    exact ih r (h.2 r s₁ hs) hr hp

/-- Every call of such a run is made where the environment allows it. -/
theorem wp_safe {p : Prog A α} {Q : α → σ → Prop} {s : σ} {t : Trace A} {a : α}
    (h : E.wp p Q s) (hr : p.Runs t a) : E.Safe s t := by
  induction p generalizing s t with
  | ret b =>
    obtain ⟨rfl, -⟩ := hr
    exact E.safe_nil s
  | call c k ih =>
    obtain ⟨r, t', rfl, hr⟩ := hr
    exact E.safe_cons.2 ⟨h.1, fun s₁ hs => ih r (h.2 r s₁ hs) hr⟩

/-- An environment that answers every call it allows lets the program run to its end. -/
theorem wp_exists_run {p : Prog A α} {Q : α → σ → Prop} {s : σ} (h : E.wp p Q s)
    (htotal : ∀ s c, E.pre s c → ∃ r s', E.step s c r s') :
    ∃ t a s', p.Runs t a ∧ E.Path s t s' := by
  induction p generalizing s with
  | ret a => exact ⟨[], a, s, ⟨rfl, rfl⟩, rfl⟩
  | call c k ih =>
    obtain ⟨r, s₁, hs⟩ := htotal s c h.1
    obtain ⟨t, a, s', hr, hp⟩ := ih r (h.2 r s₁ hs)
    exact ⟨⟨c, r⟩ :: t, a, s', ⟨r, t, rfl, hr⟩, s₁, hs, hp⟩

/-- A run against a handler that answers as the environment may. -/
theorem path_run {τ : Type} {h : τ → (c : A.Call) → A.Resp c × τ} {abs : τ → σ}
    (hstep : ∀ x c, E.step (abs x) c (h x c).1 (abs (h x c).2)) (p : Prog A α) (x : τ) :
    E.Path (abs x) (p.run h x).1 (abs (p.run h x).2.2) := by
  induction p generalizing x with
  | ret a => exact rfl
  | call c k ih => exact ⟨abs (h x c).2, hstep x c, ih _ _⟩

end Env

end OfbBench
