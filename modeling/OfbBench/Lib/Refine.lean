import OfbBench.Lib.Link

/-!
# Refinement through linking

A program whose calls are answered by programs that keep a state between them (`Prog.serve`). They
refine an environment if each call it allows is answered as by one of its steps, from related states
to related states (`Refines`); a weakest precondition over that environment then holds of the linked
program (`Refines.wp_serve`).

`Env.plus` puts two environments side by side, each answering the calls of its own interface.
-/

namespace OfbBench

namespace Prog

variable {A B : Api} {α σ : Type}

/-- `p` with its calls answered by programs that keep a state between them. -/
def serve (impl : σ → (c : A.Call) → Prog B (A.Resp c × σ)) : Prog A α → σ → Prog B (α × σ)
  | ret a, s => ret (a, s)
  | call c k, s => impl s c >>= fun out => (k out.1).serve impl out.2

end Prog

namespace Env

section Plus

variable {A B : Api} {σ τ α : Type}

/-- Two environments, each with a state of its own. -/
def plus (E : Env A σ) (F : Env B τ) : Env (A.plus B) (σ × τ) where
  pre s
    | .inl c => E.pre s.1 c
    | .inr c => F.pre s.2 c
  step s
    | .inl c, r, s' => E.step s.1 c r s'.1 ∧ s'.2 = s.2
    | .inr c, r, s' => F.step s.2 c r s'.2 ∧ s'.1 = s.1

variable {E : Env A σ} {F : Env B τ}

theorem wp_askLeft {c : A.Call} {Q : A.Resp c → σ × τ → Prop} {s : σ × τ} :
    (E.plus F).wp (Prog.askLeft c) Q s ↔ E.wp (Prog.ask c) (fun r s₁ => Q r (s₁, s.2)) s.1 := by
  constructor
  · rintro ⟨hpre, h⟩
    exact ⟨hpre, fun r s₁ hs => h r (s₁, s.2) ⟨hs, rfl⟩⟩
  · rintro ⟨hpre, h⟩
    refine ⟨hpre, ?_⟩
    rintro r ⟨s₁, s₂⟩ ⟨hs, rfl⟩
    exact h r s₁ hs

theorem wp_askRight {c : B.Call} {Q : B.Resp c → σ × τ → Prop} {s : σ × τ} :
    (E.plus F).wp (Prog.askRight c) Q s ↔ F.wp (Prog.ask c) (fun r s₂ => Q r (s.1, s₂)) s.2 := by
  constructor
  · rintro ⟨hpre, h⟩
    exact ⟨hpre, fun r s₂ hs => h r (s.1, s₂) ⟨hs, rfl⟩⟩
  · rintro ⟨hpre, h⟩
    refine ⟨hpre, ?_⟩
    rintro r ⟨s₁, s₂⟩ ⟨hs, rfl⟩
    exact h r s₂ hs

/-- A program over the first interface leaves the second environment alone. -/
theorem wp_link_askLeft {p : Prog A α} {Q : α → σ × τ → Prop} {s : σ × τ} :
    (E.plus F).wp (p.link Prog.askLeft) Q s ↔ E.wp p (fun a s₁ => Q a (s₁, s.2)) s.1 := by
  induction p generalizing s with
  | ret a => exact Iff.rfl
  | call c k ih =>
    simp only [Prog.link, wp_bind, wp_askLeft, wp_ask, wp_call, ih]

end Plus

section Runs

variable {A : Api} {σ α : Type} {E : Env A σ}

/-- What every run achieves is achieved, where every call is allowed. -/
theorem wp_of_runs {p : Prog A α} {Q : α → σ → Prop} {s : σ} (hpre : ∀ s c, E.pre s c)
    (h : ∀ t a s', p.Runs t a → E.Path s t s' → Q a s') : E.wp p Q s := by
  induction p generalizing s with
  | ret a => exact h [] a s ⟨rfl, rfl⟩ rfl
  | call c k ih =>
    refine ⟨hpre s c, fun r s₁ hstep => ih r fun t a s' hrun hpath => ?_⟩
    exact h (⟨c, r⟩ :: t) a s' ⟨r, t, rfl, hrun⟩ ⟨s₁, hstep, hpath⟩

end Runs

section Invariant

variable {A B : Api} {τ α : Type} {F : Env B τ}

/-- What each call's program keeps, the linked program keeps. -/
theorem wp_link {impl : (c : A.Call) → Prog B (A.Resp c)} {I : τ → Prop}
    (h : ∀ c y, I y → F.wp (impl c) (fun _ => I) y) (p : Prog A α) {y : τ} (hy : I y) :
    F.wp (p.link impl) (fun _ => I) y := by
  induction p generalizing y with
  | ret a => exact hy
  | call c k ih =>
    rw [Prog.link, wp_bind]
    exact wp_mono _ (h c y hy) fun r y' hy' => ih r hy'

end Invariant

end Env

/-! ## Refinement -/

section Refine

variable {A B : Api} {σ τ υ α : Type}

/-- Each call `E` allows is answered over `F` as by a step of `E`, from related states to related
states. -/
def Refines (impl : σ → (c : A.Call) → Prog B (A.Resp c × σ)) (E : Env A τ) (F : Env B υ)
    (R : σ → τ → υ → Prop) : Prop :=
  ∀ s x y c, R s x y → E.pre x c →
    F.wp (impl s c) (fun out y' => ∃ x', E.step x c out.1 x' ∧ R out.2 x' y') y

variable {impl : σ → (c : A.Call) → Prog B (A.Resp c × σ)} {E : Env A τ} {F : Env B υ}
  {R : σ → τ → υ → Prop}

theorem Refines.wp_serve (h : Refines impl E F R) {p : Prog A α} {Q : α → τ → Prop} {s : σ} {x : τ}
    {y : υ} (hp : E.wp p Q x) (hR : R s x y) :
    F.wp (p.serve impl s) (fun out y' => ∃ x', Q out.1 x' ∧ R out.2 x' y') y := by
  induction p generalizing s x y with
  | ret a => exact ⟨x, hp, hR⟩
  | call c k ih =>
    rw [Prog.serve, Env.wp_bind]
    refine Env.wp_mono _ (h s x y c hR hp.1) ?_
    rintro out y' ⟨x', hx', hR'⟩
    exact ih out.1 (hp.2 out.1 x' hx') hR'

end Refine

end OfbBench
