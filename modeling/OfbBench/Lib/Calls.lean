import OfbBench.Lib.Refine

/-!
# The calls a program can make

`OnlyCalls ok p` says that every call `p` can make, however its calls are answered, is one of `ok`.
It is kept by sequencing and by linking with programs that call only what is allowed
(`OnlyCalls.serve`), so what holds of the calls of a linked program is read off its parts. Such a
program may be run where only these calls are allowed (`Env.wp_only`).
-/

namespace OfbBench.Prog

variable {A B : Api} {α β σ : Type} {ok : A.Call → Prop} {ok' : B.Call → Prop}

def OnlyCalls (ok : A.Call → Prop) : Prog A α → Prop
  | ret _ => True
  | call c k => ok c ∧ ∀ r, OnlyCalls ok (k r)

theorem onlyCalls_ask {c : A.Call} (h : ok c) : OnlyCalls ok (ask c) := ⟨h, fun _ => trivial⟩

theorem OnlyCalls.bind {p : Prog A α} {f : α → Prog A β} (hp : OnlyCalls ok p)
    (hf : ∀ a, OnlyCalls ok (f a)) : OnlyCalls ok (p >>= f) := by
  induction p with
  | ret a => exact hf a
  | call c k ih => exact ⟨hp.1, fun r => ih r (hp.2 r)⟩

theorem OnlyCalls.link {lower : (c : A.Call) → Prog B (A.Resp c)} {p : Prog A α}
    (hp : OnlyCalls ok p) (h : ∀ c, ok c → OnlyCalls ok' (lower c)) :
    OnlyCalls ok' (p.link lower) := by
  induction p with
  | ret a => trivial
  | call c k ih => exact (h c hp.1).bind fun r => ih r (hp.2 r)

theorem OnlyCalls.serve {impl : σ → (c : A.Call) → Prog B (A.Resp c × σ)} {p : Prog A α}
    (hp : OnlyCalls ok p) (h : ∀ s c, ok c → OnlyCalls ok' (impl s c)) (s : σ) :
    OnlyCalls ok' (p.serve impl s) := by
  induction p generalizing s with
  | ret a => trivial
  | call c k ih => exact (h s c hp.1).bind fun out => ih out.1 (hp.2 out.1) out.2

/-- The calls of a run are among them. -/
theorem OnlyCalls.runs {p : Prog A α} {t : Trace A} {a : α} (hp : OnlyCalls ok p)
    (h : p.Runs t a) : ∀ e ∈ t, ok e.1 := by
  induction p generalizing t with
  | ret b =>
    obtain ⟨rfl, -⟩ := h
    simp
  | call c k ih =>
    obtain ⟨r, t', rfl, h⟩ := h
    exact List.forall_mem_cons.2 ⟨hp.1, ih r (hp.2 r) h⟩

end OfbBench.Prog

namespace OfbBench.Env

variable {A : Api} {σ α : Type} {ok : A.Call → Prop} {E : Env A σ}

/-- An environment of which only calls that are `ok` are made. -/
def only (E : Env A σ) (ok : A.Call → Prop) : Env A σ :=
  { E with pre := fun s c => ok c ∧ E.pre s c }

theorem wp_only {p : Prog A α} {Q : α → σ → Prop} {s : σ} (hp : p.OnlyCalls ok) (h : E.wp p Q s) :
    (E.only ok).wp p Q s := by
  induction p generalizing s with
  | ret a => exact h
  | call c k ih => exact ⟨⟨hp.1, h.1⟩, fun r s' hstep => ih r (hp.2 r) (h.2 r s' hstep)⟩

end OfbBench.Env
