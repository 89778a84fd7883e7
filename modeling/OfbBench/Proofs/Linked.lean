import OfbBench.Program

/-!
# Linking a program with its backend

What a program may do with a backend is an automaton (`lifeEnv`): one backend at a time, verified
and run until a call on it fails, destroyed before the next is created. Each `run_case` keeps to it
and leaves no backend behind (`runCase_life`).

A backend that owns a state of its library between calls (`Implementation.Sound`) refines the
automaton, so what it owns is kept through every run of the linked program (`Sound.wp_link`).
-/

namespace OfbBench

/-- What a program has of a backend: none, one it may use, or one on which a call has failed. -/
inductive Life
  | absent
  | working (backend : Ptr)
  | failed (backend : Ptr)
  deriving DecidableEq

def Life.backend : Life → Option Ptr
  | .absent => none
  | .working b => some b
  | .failed b => some b

theorem Life.eq_absent {life : Life} (h : life.backend = none) : life = .absent := by
  cases life with
  | absent => rfl
  | working b => simp [backend] at h
  | failed b => simp [backend] at h

section Automaton

variable {P R : Type}

/-- Where an answered call leads. -/
def Life.after : Life → (c : Driver.Call P R) → Driver.Resp c → Life
  | _, .backendCreate _, some b => .working b
  | _, .backendVerify b, rc => if rc = 0 then .working b else .failed b
  | _, .backendRunBatch b _, rc => if rc = 0 then .working b else .failed b
  | _, .backendDestroy (some _), _ => .absent
  | life, _, _ => life

def Life.allows : Life → Driver.Call P R → Prop
  | life, .backendCreate _ => life = .absent
  | life, .backendVerify b => life = .working b
  | life, .backendRunBatch b _ => life = .working b
  | life, .backendDestroy (some b) => life.backend = some b
  | _, _ => True

def lifeEnv : Env (Driver P R) Life where
  pre life c := life.allows c
  step life c r life' := life' = life.after c r

variable {b : Ptr} {life : Life}

theorem wp_ofbNowNs {Q : UInt64 → Life → Prop} (hQ : ∀ now, Q now life) :
    lifeEnv.wp (ofbNowNs : Prog (Driver P R) UInt64) Q life := by
  refine ⟨trivial, ?_⟩
  rintro now _ rfl
  exact hQ now

theorem wp_print {stream : Stream} {text : String} {Q : Unit → Life → Prop} (hQ : Q () life) :
    lifeEnv.wp (print stream text : Prog (Driver P R) Unit) Q life := by
  refine ⟨trivial, ?_⟩
  rintro _ _ rfl
  exact hQ

theorem wp_printRow {row : R} {Q : Unit → Life → Prop} (hQ : Q () life) :
    lifeEnv.wp (printRow row : Prog (Driver P R) Unit) Q life := by
  refine ⟨trivial, ?_⟩
  rintro _ _ rfl
  exact hQ

/-- A call that leaves a working backend working if it returns 0. -/
theorem wp_returned {c : Driver.Call P R} (returned : Driver.Resp c → Int)
    {Q : Driver.Resp c → Life → Prop} (hpre : (Life.working b).allows c)
    (hafter : ∀ r, (Life.working b).after c r = if returned r = 0 then .working b else .failed b)
    (hok : ∀ r, returned r = 0 → Q r (.working b))
    (hfail : ∀ r, returned r ≠ 0 → Q r (.failed b)) :
    lifeEnv.wp (Prog.ask (A := Driver P R) c) Q (.working b) := by
  refine ⟨hpre, ?_⟩
  rintro r _ rfl
  rw [hafter, Env.wp_ret]
  split_ifs with hr
  · exact hok r hr
  · exact hfail r hr

theorem wp_backendVerify {Q : Int → Life → Prop} (hok : Q 0 (.working b))
    (hfail : ∀ rc, rc ≠ 0 → Q rc (.failed b)) :
    lifeEnv.wp (backendVerify b : Prog (Driver P R) Int) Q (.working b) :=
  wp_returned id rfl (fun _ => rfl) (fun rc (hrc : rc = 0) => hrc ▸ hok) hfail

theorem wp_backendRunBatch {n : UInt64} {Q : Int → Life → Prop} (hok : Q 0 (.working b))
    (hfail : ∀ rc, rc ≠ 0 → Q rc (.failed b)) :
    lifeEnv.wp (backendRunBatch b n : Prog (Driver P R) Int) Q (.working b) :=
  wp_returned id rfl (fun _ => rfl) (fun rc (hrc : rc = 0) => hrc ▸ hok) hfail

theorem wp_backendCreate {params : P} {Q : Option Ptr → Life → Prop} (hnone : Q none .absent)
    (hsome : ∀ b, Q (some b) (.working b)) :
    lifeEnv.wp (backendCreate params : Prog (Driver P R) (Option Ptr)) Q .absent := by
  refine ⟨rfl, ?_⟩
  rintro (_ | b) _ rfl
  · exact hnone
  · exact hsome b

theorem wp_backendDestroy {Q : Unit → Life → Prop} (hlife : life.backend = some b)
    (hQ : Q () .absent) :
    lifeEnv.wp (backendDestroy (some b) : Prog (Driver P R) Unit) Q life := by
  refine ⟨hlife, ?_⟩
  rintro _ _ rfl
  exact hQ

end Automaton

/-! ## A case keeps to the automaton -/

section Case

variable {P R : Type} {b : Ptr} {counted : Bool} {messageSize : UInt64}

/-- A timed batch that returns 0 leaves the backend working; any other leaves it to be destroyed. -/
theorem wp_timeBatch {n : UInt64} {sample : Sample} {Q : Int × Sample → Life → Prop}
    (hok : ∀ sample', Q (0, sample') (.working b))
    (hfail : ∀ rc sample' life, rc ≠ 0 → life.backend = some b → Q (rc, sample') life) :
    lifeEnv.wp (timeBatch counted b n messageSize sample : Prog (Driver P R) (Int × Sample)) Q
      (.working b) := by
  unfold timeBatch
  rw [Env.wp_bind]
  refine wp_ofbNowNs fun start => ?_
  by_cases hstart : start = 0
  · rw [if_pos hstart]
    exact hfail (-1) sample _ (by decide) rfl
  rw [if_neg hstart, Env.wp_bind]
  refine wp_backendRunBatch ?_ fun rc hrc => ?_
  · rw [if_neg (by decide), Env.wp_bind]
    refine wp_ofbNowNs fun stop => ?_
    split_ifs with hstop
    · exact hfail (-1) sample _ (by decide) rfl
    · exact hok _
  · rw [if_pos hrc]
    exact hfail (-1) sample _ (by decide) rfl

theorem wp_calibrateLoop {targetNs : UInt64} {count : Count} {sample : Sample}
    {Q : Int × Count × Sample → Life → Prop}
    (hok : ∀ count' sample', Q (0, count', sample') (.working b))
    (hfail : ∀ rc count' sample' life, rc ≠ 0 → life.backend = some b →
      Q (rc, count', sample') life) :
    lifeEnv.wp (calibrateLoop (P := P) (R := R)
      (fun n sample => timeBatch counted b n messageSize sample) targetNs count sample) Q
      (.working b) := by
  induction count, sample using calibrateLoop.induct targetNs with
  | case1 count sample ih =>
    rw [calibrateLoop, Env.wp_bind]
    refine wp_timeBatch (fun sample' => ?_) fun rc sample' life hrc hlife => ?_
    · simp only [ne_eq, not_true_eq_false, if_false]
      split_ifs with hstop
      · exact hok _ _
      · exact ih sample' hstop
    · simp only [if_pos hrc]
      exact hfail (-1) _ _ life (by decide) hlife

theorem wp_calibrateFrom {rnd : ℚ → ℚ} {start : Count} {targetNs iterations : UInt64}
    {Q : Int × UInt64 → Life → Prop} (hok : ∀ count, Q (0, count) (.working b))
    (hfail : ∀ rc count life, rc ≠ 0 → life.backend = some b → Q (rc, count) life) :
    lifeEnv.wp (calibrateFrom (P := P) (R := R) rnd
      (fun n sample => timeBatch counted b n messageSize sample) start targetNs iterations) Q
      (.working b) := by
  unfold calibrateFrom
  rw [Env.wp_bind]
  refine wp_calibrateLoop (fun count sample => ?_) fun rc count sample life hrc hlife => ?_
  · simp only [ne_eq, not_true_eq_false, if_false]
    exact hok _
  · simp only [if_pos hrc]
    exact hfail (-1) _ life (by decide) hlife

/-- A failed case leaves no backend behind. -/
def Leaves (failed : Stage → Option Ptr → Prog (Driver P R) Int) : Prop :=
  ∀ stage (life : Life),
    lifeEnv.wp (failed stage life.backend) (fun _ life' => life' = .absent) life

variable {row : ℕ → Sample → R} {failed : Stage → Option Ptr → Prog (Driver P R) Int}

theorem Leaves.of_backend (hf : Leaves failed) {stage : Stage} {life : Life}
    (h : life.backend = some b) :
    lifeEnv.wp (failed stage (some b)) (fun _ life' => life' = .absent) life := h ▸ hf stage life

theorem wp_sampleLoop (hf : Leaves failed) {N : UInt64} {remaining i : ℕ} {sample : Sample} :
    lifeEnv.wp (sampleLoop (timeBatch counted · · messageSize ·) row failed b N remaining i sample)
      (fun _ life => life = .absent) (.working b) := by
  induction remaining generalizing i sample with
  | zero =>
    unfold sampleLoop
    rw [Env.wp_bind]
    exact wp_backendDestroy rfl rfl
  | succ remaining ih =>
    unfold sampleLoop
    rw [Env.wp_bind]
    refine wp_timeBatch (fun sample' => ?_) fun rc sample' life hrc hlife => ?_
    · simp only [ne_eq, not_true_eq_false, if_false]
      rw [Env.wp_bind]
      exact wp_printRow ih
    · simp only [if_pos hrc]
      exact hf.of_backend hlife

theorem wp_caseWith (hf : Leaves failed) {rnd : ℚ → ℚ} {start : Count} {params : P}
    {targetNs : UInt64} {samples : ℕ} :
    lifeEnv.wp (caseWith (timeBatch counted · · messageSize ·) row failed params
      (fun backend => calibrateFrom rnd
        (fun n sample => timeBatch counted backend n messageSize sample) start targetNs 0) samples)
      (fun _ life => life = .absent) .absent := by
  unfold caseWith
  rw [Env.wp_bind]
  refine wp_backendCreate (hf .create .absent) fun b => ?_
  simp only
  rw [Env.wp_bind]
  refine wp_backendVerify ?_ fun rc hrc => ?_
  · simp only [ne_eq, not_true_eq_false, if_false]
    rw [Env.wp_bind]
    refine wp_calibrateFrom (fun count => ?_) fun rc count life hrc hlife => ?_
    · simp only [not_true_eq_false, if_false]
      exact wp_sampleLoop hf
    · simp only [if_pos (show ¬ rc = 0 from hrc)]
      exact hf.of_backend hlife
  · simp only [if_pos hrc]
    exact hf .verify (.failed b)

end Case

theorem aead_leaves (algorithm : String) (operation : Aead.Operation) (messageSize : UInt64) :
    Leaves (Aead.failed algorithm operation messageSize) := by
  intro stage life
  unfold Aead.failed
  rw [Env.wp_bind]
  refine wp_print ?_
  rw [Env.wp_bind]
  rcases hb : life.backend with _ | b
  · refine ⟨trivial, ?_⟩
    rintro _ life' rfl
    exact Life.eq_absent hb
  · exact wp_backendDestroy hb rfl

theorem tls_leaves (cipher : String) (benchmark : Tls.Benchmark) (messageSize : UInt64) :
    Leaves (Tls.failed cipher benchmark messageSize) := by
  intro stage life
  unfold Tls.failed
  rw [Env.wp_bind]
  refine wp_print ?_
  rcases hb : life.backend with _ | b
  · exact Life.eq_absent hb
  · simp only
    rw [Env.wp_bind]
    exact wp_backendDestroy hb rfl

/-- What `main` calls begins and ends without a backend. -/
theorem aead_mainCall (rnd : ℚ → ℚ) (build : Build) (c : Main.Call Aead.Case) (life : Life)
    (hlife : life = .absent) :
    lifeEnv.wp (Aead.mainCall rnd build c) (fun _ life' => life' = .absent) life := by
  subst hlife
  cases c with
  | runCase case => exact wp_caseWith (aead_leaves _ _ _)
  | print stream text => exact wp_print rfl

theorem tls_mainCall (rnd : ℚ → ℚ) (build : Build) (c : Main.Call Tls.Case) (life : Life)
    (hlife : life = .absent) :
    lifeEnv.wp (Tls.mainCall rnd build c) (fun _ life' => life' = .absent) life := by
  subst hlife
  cases c with
  | runCase case => exact wp_caseWith (tls_leaves _ _ _)
  | print stream text => exact wp_print rfl

/-! ## The backend behind the automaton -/

/-- A host that answers anything, and is never asked for a backend at a stray address. -/
def hostEnv {R : Type} : Env (Host R) Unit where
  pre _ c := ∀ b, c ≠ .stray b
  step _ _ _ _ := True

section Sound

variable {L : Api} {P R S τ : Type}

/-- The state of the library is `clear` without a backend, `own` with one that works and `left` with
one on which a call has failed. -/
structure Implementation.Sound (impl : Implementation L P S) (E : Env L τ) (clear : τ → Prop)
    (own left : S → τ → Prop) : Prop where
  create : ∀ params t, clear t → E.wp (impl.create params)
    (fun out t' => (createdBackend out).elim (clear t') (own · t')) t
  verify : ∀ s unset t, unset.length = impl.scratch → own s t → E.wp (impl.verify s unset)
    (fun out t' => impl.self out.2 = impl.self s
      ∧ if out.1 = 0 then own out.2 t' else left out.2 t') t
  runBatch : ∀ s iterations t, own s t → E.wp (impl.runBatch s iterations)
    (fun out t' => impl.self out.2 = impl.self s
      ∧ if out.1 = 0 then own out.2 t' else left out.2 t') t
  abandon : ∀ s t, own s t → left s t
  destroy : ∀ s t, left s t → E.wp (impl.destroy (some s)) (fun _ => clear) t
  destroy_none : ∀ t, E.wp (impl.destroy none) (fun _ t' => t' = t) t

/-- The backend in the heap is the one the program has. -/
def Related (impl : Implementation L P S) (clear : τ → Prop) (own left : S → τ → Prop)
    (heap : Heap S) : Life → τ × Unit → Prop
  | .absent, t => clear t.1
  | .working b, t => ∃ s, heap b = some s ∧ impl.self s = b ∧ own s t.1
  | .failed b, t => ∃ s, heap b = some s ∧ impl.self s = b ∧ left s t.1

variable {impl : Implementation L P S} {E : Env L τ} {clear : τ → Prop} {own left : S → τ → Prop}

theorem wp_host {c : Host.Call R} {Q : Host.Resp c → τ × Unit → Prop} {t : τ × Unit}
    (hc : ∀ b, c ≠ .stray b) (hQ : ∀ r, Q r t) : (E.plus hostEnv).wp (host c) Q t := by
  unfold host
  rw [Env.wp_askRight]
  exact ⟨hc, fun r s' _ => hQ r⟩

theorem wp_library {α : Type} {p : Prog L α} {Q : α → τ × Unit → Prop} {t : τ × Unit}
    (h : E.wp p (fun a t' => Q a (t', ())) t.1) :
    (E.plus (hostEnv (R := R))).wp (library p) Q t := by
  unfold library
  rw [Env.wp_link_askLeft]
  exact h

/-- A backend after a call that returned `rc`. -/
theorem related_returned {heap : Heap S} {b : Ptr} {s : S} {rc : Int} {t : τ} {u : Unit}
    (hs : impl.self s = b) (h : if rc = 0 then own s t else left s t) :
    Related impl clear own left (Function.update heap b (some s))
      (if rc = 0 then .working b else .failed b) (t, u) := by
  have hheap : Function.update heap b (some s) b = some s := Function.update_self b (some s) heap
  split_ifs at h ⊢ with hrc
  · exact ⟨s, hheap, hs, h⟩
  · exact ⟨s, hheap, hs, h⟩

theorem Related.left_of_backend (h : impl.Sound E clear own left) {heap : Heap S} {life : Life}
    {b : Ptr} {t : τ × Unit} (hb : life.backend = some b)
    (hR : Related impl clear own left heap life t) : ∃ s, heap b = some s ∧ left s t.1 := by
  cases life with
  | absent => simp [Life.backend] at hb
  | working b' =>
    cases hb
    obtain ⟨s, hheap, -, hown⟩ := hR
    exact ⟨s, hheap, h.abandon s t.1 hown⟩
  | failed b' =>
    cases hb
    obtain ⟨s, hheap, -, hleft⟩ := hR
    exact ⟨s, hheap, hleft⟩

/-- Linked with a sound backend, the calls of a program are steps of the automaton. -/
theorem Implementation.Sound.refines (h : impl.Sound E clear own left) :
    Refines (impl.serve (R := R)) lifeEnv (E.plus hostEnv) (Related impl clear own left) := by
  intro heap life t c hR hpre
  cases c with
  | backendCreate params =>
    cases show life = .absent from hpre
    simp only [Implementation.serve]
    rw [Env.wp_bind]
    refine wp_library (Env.wp_mono _ (h.create params t.1 hR) fun out t' hout => ?_)
    rcases hc : createdBackend out with _ | s
    · rw [hc] at hout
      exact ⟨_, rfl, hout⟩
    · rw [hc] at hout
      exact ⟨_, rfl, s, Function.update_self _ _ _, rfl, hout⟩
  | backendVerify b =>
    cases show life = .working b from hpre
    obtain ⟨s, hheap, hs, hown⟩ := hR
    simp only [Implementation.serve, hheap]
    rw [Env.wp_bind]
    refine wp_host (fun b => by simp) fun unset => ?_
    rw [Env.wp_bind]
    refine wp_library (Env.wp_mono _ (h.verify s unset.1 t.1 unset.2 hown) ?_)
    rintro out t' ⟨hself, hout⟩
    exact ⟨_, rfl, related_returned (hself.trans hs) hout⟩
  | backendRunBatch b iterations =>
    cases show life = .working b from hpre
    obtain ⟨s, hheap, hs, hown⟩ := hR
    simp only [Implementation.serve, hheap]
    rw [Env.wp_bind]
    refine wp_library (Env.wp_mono _ (h.runBatch s iterations t.1 hown) ?_)
    rintro out t' ⟨hself, hout⟩
    exact ⟨_, rfl, related_returned (hself.trans hs) hout⟩
  | backendDestroy backend =>
    rcases backend with _ | b
    · simp only [Implementation.serve]
      rw [Env.wp_bind]
      refine wp_library (Env.wp_mono _ (h.destroy_none t.1) ?_)
      rintro _ t' rfl
      exact ⟨life, rfl, hR⟩
    · obtain ⟨s, hheap, hleft⟩ := hR.left_of_backend h hpre
      simp only [Implementation.serve, hheap]
      rw [Env.wp_bind]
      refine wp_library (Env.wp_mono _ (h.destroy s t.1 hleft) fun _ t' hclear => ?_)
      exact ⟨.absent, rfl, hclear⟩
  | nowNs =>
    simp only [Implementation.serve]
    rw [Env.wp_bind]
    exact wp_host (fun b => by simp) fun now => ⟨life, rfl, hR⟩
  | printRow row =>
    simp only [Implementation.serve]
    rw [Env.wp_bind]
    exact wp_host (fun b => by simp) fun _ => ⟨life, rfl, hR⟩
  | print stream text =>
    simp only [Implementation.serve]
    rw [Env.wp_bind]
    exact wp_host (fun b => by simp) fun _ => ⟨life, rfl, hR⟩

/-- A program that keeps to the automaton ends, linked with a sound backend, with none left. -/
theorem Implementation.Sound.wp_link {α : Type} (h : impl.Sound E clear own left)
    {p : Prog (Driver P R) α}
    (hp : lifeEnv.wp p (fun _ life => life = .absent) .absent) {t : τ} (ht : clear t) :
    (E.plus hostEnv).wp (impl.link p) (fun _ t' => clear t'.1) (t, ()) := by
  unfold Implementation.link
  rw [Env.wp_bind]
  refine Env.wp_mono _ (h.refines.wp_serve hp (s := fun _ => none) ht) ?_
  rintro out t' ⟨life, rfl, hR⟩
  exact hR

end Sound

end OfbBench
