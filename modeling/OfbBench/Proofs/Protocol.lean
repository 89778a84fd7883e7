import OfbBench.Proofs.Calibration
import OfbBench.AeadMain

/-!
# The protocol of a case

`CaseStep` is the protocol a case follows with its backend: create, verify, batches each between
two clock readings, destroy, and after a failure nothing but the report and the destruction.

Timed batches, calibrations and the sample loop follow it; `runs_caseWith` says how far a case got.
-/

namespace OfbBench

variable {P R : Type}

/-! ## The protocol -/

/-- Where a case stands. `timing` has taken the first reading of a batch and `ran` has run it. -/
inductive Phase
  | start
  | noBackend
  | created (backend : Ptr)
  | ready (backend : Ptr)
  | timing (backend : Ptr) (start : UInt64)
  | ran (backend : Ptr) (n start : UInt64)
  | failed (backend : Ptr)
  | destroyed
  deriving DecidableEq

inductive CaseStep (counted : Bool) (messageSize : UInt64) :
    Phase → (c : Driver.Call P R) → Driver.Resp c → Phase → Prop
  | created (params : P) (b : Ptr) :
      CaseStep counted messageSize .start (.backendCreate params) (some b) (.created b)
  | createFailed (params : P) :
      CaseStep counted messageSize .start (.backendCreate params) none .noBackend
  | reportCreate (stream : Stream) (text : String) :
      CaseStep counted messageSize .noBackend (.print stream text) () .noBackend
  | destroyNull : CaseStep counted messageSize .noBackend (.backendDestroy none) () .noBackend
  | verified (b : Ptr) :
      CaseStep counted messageSize (.created b) (.backendVerify b) (0 : Int) (.ready b)
  | verifyFailed (b : Ptr) (r : Int) (hr : r ≠ 0) :
      CaseStep counted messageSize (.created b) (.backendVerify b) r (.failed b)
  | clock (b : Ptr) (s : UInt64) (hs : s ≠ 0) :
      CaseStep counted messageSize (.ready b) .nowNs s (.timing b s)
  | clockFailed (b : Ptr) :
      CaseStep counted messageSize (.ready b) .nowNs (0 : UInt64) (.failed b)
  | batch (b : Ptr) (s n : UInt64) :
      CaseStep counted messageSize (.timing b s) (.backendRunBatch b n) (0 : Int) (.ran b n s)
  | batchFailed (b : Ptr) (s n : UInt64) (r : Int) (hr : r ≠ 0) :
      CaseStep counted messageSize (.timing b s) (.backendRunBatch b n) r (.failed b)
  | timed (b : Ptr) (n s e : UInt64) (h : ¬ Refused counted messageSize n s e) :
      CaseStep counted messageSize (.ran b n s) .nowNs e (.ready b)
  | refused (b : Ptr) (n s e : UInt64) (h : Refused counted messageSize n s e) :
      CaseStep counted messageSize (.ran b n s) .nowNs e (.failed b)
  | row (b : Ptr) (row : R) : CaseStep counted messageSize (.ready b) (.printRow row) () (.ready b)
  | destroy (b : Ptr) :
      CaseStep counted messageSize (.ready b) (.backendDestroy (some b)) () .destroyed
  | report (b : Ptr) (stream : Stream) (text : String) :
      CaseStep counted messageSize (.failed b) (.print stream text) () (.failed b)
  | destroyFailed (b : Ptr) :
      CaseStep counted messageSize (.failed b) (.backendDestroy (some b)) () .destroyed

def caseEnv (counted : Bool) (messageSize : UInt64) : Env (Driver P R) Phase where
  pre _ _ := True
  step := CaseStep counted messageSize

/-- The backend of a phase that has one. -/
def Phase.backend : Phase → Option Ptr
  | .start | .noBackend | .destroyed => none
  | .created b | .ready b | .timing b _ | .ran b _ _ | .failed b => some b

/-- The phases of a verified backend that nothing has gone wrong with. -/
def Phase.verified : Phase → Option Ptr
  | .ready b | .timing b _ | .ran b _ _ => some b
  | _ => none

/-- The phases after a failure. -/
def Phase.over : Phase → Bool
  | .noBackend | .failed _ | .destroyed => true
  | _ => false

/-- Neither `verify` nor `run_batch` is called. -/
def Quiet (t : Trace (Driver P R)) : Prop :=
  ∀ e ∈ t, (∀ b, e.1 ≠ .backendVerify b) ∧ ∀ b n, e.1 ≠ .backendRunBatch b n

section Protocol

variable {counted : Bool} {messageSize : UInt64} {p p' : Phase} {t : Trace (Driver P R)}
  {e : Event (Driver P R)}

theorem CaseStep.backend_of {b : Ptr} (hs : CaseStep counted messageSize p e.1 e.2 p')
    (hb : p'.backend = some b) :
    p.backend = some b ∨ ∃ params, e = ⟨.backendCreate params, some b⟩ := by
  obtain ⟨c, r⟩ := e
  cases hs with
  | created params b' =>
    simp only [Phase.backend, Option.some.injEq] at hb
    subst hb
    exact .inr ⟨params, rfl⟩
  | _ => first | exact .inl hb | simp [Phase.backend] at hb

theorem CaseStep.verified_of {b : Ptr} (hs : CaseStep counted messageSize p e.1 e.2 p')
    (hb : p'.verified = some b) :
    p.verified = some b ∨ e = ⟨.backendVerify b, (0 : Int)⟩ := by
  obtain ⟨c, r⟩ := e
  cases hs with
  | verified b' =>
    simp only [Phase.verified, Option.some.injEq] at hb
    subst hb
    exact .inr rfl
  | _ => first | exact .inl hb | simp [Phase.verified] at hb

theorem CaseStep.over_of (hs : CaseStep counted messageSize p e.1 e.2 p') (hp : p.over = true) :
    p'.over = true ∧ (∀ b, e.1 ≠ .backendVerify b) ∧ ∀ b n, e.1 ≠ .backendRunBatch b n := by
  obtain ⟨c, r⟩ := e
  cases hs with
  | reportCreate | destroyNull | report | destroyFailed => exact ⟨rfl, nofun, nofun⟩
  | _ => exact nomatch hp

theorem CaseStep.destroyed_of {b : Ptr} (hs : CaseStep counted messageSize p e.1 e.2 .destroyed)
    (hb : p.backend = some b) : e = ⟨.backendDestroy (some b), ()⟩ := by
  obtain ⟨c, r⟩ := e
  cases hs with
  | destroy | destroyFailed =>
    obtain rfl := Option.some.inj hb
    rfl

theorem CaseStep.backend_kept {b : Ptr} (hs : CaseStep counted messageSize p e.1 e.2 p')
    (hb : p.backend = some b) (hp : p' ≠ .destroyed) :
    p'.backend = some b ∧ ∀ x, e.1 ≠ .backendDestroy x := by
  obtain ⟨c, r⟩ := e
  cases hs with
  | destroy | destroyFailed => exact absurd rfl hp
  | created | createFailed | reportCreate | destroyNull => exact nomatch hb
  | _ => exact ⟨hb, nofun⟩

/-- What a phase remembers of the trace so far. -/
def Remembers (t : Trace (Driver P R)) (p : Phase) : Prop :=
  (∀ b, p.backend = some b → ∃ params, (⟨.backendCreate params, some b⟩ : Event (Driver P R)) ∈ t)
    ∧ ∀ b, p.verified = some b → (⟨.backendVerify b, (0 : Int)⟩ : Event (Driver P R)) ∈ t

theorem path_remembers (h : (caseEnv counted messageSize).Path .start t p) : Remembers t p := by
  rw [← List.nil_append t]
  refine Env.Path.hist (H := Remembers) _ (fun t s e s' hR hs => ⟨fun b hb => ?_, fun b hb => ?_⟩) h
    ⟨fun b hb => by simp [Phase.backend] at hb, fun b hb => by simp [Phase.verified] at hb⟩
  · rcases CaseStep.backend_of hs hb with hb | ⟨params, rfl⟩
    · exact (hR.1 b hb).imp fun _ h => List.mem_append_left _ h
    · exact ⟨params, List.mem_append_right _ (List.mem_singleton_self _)⟩
  · rcases CaseStep.verified_of hs hb with hb | rfl
    · exact List.mem_append_left _ (hR.2 b hb)
    · exact List.mem_append_right _ (List.mem_singleton_self _)

/-- After a failure nothing is verified or run. -/
theorem quiet_of_over (hp : p.over = true) (h : (caseEnv counted messageSize).Path p t p') :
    Quiet t := by
  induction t generalizing p with
  | nil => simp [Quiet]
  | cons e t ih =>
    obtain ⟨p₁, hs, h⟩ := h
    obtain ⟨hover, hquiet⟩ := CaseStep.over_of hs hp
    intro e he
    rcases List.mem_cons.1 he with rfl | he
    · exact hquiet
    · exact ih hover h e he

theorem path_destroyed (h : (caseEnv counted messageSize).Path .destroyed t p) : t = [] := by
  rcases t with _ | ⟨⟨c, r⟩, t⟩
  · rfl
  · obtain ⟨p₁, hs, -⟩ := h
    cases hs

/-- A backend is destroyed once, by the last call. -/
theorem path_to_destroyed {b : Ptr} (hb : p.backend = some b)
    (h : (caseEnv counted messageSize).Path p t .destroyed) :
    ∃ t', t = t' ++ [⟨.backendDestroy (some b), ()⟩] ∧ ∀ e ∈ t', ∀ x, e.1 ≠ .backendDestroy x := by
  induction t generalizing p with
  | nil =>
    rw [Env.path_nil] at h
    subst h
    simp [Phase.backend] at hb
  | cons e t ih =>
    obtain ⟨p₁, hs, h⟩ := h
    by_cases hp : p₁ = .destroyed
    · subst hp
      rw [path_destroyed h, CaseStep.destroyed_of hs hb]
      exact ⟨[], rfl, by simp⟩
    · obtain ⟨hkept, hstep⟩ := CaseStep.backend_kept hs hb hp
      obtain ⟨t', rfl, ht'⟩ := ih hkept h
      refine ⟨e :: t', rfl, fun e he => ?_⟩
      rcases List.mem_cons.1 he with rfl | he
      · exact hstep
      · exact ht' e he

end Protocol

/-! ## The programs follow it -/

/-- How a failed step ends the case: it is reported, and the backend, if any, destroyed. -/
def Fails (failed : Stage → Option Ptr → Prog (Driver P R) Int) : Prop :=
  ∀ stage t rc,
    ((failed stage none).Runs t rc → rc = -1 ∧ ∃ stream text,
      t = [⟨.print stream text, ()⟩] ∨ t = [⟨.print stream text, ()⟩, ⟨.backendDestroy none, ()⟩])
    ∧ ∀ b, (failed stage (some b)).Runs t rc → rc = -1 ∧ ∃ stream text,
      t = [⟨.print stream text, ()⟩, ⟨.backendDestroy (some b), ()⟩]

theorem aead_fails (algorithm : String) (operation : Aead.Operation) (messageSize : UInt64) :
    Fails (Aead.failed algorithm operation messageSize) := by
  have h : ∀ stage backend t rc, (Aead.failed algorithm operation messageSize stage backend).Runs t
      rc → rc = -1 ∧ ∃ stream text,
        t = [⟨.print stream text, ()⟩, ⟨.backendDestroy backend, ()⟩] := by
    intro stage backend t rc h
    unfold Aead.failed at h
    rw [runs_print_bind] at h
    obtain ⟨t', rfl, h⟩ := h
    rw [runs_backendDestroy_bind] at h
    obtain ⟨t'', rfl, rfl, rfl⟩ := h
    exact ⟨rfl, _, _, rfl⟩
  intro stage t rc
  refine ⟨fun hr => ?_, fun b hr => h stage (some b) t rc hr⟩
  obtain ⟨h1, stream, text, h2⟩ := h stage none t rc hr
  exact ⟨h1, stream, text, .inr h2⟩

theorem tls_fails (cipher : String) (benchmark : Tls.Benchmark) (messageSize : UInt64) :
    Fails (Tls.failed cipher benchmark messageSize) := by
  intro stage t rc
  unfold Tls.failed
  refine ⟨fun h => ?_, fun b h => ?_⟩
  · rw [runs_print_bind] at h
    obtain ⟨t', rfl, rfl, rfl⟩ := h
    exact ⟨rfl, _, _, .inl rfl⟩
  · rw [runs_print_bind] at h
    obtain ⟨t', rfl, h⟩ := h
    rw [runs_backendDestroy_bind] at h
    obtain ⟨t'', rfl, rfl, rfl⟩ := h
    exact ⟨rfl, _, _, rfl⟩

section Follow

variable {counted : Bool} {messageSize : UInt64} {b : Ptr} {t : Trace (Driver P R)} {rc : Int}
  {failed : Stage → Option Ptr → Prog (Driver P R) Int}

theorem Fails.path (hf : Fails failed) {stage : Stage} (h : (failed stage (some b)).Runs t rc) :
    rc = -1 ∧ (caseEnv counted messageSize).Path (.failed b) t .destroyed := by
  obtain ⟨h1, stream, text, rfl⟩ := (hf stage t rc).2 b h
  exact ⟨h1, .failed b, .report b stream text, .destroyed, .destroyFailed b, rfl⟩

theorem Fails.path_none (hf : Fails failed) {stage : Stage} (h : (failed stage none).Runs t rc) :
    rc = -1 ∧ (caseEnv counted messageSize).Path .noBackend t .noBackend := by
  obtain ⟨h1, stream, text, rfl | rfl⟩ := (hf stage t rc).1 h
  · exact ⟨h1, .noBackend, .reportCreate stream text, rfl⟩
  · exact ⟨h1, .noBackend, .reportCreate stream text, .noBackend, .destroyNull, rfl⟩

/-- A timed batch leaves the backend ready when it succeeds and the case failed when it does not. -/
theorem timeBatch_path {n : UInt64} {sample sample' : Sample}
    (h : (timeBatch counted b n messageSize sample).Runs t (rc, sample')) :
    (caseEnv counted messageSize).Path (.ready b) t (if rc = 0 then .ready b else .failed b) := by
  rcases runs_timeBatch_cases h with ⟨rfl, start, stop, rfl, hT⟩ | ⟨rfl, -, hF⟩
  · exact ⟨_, .clock b start hT.start_ne, _, .batch b start n, _,
      .timed b n start stop hT.not_refused, rfl⟩
  · rw [if_neg (by decide)]
    cases hF with
    | clock => exact ⟨_, .clockFailed b, rfl⟩
    | batch start r hs hr => exact ⟨_, .clock b start hs, _, .batchFailed b start n r hr, rfl⟩
    | refused start stop hs hR =>
      exact ⟨_, .clock b start hs, _, .batch b start n, _, .refused b n start stop hR, rfl⟩

theorem calibrateLoop_path {targetNs : UInt64} {count : Count} {sample : Sample}
    {out : Int × Count × Sample}
    (h : (calibrateLoop (timeBatch counted b · messageSize ·) targetNs count sample).Runs t out) :
    (caseEnv counted messageSize).Path (.ready b) t
      (if out.1 = 0 then .ready b else .failed b) := by
  refine calibrateLoop_induct (motive := fun _ t out => (caseEnv counted messageSize).Path
    (.ready b) t (if out.1 = 0 then .ready b else .failed b)) ?_ ?_ ?_ h
  · intro count sample t rc sample' hr hrc
    have hp := timeBatch_path hr
    rw [if_neg hrc] at hp
    exact hp
  · intro count sample t sample' hr _
    exact timeBatch_path hr
  · intro count sample t₁ t₂ sample' out hr _ ih
    exact (Env.path_append _).2 ⟨_, timeBatch_path hr, ih⟩

theorem calibrateFrom_path {rnd : ℚ → ℚ} {start : Count} {targetNs iterations N : UInt64}
    (h : (calibrateFrom rnd (timeBatch counted b · messageSize ·) start targetNs iterations).Runs t
      (rc, N)) :
    (caseEnv counted messageSize).Path (.ready b) t (if rc = 0 then .ready b else .failed b) := by
  obtain ⟨rc', count, sample, hr, ⟨hrc, rfl, -⟩ | ⟨rfl, rfl, -⟩⟩ := runs_calibrateFrom.1 h
  · have hp := calibrateLoop_path hr
    rw [if_neg hrc] at hp
    exact hp
  · exact calibrateLoop_path hr

end Follow

/-! ## Rows -/

/-- The row an event prints. -/
def rowOf : Event (Driver P R) → Option R
  | ⟨.printRow row, _⟩ => some row
  | _ => none

/-- The rows a trace prints, in order. -/
def rows (t : Trace (Driver P R)) : List R := t.filterMap rowOf

theorem rows_append (t₁ t₂ : Trace (Driver P R)) : rows (t₁ ++ t₂) = rows t₁ ++ rows t₂ :=
  List.filterMap_append

theorem rows_cons_none {e : Event (Driver P R)} {t : Trace (Driver P R)} (h : rowOf e = none) :
    rows (e :: t) = rows t :=
  List.filterMap_cons_none h

theorem rows_cons_row (r : R) (t : Trace (Driver P R)) :
    rows (⟨.printRow r, ()⟩ :: t) = r :: rows t := rfl

section Rows

variable {counted : Bool} {messageSize : UInt64} {b : Ptr} {t : Trace (Driver P R)} {rc : Int}
  {failed : Stage → Option Ptr → Prog (Driver P R) Int}

theorem Fails.rows (hf : Fails failed) {stage : Stage} {backend : Option Ptr}
    (h : (failed stage backend).Runs t rc) : rows t = [] := by
  rcases backend with _ | b
  · obtain ⟨-, stream, text, rfl | rfl⟩ := (hf stage t rc).1 h <;> rfl
  · obtain ⟨-, stream, text, rfl⟩ := (hf stage t rc).2 b h
    rfl

theorem timeBatch_rows {n : UInt64} {sample sample' : Sample}
    (h : (timeBatch counted b n messageSize sample).Runs t (rc, sample')) : rows t = [] := by
  rcases runs_timeBatch_cases h with ⟨-, start, stop, rfl, -⟩ | ⟨-, -, hF⟩
  · rfl
  · cases hF <;> rfl

theorem calibrateFrom_rows {rnd : ℚ → ℚ} {start : Count} {targetNs iterations N : UInt64}
    (h : (calibrateFrom rnd (timeBatch counted b · messageSize ·) start targetNs iterations).Runs t
      (rc, N)) : rows t = [] := by
  obtain ⟨rc', count, sample, hr, -⟩ := runs_calibrateFrom.1 h
  refine calibrateLoop_induct (motive := fun _ t _ => rows t = []) ?_ ?_ ?_ hr
  · intro count sample t rc sample' hr _
    exact timeBatch_rows hr
  · intro count sample t sample' hr _
    exact timeBatch_rows hr
  · intro count sample t₁ t₂ sample' out hr _ ih
    rw [rows_append, timeBatch_rows hr, ih, List.nil_append]

end Rows

/-! ## The sample loop and the case -/

section Case

variable {counted : Bool} {messageSize : UInt64} {row : ℕ → Sample → R}
  {failed : Stage → Option Ptr → Prog (Driver P R) Int}

/-- The induction over the sample loop: it is done, a sample fails, or a row is printed. -/
theorem sampleLoop_induct {timed : Ptr → UInt64 → Sample → Prog (Driver P R) (Int × Sample)}
    {b : Ptr} {N : UInt64} {motive : ℕ → ℕ → Trace (Driver P R) → Int → Prop}
    (done : ∀ i, motive 0 i [⟨.backendDestroy (some b), ()⟩] 0)
    (fail : ∀ remaining i sample t₁ t₂ rc sample' rc', (timed b N sample).Runs t₁ (rc, sample') →
      rc ≠ 0 → (failed .sample (some b)).Runs t₂ rc' → motive (remaining + 1) i (t₁ ++ t₂) rc')
    (next : ∀ remaining i sample t₁ t₂ sample' rc, (timed b N sample).Runs t₁ (0, sample') →
      motive remaining (i + 1) t₂ rc →
      motive (remaining + 1) i (t₁ ++ ⟨.printRow (row i sample'), ()⟩ :: t₂) rc)
    {remaining i : ℕ} {sample : Sample} {t : Trace (Driver P R)} {rc : Int}
    (h : (sampleLoop timed row failed b N remaining i sample).Runs t rc) :
    motive remaining i t rc := by
  induction remaining generalizing i sample t with
  | zero =>
    unfold sampleLoop at h
    rw [runs_backendDestroy_bind] at h
    obtain ⟨t', rfl, rfl, rfl⟩ := h
    exact done i
  | succ remaining ih =>
    unfold sampleLoop at h
    obtain ⟨t₁, t₂, ⟨rc', sample'⟩, rfl, h₁, h₂⟩ := Prog.runs_bind.1 h
    simp only [] at h₂
    split_ifs at h₂ with hrc
    · exact fail remaining i sample t₁ t₂ rc' sample' rc h₁ hrc h₂
    · rw [not_not] at hrc
      subst hrc
      rw [runs_printRow_bind] at h₂
      obtain ⟨t₃, rfl, h₂⟩ := h₂
      exact next remaining i sample t₁ t₃ sample' rc h₁ (ih h₂)

variable {b : Ptr} {N : UInt64} {remaining i : ℕ} {sample : Sample} {t : Trace (Driver P R)}
  {rc : Int}

theorem sampleLoop_path (hf : Fails failed)
    (h : (sampleLoop (timeBatch counted · · messageSize ·) row failed b N remaining i sample).Runs
      t rc) : (caseEnv counted messageSize).Path (.ready b) t .destroyed := by
  refine sampleLoop_induct (motive := fun _ _ t _ =>
    (caseEnv counted messageSize).Path (.ready b) t .destroyed) ?_ ?_ ?_ h
  · intro i
    exact ⟨_, .destroy b, rfl⟩
  · intro remaining i sample t₁ t₂ rc sample' rc' hr hrc hfail
    have hp := timeBatch_path hr
    rw [if_neg hrc] at hp
    exact (Env.path_append _).2 ⟨_, hp, (hf.path hfail).2⟩
  · intro remaining i sample t₁ t₂ sample' rc hr ih
    exact (Env.path_append _).2 ⟨_, timeBatch_path hr, _, .row b (row i sample'), ih⟩

/-- The rows of the sample loop are numbered from `i` on, and all are there if it returns 0. -/
theorem sampleLoop_rows (hf : Fails failed) {number : R → ℕ} (hn : ∀ i s, number (row i s) = i)
    (h : (sampleLoop (timeBatch counted · · messageSize ·) row failed b N remaining i sample).Runs
      t rc) :
    (rc = 0 ∧ (rows t).map number = List.range' i remaining)
      ∨ (rc = -1 ∧ ∃ k < remaining, (rows t).map number = List.range' i k) := by
  refine sampleLoop_induct (motive := fun remaining i t rc =>
    (rc = 0 ∧ (rows t).map number = List.range' i remaining)
      ∨ (rc = -1 ∧ ∃ k < remaining, (rows t).map number = List.range' i k)) ?_ ?_ ?_ h
  · intro i
    exact .inl ⟨rfl, rfl⟩
  · intro remaining i sample t₁ t₂ rc sample' rc' hr _ hfail
    refine .inr ⟨((hf .sample t₂ rc').2 b hfail).1, 0, by omega, ?_⟩
    rw [rows_append, timeBatch_rows hr, hf.rows hfail]
    rfl
  · intro remaining i sample t₁ t₂ sample' rc hr ih
    have hrows : rows (t₁ ++ ⟨.printRow (row i sample'), ()⟩ :: t₂) = row i sample' :: rows t₂ := by
      rw [rows_append, timeBatch_rows hr]
      rfl
    rw [hrows, List.map_cons, hn]
    rcases ih with ⟨rfl, ih⟩ | ⟨rfl, k, hk, ih⟩
    · exact .inl ⟨rfl, by rw [ih, List.range'_succ]⟩
    · exact .inr ⟨rfl, k + 1, by omega, by rw [ih, List.range'_succ]⟩

/-- How far a case got. -/
inductive CaseRun (timed : Ptr → UInt64 → Sample → Prog (Driver P R) (Int × Sample))
    (row : ℕ → Sample → R) (failed : Stage → Option Ptr → Prog (Driver P R) Int) (params : P)
    (calibration : Ptr → Prog (Driver P R) (Int × UInt64)) (samples : ℕ) :
    Trace (Driver P R) → Int → Prop
  | noBackend {t : Trace (Driver P R)} {rc : Int} (hf : (failed .create none).Runs t rc) :
      CaseRun timed row failed params calibration samples
        (⟨.backendCreate params, none⟩ :: t) rc
  | notVerified {t : Trace (Driver P R)} {rc r : Int} {b : Ptr} (hr : r ≠ 0)
      (hf : (failed .verify (some b)).Runs t rc) :
      CaseRun timed row failed params calibration samples
        (⟨.backendCreate params, some b⟩ :: ⟨.backendVerify b, r⟩ :: t) rc
  | notCalibrated {t₁ t₂ : Trace (Driver P R)} {rc r : Int} {b : Ptr} {N : UInt64}
      (hc : (calibration b).Runs t₁ (r, N)) (hr : r ≠ 0)
      (hf : (failed .calibrate (some b)).Runs t₂ rc) :
      CaseRun timed row failed params calibration samples
        (⟨.backendCreate params, some b⟩ :: ⟨.backendVerify b, (0 : Int)⟩ :: (t₁ ++ t₂)) rc
  | sampled {t₁ t₂ : Trace (Driver P R)} {rc : Int} {b : Ptr} {N : UInt64}
      (hc : (calibration b).Runs t₁ (0, N))
      (hs : (sampleLoop timed row failed b N samples 0 .unset).Runs t₂ rc) :
      CaseRun timed row failed params calibration samples
        (⟨.backendCreate params, some b⟩ :: ⟨.backendVerify b, (0 : Int)⟩ :: (t₁ ++ t₂)) rc

theorem runs_caseWith {timed : Ptr → UInt64 → Sample → Prog (Driver P R) (Int × Sample)}
    {params : P} {calibration : Ptr → Prog (Driver P R) (Int × UInt64)} {samples : ℕ}
    (h : (caseWith timed row failed params calibration samples).Runs t rc) :
    CaseRun timed row failed params calibration samples t rc := by
  unfold caseWith at h
  rw [runs_backendCreate_bind] at h
  obtain ⟨created, t₁, rfl, h⟩ := h
  rcases created with _ | b
  · exact .noBackend h
  simp only [] at h
  rw [runs_backendVerify_bind] at h
  obtain ⟨r, t₂, rfl, h⟩ := h
  split_ifs at h with hr
  · exact .notVerified hr h
  rw [not_not] at hr
  subst hr
  obtain ⟨t₃, t₄, ⟨rc', N⟩, rfl, hc, h⟩ := Prog.runs_bind.1 h
  simp only [] at h
  split_ifs at h with hrc
  · exact .notCalibrated hc hrc h
  · rw [not_not] at hrc
    subst hrc
    exact .sampled hc h

end Case

end OfbBench
