import OfbBench.Proofs.Protocol

/-!
# The life cycle of a case

Both programs' `run_case` is `caseWith`, whose traces follow the protocol to its end
(`caseWith_path`); what the protocol says of single calls is read off the path (`LifeCycle`), the
calibration and the rows off how far the case got.
-/

namespace OfbBench

variable {P R : Type}

/-- A call that reports a failure. -/
inductive FailedCall : Event (Driver P R) → Prop
  | create (params : P) : FailedCall ⟨.backendCreate params, none⟩
  | verify (b : Ptr) (r : Int) (hr : r ≠ 0) : FailedCall ⟨.backendVerify b, r⟩
  | batch (b : Ptr) (n : UInt64) (r : Int) (hr : r ≠ 0) : FailedCall ⟨.backendRunBatch b n, r⟩
  | clock : FailedCall ⟨.nowNs, (0 : UInt64)⟩

/-- No batch is run and no row printed. -/
def NoSample (t : Trace (Driver P R)) : Prop :=
  (∀ e ∈ t, ∀ b n, e.1 ≠ .backendRunBatch b n) ∧ rows t = []

/-- What the events of a case are like, and how they decide its result. -/
structure LifeCycle (counted : Bool) (messageSize : UInt64)
    (calibration : Ptr → Prog (Driver P R) (Int × UInt64)) (number : R → ℕ) (samples : ℕ)
    (t : Trace (Driver P R)) (rc : Int) : Prop where
  /-- `verify` is called on a backend that was created. -/
  verify_created : ∀ t₁ b r t₂, t = t₁ ++ ⟨.backendVerify b, r⟩ :: t₂ →
    ∃ params, (⟨.backendCreate params, some b⟩ : Event (Driver P R)) ∈ t₁
  /-- `run_batch` is called on a backend that was verified. -/
  batch_verified : ∀ t₁ b n r t₂, t = t₁ ++ ⟨.backendRunBatch b n, r⟩ :: t₂ →
    (⟨.backendVerify b, (0 : Int)⟩ : Event (Driver P R)) ∈ t₁
  /-- Samples are taken, and rows printed, after a calibration that succeeded. -/
  calibrated : NoSample t ∨ ∃ t₁ t₂ t₃ b r N, t = t₁ ++ t₂ ++ t₃ ∧ NoSample t₁
    ∧ (calibration b).Runs t₂ (r, N) ∧ rows t₂ = [] ∧ (r ≠ 0 → NoSample t₃)
  quiet_failed : ∀ t₁ e t₂, t = t₁ ++ e :: t₂ → FailedCall e → Quiet t₂
  quiet_refused : ∀ t₁ b n start stop t₂, t = t₁ ++ batchTrace b n start stop ++ t₂ →
    Refused counted messageSize n start stop → Quiet t₂
  /-- A backend is destroyed once, by the last call. -/
  destroyed : ∀ params b, (⟨.backendCreate params, some b⟩ : Event (Driver P R)) ∈ t →
    ∃ t', t = t' ++ [⟨.backendDestroy (some b), ()⟩] ∧ ∀ e ∈ t', ∀ x, e.1 ≠ .backendDestroy x
  not_destroyed : ∀ params, (⟨.backendCreate params, none⟩ : Event (Driver P R)) ∈ t →
    ∀ b, (⟨.backendDestroy (some b), ()⟩ : Event (Driver P R)) ∉ t
  zero_iff : rc = 0 ↔ (rows t).map number = List.range samples
  failed : rc ≠ 0 → rc = -1 ∧ ∃ k < samples, (rows t).map number = List.range k

section Protocol

variable {counted : Bool} {messageSize : UInt64} {p p' : Phase} {t : Trace (Driver P R)}

theorem FailedCall.over {e : Event (Driver P R)} (h : FailedCall e)
    (hs : CaseStep counted messageSize p e.1 e.2 p') : p'.over = true := by
  cases h with
  | create params => cases hs; rfl
  | verify b r hr =>
    cases hs with
    | verified b => exact absurd rfl hr
    | verifyFailed b r hr => rfl
  | batch b n r hr =>
    cases hs with
    | batch b s n => exact absurd rfl hr
    | batchFailed b s n r hr => rfl
  | clock =>
    cases hs with
    | clock b s hs => exact absurd rfl hs
    | clockFailed b => rfl
    | timed b n s e h => exact absurd (.inl UInt64.zero_le) h
    | refused b n s e h => rfl

theorem quiet_after_failed (h : (caseEnv counted messageSize).Path .start t p)
    {t₁ t₂ : Trace (Driver P R)} {e : Event (Driver P R)} (ht : t = t₁ ++ e :: t₂)
    (he : FailedCall e) : Quiet t₂ := by
  subst ht
  obtain ⟨p₁, -, p₂, hs, h⟩ := (Env.path_append _).1 h
  exact quiet_of_over (he.over hs) h

theorem quiet_after_refused (h : (caseEnv counted messageSize).Path .start t p)
    {t₁ t₂ : Trace (Driver P R)} {b : Ptr} {n start stop : UInt64}
    (ht : t = t₁ ++ batchTrace b n start stop ++ t₂)
    (hR : Refused counted messageSize n start stop) : Quiet t₂ := by
  subst ht
  rw [List.append_assoc] at h
  obtain ⟨p₁, -, h⟩ := (Env.path_append _).1 h
  obtain ⟨p₂, hnow, p₃, hbatch, p₄, hstop, h⟩ := h
  -- the batch is run in `timing`, so the reading before it is the one it is timed from
  refine quiet_of_over ?_ h
  cases hbatch with
  | batch b s n =>
    cases hnow
    cases hstop with
    | timed b n s e hN => exact absurd hR hN
    | refused b n s e hR => rfl
  | batchFailed b s n r hr => exact absurd rfl hr

theorem verify_after_create (h : (caseEnv counted messageSize).Path .start t p)
    {t₁ t₂ : Trace (Driver P R)} {b : Ptr} {r : Int}
    (ht : t = t₁ ++ ⟨.backendVerify b, r⟩ :: t₂) :
    ∃ params, (⟨.backendCreate params, some b⟩ : Event (Driver P R)) ∈ t₁ := by
  subst ht
  obtain ⟨p₁, h₁, p₂, hs, -⟩ := (Env.path_append _).1 h
  refine (path_remembers h₁).1 b ?_
  cases hs <;> rfl

theorem batch_after_verify (h : (caseEnv counted messageSize).Path .start t p)
    {t₁ t₂ : Trace (Driver P R)} {b : Ptr} {n : UInt64} {r : Int}
    (ht : t = t₁ ++ ⟨.backendRunBatch b n, r⟩ :: t₂) :
    (⟨.backendVerify b, (0 : Int)⟩ : Event (Driver P R)) ∈ t₁ := by
  subst ht
  obtain ⟨p₁, h₁, p₂, hs, -⟩ := (Env.path_append _).1 h
  refine (path_remembers h₁).2 b ?_
  cases hs <;> rfl

theorem CaseStep.not_start {e : Event (Driver P R)} (hs : CaseStep counted messageSize p e.1 e.2 p')
    (hp : p ≠ .start) : p' ≠ .start ∧ ∀ params, e.1 ≠ .backendCreate params := by
  obtain ⟨c, r⟩ := e
  cases hs with
  | created | createFailed => exact absurd rfl hp
  | _ => exact ⟨nofun, nofun⟩

theorem CaseStep.noBackend_of {e : Event (Driver P R)}
    (hs : CaseStep counted messageSize .noBackend e.1 e.2 p') :
    p' = .noBackend ∧ ∀ b, e.1 ≠ .backendDestroy (some b) := by
  obtain ⟨c, r⟩ := e
  cases hs with
  | reportCreate | destroyNull => exact ⟨rfl, nofun⟩

/-- Only the first call creates a backend. -/
theorem not_created (hp : p ≠ .start) (h : (caseEnv counted messageSize).Path p t p') :
    ∀ e ∈ t, ∀ params, e.1 ≠ .backendCreate params := by
  induction t generalizing p with
  | nil => simp
  | cons e t ih =>
    obtain ⟨p₁, hs, h⟩ := h
    obtain ⟨hstart, hstep⟩ := CaseStep.not_start hs hp
    intro e he
    rcases List.mem_cons.1 he with rfl | he
    · exact hstep
    · exact ih hstart h e he

/-- Without a backend nothing but `NULL` is destroyed. -/
theorem not_destroyed_of_noBackend (h : (caseEnv counted messageSize).Path .noBackend t p') :
    ∀ e ∈ t, ∀ b, e.1 ≠ .backendDestroy (some b) := by
  induction t with
  | nil => simp
  | cons e t ih =>
    obtain ⟨p₁, hs, h⟩ := h
    obtain ⟨rfl, hc⟩ := CaseStep.noBackend_of hs
    intro e he
    rcases List.mem_cons.1 he with rfl | he
    · exact hc
    · exact ih h e he

end Protocol

section Case

variable {counted : Bool} {messageSize : UInt64} {row : ℕ → Sample → R} {rnd : ℚ → ℚ}
  {failed : Stage → Option Ptr → Prog (Driver P R) Int} {params : P} {start : Count}
  {targetNs iterations : UInt64} {samples : ℕ} {t : Trace (Driver P R)} {rc : Int}

/-- The calibration of a case. -/
abbrev caseCalibration (rnd : ℚ → ℚ) (counted : Bool) (messageSize : UInt64) (start : Count)
    (targetNs iterations : UInt64) (b : Ptr) : Prog (Driver P R) (Int × UInt64) :=
  calibrateFrom rnd (timeBatch counted b · messageSize ·) start targetNs iterations

/-- The runs of a case of either program. -/
abbrev CaseOf (rnd : ℚ → ℚ) (counted : Bool) (messageSize : UInt64) (row : ℕ → Sample → R)
    (failed : Stage → Option Ptr → Prog (Driver P R) Int) (params : P) (start : Count)
    (targetNs iterations : UInt64) (samples : ℕ) : Trace (Driver P R) → Int → Prop :=
  CaseRun (timeBatch counted · · messageSize ·) row failed params
    (caseCalibration rnd counted messageSize start targetNs iterations) samples

/-- A case follows the protocol to its end. -/
theorem caseWith_path (hf : Fails failed)
    (h : CaseOf rnd counted messageSize row failed params start targetNs iterations samples t rc) :
    (∃ b t', t = ⟨.backendCreate params, some b⟩ :: t'
        ∧ (caseEnv counted messageSize).Path (.created b) t' .destroyed)
      ∨ ∃ t', t = ⟨.backendCreate params, none⟩ :: t'
        ∧ (caseEnv counted messageSize).Path .noBackend t' .noBackend := by
  cases h with
  | noBackend h => exact .inr ⟨_, rfl, (hf.path_none h).2⟩
  | notVerified hr h => exact .inl ⟨_, _, rfl, _, .verifyFailed _ _ hr, (hf.path h).2⟩
  | notCalibrated hc hr h =>
    have hp := calibrateFrom_path hc
    rw [if_neg hr] at hp
    exact .inl ⟨_, _, rfl, _, .verified _, (Env.path_append _).2 ⟨_, hp, (hf.path h).2⟩⟩
  | sampled hc hs =>
    exact .inl ⟨_, _, rfl, _, .verified _,
      (Env.path_append _).2 ⟨_, calibrateFrom_path hc, sampleLoop_path hf hs⟩⟩

/-- A created backend is destroyed once, by the last call; without one nothing is. -/
theorem caseWith_destroyed (hf : Fails failed)
    (h : CaseOf rnd counted messageSize row failed params start targetNs iterations samples t rc) :
    (∀ params b, (⟨.backendCreate params, some b⟩ : Event (Driver P R)) ∈ t →
        ∃ t', t = t' ++ [⟨.backendDestroy (some b), ()⟩] ∧ ∀ e ∈ t', ∀ x, e.1 ≠ .backendDestroy x)
      ∧ ∀ params, (⟨.backendCreate params, none⟩ : Event (Driver P R)) ∈ t →
        ∀ b, (⟨.backendDestroy (some b), ()⟩ : Event (Driver P R)) ∉ t := by
  rcases caseWith_path hf h with ⟨b, t', rfl, hp⟩ | ⟨t', rfl, hp⟩
  · have hnc := not_created (by simp) hp
    refine ⟨fun params' b' hm => ?_, fun params' hm => ?_⟩
    · rcases List.mem_cons.1 hm with he | hm
      · cases he
        obtain ⟨t'', rfl, ht''⟩ := path_to_destroyed rfl hp
        refine ⟨⟨.backendCreate params, some b⟩ :: t'', rfl, fun e he => ?_⟩
        rcases List.mem_cons.1 he with rfl | he
        · simp
        · exact ht'' e he
      · exact absurd rfl (hnc _ hm params')
    · rcases List.mem_cons.1 hm with he | hm
      · cases he
      · exact absurd rfl (hnc _ hm params')
  · have hnc := not_created (by simp) hp
    refine ⟨fun params' b' hm => ?_, fun params' _ b' hm => ?_⟩
    · rcases List.mem_cons.1 hm with he | hm
      · cases he
      · exact absurd rfl (hnc _ hm params')
    · rcases List.mem_cons.1 hm with he | hm
      · cases he
      · exact absurd rfl (not_destroyed_of_noBackend hp _ hm b')

theorem caseWith_path_start (hf : Fails failed)
    (h : CaseOf rnd counted messageSize row failed params start targetNs iterations samples t rc) :
    ∃ p, (caseEnv counted messageSize).Path .start t p := by
  rcases caseWith_path hf h with ⟨b, t', rfl, hp⟩ | ⟨t', rfl, hp⟩
  · exact ⟨_, _, .created params b, hp⟩
  · exact ⟨_, _, .createFailed params, hp⟩

theorem Fails.noSample (hf : Fails failed) {stage : Stage} {backend : Option Ptr}
    (h : (failed stage backend).Runs t rc) : NoSample t := by
  refine ⟨?_, hf.rows h⟩
  rcases backend with _ | b
  · obtain ⟨-, stream, text, rfl | rfl⟩ := (hf stage t rc).1 h <;> simp
  · obtain ⟨-, stream, text, rfl⟩ := (hf stage t rc).2 b h
    simp

theorem caseWith_calibrated (hf : Fails failed)
    (h : CaseOf rnd counted messageSize row failed params start targetNs iterations samples t rc) :
    NoSample t ∨ ∃ t₁ t₂ t₃ b r N, t = t₁ ++ t₂ ++ t₃ ∧ NoSample t₁
      ∧ (caseCalibration rnd counted messageSize start targetNs iterations b).Runs t₂ (r, N)
      ∧ rows t₂ = [] ∧ (r ≠ 0 → NoSample t₃) := by
  have hpre : ∀ b, NoSample (P := P) (R := R)
      [⟨.backendCreate params, some b⟩, ⟨.backendVerify b, (0 : Int)⟩] := by
    intro b
    exact ⟨by simp, rfl⟩
  cases h with
  | noBackend h =>
    obtain ⟨h1, h2⟩ := hf.noSample h
    exact .inl ⟨by simpa using h1, h2⟩
  | notVerified hr h =>
    obtain ⟨h1, h2⟩ := hf.noSample h
    exact .inl ⟨by simpa using h1, h2⟩
  | @notCalibrated t₁ t₂ _ r b N hc hr h =>
    exact .inr ⟨_, t₁, t₂, b, r, N, rfl, hpre b, hc, calibrateFrom_rows hc, fun _ => hf.noSample h⟩
  | @sampled t₁ t₂ _ b N hc hs =>
    exact .inr ⟨_, t₁, t₂, b, 0, N, rfl, hpre b, hc, calibrateFrom_rows hc,
      fun h0 => absurd rfl h0⟩

/-- The rows of a case, and its result. -/
theorem caseWith_rows (hf : Fails failed) {number : R → ℕ} (hn : ∀ i s, number (row i s) = i)
    (hsamples : 0 < samples)
    (h : CaseOf rnd counted messageSize row failed params start targetNs iterations samples t rc) :
    (rc = 0 ∧ (rows t).map number = List.range samples)
      ∨ (rc = -1 ∧ ∃ k < samples, (rows t).map number = List.range k) := by
  cases h with
  | noBackend h =>
    refine .inr ⟨((hf _ _ _).1 h).1, 0, hsamples, ?_⟩
    rw [rows_cons_none rfl, hf.rows h]
    rfl
  | @notVerified t₁ _ r b hr h =>
    refine .inr ⟨((hf _ _ _).2 b h).1, 0, hsamples, ?_⟩
    rw [rows_cons_none rfl, rows_cons_none rfl, hf.rows h]
    rfl
  | @notCalibrated t₁ t₂ _ r b N hc hr h =>
    refine .inr ⟨((hf _ _ _).2 b h).1, 0, hsamples, ?_⟩
    rw [rows_cons_none rfl, rows_cons_none rfl, rows_append, calibrateFrom_rows hc, hf.rows h]
    rfl
  | @sampled t₁ t₂ _ b N hc hs =>
    rw [rows_cons_none rfl, rows_cons_none rfl, rows_append, calibrateFrom_rows hc, List.nil_append]
    simp only [List.range_eq_range']
    exact sampleLoop_rows hf hn hs

theorem caseWith_length_rows_le (hf : Fails failed) (number : R → ℕ)
    (hn : ∀ i s, number (row i s) = i)
    (h : CaseOf rnd counted messageSize row failed params start targetNs iterations samples t rc) :
    (rows t).length ≤ samples := by
  cases h with
  | noBackend h =>
    rw [rows_cons_none rfl, hf.rows h]
    exact Nat.zero_le _
  | notVerified hr h =>
    rw [rows_cons_none rfl, rows_cons_none rfl, hf.rows h]
    exact Nat.zero_le _
  | notCalibrated hc hr h =>
    rw [rows_cons_none rfl, rows_cons_none rfl, rows_append, calibrateFrom_rows hc, hf.rows h]
    exact Nat.zero_le _
  | @sampled t₁ t₂ _ b N hc hs =>
    rw [rows_cons_none rfl, rows_cons_none rfl, rows_append, calibrateFrom_rows hc, List.nil_append,
      ← List.length_map number]
    rcases sampleLoop_rows hf hn hs with ⟨-, hrows⟩ | ⟨-, k, hk, hrows⟩
    · rw [hrows, List.length_range']
    · rw [hrows, List.length_range']
      exact hk.le

theorem caseWith_lifeCycle (hf : Fails failed) {number : R → ℕ} (hn : ∀ i s, number (row i s) = i)
    (hsamples : 0 < samples)
    (h : CaseOf rnd counted messageSize row failed params start targetNs iterations samples t rc) :
    LifeCycle counted messageSize
      (caseCalibration rnd counted messageSize start targetNs iterations) number samples t rc := by
  obtain ⟨p, hp⟩ := caseWith_path_start hf h
  have hrows := caseWith_rows hf hn hsamples h
  refine ⟨fun t₁ b r t₂ ht => verify_after_create hp ht,
    fun t₁ b n r t₂ ht => batch_after_verify hp ht, caseWith_calibrated hf h,
    fun t₁ e t₂ ht he => quiet_after_failed hp ht he,
    fun t₁ b n s e t₂ ht hR => quiet_after_refused hp ht hR, (caseWith_destroyed hf h).1,
    (caseWith_destroyed hf h).2, ?_, ?_⟩
  · constructor
    · intro h0
      rcases hrows with ⟨-, h⟩ | ⟨h, -⟩
      · exact h
      · omega
    · intro hr
      rcases hrows with ⟨h, -⟩ | ⟨-, k, hk, h⟩
      · exact h
      · have := congrArg List.length (hr.symm.trans h)
        simp only [List.length_range] at this
        omega
  · intro h0
    rcases hrows with ⟨h, -⟩ | h
    · exact absurd h h0
    · exact h

end Case

/-- The life cycle of the cases of both programs. -/
theorem runCase_lifeCycle (rnd : ℚ → ℚ) (build : Build) (messageSize : UInt64) :
    (∀ (options : Aead.Options) algorithm operation t rc, 0 < options.samples.toNat →
      (Aead.runCase rnd build options algorithm operation messageSize).Runs t rc →
      LifeCycle true messageSize
        (fun b => ofbCalibrate rnd b messageSize options.sampleNs 0) Aead.Row.sample
        options.samples.toNat t rc)
    ∧ ∀ (options : Tls.Options) cipher benchmark t rc, 0 < options.samples.toNat →
      (Tls.runCase rnd build options cipher benchmark messageSize).Runs t rc →
      LifeCycle (benchmark = .transfer) messageSize
        (fun b => Tls.calibrate rnd b benchmark messageSize options.sampleNs 0) Tls.Row.sample
        options.samples.toNat t rc := by
  refine ⟨fun options algorithm operation t rc hs h => ?_,
    fun options cipher benchmark t rc hs h => ?_⟩
  · exact caseWith_lifeCycle (aead_fails algorithm operation messageSize) (fun _ _ => rfl) hs
      (runs_caseWith h)
  · exact caseWith_lifeCycle (tls_fails cipher benchmark messageSize) (fun _ _ => rfl) hs
      (runs_caseWith h)

section Handshake

/-- One sample of a handshake of 100000 ns, to a millisecond. -/
def handshakeOptions : Tls.Options :=
  ⟨"handshake", "TLS_AES_128_GCM_SHA256", "jsonl", "cert.pem", "key.pem", 0, 1, 1000000, false⟩

def handshakeBuild : Build := ⟨"x86_64", "openssl", "OpenSSL 3.5.7", "cert.pem", "key.pem"⟩

def handshakeTrace : Trace Tls.Bench :=
  ⟨.backendCreate ⟨"TLS_AES_128_GCM_SHA256", "cert.pem", "key.pem", .handshake, 0⟩, some 0⟩ ::
    ⟨.backendVerify 0, (0 : Int)⟩ :: (twoBatches 1 ++ (batchTrace 0 10 400000 1400000 ++
      [⟨.printRow (Tls.row id handshakeBuild handshakeOptions "TLS_AES_128_GCM_SHA256" .handshake 0
        0 (measured false 10 0 400000 1400000)), ()⟩, ⟨.backendDestroy (some 0), ()⟩]))

theorem runs_handshakeTrace :
    (Tls.runCase id handshakeBuild handshakeOptions "TLS_AES_128_GCM_SHA256" .handshake 0).Runs
      handshakeTrace 0 := by
  unfold Tls.runCase caseWith
  rw [runs_backendCreate_bind]
  refine ⟨some 0, _, rfl, ?_⟩
  simp only []
  rw [runs_backendVerify_bind]
  refine ⟨0, _, rfl, ?_⟩
  rw [if_neg (by decide)]
  refine Prog.runs_bind.2 ⟨_, _, (0, 10), rfl, runs_calibrate_handshake, ?_⟩
  simp only [ne_eq, not_true_eq_false, if_false]
  refine Prog.runs_bind.2 ⟨_, _, (0, measured false 10 0 400000 1400000), rfl,
    runs_timeBatch_ok.2 ⟨400000, 1400000, rfl, by decide, by decide, by simp, rfl⟩, ?_⟩
  exact ⟨(), _, rfl, (), _, rfl, rfl, rfl⟩

end Handshake

theorem runCase_lifeCycle_handshake :
    LifeCycle false 0 (fun b => Tls.calibrate id b .handshake 0 1000000 0) Tls.Row.sample 1
      handshakeTrace 0 :=
  (runCase_lifeCycle id handshakeBuild 0).2 handshakeOptions "TLS_AES_128_GCM_SHA256" .handshake
    handshakeTrace 0 (by decide) runs_handshakeTrace

end OfbBench
