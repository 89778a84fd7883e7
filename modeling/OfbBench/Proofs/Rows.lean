import OfbBench.Proofs.LifeCycle

/-!
# Every reported sample is sound

Each row a case prints comes right after the batch it reports (`caseWith_printed`): its elapsed time
is the difference of the two readings around that batch, which both succeeded, its iterations are
the calibrated count, and its bytes are the product of that count and the message size, unreduced.
Nothing is assumed of the clock or of the rounding of `long double`.
-/

namespace OfbBench

variable {P R : Type}

/-- A split of a trace at a row lies after a part that prints none. -/
theorem split_after_rows {t₁ t₂ u₁ u₂ : Trace (Driver P R)} {r : R} (h₁ : rows t₁ = [])
    (h : t₁ ++ t₂ = u₁ ++ ⟨.printRow r, ()⟩ :: u₂) :
    ∃ u, u₁ = t₁ ++ u ∧ t₂ = u ++ ⟨.printRow r, ()⟩ :: u₂ := by
  rcases List.append_eq_append_iff.1 h with ⟨u, rfl, ht⟩ | ⟨u, ht, hu⟩
  · exact ⟨u, rfl, ht⟩
  · rcases u with _ | ⟨e, u⟩
    · rw [List.append_nil] at ht
      rw [List.nil_append] at hu
      exact ⟨[], by rw [List.append_nil, ht], hu.symm⟩
    · rw [List.cons_append, List.cons.injEq] at hu
      obtain ⟨rfl, -⟩ := hu
      rw [ht, rows_append] at h₁
      simp [rows, rowOf] at h₁

section Case

variable {counted : Bool} {messageSize : UInt64} {row : ℕ → Sample → R} {rnd : ℚ → ℚ}
  {failed : Stage → Option Ptr → Prog (Driver P R) Int} {params : P} {start : Count}
  {targetNs iterations N : UInt64} {samples : ℕ} {t : Trace (Driver P R)} {rc : Int}

/-- Each row of `t` reports the batch of `N` iterations right before it; the first is numbered
`i`. -/
def Printed (counted : Bool) (messageSize : UInt64) (row : ℕ → Sample → R) (b : Ptr) (N : UInt64)
    (i : ℕ) (t : Trace (Driver P R)) : Prop :=
  ∀ u₁ r u₂, t = u₁ ++ ⟨.printRow r, ()⟩ :: u₂ → ∃ u start stop sample,
    u₁ = u ++ batchTrace b N start stop ∧ Timed counted N messageSize start stop sample
      ∧ r = row (i + (rows u₁).length) sample

theorem printed_of_rows {b : Ptr} {i : ℕ} (h : rows t = []) :
    Printed counted messageSize row b N i t := by
  intro u₁ r u₂ ht
  rw [ht, rows_append] at h
  simp [rows, rowOf] at h

theorem Printed.append {b : Ptr} {i : ℕ} {t₁ t₂ : Trace (Driver P R)} (h₁ : rows t₁ = [])
    (h₂ : Printed counted messageSize row b N i t₂) :
    Printed counted messageSize row b N i (t₁ ++ t₂) := by
  intro u₁ r u₂ ht
  obtain ⟨u, rfl, ht₂⟩ := split_after_rows h₁ ht
  obtain ⟨u', start, stop, sample, rfl, hT, hr⟩ := h₂ u r u₂ ht₂
  refine ⟨t₁ ++ u', start, stop, sample, by rw [List.append_assoc], hT, ?_⟩
  rw [rows_append, h₁, List.nil_append]
  exact hr

theorem sampleLoop_printed (hf : Fails failed) {b : Ptr} {remaining i : ℕ} {sample : Sample}
    (h : (sampleLoop (timeBatch counted · · messageSize ·) row failed b N remaining i sample).Runs
      t rc) : Printed counted messageSize row b N i t := by
  refine sampleLoop_induct (motive := fun _ i t _ => Printed counted messageSize row b N i t)
    ?_ ?_ ?_ h
  · intro i
    exact printed_of_rows rfl
  · intro remaining i sample t₁ t₂ rc sample' rc' hr _ hfail
    exact printed_of_rows (by rw [rows_append, timeBatch_rows hr, hf.rows hfail]; rfl)
  · intro remaining i sample t₁ t₂ sample' rc hr ih u₁ r u₂ ht
    have hnone := timeBatch_rows hr
    obtain ⟨u, rfl, ht₂⟩ := split_after_rows hnone ht
    rcases u with _ | ⟨e, u⟩
    · -- the row just printed
      rw [List.nil_append, List.cons.injEq] at ht₂
      obtain ⟨hrow, -⟩ := ht₂
      obtain ⟨s, e, rfl, hT⟩ := runs_timeBatch_ok.1 hr
      cases hrow
      rw [List.append_nil, hnone]
      exact ⟨[], s, e, sample', rfl, hT, rfl⟩
    · rw [List.cons_append, List.cons.injEq] at ht₂
      obtain ⟨rfl, ht₂⟩ := ht₂
      obtain ⟨u', s, e, smp, rfl, hT, hrow⟩ := ih u r u₂ ht₂
      refine ⟨t₁ ++ ⟨.printRow (row i sample'), ()⟩ :: u', s, e, smp, by simp, hT, ?_⟩
      rw [rows_append, hnone, List.nil_append, rows_cons_row, List.length_cons, hrow]
      congr 1
      omega

/-- A calibrated count is not 0. -/
theorem calibrateFrom_pos {b : Ptr}
    (h : (caseCalibration rnd counted messageSize start targetNs iterations b).Runs t (0, N)) :
    0 < N.toNat := by
  obtain ⟨rc, count, sample, -, ⟨-, h0, -⟩ | ⟨-, -, rfl⟩⟩ := runs_calibrateFrom.1 h
  · exact absurd h0 (by decide)
  · split_ifs with h0
    · decide
    · exact pos_of_ne_zero h0

theorem caseWith_printed (hf : Fails failed)
    (h : CaseOf rnd counted messageSize row failed params start targetNs iterations samples t rc) :
    rows t = [] ∨ ∃ b N t₁ t₂ t₃, t = t₁ ++ t₂ ++ t₃
      ∧ (caseCalibration rnd counted messageSize start targetNs iterations b).Runs t₂ (0, N)
      ∧ Printed counted messageSize row b N 0 t := by
  cases h with
  | noBackend h => exact .inl ((rows_cons_none rfl).trans (hf.rows h))
  | notVerified hr h =>
    exact .inl ((rows_cons_none rfl).trans ((rows_cons_none rfl).trans (hf.rows h)))
  | notCalibrated hc hr h =>
    left
    rw [rows_cons_none rfl, rows_cons_none rfl, rows_append, calibrateFrom_rows hc, hf.rows h]
    rfl
  | @sampled t₁ t₂ _ b N hc hs =>
    have hpre : rows (P := P) (R := R)
        [⟨.backendCreate params, some b⟩, ⟨.backendVerify b, (0 : Int)⟩] = [] := rfl
    refine .inr ⟨b, N, [⟨.backendCreate params, some b⟩, ⟨.backendVerify b, (0 : Int)⟩], t₁, t₂,
      rfl, hc, ?_⟩
    exact Printed.append hpre (Printed.append (calibrateFrom_rows hc) (sampleLoop_printed hf hs))

end Case

/-- What a reported sample says of the batch of `N` iterations timed from `start` to `stop`. -/
structure Sound (counted : Bool) (N messageSize start stop : UInt64) (sample : Sample) : Prop where
  start_ne : start ≠ 0
  stop_ne : stop ≠ 0
  elapsed : sample.elapsedNs.toNat = stop.toNat - start.toNat
  elapsed_pos : 1 ≤ sample.elapsedNs.toNat
  iterations : sample.iterations = N
  iterations_pos : 1 ≤ N.toNat
  bytes : counted = true → sample.bytes.toNat = N.toNat * messageSize.toNat

theorem Timed.sound {counted : Bool} {N messageSize start stop : UInt64} {sample : Sample}
    (h : Timed counted N messageSize start stop sample) (hN : 0 < N.toNat) :
    Sound counted N messageSize start stop sample := by
  refine ⟨h.start_ne, ?_, h.elapsed.1, h.elapsed_pos, h.iterations, hN, fun hc => ?_⟩
  · rintro rfl
    have := h.elapsed.2
    simp at this
  · subst hc
    exact h.bytes

/-- The rows of a run of a case: each reports, and computes its rate from, the sound sample of the
batch right before it, and all have the count the calibration returned. -/
def SoundRows (counted : Bool) (messageSize : UInt64)
    (calibration : Ptr → Prog (Driver P R) (Int × UInt64)) (sampleOf : R → Sample)
    (rate : R → ℚ) (rateOf : Sample → ℚ) (t : Trace (Driver P R)) : Prop :=
  rows t = [] ∨ ∃ b N t₁ t₂ t₃, t = t₁ ++ t₂ ++ t₃ ∧ (calibration b).Runs t₂ (0, N)
    ∧ ∀ u₁ r u₂, t = u₁ ++ ⟨.printRow r, ()⟩ :: u₂ → ∃ u start stop,
      u₁ = u ++ batchTrace b N start stop ∧ Sound counted N messageSize start stop (sampleOf r)
        ∧ rate r = rateOf (sampleOf r)

theorem caseWith_sound {counted : Bool} {messageSize : UInt64} {row : ℕ → Sample → R} {rnd : ℚ → ℚ}
    {failed : Stage → Option Ptr → Prog (Driver P R) Int} {params : P} {start : Count}
    {targetNs iterations : UInt64} {samples : ℕ} {t : Trace (Driver P R)} {rc : Int}
    {sampleOf : R → Sample} {rate : R → ℚ} {rateOf : Sample → ℚ} (hf : Fails failed)
    (hs : ∀ i s, sampleOf (row i s) = s) (hr : ∀ i s, rate (row i s) = rateOf s)
    (h : CaseOf rnd counted messageSize row failed params start targetNs iterations samples t rc) :
    SoundRows counted messageSize
      (caseCalibration rnd counted messageSize start targetNs iterations)
      sampleOf rate rateOf t := by
  rcases caseWith_printed hf h with h0 | ⟨b, N, t₁, t₂, t₃, ht, hc, hp⟩
  · exact .inl h0
  refine .inr ⟨b, N, t₁, t₂, t₃, ht, hc, fun u₁ r u₂ hu => ?_⟩
  obtain ⟨u, s, e, sample, rfl, hT, rfl⟩ := hp u₁ r u₂ hu
  rw [hs, hr]
  exact ⟨u, s, e, rfl, hT.sound (calibrateFrom_pos hc), rfl⟩

/-- The sample a row reports. -/
def Aead.Row.reported (row : Aead.Row) : Sample := ⟨row.iterations, row.elapsedNs, row.bytes⟩

/-- The sample a row reports; a handshake's row leaves out the bytes. -/
def Tls.Row.reported (row : Tls.Row) : Sample := ⟨row.iterations, row.elapsedNs, row.bytes⟩

/-- The rows of both programs are sound. -/
theorem runCase_sound (rnd : ℚ → ℚ) (build : Build) (messageSize : UInt64) :
    (∀ (options : Aead.Options) algorithm operation t rc,
      (Aead.runCase rnd build options algorithm operation messageSize).Runs t rc →
      SoundRows true messageSize (fun b => ofbCalibrate rnd b messageSize options.sampleNs 0)
        Aead.Row.reported Aead.Row.mibPerSecond (mibPerSecond rnd) t)
    ∧ (∀ (options : Tls.Options) cipher t rc,
      (Tls.runCase rnd build options cipher .handshake messageSize).Runs t rc →
      SoundRows false messageSize
        (fun b => Tls.calibrate rnd b .handshake messageSize options.sampleNs 0)
        Tls.Row.reported Tls.Row.rate (handshakesPerSecond rnd) t)
    ∧ ∀ (options : Tls.Options) cipher t rc,
      (Tls.runCase rnd build options cipher .transfer messageSize).Runs t rc →
      SoundRows true messageSize
        (fun b => Tls.calibrate rnd b .transfer messageSize options.sampleNs 0)
        Tls.Row.reported Tls.Row.rate (mibPerSecond rnd) t := by
  refine ⟨fun options algorithm operation t rc h => ?_, fun options cipher t rc h => ?_,
    fun options cipher t rc h => ?_⟩
  · exact caseWith_sound (aead_fails algorithm operation messageSize) (fun _ _ => rfl)
      (fun _ _ => rfl) (runs_caseWith h)
  · exact caseWith_sound (tls_fails cipher .handshake messageSize) (fun _ _ => rfl)
      (fun _ _ => rfl) (runs_caseWith h)
  · exact caseWith_sound (tls_fails cipher .transfer messageSize) (fun _ _ => rfl)
      (fun _ _ => rfl) (runs_caseWith h)

theorem runCase_sound_handshake :
    SoundRows false 0 (fun b => Tls.calibrate id b .handshake 0 1000000 0) Tls.Row.reported
      Tls.Row.rate (handshakesPerSecond id) handshakeTrace :=
  (runCase_sound id handshakeBuild 0).2.1 handshakeOptions "TLS_AES_128_GCM_SHA256" handshakeTrace 0
    runs_handshakeTrace

end OfbBench
