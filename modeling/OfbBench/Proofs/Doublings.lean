import OfbBench.Proofs.Calibration
import OfbBench.AeadMain

/-!
# The batches a calibration times

A calibration from the count `s` times batches of `s`, `2 s`, `4 s`, … iterations. Each of them but
the last was timed and took less than an eighth of the target, and the doubled counts stay below
`2 ^ 64`, so there are at most 64 of them (`calibrateFrom_bounded`). It ends with the first batch
that fails, or rescales the count of the last one.

The byte count of a rescaled count is not checked: whether the count can be run is decided by the
readings of the clock, the target and the message size (`calibrateFrom_runnableWhen`).
-/

namespace OfbBench

variable {P R : Type}

/-! ## The batches -/

/-- The calls of batches of `n`, `2 n`, `4 n`, … iterations with these clock readings. -/
def doublings (backend : Ptr) : ℕ → List (UInt64 × UInt64) → Trace (Driver P R)
  | _, [] => []
  | n, (start, stop) :: readings =>
    batchTrace backend (UInt64.ofNat n) start stop ++ doublings backend (2 * n) readings

/-- Batches of `n`, `2 n`, `4 n`, … iterations that were timed, each in less than an eighth of the
target. -/
def Short (counted : Bool) (messageSize targetNs : UInt64) : ℕ → List (UInt64 × UInt64) → Prop
  | _, [] => True
  | n, (start, stop) :: readings =>
    Timed counted (UInt64.ofNat n) messageSize start stop
        (measured counted (UInt64.ofNat n) messageSize start stop)
      ∧ stop - start < targetNs / 8 ∧ Short counted messageSize targetNs (2 * n) readings

/-- The readings `before` and what follows them are those of a calibration from `n`: the batches of
`before` were doubled, and the last one has `n * 2 ^ before.length` iterations. -/
structure Doubled (counted : Bool) (backend : Ptr) (messageSize targetNs : UInt64) (n : ℕ)
    (before : List (UInt64 × UInt64)) (t last : Trace (Driver P R)) : Prop where
  trace : t = doublings backend n before ++ last
  short : Short counted messageSize targetNs n before
  fits : n * 2 ^ before.length < 2 ^ 64

/-- A calibration that failed did so at its last batch, and else stopped there. -/
def EndsWith (counted : Bool) (backend : Ptr) (messageSize targetNs : UInt64) (n : ℕ)
    (last : Trace (Driver P R)) (out : Int × Count × Sample) : Prop :=
  out.2.1.1 = UInt64.ofNat n ∧
    ((out.1 = -1 ∧ FailedBatch counted backend (UInt64.ofNat n) messageSize last)
      ∨ (out.1 = 0 ∧ Stops targetNs out.2.1 out.2.2 ∧ ∃ start stop,
        last = batchTrace backend (UInt64.ofNat n) start stop
          ∧ Timed counted (UInt64.ofNat n) messageSize start stop out.2.2))

section Doublings

variable {counted : Bool} {backend : Ptr} {messageSize targetNs : UInt64}

theorem Count.ofNat_toNat (count : Count) : UInt64.ofNat count.1.toNat = count.1 :=
  UInt64.ofNat_toNat

/-- Every run of the loop doubles its count until a batch fails or stops it. -/
theorem calibrateLoop_doubled {count : Count} {sample : Sample} {t : Trace (Driver P R)}
    {out : Int × Count × Sample}
    (h : (calibrateLoop (timeBatch counted backend · messageSize ·) targetNs count sample).Runs t
      out) :
    ∃ before last, Doubled counted backend messageSize targetNs count.1.toNat before t last
      ∧ EndsWith counted backend messageSize targetNs (count.1.toNat * 2 ^ before.length) last
        out := by
  refine calibrateLoop_induct (motive := fun count t out => ∃ before last,
    Doubled counted backend messageSize targetNs count.1.toNat before t last
      ∧ EndsWith counted backend messageSize targetNs (count.1.toNat * 2 ^ before.length) last
        out) ?_ ?_ ?_ h
  · intro count sample t rc sample' hr hrc
    obtain ⟨rfl, rfl, hF⟩ := runs_timeBatch_fail hr hrc
    refine ⟨[], t, ⟨rfl, trivial, by simpa using count.1.toNat_lt⟩, ?_⟩
    rw [List.length_nil, pow_zero, mul_one]
    refine ⟨count.ofNat_toNat.symm, .inl ⟨rfl, ?_⟩⟩
    rw [count.ofNat_toNat]
    exact hF
  · intro count sample t sample' hr hs
    obtain ⟨start, stop, rfl, hT⟩ := runs_timeBatch_ok.1 hr
    refine ⟨[], _, ⟨rfl, trivial, by simpa using count.1.toNat_lt⟩, ?_⟩
    rw [List.length_nil, pow_zero, mul_one]
    refine ⟨count.ofNat_toNat.symm, .inr ⟨rfl, hs, start, stop, ?_, ?_⟩⟩
    · rw [count.ofNat_toNat]
      rfl
    · rw [count.ofNat_toNat]
      exact hT
  · intro count sample t₁ t₂ sample' out hr hns ih
    obtain ⟨start, stop, rfl, hT⟩ := runs_timeBatch_ok.1 hr
    obtain ⟨before, last, ⟨rfl, hshort, hfits⟩, hend⟩ := ih
    have hd := count.toNat_double fun h' => hns (.inr h')
    rw [hd] at hshort hfits hend
    have hlen : count.1.toNat * 2 ^ ((start, stop) :: before).length
        = 2 * count.1.toNat * 2 ^ before.length := by
      rw [List.length_cons, pow_succ]
      ring
    have hlt : stop - start < targetNs / 8 := by
      have := UInt64.not_le.1 fun h' => hns (.inl h')
      rwa [hT.sample_eq] at this
    refine ⟨(start, stop) :: before, last, ⟨?_, ⟨?_, hlt, hshort⟩, ?_⟩, ?_⟩
    · rw [doublings, count.ofNat_toNat, hd, List.append_assoc]
    · rw [count.ofNat_toNat]
      exact hT.sample_eq ▸ hT
    · rw [hlen]
      exact hfits
    · rw [hlen]
      exact hend

end Doublings

/-! ## The result -/

/-- The count a calibration returns, with exact arithmetic, when its last batch of `c` iterations
took `e` nanoseconds: what is converted is in range, and neither the conversion nor the fallback for
0 loses anything. -/
structure Exact (c targetNs e N : UInt64) : Prop where
  ge : c.toNat ≤ N.toNat
  ne_zero : rescale id c targetNs e ≠ 0
  converted : e < targetNs → scaled id c targetNs e < uint64Max.toNat →
    scaled id c targetNs e < 2 ^ 64 ∧ N.toNat = ⌊scaled id c targetNs e⌋₊
  kept : ¬ (e < targetNs ∧ scaled id c targetNs e < uint64Max.toNat) → N = c

/-- A run of a calibration from the count `s` that times at most `bound` batches. It fails at the
first batch that does, with `*iterations` as it was. -/
def BoundedRun (rnd : ℚ → ℚ) (counted : Bool) (backend : Ptr)
    (messageSize targetNs iterations : UInt64) (s bound : ℕ) (t : Trace (Driver P R)) (rc : Int)
    (N : UInt64) : Prop :=
  ∃ before last, Doubled counted backend messageSize targetNs s before t last
    ∧ before.length + 1 ≤ bound
    ∧ ((rc = -1 ∧ N = iterations
        ∧ FailedBatch counted backend (UInt64.ofNat (s * 2 ^ before.length)) messageSize last)
      ∨ (rc = 0 ∧ ∃ start stop sample,
        last = batchTrace backend (UInt64.ofNat (s * 2 ^ before.length)) start stop
          ∧ Timed counted (UInt64.ofNat (s * 2 ^ before.length)) messageSize start stop sample
          ∧ (rnd = id → Exact (UInt64.ofNat (s * 2 ^ before.length)) targetNs (stop - start) N)))

section Result

variable {counted : Bool} {backend : Ptr} {messageSize targetNs iterations N : UInt64}
  {rnd : ℚ → ℚ} {start : Count} {t : Trace (Driver P R)} {rc : Int}

theorem rescale_exact {c e : UInt64} (hc : 0 < c.toNat) (he : 0 < e.toNat) :
    Exact c targetNs e (rescale id c targetNs e) := by
  have he' : (0 : ℚ) < e.toNat := by exact_mod_cast he
  have hkept : ¬ (e < targetNs ∧ scaled id c targetNs e < uint64Max.toNat) →
      rescale id c targetNs e = c := by
    intro h
    unfold rescale
    split_ifs with h1 h2
    · exact absurd ⟨h1.1, h2⟩ h
    · rfl
    · rfl
  have hconv : e < targetNs → scaled id c targetNs e < uint64Max.toNat →
      (rescale id c targetNs e).toNat = ⌊scaled id c targetNs e⌋₊ := by
    intro h1 h2
    rw [scaled_id, toNat_uint64Max] at h2
    exact toNat_rescale_id he (UInt64.lt_iff_toNat_lt.1 h1) (by exact_mod_cast h2)
  have hge : c.toNat ≤ (rescale id c targetNs e).toNat := by
    by_cases h : e < targetNs ∧ scaled id c targetNs e < uint64Max.toNat
    · have hlt : (e.toNat : ℚ) ≤ targetNs.toNat := by
        exact_mod_cast (UInt64.lt_iff_toNat_lt.1 h.1).le
      rw [hconv h.1 h.2, scaled_id]
      refine Nat.le_floor ?_
      rw [le_div_iff₀ he']
      exact mul_le_mul_of_nonneg_left hlt (Nat.cast_nonneg _)
    · rw [hkept h]
  refine ⟨hge, ?_, fun h1 h2 => ⟨?_, hconv h1 h2⟩, hkept⟩
  · intro h0
    rw [h0, UInt64.toNat_zero] at hge
    omega
  · refine h2.trans ?_
    rw [toNat_uint64Max]
    norm_num

/-- A count of a calibration from `s` that is below `2 ^ 64` was doubled fewer than `bound`
times. -/
theorem length_lt_of_fits {s bound k : ℕ} (hs : 2 ^ 64 ≤ s * 2 ^ bound) (h : s * 2 ^ k < 2 ^ 64) :
    k + 1 ≤ bound := by
  by_contra hk
  have hle : 2 ^ bound ≤ 2 ^ k := Nat.pow_le_pow_right (by decide) (by omega)
  have := Nat.mul_le_mul_left s hle
  omega

theorem calibrateFrom_bounded {bound : ℕ} (hbound : 2 ^ 64 ≤ start.1.toNat * 2 ^ bound)
    (h : (calibrateFrom rnd (timeBatch counted backend · messageSize ·) start targetNs
      iterations).Runs t (rc, N)) :
    BoundedRun rnd counted backend messageSize targetNs iterations start.1.toNat bound t rc N := by
  obtain ⟨rc', count, sample, hr, hres⟩ := runs_calibrateFrom.1 h
  obtain ⟨before, last, hd, hcount, hend⟩ := calibrateLoop_doubled hr
  refine ⟨before, last, hd, length_lt_of_fits hbound hd.fits, ?_⟩
  rcases hend with ⟨hrc', hF⟩ | ⟨hrc', -, s, e, hlast, hT⟩
  · rcases hres with ⟨-, hrc, hN⟩ | ⟨h0, -⟩
    · exact .inl ⟨hrc, hN, hF⟩
    · exact absurd (hrc'.symm.trans h0) (by decide)
  · rcases hres with ⟨h0, -⟩ | ⟨-, hrc, hN⟩
    · exact absurd hrc' h0
    · refine .inr ⟨hrc, s, e, sample, hlast, hT, ?_⟩
      rintro rfl
      have hsample : sample = measured counted _ messageSize s e := hT.sample_eq
      have helapsed : sample.elapsedNs = e - s := by rw [hsample]; rfl
      have hex : Exact count.1 targetNs sample.elapsedNs
          (rescale id count.1 targetNs sample.elapsedNs) := rescale_exact count.2 hT.elapsed_pos
      rw [hN, if_neg hex.ne_zero, ← hcount, ← helapsed]
      exact hex

end Result

/-- A batch makes at most three calls. -/
theorem length_failedBatch {counted : Bool} {backend : Ptr} {n messageSize : UInt64}
    {t : Trace (Driver P R)} (h : FailedBatch counted backend n messageSize t) : t.length ≤ 3 := by
  cases h with
  | clock => exact Nat.le_add_left 1 2
  | batch start r hs hr => exact Nat.le_succ 2
  | refused start stop hs h => exact le_rfl

theorem length_doublings (backend : Ptr) (n : ℕ) (readings : List (UInt64 × UInt64)) :
    (doublings (P := P) (R := R) backend n readings).length = 3 * readings.length := by
  induction readings generalizing n with
  | nil => rfl
  | cons reading readings ih =>
    obtain ⟨start, stop⟩ := reading
    rw [doublings, List.length_append, ih, List.length_cons, batchTrace]
    simp only [List.length_cons, List.length_nil]
    omega

theorem BoundedRun.length_le {rnd : ℚ → ℚ} {counted : Bool} {backend : Ptr}
    {messageSize targetNs iterations N : UInt64} {s bound : ℕ} {t : Trace (Driver P R)} {rc : Int}
    (h : BoundedRun rnd counted backend messageSize targetNs iterations s bound t rc N) :
    t.length ≤ 3 * bound := by
  obtain ⟨before, last, hd, hbound, hend⟩ := h
  have hlast : last.length ≤ 3 := by
    rcases hend with ⟨-, -, hF⟩ | ⟨-, start, stop, sample, rfl, -⟩
    · exact length_failedBatch hF
    · exact le_rfl
  rw [hd.trace, List.length_append, length_doublings]
  omega

/-- A calibration ends, and all its runs are bounded. -/
def Bounded (rnd : ℚ → ℚ) (counted : Bool) (backend : Ptr)
    (messageSize targetNs iterations : UInt64) (s bound : ℕ)
    (calibration : Prog (Driver P R) (Int × UInt64)) : Prop :=
  calibration.EndsWithin (3 * bound) ∧ ∀ t rc N, calibration.Runs t (rc, N) →
    BoundedRun rnd counted backend messageSize targetNs iterations s bound t rc N

theorem bounded {rnd : ℚ → ℚ} {counted : Bool} {backend : Ptr}
    {messageSize targetNs iterations : UInt64} (start : Count) {bound : ℕ}
    (hbound : 2 ^ 64 ≤ start.1.toNat * 2 ^ bound) :
    Bounded (P := P) (R := R) rnd counted backend messageSize targetNs iterations start.1.toNat
      bound (calibrateFrom rnd (timeBatch counted backend · messageSize ·) start targetNs
        iterations) :=
  ⟨Prog.endsWithin fun _ _ h => (calibrateFrom_bounded hbound h).length_le,
    fun _ _ _ h => calibrateFrom_bounded hbound h⟩

/-- Both calibrations end after at most 58, 64 and 60 batches, and their counts never wrap. -/
theorem calibration_bounded (rnd : ℚ → ℚ) (backend : Ptr)
    (messageSize targetNs iterations : UInt64) :
    Bounded (P := P) (R := R) rnd true backend messageSize targetNs iterations 64 58
        (ofbCalibrate rnd backend messageSize targetNs iterations)
      ∧ Bounded rnd false backend messageSize targetNs iterations 1 64
        (Tls.calibrate rnd backend .handshake messageSize targetNs iterations)
      ∧ Bounded rnd true backend messageSize targetNs iterations 16 60
        (Tls.calibrate rnd backend .transfer messageSize targetNs iterations) :=
  ⟨bounded ⟨64, by decide⟩ (by decide), bounded ⟨1, by decide⟩ (by decide),
    bounded ⟨16, by decide⟩ (by decide)⟩

theorem calibration_bounded_handshake :
    (Tls.calibrate id 0 .handshake 0 1000000 0).Runs (twoBatches 1) (0, 10)
      ∧ BoundedRun (P := Tls.Params) (R := Tls.Row) id false 0 0 1000000 0 1 64 (twoBatches 1) 0
        10 :=
  ⟨runs_calibrate_handshake,
    (calibration_bounded (P := Tls.Params) (R := Tls.Row) id 0 0 1000000 0).2.1.2 _ _ _
      runs_calibrate_handshake⟩

/-! ## Whether the count can be run -/

/-- A batch of `n` iterations that succeeds on an advancing clock is a sample: its bytes fit. -/
def Runnable (backend : Ptr) (messageSize n : UInt64) : Prop :=
  n.toNat * messageSize.toNat ≤ uint64Max.toNat ∧ ∀ start stop sample, start ≠ 0 → start < stop →
    ∃ sample', (timeBatch (P := P) (R := R) true backend n messageSize sample).Runs
      (batchTrace backend n start stop) (0, sample')

/-- The time between the readings of the `k`th batch. -/
def elapsedAt (readings : List (UInt64 × UInt64)) (k : ℕ) : ℕ :=
  match readings[k]? with
  | some (start, stop) => (stop - start).toNat
  | none => 0

/-- The `k`th batch, of `s * 2 ^ k` iterations, is the first that takes an eighth of the target or
whose count cannot be doubled in 64 bits. -/
structure LastBatch (s targetNs : ℕ) (readings : List (UInt64 × UInt64)) (k : ℕ) : Prop where
  stops : targetNs / 8 ≤ elapsedAt readings k ∨ 2 ^ 63 ≤ s * 2 ^ k
  first : ∀ j < k, elapsedAt readings j < targetNs / 8 ∧ s * 2 ^ j < 2 ^ 63

/-- After a last batch of `c` iterations in `e` nanoseconds: it reached the target, or the count is
kept because the rescaled one is out of range, or the bytes of the rescaled count fit. -/
def BytesFit (messageSize targetNs c e : ℕ) : Prop :=
  targetNs ≤ e ∨ uint64Max.toNat * e ≤ c * targetNs
    ∨ c * targetNs < e * (uint64Max.toNat / messageSize + 1)

/-- The same where each operation is rounded by `rnd`. -/
def RoundedBytesFit (rnd : ℚ → ℚ) (messageSize targetNs c e : ℕ) : Prop :=
  targetNs ≤ e ∨ rnd uint64Max.toNat ≤ rnd (rnd (rnd c * rnd targetNs) / rnd e)
    ∨ rnd (rnd (rnd c * rnd targetNs) / rnd e) < (uint64Max.toNat / messageSize : ℕ) + 1

/-- A calibration from `s` whose batches have these readings returns a count that can be run exactly
when what its last batch took fits; and it returns for no other sequence of calls. -/
def RunnableWhen (backend : Ptr) (messageSize targetNs : UInt64) (s : ℕ) (fits : ℕ → ℕ → Prop)
    (calibration : Prog (Driver P R) (Int × UInt64)) : Prop :=
  (∀ readings N, calibration.Runs (doublings backend s readings) (0, N) →
    (Runnable (P := P) (R := R) backend messageSize N ↔ ∃ k,
      LastBatch s targetNs.toNat readings k ∧ fits (s * 2 ^ k) (elapsedAt readings k)))
  ∧ ∀ t N, calibration.Runs t (0, N) → ∃ readings, t = doublings backend s readings

section Runnable

variable {backend : Ptr} {messageSize targetNs iterations N : UInt64} {rnd : ℚ → ℚ}
  {start : Count} {t : Trace (Driver P R)}

theorem le_div_iff_mul_le {n m : UInt64} (hm : m ≠ 0) :
    n ≤ uint64Max / m ↔ n.toNat * m.toNat ≤ uint64Max.toNat := by
  rw [UInt64.le_iff_toNat_le, UInt64.toNat_div, Nat.le_div_iff_mul_le (pos_of_ne_zero hm)]

theorem runnable_iff {n : UInt64} : Runnable (P := P) (R := R) backend messageSize n ↔
    n.toNat * messageSize.toNat ≤ uint64Max.toNat := by
  refine ⟨fun h => h.1, fun h => ⟨h, fun start stop sample h0 hlt => ?_⟩⟩
  refine ⟨_, runs_timeBatch_ok.2 ⟨start, stop, rfl, h0, hlt, fun _ hm => ?_, rfl⟩⟩
  exact (le_div_iff_mul_le hm).2 h

/-- The bytes of a rescaled count fit exactly when the quotient is small enough. -/
theorem toNat_truncate_mul_le {x : ℚ} (hm : messageSize ≠ 0) (hx : x < 18446744073709551616) :
    (truncate x).toNat * messageSize.toNat ≤ uint64Max.toNat ↔
      x < (uint64Max.toNat / messageSize.toNat : ℕ) + 1 := by
  rw [toNat_truncate hx, ← Nat.le_div_iff_mul_le (pos_of_ne_zero hm), ← Nat.lt_succ_iff]
  by_cases h0 : 0 ≤ x
  · rw [Nat.floor_lt h0, Nat.cast_succ]
  · rw [Nat.floor_of_nonpos (le_of_not_ge h0)]
    refine iff_of_true (Nat.succ_pos _) ((not_le.1 h0).trans ?_)
    positivity

/-- The bytes of the returned count, by what the last batch took. -/
theorem bytesFit_iff {c e : UInt64} (he : 0 < e.toNat) (hm : messageSize ≠ 0)
    (hrnd : rnd uint64Max.toNat ≤ 18446744073709551616)
    (hc : c.toNat * messageSize.toNat ≤ uint64Max.toNat)
    (hN : N = if rescale rnd c targetNs e = 0 then 1 else rescale rnd c targetNs e) :
    N.toNat * messageSize.toNat ≤ uint64Max.toNat ↔
      RoundedBytesFit rnd messageSize.toNat targetNs.toNat c.toNat e.toNat := by
  have hfall : N.toNat * messageSize.toNat ≤ uint64Max.toNat ↔
      (rescale rnd c targetNs e).toNat * messageSize.toNat ≤ uint64Max.toNat := by
    rw [hN]
    split_ifs with h0
    · rw [h0, UInt64.toNat_zero, Nat.zero_mul, show (1 : UInt64).toNat = 1 from rfl, Nat.one_mul]
      exact iff_of_true (toNat_le_max messageSize) (Nat.zero_le _)
    · rfl
  have hne : e ≠ 0 := by
    rintro rfl
    simp at he
  rw [hfall]
  unfold rescale RoundedBytesFit
  rw [← UInt64.le_iff_toNat_le]
  change _ ↔ _ ∨ _ ≤ scaled rnd c targetNs e ∨ scaled rnd c targetNs e < _
  by_cases hlt : e < targetNs
  · rw [if_pos ⟨hlt, hne⟩, or_iff_right (UInt64.not_le.2 hlt)]
    split_ifs with hs
    · rw [or_iff_right (not_le.2 hs), toNat_truncate_mul_le hm (hs.trans_le hrnd)]
    · exact iff_of_true hc (.inl (not_lt.1 hs))
  · rw [if_neg fun h => hlt h.1]
    exact iff_of_true hc (.inl (UInt64.not_lt.1 hlt))

/-- With exact arithmetic the condition is one on integers. -/
theorem roundedBytesFit_id {n T c e : ℕ} (he : 0 < e) :
    RoundedBytesFit id n T c e ↔ BytesFit n T c e := by
  have he' : (0 : ℚ) < e := by exact_mod_cast he
  unfold RoundedBytesFit BytesFit
  simp only [id_eq, le_div_iff₀ he', div_lt_iff₀ he', mul_comm (e : ℕ) (_ + 1)]
  norm_cast

/-! ### The readings of a run -/

theorem doublings_append (backend : Ptr) (n : ℕ) (readings rest : List (UInt64 × UInt64)) :
    doublings (P := P) (R := R) backend n (readings ++ rest)
      = doublings backend n readings ++ doublings backend (n * 2 ^ readings.length) rest := by
  induction readings generalizing n with
  | nil => rw [List.length_nil, pow_zero, mul_one]; rfl
  | cons reading readings ih =>
    obtain ⟨start, stop⟩ := reading
    rw [List.cons_append, doublings, doublings, ih, List.append_assoc, List.length_cons, pow_succ]
    congr 3
    ring

/-- The calls of a run determine the readings. -/
theorem doublings_injective (backend : Ptr) (n : ℕ) :
    Function.Injective (doublings (P := P) (R := R) backend n) := by
  intro readings readings' h
  induction readings generalizing n readings' with
  | nil =>
    cases readings' with
    | nil => rfl
    | cons reading' readings' => exact absurd h (List.cons_ne_nil _ _).symm
  | cons reading readings ih =>
    cases readings' with
    | nil => exact absurd h (List.cons_ne_nil _ _)
    | cons reading' readings' =>
      obtain ⟨start, stop⟩ := reading
      obtain ⟨start', stop'⟩ := reading'
      obtain ⟨hhead, htail⟩ := List.append_inj h rfl
      simp only [batchTrace, List.cons.injEq, Sigma.mk.injEq, true_and, heq_eq_eq,
        and_true] at hhead
      rw [hhead.1, hhead.2, ih _ htail]

theorem elapsedAt_append_length (before : List (UInt64 × UInt64)) (start stop : UInt64) :
    elapsedAt (before ++ [(start, stop)]) before.length = (stop - start).toNat := by
  unfold elapsedAt
  rw [List.getElem?_concat_length]

theorem elapsedAt_append_lt {before : List (UInt64 × UInt64)} {j : ℕ} (hj : j < before.length)
    (rest : List (UInt64 × UInt64)) : elapsedAt (before ++ rest) j = elapsedAt before j := by
  unfold elapsedAt
  rw [List.getElem?_append_left hj]

theorem Short.elapsedAt_lt {counted : Bool} {n : ℕ} {before : List (UInt64 × UInt64)}
    (h : Short counted messageSize targetNs n before) {j : ℕ} (hj : j < before.length) :
    elapsedAt before j < targetNs.toNat / 8 := by
  induction before generalizing n j with
  | nil => exact absurd hj (Nat.not_lt_zero j)
  | cons reading before ih =>
    obtain ⟨start, stop⟩ := reading
    obtain ⟨-, hlt, hshort⟩ := h
    cases j with
    | zero => exact UInt64.lt_iff_toNat_lt.1 hlt
    | succ j => exact ih hshort (Nat.lt_of_succ_lt_succ hj)

/-- A calibration has one last batch. -/
theorem LastBatch.unique {s T : ℕ} {readings : List (UInt64 × UInt64)} {j k : ℕ}
    (hj : LastBatch s T readings j) (hk : LastBatch s T readings k) : j = k := by
  have hnot : ∀ {j k}, LastBatch s T readings j → LastBatch s T readings k → ¬ j < k := by
    intro j k hj hk hlt
    obtain ⟨he, hc⟩ := hk.first j hlt
    rcases hj.stops with h | h
    · omega
    · omega
  exact le_antisymm (not_lt.1 (hnot hk hj)) (not_lt.1 (hnot hj hk))

/-- The last batch of a run is the one the loop stopped at. -/
theorem lastBatch_of_doubled {counted : Bool} {last : Trace (Driver P R)} {s : ℕ} {count : Count}
    {sample : Sample} {before : List (UInt64 × UInt64)} {b e : UInt64}
    (hd : Doubled counted backend messageSize targetNs s before t last)
    (hcount : count.1.toNat = s * 2 ^ before.length) (hstops : Stops targetNs count sample)
    (helapsed : sample.elapsedNs = e - b) :
    LastBatch s targetNs.toNat (before ++ [(b, e)]) before.length := by
  refine ⟨?_, fun j hj => ⟨?_, ?_⟩⟩
  · rw [elapsedAt_append_length, ← helapsed, ← hcount]
    refine hstops.imp (fun h => ?_) fun h => ?_
    · have hle := UInt64.le_iff_toNat_le.1 h
      rwa [UInt64.toNat_div] at hle
    · have hlt := UInt64.lt_iff_toNat_lt.1 h
      rw [UInt64.toNat_div, toNat_uint64Max, show (2 : UInt64).toNat = 2 from rfl] at hlt
      omega
  · rw [elapsedAt_append_lt hj]
    exact hd.short.elapsedAt_lt hj
  · have hpow : 2 ^ (j + 1) ≤ 2 ^ before.length := Nat.pow_le_pow_right (by decide) hj
    have hle := Nat.mul_le_mul_left s hpow
    have hfits := hd.fits
    rw [pow_succ, ← mul_assoc] at hle
    omega

theorem calibrateFrom_runnableWhen {fits : ℕ → ℕ → Prop} (start : Count) (hm : messageSize ≠ 0)
    (hrnd : rnd uint64Max.toNat ≤ 18446744073709551616) (hfits : ∀ c e, 0 < e →
      (RoundedBytesFit rnd messageSize.toNat targetNs.toNat c e ↔ fits c e)) :
    RunnableWhen (P := P) (R := R) backend messageSize targetNs start.1.toNat fits
      (calibrateFrom rnd (timeBatch true backend · messageSize ·) start targetNs iterations) := by
  -- what every run that returns 0 is like
  have hrun : ∀ t N, (calibrateFrom (P := P) (R := R) rnd (timeBatch true backend · messageSize ·)
      start targetNs iterations).Runs t (0, N) → ∃ before b e,
        t = doublings backend start.1.toNat (before ++ [(b, e)]) ∧
        LastBatch start.1.toNat targetNs.toNat (before ++ [(b, e)]) before.length ∧
        (Runnable (P := P) (R := R) backend messageSize N ↔
          fits (start.1.toNat * 2 ^ before.length) (e - b).toNat) := by
    intro t N h
    obtain ⟨rc, count, sample, hr, ⟨-, h0, -⟩ | ⟨rfl, -, hN⟩⟩ := runs_calibrateFrom.1 h
    · exact absurd h0 (by decide)
    obtain ⟨before, last, hd, hcount, hend⟩ := calibrateLoop_doubled hr
    rcases hend with ⟨h0, -⟩ | ⟨-, hstops, b, e, rfl, hT⟩
    · simp at h0
    have htoNat : count.1.toNat = start.1.toNat * 2 ^ before.length := by
      rw [hcount, UInt64.toNat_ofNat', Nat.mod_eq_of_lt hd.fits]
    have hsample : sample = measured true _ messageSize b e := hT.sample_eq
    have helapsed : sample.elapsedNs = e - b := by rw [hsample]; rfl
    rw [← hcount] at hT
    have hc : count.1.toNat * messageSize.toNat ≤ uint64Max.toNat :=
      (le_div_iff_mul_le hm).1 (hT.fits rfl hm)
    refine ⟨before, b, e, ?_, lastBatch_of_doubled hd htoNat hstops helapsed, ?_⟩
    · rw [hd.trace, doublings_append, doublings, doublings, List.append_nil]
    · rw [runnable_iff, bytesFit_iff hT.elapsed_pos hm hrnd hc hN,
        hfits _ _ hT.elapsed_pos, helapsed, htoNat]
  refine ⟨fun readings N h => ?_, fun t N h => ?_⟩
  · obtain ⟨before, b, e, ht, hlast, hiff⟩ := hrun _ N h
    obtain rfl := doublings_injective backend _ ht
    rw [hiff]
    constructor
    · exact fun hfit => ⟨_, hlast, by rwa [elapsedAt_append_length]⟩
    · rintro ⟨k, hk, hfit⟩
      obtain rfl := hk.unique hlast
      rwa [elapsedAt_append_length] at hfit
  · obtain ⟨before, b, e, ht, -⟩ := hrun t N h
    exact ⟨_, ht⟩

end Runnable

/-- A count that either calibration returns can be run exactly when its last batch reached the
target, or the rescaled count is out of range, or `c T < e (UINT64_MAX / n + 1)` for the `c`
iterations and `e` nanoseconds of that batch; and so it is with rounded operations. -/
theorem calibrated_runnable_iff (backend : Ptr) (messageSize targetNs iterations : UInt64)
    (hm : messageSize ≠ 0) :
    (RunnableWhen (P := P) (R := R) backend messageSize targetNs 64
        (BytesFit messageSize.toNat targetNs.toNat)
        (ofbCalibrate id backend messageSize targetNs iterations)
      ∧ RunnableWhen backend messageSize targetNs 16 (BytesFit messageSize.toNat targetNs.toNat)
        (Tls.calibrate id backend .transfer messageSize targetNs iterations))
    ∧ ∀ rnd : ℚ → ℚ, rnd uint64Max.toNat ≤ 18446744073709551616 →
      RunnableWhen (P := P) (R := R) backend messageSize targetNs 64
        (RoundedBytesFit rnd messageSize.toNat targetNs.toNat)
        (ofbCalibrate rnd backend messageSize targetNs iterations)
      ∧ RunnableWhen backend messageSize targetNs 16
        (RoundedBytesFit rnd messageSize.toNat targetNs.toNat)
        (Tls.calibrate rnd backend .transfer messageSize targetNs iterations) := by
  have hid : (id (uint64Max.toNat : ℚ)) ≤ 18446744073709551616 := by
    rw [id_eq, toNat_uint64Max]
    norm_num
  exact ⟨⟨calibrateFrom_runnableWhen ⟨64, by decide⟩ hm hid fun _ _ he => roundedBytesFit_id he,
    calibrateFrom_runnableWhen ⟨16, by decide⟩ hm hid fun _ _ he => roundedBytesFit_id he⟩,
    fun rnd hrnd => ⟨calibrateFrom_runnableWhen ⟨64, by decide⟩ hm hrnd fun _ _ _ => Iff.rfl,
      calibrateFrom_runnableWhen ⟨16, by decide⟩ hm hrnd fun _ _ _ => Iff.rfl⟩⟩

/-- The count calibrated from two batches: the second one, of 128 iterations in 200000 ns, is
rescaled to 640, and `128 * 1000000` is below `200000 * (UINT64_MAX / 16384 + 1)`. -/
theorem calibrated_runnable_twoBatches :
    (ofbCalibrate (P := Aead.Params) (R := Aead.Row) id 0 16384 1000000 0).Runs (twoBatches 64)
        (0, 640)
      ∧ LastBatch 64 1000000 [(1, 100001), (100001, 300001)] 1
      ∧ BytesFit 16384 1000000 128 200000
      ∧ Runnable (P := Aead.Params) (R := Aead.Row) 0 16384 640 := by
  have hlast : LastBatch 64 1000000 [(1, 100001), (100001, 300001)] 1 := by
    refine ⟨by decide, fun j hj => ?_⟩
    obtain rfl : j = 0 := by omega
    decide
  have hfit : BytesFit 16384 1000000 128 200000 := .inr (.inr (by decide))
  exact ⟨runs_calibrate_seal, hlast, hfit,
    ((calibrated_runnable_iff (P := Aead.Params) (R := Aead.Row) 0 16384 1000000 0
      (by decide)).1.1.1 _ _ runs_calibrate_seal).2 ⟨1, hlast, hfit⟩⟩

/-! ## A count that cannot be run -/

section Overflow

variable {counted : Bool} {backend : Ptr} {messageSize targetNs : UInt64}

/-- The batches of `before` can be followed by any that stops the loop. -/
theorem runs_calibrateLoop (backend : Ptr) (count last : Count) (sample : Sample)
    {before : List (UInt64 × UInt64)} {sample' : Sample} {start stop : UInt64}
    (hshort : Short counted messageSize targetNs count.1.toNat before)
    (hlast : last.1.toNat = count.1.toNat * 2 ^ before.length)
    (hT : Timed counted last.1 messageSize start stop sample')
    (hstops : Stops targetNs last sample') :
    (calibrateLoop (P := P) (R := R) (timeBatch counted backend · messageSize ·) targetNs count
      sample).Runs (doublings backend count.1.toNat before ++ batchTrace backend last.1 start stop)
        (0, last, sample') := by
  induction before generalizing count sample with
  | nil =>
    have hcount : last = count := by
      refine Subtype.ext (UInt64.toNat_inj.1 ?_)
      rw [hlast, List.length_nil, pow_zero, mul_one]
    subst hcount
    exact runs_calibrateLoop_stop (runs_timeBatch_ok.2 ⟨start, stop, rfl, hT⟩) hstops
  | cons reading before ih =>
    obtain ⟨s, e⟩ := reading
    obtain ⟨hB, hlt, hshort⟩ := hshort
    rw [count.ofNat_toNat] at hB
    rw [List.length_cons, pow_succ] at hlast
    have hnd : ¬ count.1 > uint64Max / 2 := by
      intro hgt
      have := UInt64.lt_iff_toNat_lt.1 hgt
      rw [UInt64.toNat_div, toNat_uint64Max, show (2 : UInt64).toNat = 2 from rfl] at this
      have hpow : 1 ≤ 2 ^ before.length := Nat.one_le_two_pow
      have := last.1.toNat_lt
      nlinarith
    have hns : ¬ Stops targetNs count (measured counted count.1 messageSize s e) := by
      rintro (hge | hgt)
      · exact UInt64.not_le.2 hlt hge
      · exact hnd hgt
    have hd := count.toNat_double hnd
    have hrest := ih (count.double hnd) (measured counted count.1 messageSize s e) (hd ▸ hshort)
      (by rw [hlast, hd]; ring)
    rw [hd] at hrest
    rw [doublings, count.ofNat_toNat, List.append_assoc]
    exact runs_calibrateLoop_double (runs_timeBatch_ok.2 ⟨s, e, rfl, hB⟩) hns hrest

/-- Batches of a nanosecond each, one right after the other, while their bytes fit. -/
theorem short_ticks {k n : ℕ} (clock : ℕ) (hclock : clock + k < 2 ^ 64) (h0 : 0 < clock)
    (htarget : 1 < targetNs / 8) (hfit : n * 2 ^ k * messageSize.toNat ≤ uint64Max.toNat) :
    Short counted messageSize targetNs n ((List.range' clock k).map
      fun tick => (UInt64.ofNat tick, UInt64.ofNat (tick + 1))) := by
  induction k generalizing n clock with
  | zero => trivial
  | succ k ih =>
    have hnext : 2 * n * 2 ^ k * messageSize.toNat ≤ uint64Max.toNat := by
      rwa [show 2 * n * 2 ^ k = n * 2 ^ (k + 1) by ring]
    have hstart : (UInt64.ofNat clock).toNat = clock := by
      rw [UInt64.toNat_ofNat', Nat.mod_eq_of_lt (by omega)]
    have hstop : (UInt64.ofNat (clock + 1)).toNat = clock + 1 := by
      rw [UInt64.toNat_ofNat', Nat.mod_eq_of_lt (by omega)]
    have hlt : UInt64.ofNat clock < UInt64.ofNat (clock + 1) := by
      rw [UInt64.lt_iff_toNat_lt, hstart, hstop]
      omega
    refine ⟨⟨?_, hlt, fun _ hm => (le_div_iff_mul_le hm).2 ?_, rfl⟩, ?_,
      ih (clock + 1) (by omega) (by omega) hnext⟩
    · intro h
      rw [h, UInt64.toNat_zero] at hstart
      omega
    · have hpow : 1 ≤ 2 ^ (k + 1) := Nat.one_le_two_pow
      calc (UInt64.ofNat n).toNat * messageSize.toNat
          ≤ n * messageSize.toNat := by
            rw [UInt64.toNat_ofNat']
            exact Nat.mul_le_mul_right _ (Nat.mod_le _ _)
        _ ≤ n * 2 ^ (k + 1) * messageSize.toNat :=
            Nat.mul_le_mul_right _ (Nat.le_mul_of_pos_right n hpow)
        _ ≤ uint64Max.toNat := hfit
    · rw [UInt64.lt_iff_toNat_lt] at htarget ⊢
      rw [toNat_sub_of_lt hlt, hstart, hstop, Nat.add_sub_cancel_left]
      exact htarget

end Overflow

theorem rescale_eightfold : rescale id 2147483648 1000000 125000 = 17179869184 := by
  have hc : (2147483648 : UInt64).toNat = 2147483648 := rfl
  have hT : (1000000 : UInt64).toNat = 1000000 := rfl
  have he : (125000 : UInt64).toNat = 125000 := rfl
  have hN : (17179869184 : UInt64).toNat = 17179869184 := rfl
  refine UInt64.toNat_inj.1 ?_
  rw [toNat_rescale_id (by decide) (by decide) (by rw [hc, hT, he]; norm_num), hc, hT, he, hN]
  norm_num

/-- Messages of `INT_MAX` bytes and a target of a millisecond: 25 batches take a nanosecond each,
one right after the other, the next one, of `2 ^ 31` iterations, an eighth of the target. The count
is rescaled to `2 ^ 34`. -/
theorem calibrated_not_runnable :
    ¬ ∀ t N, (ofbCalibrate (P := Aead.Params) (R := Aead.Row) id 0 2147483647 1000000 0).Runs t
      (0, N) → Runnable (P := Aead.Params) (R := Aead.Row) 0 2147483647 N := by
  intro h
  have hT : Timed true 2147483648 2147483647 26 125026
      (measured true 2147483648 2147483647 26 125026) :=
    ⟨by decide, by decide, by decide, rfl⟩
  have hshort : Short true 2147483647 1000000 64 ((List.range' 1 25).map
      fun tick => (UInt64.ofNat tick, UInt64.ofNat (tick + 1))) :=
    short_ticks 1 (by decide) (by decide) (by decide) (by decide)
  have hr := runs_calibrateLoop (P := Aead.Params) (R := Aead.Row) 0 ⟨64, by decide⟩
    ⟨2147483648, by decide⟩ .unset hshort (by rw [List.length_map, List.length_range']; decide) hT
    (.inl (by decide))
  have hN : ∀ N, N = 17179869184 → N = if rescale id 2147483648 1000000 125000 = 0 then 1
      else rescale id 2147483648 1000000 125000 := by
    rintro N rfl
    rw [rescale_eightfold]
    rfl
  have hcal : (ofbCalibrate (P := Aead.Params) (R := Aead.Row) id 0 2147483647 1000000 0).Runs _
      (0, 17179869184) := runs_calibrateFrom.2 ⟨_, _, _, hr, .inr ⟨rfl, rfl, hN _ rfl⟩⟩
  exact absurd (h _ _ hcal).1 (by decide)

end OfbBench
