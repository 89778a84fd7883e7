import OfbBench.Runner

/-!
# What a timed batch and a calibration do

A timed batch that returns 0 made three calls, the two clock readings and the batch between them,
and its sample is theirs (`runs_timeBatch_ok`); one that fails leaves the sample alone
(`runs_timeBatch_fail`). `calibrateLoop_induct` is the induction over the doublings of a
calibration, one case for each way an iteration goes.
-/

namespace OfbBench

variable {P R : Type}

/-! ## Unsigned 64-bit numbers -/

theorem toNat_uint64Max : uint64Max.toNat = 18446744073709551615 := rfl

theorem toNat_le_max (n : UInt64) : n.toNat ≤ 18446744073709551615 := by
  have := n.toNat_lt
  omega

theorem pos_of_ne_zero {n : UInt64} (h : n ≠ 0) : 0 < n.toNat := by
  by_contra hn
  exact h (UInt64.toNat_inj.1 (by rw [UInt64.toNat_zero]; omega))

theorem toNat_sub_of_lt {a b : UInt64} (h : a < b) : (b - a).toNat = b.toNat - a.toNat :=
  UInt64.toNat_sub_of_le b a (UInt64.le_of_lt h)

/-- A product that passes the overflow test does not wrap. -/
theorem toNat_mul_of_le_div {n m : UInt64} (hm : m ≠ 0) (h : n ≤ uint64Max / m) :
    n.toNat * m.toNat ≤ 18446744073709551615 ∧ (n * m).toNat = n.toNat * m.toNat := by
  rw [UInt64.le_iff_toNat_le, UInt64.toNat_div, toNat_uint64Max,
    Nat.le_div_iff_mul_le (pos_of_ne_zero hm)] at h
  refine ⟨h, ?_⟩
  rw [UInt64.toNat_mul]
  exact Nat.mod_eq_of_lt (by omega)

/-! ## A timed batch -/

/-- The calls of a batch that was run and timed: the readings are `start` and `stop`. -/
def batchTrace (backend : Ptr) (n start stop : UInt64) : Trace (Driver P R) :=
  [⟨.nowNs, start⟩, ⟨.backendRunBatch backend n, (0 : Int)⟩, ⟨.nowNs, stop⟩]

/-- `sample` is what a batch of `n` iterations read off the clock at `start` and `stop` reports. -/
structure Timed (counted : Bool) (n messageSize start stop : UInt64) (sample : Sample) : Prop where
  start_ne : start ≠ 0
  lt : start < stop
  fits : counted = true → messageSize ≠ 0 → n ≤ uint64Max / messageSize
  sample_eq : sample = measured counted n messageSize start stop

/-- The sample of a batch is refused: the clock did not advance, or the bytes overflow. -/
def Refused (counted : Bool) (messageSize n start stop : UInt64) : Prop :=
  stop ≤ start ∨ (counted = true ∧ messageSize ≠ 0 ∧ n > uint64Max / messageSize)

section TimeBatch

variable {counted : Bool} {backend : Ptr} {n messageSize : UInt64} {sample sample' : Sample}
  {t : Trace (Driver P R)} {rc : Int}

theorem Timed.elapsed (h : Timed counted n messageSize start stop sample) :
    sample.elapsedNs.toNat = stop.toNat - start.toNat ∧ start.toNat < stop.toNat := by
  refine ⟨?_, UInt64.lt_iff_toNat_lt.1 h.lt⟩
  rw [h.sample_eq]
  exact toNat_sub_of_lt h.lt

theorem Timed.elapsed_pos (h : Timed counted n messageSize start stop sample) :
    0 < sample.elapsedNs.toNat := by
  obtain ⟨h1, h2⟩ := h.elapsed
  omega

theorem Timed.not_refused (h : Timed counted n messageSize start stop sample) :
    ¬ Refused counted messageSize n start stop := by
  rintro (hle | ⟨hc, hm, hgt⟩)
  · exact UInt64.not_le.2 h.lt hle
  · exact UInt64.not_lt.2 (h.fits hc hm) hgt

theorem Timed.iterations (h : Timed counted n messageSize start stop sample) :
    sample.iterations = n := by
  rw [h.sample_eq]
  rfl

/-- The byte count of a counted batch is a product that did not wrap. -/
theorem Timed.bytes (h : Timed true n messageSize start stop sample) :
    sample.bytes.toNat = n.toNat * messageSize.toNat := by
  rw [h.sample_eq]
  by_cases hm : messageSize = 0
  · simp [hm, measured]
  · exact (toNat_mul_of_le_div hm (h.fits rfl hm)).2

theorem runs_timeBatch_ok :
    (timeBatch counted backend n messageSize sample).Runs t (0, sample') ↔
      ∃ start stop, t = batchTrace backend n start stop
        ∧ Timed counted n messageSize start stop sample' := by
  unfold timeBatch
  constructor
  · intro h
    rw [runs_ofbNowNs_bind] at h
    obtain ⟨start, t₁, rfl, h⟩ := h
    split_ifs at h with h0
    · simp at h
    rw [runs_backendRunBatch_bind] at h
    obtain ⟨r, t₂, rfl, h⟩ := h
    split_ifs at h with hr
    · simp at h
    rw [runs_ofbNowNs_bind] at h
    obtain ⟨stop, t₃, rfl, h⟩ := h
    split_ifs at h with hbad
    · simp at h
    obtain ⟨rfl, h⟩ := h
    rw [not_not] at hr
    rw [not_or] at hbad
    subst hr
    refine ⟨start, stop, rfl, h0, UInt64.not_le.1 hbad.1, fun hc hm => ?_, (Prod.mk.inj h).2⟩
    exact UInt64.not_lt.1 fun hgt => hbad.2 ⟨hc, hm, hgt⟩
  · rintro ⟨start, stop, rfl, h⟩
    rw [runs_ofbNowNs_bind]
    refine ⟨start, _, rfl, ?_⟩
    rw [if_neg h.start_ne, runs_backendRunBatch_bind]
    refine ⟨0, _, rfl, ?_⟩
    rw [if_neg (by simp), runs_ofbNowNs_bind]
    refine ⟨stop, _, rfl, ?_⟩
    rw [if_neg, h.sample_eq]
    · exact ⟨rfl, rfl⟩
    · exact h.not_refused

/-- The calls of a timed batch that fails: a failed first reading, a failed batch, or a second
reading after which the sample is refused. -/
inductive FailedBatch (counted : Bool) (backend : Ptr) (n messageSize : UInt64) :
    Trace (Driver P R) → Prop
  | clock : FailedBatch counted backend n messageSize [⟨.nowNs, (0 : UInt64)⟩]
  | batch (start : UInt64) (r : Int) (hs : start ≠ 0) (hr : r ≠ 0) :
      FailedBatch counted backend n messageSize
        [⟨.nowNs, start⟩, ⟨.backendRunBatch backend n, r⟩]
  | refused (start stop : UInt64) (hs : start ≠ 0)
      (h : Refused counted messageSize n start stop) :
      FailedBatch counted backend n messageSize (batchTrace backend n start stop)

theorem runs_timeBatch_fail
    (h : (timeBatch counted backend n messageSize sample).Runs t (rc, sample')) (hrc : rc ≠ 0) :
    rc = -1 ∧ sample' = sample ∧ FailedBatch counted backend n messageSize t := by
  unfold timeBatch at h
  rw [runs_ofbNowNs_bind] at h
  obtain ⟨start, t₁, rfl, h⟩ := h
  split_ifs at h with h0
  · obtain ⟨rfl, h⟩ := h
    subst h0
    exact ⟨(Prod.mk.inj h).1, (Prod.mk.inj h).2, .clock⟩
  rw [runs_backendRunBatch_bind] at h
  obtain ⟨r, t₂, rfl, h⟩ := h
  split_ifs at h with hr
  · obtain ⟨rfl, h⟩ := h
    exact ⟨(Prod.mk.inj h).1, (Prod.mk.inj h).2, .batch start r h0 hr⟩
  rw [runs_ofbNowNs_bind] at h
  obtain ⟨stop, t₃, rfl, h⟩ := h
  rw [not_not] at hr
  subst hr
  split_ifs at h with hbad
  · obtain ⟨rfl, h⟩ := h
    exact ⟨(Prod.mk.inj h).1, (Prod.mk.inj h).2, .refused start stop h0 hbad⟩
  · obtain ⟨rfl, h⟩ := h
    exact absurd (Prod.mk.inj h).1 hrc

theorem runs_timeBatch_cases
    (h : (timeBatch counted backend n messageSize sample).Runs t (rc, sample')) :
    (rc = 0 ∧ ∃ start stop, t = batchTrace backend n start stop
        ∧ Timed counted n messageSize start stop sample')
      ∨ (rc = -1 ∧ sample' = sample ∧ FailedBatch counted backend n messageSize t) := by
  by_cases hrc : rc = 0
  · subst hrc
    exact .inl ⟨rfl, runs_timeBatch_ok.1 h⟩
  · exact .inr (runs_timeBatch_fail h hrc)

end TimeBatch

/-! ## Calibration -/

section Calibrate

variable {timed : UInt64 → Sample → Prog (Driver P R) (Int × Sample)} {targetNs : UInt64}

/-- A calibration stops at this count and sample. -/
def Stops (targetNs : UInt64) (count : Count) (sample : Sample) : Prop :=
  sample.elapsedNs ≥ targetNs / 8 ∨ count.1 > uint64Max / 2

theorem Count.double_pos (count : Count) (h : ¬ count.1 > uint64Max / 2) :
    0 < (count.1 * 2).toNat := by
  rw [OfbBench.toNat_double h]
  have := count.2
  omega

/-- The count after a doubling. -/
def Count.double (count : Count) (h : ¬ count.1 > uint64Max / 2) : Count :=
  ⟨count.1 * 2, count.double_pos h⟩

theorem Count.toNat_double (count : Count) (h : ¬ count.1 > uint64Max / 2) :
    (count.double h).1.toNat = 2 * count.1.toNat :=
  OfbBench.toNat_double h

/-- The induction over a calibration: a batch fails, the loop stops, or the count doubles. -/
theorem calibrateLoop_induct {motive : Count → Trace (Driver P R) → Int × Count × Sample → Prop}
    (fail : ∀ count sample t rc sample', (timed count.1 sample).Runs t (rc, sample') → rc ≠ 0 →
      motive count t (-1, count, sample'))
    (stop : ∀ count sample t sample', (timed count.1 sample).Runs t (0, sample') →
      Stops targetNs count sample' → motive count t (0, count, sample'))
    (double : ∀ (count : Count) sample t₁ t₂ sample' out,
      (timed count.1 sample).Runs t₁ (0, sample') → (h : ¬ Stops targetNs count sample') →
      motive (count.double fun h' => h (.inr h')) t₂ out → motive count (t₁ ++ t₂) out)
    {count : Count} {sample : Sample} {t : Trace (Driver P R)} {out : Int × Count × Sample}
    (h : (calibrateLoop timed targetNs count sample).Runs t out) : motive count t out := by
  induction count, sample using calibrateLoop.induct targetNs generalizing t out with
  | case1 count sample ih =>
    rw [calibrateLoop] at h
    obtain ⟨t₁, t₂, ⟨rc, sample'⟩, rfl, h₁, h₂⟩ := Prog.runs_bind.1 h
    simp only [] at h₂
    split_ifs at h₂ with hrc hs
    · obtain ⟨rfl, rfl⟩ := h₂
      rw [List.append_nil]
      exact fail count sample t₁ rc sample' h₁ hrc
    · obtain ⟨rfl, rfl⟩ := h₂
      rw [not_not] at hrc
      subst hrc
      rw [List.append_nil]
      exact stop count sample t₁ sample' h₁ hs
    · rw [not_not] at hrc
      subst hrc
      exact double count sample t₁ t₂ sample' out h₁ hs (ih sample' hs h₂)

variable {count : Count} {sample sample' : Sample}

/-- A batch that stops the loop. -/
theorem runs_calibrateLoop_stop {t : Trace (Driver P R)}
    (h : (timed count.1 sample).Runs t (0, sample')) (hs : Stops targetNs count sample') :
    (calibrateLoop timed targetNs count sample).Runs t (0, count, sample') := by
  have hs' : sample'.elapsedNs ≥ targetNs / 8 ∨ count.1 > uint64Max / 2 := hs
  rw [calibrateLoop]
  refine Prog.runs_bind.2 ⟨t, [], (0, sample'), (List.append_nil t).symm, h, ?_⟩
  simp only [ne_eq, not_true_eq_false, if_false]
  rw [dif_pos hs']
  exact ⟨rfl, rfl⟩

/-- A batch after which the loop goes on with the doubled count. -/
theorem runs_calibrateLoop_double {t₁ t₂ : Trace (Driver P R)} {out : Int × Count × Sample}
    (h : (timed count.1 sample).Runs t₁ (0, sample')) (hs : ¬ Stops targetNs count sample')
    (hrest : (calibrateLoop timed targetNs (count.double fun h' => hs (.inr h')) sample').Runs t₂
      out) : (calibrateLoop timed targetNs count sample).Runs (t₁ ++ t₂) out := by
  have hs' : ¬ (sample'.elapsedNs ≥ targetNs / 8 ∨ count.1 > uint64Max / 2) := hs
  rw [calibrateLoop]
  refine Prog.runs_bind.2 ⟨t₁, t₂, (0, sample'), rfl, h, ?_⟩
  simp only [ne_eq, not_true_eq_false, if_false]
  rw [dif_neg hs']
  exact hrest

end Calibrate

end OfbBench
