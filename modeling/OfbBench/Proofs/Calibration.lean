import OfbBench.Proofs.Runner
import OfbBench.TlsMain

/-!
# The calibrated count meets its target

With exact arithmetic and batches whose iterations each take between `a` and `b` nanoseconds, the
calibrated count `N` for a target `T` has `T / b - 1 < N ≤ max s (T / a)`, `s` being the count the
calibration starts from (`calibrateFrom_accuracy`).

The lower bound is the last batch's; the upper one needs the batch before it, which took less than
an eighth of the target (`calibrateLoop_last`). The saturation test never fires, as the rescaled
count is at most the target, which is below `UINT64_MAX`.
-/

namespace OfbBench

variable {P R : Type}

/-- Every batch of `t` that was run and timed took between `a` and `b` nanoseconds an iteration. -/
def TimedWithin (backend : Ptr) (a b : ℕ) (t : Trace (Driver P R)) : Prop :=
  ∀ t₁ t₂ n start stop, t = t₁ ++ batchTrace backend n start stop ++ t₂ →
    start.toNat + a * n.toNat ≤ stop.toNat ∧ stop.toNat ≤ start.toNat + b * n.toNat

theorem TimedWithin.right {backend : Ptr} {a b : ℕ} {t₁ t₂ : Trace (Driver P R)}
    (h : TimedWithin backend a b (t₁ ++ t₂)) : TimedWithin backend a b t₂ := by
  intro u₁ u₂ n start stop ht
  exact h (t₁ ++ u₁) u₂ n start stop (by rw [ht]; simp only [List.append_assoc])

section Loop

variable {counted : Bool} {backend : Ptr} {messageSize targetNs : UInt64} {a b : ℕ}

/-- What the batch a run starts with measured. -/
theorem TimedWithin.elapsed {n : UInt64} {sample sample' : Sample} {t₁ t₂ : Trace (Driver P R)}
    (h : TimedWithin backend a b (t₁ ++ t₂))
    (hr : (timeBatch counted backend n messageSize sample).Runs t₁ (0, sample')) :
    a * n.toNat ≤ sample'.elapsedNs.toNat ∧ sample'.elapsedNs.toNat ≤ b * n.toNat
      ∧ 0 < sample'.elapsedNs.toNat := by
  obtain ⟨start, stop, rfl, hT⟩ := runs_timeBatch_ok.1 hr
  obtain ⟨hl, hu⟩ := h [] t₂ n start stop rfl
  obtain ⟨he, hlt⟩ := hT.elapsed
  exact ⟨by omega, by omega, hT.elapsed_pos⟩

/-- The batch a calibration stops at: its count is not below the first one, its time is within the
bounds, and either it is the first or its count is within the target. -/
theorem calibrateLoop_last {count : Count} {sample : Sample} {t : Trace (Driver P R)}
    {out : Int × Count × Sample}
    (h : (calibrateLoop (timeBatch counted backend · messageSize ·) targetNs count sample).Runs t
      out) (hw : TimedWithin backend a b t) (hout : out.1 = 0) :
    count.1.toNat ≤ out.2.1.1.toNat
      ∧ a * out.2.1.1.toNat ≤ out.2.2.elapsedNs.toNat
      ∧ out.2.2.elapsedNs.toNat ≤ b * out.2.1.1.toNat
      ∧ 0 < out.2.2.elapsedNs.toNat
      ∧ (out.2.1 = count ∨ a * out.2.1.1.toNat ≤ targetNs.toNat) := by
  revert hw hout
  refine calibrateLoop_induct (motive := fun count t out => TimedWithin backend a b t →
      out.1 = 0 → count.1.toNat ≤ out.2.1.1.toNat
      ∧ a * out.2.1.1.toNat ≤ out.2.2.elapsedNs.toNat
      ∧ out.2.2.elapsedNs.toNat ≤ b * out.2.1.1.toNat
      ∧ 0 < out.2.2.elapsedNs.toNat
      ∧ (out.2.1 = count ∨ a * out.2.1.1.toNat ≤ targetNs.toNat)) ?_ ?_ ?_ h
  · intro count sample t rc sample' _ _ _ h0
    simp at h0
  · intro count sample t sample' hr _ hw _
    rw [← List.append_nil t] at hw
    obtain ⟨h1, h2, h3⟩ := hw.elapsed hr
    exact ⟨le_rfl, h1, h2, h3, .inl rfl⟩
  · intro count sample t₁ t₂ sample' out hr hns ih hw h0
    obtain ⟨h1, h2, h3, h4, h5⟩ := ih hw.right h0
    obtain ⟨hl, -, -⟩ := hw.elapsed hr
    have hd := count.toNat_double fun h' => hns (.inr h')
    refine ⟨by omega, h2, h3, h4, .inr ?_⟩
    rcases h5 with h5 | h5
    · -- the batch just rejected took less than an eighth of the target
      have hlt : sample'.elapsedNs.toNat < targetNs.toNat / 8 := by
        have := UInt64.not_le.1 fun h' => hns (.inl h')
        rwa [UInt64.lt_iff_toNat_lt, UInt64.toNat_div] at this
      rw [h5, hd, mul_left_comm]
      omega
    · exact h5

end Loop

section Rescale

theorem scaled_id (count targetNs elapsedNs : UInt64) :
    scaled id count targetNs elapsedNs = count.toNat * targetNs.toNat / elapsedNs.toNat := rfl

theorem toNat_truncate {x : ℚ} (h : x < 18446744073709551616) : (truncate x).toNat = ⌊x⌋₊ := by
  unfold truncate
  rw [UInt64.toNat_ofNat']
  refine Nat.mod_eq_of_lt ?_
  by_cases h0 : 0 ≤ x
  · exact (Nat.floor_lt h0).2 (by exact_mod_cast h)
  · rw [Nat.floor_of_nonpos (le_of_not_ge h0)]
    exact Nat.two_pow_pos 64

/-- Below the target and out of the saturation test's reach, the count is rescaled. -/
theorem toNat_rescale_id {count targetNs elapsedNs : UInt64} (he : 0 < elapsedNs.toNat)
    (hlt : elapsedNs.toNat < targetNs.toNat)
    (hs : (count.toNat * targetNs.toNat / elapsedNs.toNat : ℚ) < 18446744073709551615) :
    (rescale id count targetNs elapsedNs).toNat
      = ⌊(count.toNat * targetNs.toNat / elapsedNs.toNat : ℚ)⌋₊ := by
  have hne : elapsedNs ≠ 0 := by
    rintro rfl
    simp at he
  unfold rescale
  rw [if_pos ⟨UInt64.lt_iff_toNat_lt.2 hlt, hne⟩, scaled_id, if_pos, toNat_truncate]
  · linarith
  · rw [toNat_uint64Max]
    exact_mod_cast hs

theorem rescale_of_le {rnd : ℚ → ℚ} {count targetNs elapsedNs : UInt64}
    (h : targetNs.toNat ≤ elapsedNs.toNat) : rescale rnd count targetNs elapsedNs = count := by
  unfold rescale
  rw [if_neg]
  rintro ⟨hlt, -⟩
  rw [UInt64.lt_iff_toNat_lt] at hlt
  omega

/-- A time scaled by the iterations a batch did in a nanosecond, between `1 / b` and `1 / a`. -/
theorem scaled_between {a b count elapsed target : ℚ} (ha : 0 < a) (hb : 0 < b)
    (helapsed : 0 < elapsed) (htarget : 0 ≤ target) (hl : a * count ≤ elapsed)
    (hu : elapsed ≤ b * count) :
    target / b ≤ count * target / elapsed ∧ count * target / elapsed ≤ target / a := by
  constructor
  · rw [div_le_div_iff₀ hb helapsed]
    calc target * elapsed ≤ target * (b * count) := mul_le_mul_of_nonneg_left hu htarget
      _ = count * target * b := by ring
  · rw [div_le_div_iff₀ helapsed ha]
    calc count * target * a = target * (a * count) := by ring
      _ ≤ target * elapsed := mul_le_mul_of_nonneg_left hl htarget

/-- The rescaled count of a batch that took between `a` and `b` nanoseconds an iteration. -/
theorem rescale_bounds {a b : ℕ} {count targetNs elapsedNs : UInt64} (ha : 1 ≤ a)
    (hc : 0 < count.toNat) (hl : a * count.toNat ≤ elapsedNs.toNat)
    (hu : elapsedNs.toNat ≤ b * count.toNat) (hT : targetNs.toNat < 18446744073709551615) :
    let N : ℚ := (rescale id count targetNs elapsedNs).toNat
    (targetNs.toNat : ℚ) / b - 1 < N ∧ (count.toNat : ℚ) ≤ N
      ∧ (N ≤ targetNs.toNat / a ∨ N = count.toNat) := by
  have hb : 0 < b := by
    by_contra h0
    have : a * count.toNat = 0 := by
      rw [Nat.eq_zero_of_not_pos h0] at hu
      omega
    have := Nat.mul_pos (show 0 < a by omega) hc
    omega
  have ha' : (1 : ℚ) ≤ a := by exact_mod_cast ha
  have hb' : (0 : ℚ) < b := by exact_mod_cast hb
  have hc' : (1 : ℚ) ≤ count.toNat := by exact_mod_cast hc
  have hl' : (a : ℚ) * count.toNat ≤ elapsedNs.toNat := by exact_mod_cast hl
  have hu' : (elapsedNs.toNat : ℚ) ≤ b * count.toNat := by exact_mod_cast hu
  have he' : (0 : ℚ) < elapsedNs.toNat :=
    lt_of_lt_of_le (mul_pos (by linarith) (by linarith)) hl'
  have hT0 : (0 : ℚ) ≤ targetNs.toNat := by positivity
  by_cases hlt : elapsedNs.toNat < targetNs.toNat
  · have hlt' : (elapsedNs.toNat : ℚ) < targetNs.toNat := by exact_mod_cast hlt
    have hT' : (targetNs.toNat : ℚ) < 18446744073709551615 := by exact_mod_cast hT
    obtain ⟨hxb, hxa⟩ := scaled_between (by linarith) hb' he' hT0 hl' hu'
    have hxc : (count.toNat : ℚ) ≤ count.toNat * targetNs.toNat / elapsedNs.toNat := by
      rw [le_div_iff₀ he']
      exact mul_le_mul_of_nonneg_left hlt'.le (by linarith)
    have hxT : (targetNs.toNat : ℚ) / a ≤ targetNs.toNat := div_le_self hT0 ha'
    have hN := toNat_rescale_id (by exact_mod_cast he') hlt ((hxa.trans hxT).trans_lt hT')
    simp only [hN]
    refine ⟨?_, ?_, .inl ?_⟩
    · exact lt_of_le_of_lt (sub_le_sub_right hxb 1) (Nat.sub_one_lt_floor _)
    · exact_mod_cast Nat.le_floor hxc
    · exact (Nat.floor_le (by positivity)).trans hxa
  · rw [not_lt] at hlt
    have hlt' : (targetNs.toNat : ℚ) ≤ elapsedNs.toNat := by exact_mod_cast hlt
    simp only [rescale_of_le hlt]
    refine ⟨?_, le_rfl, .inr trivial⟩
    have : (targetNs.toNat : ℚ) / b ≤ count.toNat := by
      rw [div_le_iff₀ hb', mul_comm]
      exact hlt'.trans hu'
    exact lt_of_lt_of_le (sub_one_lt _) this

end Rescale

section Accuracy

variable {counted : Bool} {backend : Ptr} {messageSize targetNs iterations N : UInt64} {a b : ℕ}
  {start : Count} {t : Trace (Driver P R)}

theorem runs_calibrateFrom {rnd : ℚ → ℚ}
    {timed : UInt64 → Sample → Prog (Driver P R) (Int × Sample)} {rc : Int} :
    (calibrateFrom rnd timed start targetNs iterations).Runs t (rc, N) ↔
      ∃ rc' count sample, (calibrateLoop timed targetNs start .unset).Runs t (rc', count, sample)
        ∧ ((rc' ≠ 0 ∧ rc = -1 ∧ N = iterations)
          ∨ (rc' = 0 ∧ rc = 0 ∧ N = if rescale rnd count.1 targetNs sample.elapsedNs = 0 then 1
              else rescale rnd count.1 targetNs sample.elapsedNs)) := by
  unfold calibrateFrom
  rw [Prog.runs_bind]
  constructor
  · rintro ⟨t₁, t₂, ⟨rc', count, sample⟩, rfl, h₁, h₂⟩
    refine ⟨rc', count, sample, ?_⟩
    simp only [] at h₂
    split_ifs at h₂ with hrc h0
    · obtain ⟨rfl, h₂⟩ := h₂
      rw [List.append_nil]
      exact ⟨h₁, .inl ⟨hrc, (Prod.mk.inj h₂).1, (Prod.mk.inj h₂).2⟩⟩
    · obtain ⟨rfl, h₂⟩ := h₂
      rw [List.append_nil, if_pos h0]
      exact ⟨h₁, .inr ⟨not_not.1 hrc, (Prod.mk.inj h₂).1, (Prod.mk.inj h₂).2⟩⟩
    · obtain ⟨rfl, h₂⟩ := h₂
      rw [List.append_nil, if_neg h0]
      exact ⟨h₁, .inr ⟨not_not.1 hrc, (Prod.mk.inj h₂).1, (Prod.mk.inj h₂).2⟩⟩
  · rintro ⟨rc', count, sample, h₁, ⟨hrc, rfl, rfl⟩ | ⟨rfl, rfl, rfl⟩⟩
    · refine ⟨t, [], _, (List.append_nil t).symm, h₁, ?_⟩
      simp only [hrc, ne_eq, not_false_eq_true, if_true]
      exact ⟨rfl, rfl⟩
    · exact ⟨t, [], _, (List.append_nil t).symm, h₁, rfl, rfl⟩

/-- A calibration from `start` with exact arithmetic. -/
theorem calibrateFrom_accuracy (ha : 1 ≤ a) (hT : targetNs.toNat < 18446744073709551615)
    (h : (calibrateFrom id (timeBatch counted backend · messageSize ·) start targetNs
      iterations).Runs t (0, N)) (hw : TimedWithin backend a b t) :
    (targetNs.toNat : ℚ) / b - 1 < N.toNat ∧ start.1.toNat ≤ N.toNat
      ∧ (N.toNat : ℚ) ≤ max (start.1.toNat : ℚ) (targetNs.toNat / a) := by
  obtain ⟨rc, count, sample, hr, ⟨-, h1, -⟩ | ⟨rfl, -, hN⟩⟩ := runs_calibrateFrom.1 h
  · exact absurd h1 (by decide)
  obtain ⟨h1, h2, h3, h4, h5⟩ := calibrateLoop_last hr hw rfl
  simp only [] at h1 h2 h3 h4 h5
  obtain ⟨hlow, hcount, hup⟩ := rescale_bounds ha count.2 h2 h3 hT
  have hcount' : count.1.toNat ≤ (rescale id count.1 targetNs sample.elapsedNs).toNat := by
    exact_mod_cast hcount
  have hne : rescale id count.1 targetNs sample.elapsedNs ≠ 0 := by
    intro h0
    have := count.2
    rw [h0, UInt64.toNat_zero] at hcount'
    omega
  rw [if_neg hne] at hN
  subst hN
  refine ⟨hlow, h1.trans hcount', ?_⟩
  have ha' : (0 : ℚ) < a := by exact_mod_cast ha
  rcases hup with hup | hup
  · exact hup.trans (le_max_right _ _)
  · rw [hup]
    rcases h5 with rfl | h5
    · exact le_max_left _ _
    · refine le_trans ?_ (le_max_right _ _)
      rw [le_div_iff₀ ha', mul_comm]
      exact_mod_cast h5

/-- With a constant cost the count is the exact quotient, or the first count if that is larger. -/
theorem calibrateFrom_constant {c : ℕ} (hc : 1 ≤ c) (hT : targetNs.toNat < 18446744073709551615)
    (h : (calibrateFrom id (timeBatch counted backend · messageSize ·) start targetNs
      iterations).Runs t (0, N)) (hw : TimedWithin backend c c t) :
    N.toNat = max start.1.toNat (targetNs.toNat / c) := by
  obtain ⟨h1, h2, h3⟩ := calibrateFrom_accuracy hc hT h hw
  have hc' : (0 : ℚ) < c := by exact_mod_cast hc
  have hdiv : targetNs.toNat / c ≤ N.toNat := by
    have hlt : (targetNs.toNat : ℚ) < ((N.toNat + 1) * c : ℕ) := by
      rw [sub_lt_iff_lt_add, div_lt_iff₀ hc'] at h1
      exact_mod_cast h1
    have hlt' := (Nat.div_lt_iff_lt_mul hc).2 (Nat.cast_lt.1 hlt)
    omega
  refine le_antisymm ?_ (max_le h2 hdiv)
  rcases le_max_iff.1 h3 with h3 | h3
  · exact le_max_of_le_left (by exact_mod_cast h3)
  · refine le_max_of_le_right ((Nat.le_div_iff_mul_le hc).2 ?_)
    rw [le_div_iff₀ hc'] at h3
    exact_mod_cast h3

end Accuracy

/-- A target `main` admits is below `UINT64_MAX`, which is no multiple of a million. -/
theorem target_lt {m : ℕ} (hm : m ≤ (uint64Max / 1000000).toNat) :
    (UInt64.ofNat (1000000 * m)).toNat = 1000000 * m ∧ 1000000 * m < 18446744073709551615 := by
  have hmax : (uint64Max / 1000000).toNat = 18446744073709 := rfl
  rw [UInt64.toNat_ofNat']
  omega

/-- The accuracy of a calibrated count `N` for a target of `T` nanoseconds, from the first count
`s`, over runs whose batches all take between `a` and `b` nanoseconds an iteration. -/
def Accurate (backend : Ptr) (s T : ℕ) (calibration : Prog (Driver P R) (Int × UInt64)) : Prop :=
  ∀ t N, calibration.Runs t (0, N) →
    (∀ a b : ℕ, 1 ≤ a → a ≤ b → TimedWithin backend a b t →
      (T : ℚ) / b - 1 < N.toNat ∧ (N.toNat : ℚ) ≤ max (s : ℚ) (T / a))
    ∧ ∀ c : ℕ, 1 ≤ c → TimedWithin backend c c t → N.toNat = max s (T / c)

/-- Both calibrations are accurate: the AEAD one from 64, the TLS one from 1 for a handshake and
from 16 for a transfer. -/
theorem calibration_accurate (m : ℕ) (hm : m ≤ (uint64Max / 1000000).toNat)
    (backend : Ptr) (messageSize iterations : UInt64) :
    Accurate (P := P) (R := R) backend 64 (1000000 * m)
        (ofbCalibrate id backend messageSize (UInt64.ofNat (1000000 * m)) iterations)
      ∧ Accurate backend 1 (1000000 * m)
        (Tls.calibrate id backend .handshake messageSize (UInt64.ofNat (1000000 * m)) iterations)
      ∧ Accurate backend 16 (1000000 * m)
        (Tls.calibrate id backend .transfer messageSize (UInt64.ofNat (1000000 * m))
          iterations) := by
  obtain ⟨hT, hlt⟩ := target_lt hm
  rw [← hT] at hlt
  refine ⟨?_, ?_, ?_⟩ <;> intro t N h <;> rw [← hT] <;>
    refine ⟨fun a b ha _ hw => ?_, fun c hc hw => calibrateFrom_constant hc hlt h hw⟩ <;>
    obtain ⟨h1, -, h3⟩ := calibrateFrom_accuracy ha hlt h hw <;>
    exact ⟨h1, h3⟩

/-! ## Calibrations of two batches -/

/-- A calibration that its second batch ends. -/
theorem runs_calibrateFrom_second {counted : Bool} {backend : Ptr}
    {messageSize targetNs iterations s₁ e₁ s₂ e₂ N : UInt64} (start : Count)
    (hdouble : ¬ start.1 > uint64Max / 2)
    (hfirst : Timed counted start.1 messageSize s₁ e₁
      (measured counted start.1 messageSize s₁ e₁)) (hlt : e₁ - s₁ < targetNs / 8)
    (hsecond : Timed counted (start.1 * 2) messageSize s₂ e₂
      (measured counted (start.1 * 2) messageSize s₂ e₂)) (hge : targetNs / 8 ≤ e₂ - s₂)
    (hN : rescale id (start.1 * 2) targetNs (e₂ - s₂) = N) (hN0 : N ≠ 0) :
    (calibrateFrom (P := P) (R := R) id (timeBatch counted backend · messageSize ·) start targetNs
      iterations).Runs (batchTrace backend start.1 s₁ e₁ ++ batchTrace backend (start.1 * 2) s₂ e₂)
        (0, N) := by
  have hns : ¬ Stops targetNs start (measured counted start.1 messageSize s₁ e₁) := by
    rintro (hge | hgt)
    · exact UInt64.not_le.2 hlt hge
    · exact hdouble hgt
  refine runs_calibrateFrom.2 ⟨0, start.double hdouble,
    measured counted (start.1 * 2) messageSize s₂ e₂, ?_, .inr ⟨rfl, rfl, ?_⟩⟩
  · exact runs_calibrateLoop_double (runs_timeBatch_ok.2 ⟨s₁, e₁, rfl, hfirst⟩) hns
      (runs_calibrateLoop_stop (runs_timeBatch_ok.2 ⟨s₂, e₂, rfl, hsecond⟩) (.inl hge))
  · change N = if rescale id (start.1 * 2) targetNs (e₂ - s₂) = 0 then 1
      else rescale id (start.1 * 2) targetNs (e₂ - s₂)
    rw [hN, if_neg hN0]

theorem rescale_handshake : rescale id 2 1000000 200000 = 10 := by
  have hc : (2 : UInt64).toNat = 2 := rfl
  have hT : (1000000 : UInt64).toNat = 1000000 := rfl
  have he : (200000 : UInt64).toNat = 200000 := rfl
  have hN : (10 : UInt64).toNat = 10 := rfl
  refine UInt64.toNat_inj.1 ?_
  rw [toNat_rescale_id (by decide) (by decide) (by rw [hc, hT, he]; norm_num), hc, hT, he, hN]
  norm_num

theorem rescale_seal : rescale id 128 1000000 200000 = 640 := by
  have hc : (128 : UInt64).toNat = 128 := rfl
  have hT : (1000000 : UInt64).toNat = 1000000 := rfl
  have he : (200000 : UInt64).toNat = 200000 := rfl
  have hN : (640 : UInt64).toNat = 640 := rfl
  refine UInt64.toNat_inj.1 ?_
  rw [toNat_rescale_id (by decide) (by decide) (by rw [hc, hT, he]; norm_num), hc, hT, he, hN]
  norm_num

/-- A batch that takes less than an eighth of a millisecond, and the next one, which does not. -/
def twoBatches (n : UInt64) : Trace (Driver P R) :=
  batchTrace 0 n 1 100001 ++ batchTrace 0 (n * 2) 100001 300001

/-- A handshake of 100000 ns, calibrated to a millisecond, is run 10 times. -/
theorem runs_calibrate_handshake :
    (Tls.calibrate id 0 .handshake 0 1000000 0).Runs (twoBatches 1) (0, 10) :=
  runs_calibrateFrom_second ⟨1, by decide⟩ (by decide)
    ⟨by decide, by decide, nofun, rfl⟩ (by decide) ⟨by decide, by decide, nofun, rfl⟩ (by decide)
    rescale_handshake (by decide)

/-- 16384 bytes in 1562.5 ns, calibrated to a millisecond, are sealed 640 times. -/
theorem runs_calibrate_seal :
    (ofbCalibrate (P := P) (R := R) id 0 16384 1000000 0).Runs (twoBatches 64) (0, 640) :=
  runs_calibrateFrom_second ⟨64, by decide⟩ (by decide)
    ⟨by decide, by decide, by decide, rfl⟩ (by decide) ⟨by decide, by decide, by decide, rfl⟩
    (by decide) rescale_seal (by decide)

theorem calibration_accurate_handshake :
    (Tls.calibrate id 0 .handshake 0 (UInt64.ofNat (1000000 * 1)) 0).Runs (twoBatches 1) (0, 10)
      ∧ TimedWithin 0 100000 100000 (twoBatches (P := Tls.Params) (R := Tls.Row) 1)
      ∧ (10 : UInt64).toNat = max 1 (1000000 * 1 / 100000) := by
  have hw : TimedWithin 0 100000 100000 (twoBatches (P := Tls.Params) (R := Tls.Row) 1) := by
    intro t₁ t₂ n start stop h
    rcases t₁ with _ | ⟨_, _ | ⟨_, _ | ⟨_, _ | ⟨_, t₁⟩⟩⟩⟩ <;>
      simp only [twoBatches, batchTrace, List.nil_append, List.cons_append, List.cons.injEq,
        Sigma.mk.injEq, true_and, heq_eq_eq, Driver.Call.backendRunBatch.injEq, reduceCtorEq,
        false_and, and_false] at h
    · obtain ⟨rfl, ⟨rfl, -⟩, rfl, -⟩ := h
      decide
    · obtain ⟨-, -, -, rfl, ⟨rfl, -⟩, rfl, -⟩ := h
      decide
    · have := congrArg List.length h.2.2.2.2
      simp only [List.length_cons, List.length_append, List.length_nil] at this
      omega
  exact ⟨runs_calibrate_handshake, hw, ((calibration_accurate (P := Tls.Params) (R := Tls.Row) 1
    (by decide) 0 0 0).2.1 _ _ runs_calibrate_handshake).2 100000 (by decide) hw⟩

end OfbBench
