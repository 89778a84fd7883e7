import OfbBench.Lib.Timed
import OfbBench.Proofs.Doublings
import OfbBench.Proofs.Linked
import OfbBench.Proofs.Output
import OfbBench.Proofs.Protocol

/-!
# A case in which nothing fails

With a backend whose calls succeed, a batch taking a nanosecond for each iteration at least, and a
clock that shows the time, a case calibrates and takes all its samples (`wp_caseWith_ok`). The
batches before the last are short, so no count of a calibration is above 32 times the target in
nanoseconds, whatever within a factor of two each `long double` operation rounds to
(`rescale_fits`); that many messages must not overflow the byte count.
-/

namespace OfbBench

open Env

section Success

variable {P R K : Type}

/-- A batch takes a nanosecond for each iteration at least. -/
def batchCost : Driver.Call P R → ℕ
  | .backendRunBatch _ n => n.toNat
  | _ => 0

/-- The calls succeed, a batch if it is not empty, and the clock shows the time, which is not 0. -/
def succeeds : (c : Driver.Call P R) → Driver.Resp c → ℕ → Prop
  | .backendCreate _, b, _ => b ≠ none
  | .backendVerify _, rc, _ => rc = 0
  | .backendRunBatch _ n, rc, _ => 0 < n.toNat → rc = 0
  | .nowNs, reading, now => reading = UInt64.ofNat now ∧ 0 < now
  | _, _, _ => True

/-- Nothing fails; the record is of the rows, as `cell` has them. -/
def succeedingEnv (cell : R → K) : Env (Driver P R) (List K × ℕ) :=
  (recorded fun e => (rowOf e).map cell).both (timed batchCost succeeds)

/-- The clock has shown all it can: a reading is no longer the time. -/
def Late (s : List K × ℕ) : Prop := 2 ^ 64 ≤ s.2

section Calls

variable {cell : R → K} {log : List K} {now : ℕ} {α : Type}

/-- From then on nothing is promised. -/
theorem wp_late {p : Prog (Driver P R) α} {Q : α → List K × ℕ → Prop}
    (hQ : ∀ a s, Late s → Q a s) {s : List K × ℕ} (hs : Late s) :
    (succeedingEnv cell).wp p Q s := by
  induction p generalizing s with
  | ret a => exact hQ a s hs
  | call c k ih =>
    refine ⟨⟨trivial, trivial⟩, fun r s' hstep => ih r ?_⟩
    have hnow := hstep.2.1
    unfold Late at hs ⊢
    omega

/-- A call that prints no row. -/
theorem wp_succeeding {c : Driver.Call P R} {Q : Driver.Resp c → List K × ℕ → Prop}
    (hrow : ∀ r, rowOf ⟨c, r⟩ = none)
    (hQ : ∀ r now', now + batchCost c ≤ now' → succeeds c r now' → Q r (log, now')) :
    (succeedingEnv cell).wp (Prog.ask (A := Driver P R) c) Q (log, now) := by
  refine ⟨⟨trivial, trivial⟩, ?_⟩
  rintro r ⟨log', now'⟩ ⟨hlog, hcost, hr⟩
  obtain rfl : log' = log := by
    change log' = log ++ ((rowOf ⟨c, r⟩).map cell).toList at hlog
    rw [hlog, hrow r]
    exact List.append_nil log
  exact hQ r now' hcost hr

theorem wp_ofbNowNs_ok {Q : UInt64 → List K × ℕ → Prop} (hlate : ∀ reading s, Late s → Q reading s)
    (hQ : ∀ reading, now ≤ reading.toNat → 0 < reading.toNat → Q reading (log, reading.toNat)) :
    (succeedingEnv cell).wp (ofbNowNs : Prog (Driver P R) UInt64) Q (log, now) := by
  refine wp_succeeding (fun _ => rfl) ?_
  rintro _ now' hnow ⟨rfl, hpos⟩
  by_cases hspan : now' < 2 ^ 64
  · have htime : (UInt64.ofNat now').toNat = now' := by
      rw [UInt64.toNat_ofNat']
      exact Nat.mod_eq_of_lt hspan
    have hreading := hQ (UInt64.ofNat now')
    rw [htime] at hreading
    exact hreading hnow hpos
  · exact hlate _ _ (Nat.not_lt.1 hspan)

theorem wp_backendRunBatch_ok {b : Ptr} {n : UInt64} {Q : Int → List K × ℕ → Prop}
    (hpos : 0 < n.toNat) (hQ : ∀ now', now + n.toNat ≤ now' → Q 0 (log, now')) :
    (succeedingEnv cell).wp (backendRunBatch b n : Prog (Driver P R) Int) Q (log, now) := by
  refine wp_succeeding (fun _ => rfl) fun rc now' hnow hrc => ?_
  obtain rfl : rc = 0 := hrc hpos
  exact hQ now' hnow

theorem wp_backendVerify_ok {b : Ptr} {Q : Int → List K × ℕ → Prop}
    (hQ : ∀ now', Q 0 (log, now')) :
    (succeedingEnv cell).wp (backendVerify b : Prog (Driver P R) Int) Q (log, now) := by
  refine wp_succeeding (fun _ => rfl) ?_
  rintro _ now' - rfl
  exact hQ now'

theorem wp_backendCreate_ok {params : P} {Q : Option Ptr → List K × ℕ → Prop}
    (hQ : ∀ b now', Q (some b) (log, now')) :
    (succeedingEnv cell).wp (backendCreate params : Prog (Driver P R) (Option Ptr)) Q
      (log, now) := by
  refine wp_succeeding (fun _ => rfl) ?_
  rintro (_ | b) now' - hb
  · exact absurd rfl hb
  · exact hQ b now'

theorem wp_backendDestroy_ok {b : Option Ptr} {Q : Unit → List K × ℕ → Prop}
    (hQ : ∀ now', Q () (log, now')) :
    (succeedingEnv cell).wp (backendDestroy b : Prog (Driver P R) Unit) Q (log, now) :=
  wp_succeeding (fun _ => rfl) fun _ now' _ _ => hQ now'

theorem wp_printRow_ok {row : R} {Q : Unit → List K × ℕ → Prop}
    (hQ : ∀ now', Q () (log ++ [cell row], now')) :
    (succeedingEnv cell).wp (printRow row : Prog (Driver P R) Unit) Q (log, now) := by
  refine ⟨⟨trivial, trivial⟩, ?_⟩
  rintro _ ⟨_, now'⟩ ⟨rfl, -⟩
  exact hQ now'

end Calls

/-! ## Calibration -/

/-- Each operation rounds to within a factor of two. -/
def Rounds (rnd : ℚ → ℚ) : Prop := ∀ x, 0 ≤ x → x / 2 ≤ rnd x ∧ rnd x ≤ 2 * x

/-- The bytes of a batch of `n` messages do not overflow, if they are counted. -/
def Fits (counted : Bool) (messageSize : UInt64) (n : ℕ) : Prop :=
  counted = true → n * messageSize.toNat ≤ uint64Max.toNat

theorem Fits.mono {counted : Bool} {messageSize : UInt64} {n m : ℕ} (h : Fits counted messageSize n)
    (hle : m ≤ n) : Fits counted messageSize m :=
  fun hcounted => (Nat.mul_le_mul_right _ hle).trans (h hcounted)

/-- A count that took a nanosecond for each iteration is rescaled to 32 times the target at most. -/
theorem scaled_le {rnd : ℚ → ℚ} (hrnd : Rounds rnd) {count elapsedNs : UInt64} (targetNs : UInt64)
    (hcount : count.toNat ≤ elapsedNs.toNat) (helapsed : 0 < elapsedNs.toNat) :
    scaled rnd count targetNs elapsedNs ≤ 32 * targetNs.toNat := by
  have hc : (0 : ℚ) ≤ count.toNat := Nat.cast_nonneg _
  have ht : (0 : ℚ) ≤ targetNs.toNat := Nat.cast_nonneg _
  have he : (0 : ℚ) < elapsedNs.toNat := Nat.cast_pos.2 helapsed
  have hce : (count.toNat : ℚ) ≤ elapsedNs.toNat := Nat.cast_le.2 hcount
  obtain ⟨hc', hcle⟩ := hrnd _ hc
  obtain ⟨ht', htle⟩ := hrnd _ ht
  obtain ⟨he', hele⟩ := hrnd _ he.le
  have hcpos : 0 ≤ rnd count.toNat := le_trans (by positivity) hc'
  have htpos : 0 ≤ rnd targetNs.toNat := le_trans (by positivity) ht'
  have hepos : 0 < rnd elapsedNs.toNat := lt_of_lt_of_le (by positivity) he'
  have hproduct := mul_nonneg hcpos htpos
  obtain ⟨hp', hple⟩ := hrnd _ hproduct
  have hppos : 0 ≤ rnd (rnd count.toNat * rnd targetNs.toNat) := le_trans (by positivity) hp'
  have hquotient : rnd (rnd count.toNat * rnd targetNs.toNat) / rnd elapsedNs.toNat
      ≤ 16 * targetNs.toNat := by
    rw [div_le_iff₀ hepos]
    calc rnd (rnd count.toNat * rnd targetNs.toNat)
        ≤ 2 * (rnd count.toNat * rnd targetNs.toNat) := hple
      _ ≤ 2 * ((2 * elapsedNs.toNat) * (2 * targetNs.toNat)) := by
        gcongr
        exact hcle.trans (by linarith)
      _ = 16 * targetNs.toNat * (elapsedNs.toNat / 2) := by ring
      _ ≤ 16 * targetNs.toNat * rnd elapsedNs.toNat := by gcongr
  calc scaled rnd count targetNs elapsedNs
      ≤ 2 * (rnd (rnd count.toNat * rnd targetNs.toNat) / rnd elapsedNs.toNat) :=
        (hrnd _ (div_nonneg hppos hepos.le)).2
    _ ≤ 32 * targetNs.toNat := by linarith

theorem rescale_fits {rnd : ℚ → ℚ} (hrnd : Rounds rnd) {counted : Bool}
    {count targetNs elapsedNs messageSize : UInt64}
    (hfits : Fits counted messageSize (32 * targetNs.toNat))
    (hcount : count.toNat ≤ elapsedNs.toNat) (hle : count.toNat ≤ 32 * targetNs.toNat) :
    Fits counted messageSize (rescale rnd count targetNs elapsedNs).toNat := by
  intro hcounted
  have hmax := hfits hcounted
  unfold rescale
  split_ifs with helapsed hrange
  · rcases Nat.eq_zero_or_pos messageSize.toNat with hm | hm
    · rw [hm, Nat.mul_zero]
      exact Nat.zero_le _
    have hscaled := scaled_le hrnd targetNs hcount (pos_of_ne_zero helapsed.2)
    have htarget : 32 * targetNs.toNat ≤ 18446744073709551615 := by
      rw [toNat_uint64Max] at hmax
      exact (Nat.le_mul_of_pos_right _ hm).trans hmax
    have hfloor : ⌊scaled rnd count targetNs elapsedNs⌋₊ ≤ 32 * targetNs.toNat := by
      refine Nat.floor_le_of_le ?_
      push_cast
      exact hscaled
    rw [toNat_truncate]
    · exact hfits.mono hfloor hcounted
    · have : (32 * targetNs.toNat : ℚ) ≤ 18446744073709551615 := by exact_mod_cast htarget
      linarith
  · exact hfits.mono hle hcounted
  · exact hfits.mono hle hcounted

/-! ## A case -/

section Case

variable {cell : R → K} {log : List K} {now : ℕ} {counted : Bool} {b : Ptr}
  {n messageSize targetNs : UInt64}

theorem wp_timeBatch_ok {sample : Sample} {Q : Int × Sample → List K × ℕ → Prop}
    (hlate : ∀ out s, Late s → Q out s) (hpos : 0 < n.toNat)
    (hfits : Fits counted messageSize n.toNat)
    (hQ : ∀ sample' now', n.toNat ≤ sample'.elapsedNs.toNat → Q (0, sample') (log, now')) :
    (succeedingEnv cell).wp
      (timeBatch counted b n messageSize sample : Prog (Driver P R) (Int × Sample)) Q
      (log, now) := by
  unfold timeBatch
  rw [wp_bind]
  refine wp_ofbNowNs_ok (fun _ _ => wp_late hlate) fun start _ hstart => ?_
  have hne : start ≠ 0 := by
    rintro rfl
    simp at hstart
  rw [if_neg hne, wp_bind]
  refine wp_backendRunBatch_ok hpos fun now₁ hbatch => ?_
  rw [if_neg (by decide), wp_bind]
  refine wp_ofbNowNs_ok (fun _ _ => wp_late hlate) fun stop hstop _ => ?_
  have hlt : start < stop := UInt64.lt_iff_toNat_lt.2 (by omega)
  have hbytes : ¬ (counted = true ∧ messageSize ≠ 0 ∧ n > uint64Max / messageSize) := by
    rintro ⟨hcounted, hm, hgt⟩
    exact UInt64.not_lt.2 ((le_div_iff_mul_le hm).2 (hfits hcounted)) hgt
  rw [if_neg (not_or.2 ⟨UInt64.not_le.2 hlt, hbytes⟩)]
  refine hQ _ _ ?_
  unfold measured
  rw [toNat_sub_of_lt hlt]
  omega

/-- The counts of a calibration stay below 32 times the target. -/
theorem wp_calibrateLoop_ok {count : Count} {sample : Sample}
    {Q : Int × Count × Sample → List K × ℕ → Prop} (hlate : ∀ out s, Late s → Q out s)
    (hfits : Fits counted messageSize (32 * targetNs.toNat))
    (hcount : count.1.toNat ≤ 32 * targetNs.toNat)
    (hQ : ∀ count' sample' now', count'.1.toNat ≤ 32 * targetNs.toNat →
      count'.1.toNat ≤ sample'.elapsedNs.toNat → Q (0, count', sample') (log, now')) :
    (succeedingEnv cell).wp (calibrateLoop (P := P) (R := R)
      (fun n sample => timeBatch counted b n messageSize sample) targetNs count sample) Q
      (log, now) := by
  induction count, sample using calibrateLoop.induct targetNs generalizing now with
  | case1 count sample ih =>
    rw [calibrateLoop, wp_bind]
    refine wp_timeBatch_ok (fun _ _ => wp_late hlate) count.2 (hfits.mono hcount)
      fun sample' now' helapsed => ?_
    simp only [ne_eq, not_true_eq_false, if_false]
    split_ifs with hstop
    · exact hQ count sample' now' hcount helapsed
    · refine ih sample' hstop ?_
      have hshort : sample'.elapsedNs.toNat < targetNs.toNat / 8 := by
        have h8 : (8 : UInt64).toNat = 8 := rfl
        have hlt := UInt64.lt_iff_toNat_lt.1 (UInt64.not_le.1 fun h => hstop (.inl h))
        rwa [UInt64.toNat_div, h8] at hlt
      have hdouble := toNat_double fun h => hstop (.inr h)
      simp only
      omega

theorem wp_calibrateFrom_ok {rnd : ℚ → ℚ} (hrnd : Rounds rnd) {start : Count}
    {iterations : UInt64} {Q : Int × UInt64 → List K × ℕ → Prop}
    (hlate : ∀ out s, Late s → Q out s) (hfits : Fits counted messageSize (32 * targetNs.toNat))
    (hstart : start.1.toNat ≤ 32 * targetNs.toNat)
    (hQ : ∀ N now', 0 < N.toNat → Fits counted messageSize N.toNat → Q (0, N) (log, now')) :
    (succeedingEnv cell).wp (calibrateFrom (P := P) (R := R) rnd
      (fun n sample => timeBatch counted b n messageSize sample) start targetNs iterations) Q
      (log, now) := by
  unfold calibrateFrom
  rw [wp_bind]
  refine wp_calibrateLoop_ok (fun _ _ => wp_late hlate) hfits hstart
    fun count sample now' hle helapsed => ?_
  simp only [ne_eq, not_true_eq_false, if_false]
  have hrescaled := rescale_fits hrnd hfits helapsed hle
  split_ifs with hzero
  · exact hQ 1 now' (by decide) (hfits.mono (le_trans count.2 hle))
  · exact hQ _ now' (pos_of_ne_zero hzero) hrescaled

variable {row : ℕ → Sample → R} {failed : Stage → Option Ptr → Prog (Driver P R) Int}
  {label : ℕ → K}

theorem wp_sampleLoop_ok {Q : Int → List K × ℕ → Prop} (hlate : ∀ rc s, Late s → Q rc s)
    (hlabel : ∀ i sample, cell (row i sample) = label i) {N : UInt64} (hpos : 0 < N.toNat)
    (hfits : Fits counted messageSize N.toNat) {remaining i : ℕ} {sample : Sample}
    (hQ : ∀ now', Q 0 (log ++ (List.range' i remaining).map label, now')) :
    (succeedingEnv cell).wp
      (sampleLoop (timeBatch counted · · messageSize ·) row failed b N remaining i sample) Q
      (log, now) := by
  induction remaining generalizing log now i sample with
  | zero =>
    unfold sampleLoop
    rw [wp_bind]
    refine wp_backendDestroy_ok fun now' => ?_
    rw [← List.append_nil log]
    exact hQ now'
  | succ remaining ih =>
    unfold sampleLoop
    rw [wp_bind]
    refine wp_timeBatch_ok (fun _ _ => wp_late hlate) hpos hfits fun sample' now₁ _ => ?_
    simp only [ne_eq, not_true_eq_false, if_false]
    rw [wp_bind]
    refine wp_printRow_ok fun now₂ => ih fun now₃ => ?_
    rw [hlabel, List.append_assoc, List.singleton_append, ← List.map_cons, ← List.range'_succ]
    exact hQ now₃

/-- A case takes as many samples as it is asked for, and prints each. -/
theorem wp_caseWith_ok {Q : Int → List K × ℕ → Prop} (hlate : ∀ rc s, Late s → Q rc s)
    {rnd : ℚ → ℚ} (hrnd : Rounds rnd) {params : P} {start : Count}
    (hfits : Fits counted messageSize (32 * targetNs.toNat))
    (hstart : start.1.toNat ≤ 32 * targetNs.toNat)
    (hlabel : ∀ i sample, cell (row i sample) = label i) {samples : ℕ}
    (hQ : ∀ now', Q 0 (log ++ (List.range samples).map label, now')) :
    (succeedingEnv cell).wp
      (caseWith (timeBatch counted · · messageSize ·) row failed params
        (fun backend => calibrateFrom rnd
          (fun n sample => timeBatch counted backend n messageSize sample) start targetNs 0)
        samples) Q (log, now) := by
  unfold caseWith
  rw [wp_bind]
  refine wp_backendCreate_ok fun b now₁ => ?_
  simp only
  rw [wp_bind]
  refine wp_backendVerify_ok fun now₂ => ?_
  simp only [ne_eq, not_true_eq_false, if_false]
  rw [wp_bind]
  refine wp_calibrateFrom_ok hrnd (fun _ _ => wp_late hlate) hfits hstart
    fun N now₃ hpos hN => ?_
  simp only [not_true_eq_false, if_false]
  rw [List.range_eq_range'] at hQ
  exact wp_sampleLoop_ok hlate hlabel hpos hN hQ

end Case

end Success

/-! ## Linking with a backend -/

section Link

variable {L : Api} {P R S K τ α : Type}

def processCost (cost : L.Call → ℕ) : (Process L R).Call → ℕ
  | .inl c => cost c
  | .inr _ => 0

/-- The clock shows the time. -/
def hostShows : (c : (Process L R).Call) → (Process L R).Resp c → ℕ → Prop
  | .inr .nowNs, reading, now => reading = UInt64.ofNat now ∧ 0 < now
  | _, _, _ => True

/-- A library and a host on one clock, and the rows that are printed. -/
def processEnv (E : Env L τ) (cost : L.Call → ℕ) (cell : R → K) :
    Env (Process L R) ((τ × Unit) × (List K × ℕ)) :=
  (E.plus hostEnv).both ((recorded fun e => (rowPrinted e).map cell).both
    (timed (processCost cost) hostShows))

/-- A backend whose calls succeed on the states of its library that it owns, an empty batch apart,
each iteration of a batch taking a nanosecond at least; it is created for parameters it accepts. -/
structure Implementation.Faultless (impl : Implementation L P S) (E : Env L τ)
    (cost : L.Call → ℕ) (accepts : P → Prop) (clear : τ → Prop) (own : S → τ → Prop) : Prop where
  create : ∀ params t, accepts params → clear t → E.wp (impl.create params)
    (fun out t' => ∃ s, createdBackend out = some s ∧ own s t') t
  verify : ∀ s unset t, unset.length = impl.scratch → own s t → E.wp (impl.verify s unset)
    (fun out t' => out.1 = 0 ∧ impl.self out.2 = impl.self s ∧ own out.2 t') t
  runBatch : ∀ s n t, own s t → E.wp (impl.runBatch s n) (fun out t' =>
    (0 < n.toNat → out.1 = 0) ∧ impl.self out.2 = impl.self s ∧ own out.2 t') t
  destroy : ∀ s t, own s t → E.wp (impl.destroy (some s)) (fun _ => clear) t
  destroy_none : ∀ t, E.wp (impl.destroy none) (fun _ t' => t' = t) t
  elapsed : ∀ s n t now, own s t → (metered cost).wp (impl.runBatch s n)
    (fun out now' => out.1 = 0 → now + n.toNat ≤ now') now

/-- The backend in the heap is the one the program has. -/
def Owned (impl : Implementation L P S) (clear : τ → Prop) (own : S → τ → Prop) (heap : Heap S)
    (x : Life × (List K × ℕ)) (y : (τ × Unit) × (List K × ℕ)) : Prop :=
  y.2 = x.2 ∧ match x.1 with
    | .absent => clear y.1.1
    | .working b => ∃ s, heap b = some s ∧ impl.self s = b ∧ own s y.1.1
    | .failed b => ∃ s, heap b = some s ∧ impl.self s = b ∧ own s y.1.1

variable {E : Env L τ} {cost : L.Call → ℕ} {accepts : P → Prop} {clear : τ → Prop}
  {own : S → τ → Prop} {impl : Implementation L P S} {cell : R → K} {log : List K} {now : ℕ} {t : τ}

theorem wp_library_ok {p : Prog L α} {Q : α → τ → Prop} {Q' : α → ℕ → Prop}
    {Z : α → (τ × Unit) × (List K × ℕ) → Prop} (hp : E.wp p Q t)
    (hcost : (metered cost).wp p Q' now)
    (hZ : ∀ a t' now', Q a t' → Q' a now' → Z a ((t', ()), (log, now'))) :
    (processEnv E cost cell).wp (library p) Z ((t, ()), (log, now)) := by
  have hlibrary : (E.plus (hostEnv (R := R))).wp (library p) (fun a y => Q a y.1) (t, ()) :=
    wp_link_askLeft.2 hp
  have hlog : (recorded fun e => (rowPrinted e).map cell).wp (library p : Prog (Process L R) α)
      (fun _ log' => log' = log) log := wp_link_recorded (fun _ _ => rfl) p log
  have htime : (timed (processCost cost) hostShows).wp (library p : Prog (Process L R) α) Q' now :=
    wp_link_timed hcost
  refine wp_mono _ (wp_both hlibrary (wp_both hlog htime)) ?_
  rintro a ⟨⟨t', _⟩, _, now'⟩ ⟨hQ, rfl, hQ'⟩
  exact hZ a t' now' hQ hQ'

theorem wp_host_ok {c : Host.Call R} {Z : Host.Resp c → (τ × Unit) × (List K × ℕ) → Prop}
    (hc : ∀ b, c ≠ .stray b) (hZ : ∀ r now', now ≤ now' →
      hostShows (L := L) (.inr c) r now' →
      Z r ((t, ()), (log ++ ((rowPrinted (L := L) ⟨.inr c, r⟩).map cell).toList, now'))) :
    (processEnv E cost cell).wp (host c) Z ((t, ()), (log, now)) := by
  refine ⟨⟨hc, trivial, trivial⟩, ?_⟩
  rintro r ⟨⟨t', _⟩, log', now'⟩ ⟨⟨-, ht⟩, hlog, hnow, hshows⟩
  obtain rfl : t' = t := ht
  obtain rfl : log' = log ++ ((rowPrinted (L := L) ⟨.inr c, r⟩).map cell).toList := hlog
  exact hZ r now' hnow hshows

/-- After a call on the backend. -/
theorem owned_returned {heap : Heap S} {b : Ptr} {s : S} {rc : Int} (hs : impl.self s = b)
    (h : own s t) :
    Owned impl clear own (Function.update heap b (some s))
      ((if rc = 0 then .working b else .failed b), (log, now)) ((t, ()), (log, now)) := by
  split_ifs
  · exact ⟨rfl, s, Function.update_self b (some s) heap, hs, h⟩
  · exact ⟨rfl, s, Function.update_self b (some s) heap, hs, h⟩

/-- The backend to destroy is the one the program has. -/
theorem Owned.of_backend {heap : Heap S} {life : Life} {b : Ptr}
    (h : Owned impl clear own heap (life, (log, now)) ((t, ()), (log, now)))
    (hb : life.backend = some b) : ∃ s, heap b = some s ∧ own s t := by
  cases life with
  | absent => simp [Life.backend] at hb
  | working b' | failed b' =>
    obtain rfl : b' = b := Option.some.inj hb
    obtain ⟨-, s, hheap, -, hown⟩ := h
    exact ⟨s, hheap, hown⟩

/-- Linked with such a backend, the calls of a program succeed. -/
theorem Implementation.Faultless.refines (h : impl.Faultless E cost accepts clear own) :
    Refines (impl.serve (R := R))
      ((lifeEnv.both (succeedingEnv cell)).only (DriverOnly accepts fun _ => True))
      (processEnv E cost cell) (Owned impl clear own) := by
  rintro heap ⟨life, log, now⟩ ⟨⟨t, _⟩, _⟩ c ⟨rfl, hR⟩ ⟨hok, hlife, -⟩
  cases c with
  | backendCreate params =>
    cases show life = .absent from hlife
    simp only [Implementation.serve]
    rw [wp_bind]
    refine wp_library_ok (h.create params t hok hR) (wp_timed_le _ now) ?_
    rintro out t' now' ⟨s, hcreated, hown⟩ hnow
    rw [hcreated]
    exact ⟨(.working (impl.self s), (log, now')), ⟨rfl, (List.append_nil log).symm, hnow,
      Option.some_ne_none _⟩, rfl, s, Function.update_self _ _ _, rfl, hown⟩
  | backendVerify b =>
    cases show life = .working b from hlife
    obtain ⟨s, hheap, hs, hown⟩ := hR
    simp only [Implementation.serve, hheap]
    rw [wp_bind]
    refine wp_host_ok (fun b => by simp) fun unset now₁ hnow₁ _ => ?_
    rw [wp_bind]
    refine wp_library_ok (h.verify s unset.1 t unset.2 hown) (wp_timed_le _ now₁) ?_
    rintro out t' now' ⟨hrc, hself, hown'⟩ hnow
    exact ⟨(_, (log ++ [], now')), ⟨rfl, rfl, hnow₁.trans hnow, hrc⟩,
      owned_returned (hself.trans hs) hown'⟩
  | backendRunBatch b n =>
    cases show life = .working b from hlife
    obtain ⟨s, hheap, hs, hown⟩ := hR
    simp only [Implementation.serve, hheap]
    rw [wp_bind]
    refine wp_library_ok (h.runBatch s n t hown)
      (wp_and (wp_timed_le _ now) (h.elapsed s n t now hown)) ?_
    rintro out t' now' ⟨hrc, hself, hown'⟩ ⟨hle, hnow⟩
    have hbatch : now + n.toNat ≤ now' := by
      rcases Nat.eq_zero_or_pos n.toNat with hn | hn
      · rw [hn]
        exact hle
      · exact hnow (hrc hn)
    exact ⟨(_, (log, now')), ⟨rfl, (List.append_nil log).symm, hbatch, hrc⟩,
      owned_returned (hself.trans hs) hown'⟩
  | backendDestroy backend =>
    rcases backend with _ | b
    · simp only [Implementation.serve]
      rw [wp_bind]
      refine wp_library_ok (h.destroy_none t) (wp_timed_le _ now) ?_
      rintro _ _ now' rfl hnow
      exact ⟨(life, (log, now')), ⟨rfl, (List.append_nil log).symm, hnow, trivial⟩, rfl, hR⟩
    · have howned : Owned impl clear own heap (life, (log, now)) ((t, ()), (log, now)) := ⟨rfl, hR⟩
      obtain ⟨s, hheap, hown⟩ := howned.of_backend hlife
      simp only [Implementation.serve, hheap]
      rw [wp_bind]
      refine wp_library_ok (h.destroy s t hown) (wp_timed_le _ now) ?_
      intro _ t' now' hclear hnow
      exact ⟨(.absent, (log, now')), ⟨rfl, (List.append_nil log).symm, hnow, trivial⟩, rfl,
        hclear⟩
  | nowNs =>
    simp only [Implementation.serve]
    rw [wp_bind]
    refine wp_host_ok (fun b => by simp) fun reading now' hnow hshows => ?_
    exact ⟨(life, (log ++ [], now')), ⟨rfl, rfl, hnow, hshows⟩, rfl, hR⟩
  | printRow row =>
    simp only [Implementation.serve]
    rw [wp_bind]
    refine wp_host_ok (fun b => by simp) fun _ now' hnow _ => ?_
    exact ⟨(life, (log ++ [cell row], now')), ⟨rfl, rfl, hnow, trivial⟩, rfl, hR⟩
  | print stream text =>
    simp only [Implementation.serve]
    rw [wp_bind]
    refine wp_host_ok (fun b => by simp) fun _ now' hnow _ => ?_
    exact ⟨(life, (log ++ [], now')), ⟨rfl, rfl, hnow, trivial⟩, rfl, hR⟩

/-- What a program achieves where nothing fails, it achieves linked with such a backend. -/
theorem Implementation.Faultless.runs (h : impl.Faultless E cost accepts clear own)
    {p : Prog (Driver P R) α} {Q : α → List K × ℕ → Prop} {now : ℕ}
    (hok : p.OnlyCalls (DriverOnly accepts fun _ => True))
    (hlife : lifeEnv.wp p (fun _ life => life = .absent) .absent)
    (hp : (succeedingEnv cell).wp p Q ([], now)) (ht : clear t)
    {events : Trace (Process L R)} {a : α} {s : (τ × Unit) × (List K × ℕ)}
    (hrun : (impl.link p).Runs events a)
    (hpath : (processEnv E cost cell).Path ((t, ()), ([], now)) events s) :
    Q a ((printedRows events).map cell, s.2.2) := by
  have hlink : (processEnv E cost cell).wp (impl.link p) (fun a s => Q a s.2)
      ((t, ()), ([], now)) := by
    unfold Implementation.link
    rw [wp_bind]
    have howned : Owned impl clear own (fun _ => none) (.absent, (([] : List K), now))
        ((t, ()), ([], now)) := ⟨rfl, ht⟩
    refine wp_mono _ (h.refines.wp_serve (wp_only hok (wp_both hlife hp)) howned) ?_
    rintro out s ⟨x, ⟨-, hQ⟩, heq, -⟩
    rw [wp_pure, heq]
    exact hQ
  have hlog := path_recorded (path_both (path_both hpath).2).1
  rw [List.nil_append, ← List.map_filterMap] at hlog
  unfold printedRows
  rw [← hlog]
  have hQ := wp_sound _ hlink hrun hpath
  exact hQ

end Link

end OfbBench
