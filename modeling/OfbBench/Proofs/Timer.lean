import OfbBench.Proofs.Runner
import OfbBench.Timer
import OfbBench.AeadMain
import OfbBench.TlsMain

/-!
# What the clock reads

A clock shows a time as the whole nanoseconds in it (`Shows`). On Windows the quotient and the
remainder of the counter are converted apart, and neither product leaves 64 bits
(`Windows.nowNs_exact`); with `clock_gettime` the nanoseconds of a `timespec` are put together
(`Posix.nowNs_exact`). The difference of two such readings is the time between them, up to less
than a nanosecond, which is what a batch of the runner linked with the clock reports
(`elapsed_within`).
-/

namespace OfbBench

/-! ## Readings -/

/-- The reading of a clock at a time in nanoseconds: the whole ones. -/
def Shows (reading : UInt64) (time : ℚ) : Prop := reading.toNat = ⌊time⌋₊

section Shows

variable {start stop : UInt64} {a b : ℚ}

theorem Shows.le (ha : Shows start a) (hb : Shows stop b) (h : a ≤ b) : start ≤ stop := by
  rw [UInt64.le_iff_toNat_le, ha, hb]
  exact Nat.floor_mono h

/-- The difference of two readings, each less than a nanosecond behind. -/
theorem Shows.elapsed (ha : Shows start a) (hb : Shows stop b) (ha0 : 0 ≤ a) (hb0 : 0 ≤ b)
    (hlt : start < stop) : |((stop - start).toNat : ℚ) - (b - a)| < 1 := by
  have hle : start.toNat ≤ stop.toNat := (UInt64.lt_iff_toNat_lt.1 hlt).le
  have hfloor := Nat.floor_le ha0
  have hfloor' := Nat.floor_le hb0
  have hnext := Nat.lt_floor_add_one a
  have hnext' := Nat.lt_floor_add_one b
  rw [← ha] at hfloor hnext
  rw [← hb] at hfloor' hnext'
  rw [toNat_sub_of_lt hlt, Nat.cast_sub hle, abs_lt]
  constructor
  · linarith
  · linarith

end Shows

/-- A signed number that is not negative is the same as an unsigned one. -/
theorem toNat_toUInt64 {x : Int64} {n : ℕ} (h : x.toInt = n) : x.toUInt64.toNat = n := by
  have hx : 0 ≤ x := by
    rw [Int64.le_iff_toInt_le, h]
    exact Int.natCast_nonneg n
  rw [Int64.toNat_toUInt64_of_le hx, ← Int64.toNat_toInt, h, Int.toNat_natCast]

/-! ## Windows -/

namespace Windows

/-- The readings up to 584 years, of a counter with at most 18.4 ticks a nanosecond. -/
structure InRange (counter frequency : Int64) : Prop where
  one_le : 1 ≤ frequency.toInt
  frequency_le : frequency.toInt ≤ 18446744073
  nonneg : 0 ≤ counter.toInt
  seconds_lt : counter.toInt / frequency.toInt < 18446744073

/-- No product and no sum of the conversion leaves 64 bits. -/
structure NoWrap (counter frequency : Int64) : Prop where
  seconds : (counter / frequency).toUInt64.toNat * 1000000000 < 2 ^ 64
  rest : (counter % frequency).toUInt64.toNat * 1000000000 < 2 ^ 64
  sum : ((counter / frequency).toUInt64 * 1000000000).toNat
    + ((counter % frequency).toUInt64 * 1000000000 / frequency.toUInt64).toNat < 2 ^ 64

/-- The calls of a reading. -/
def reading (counter frequency : Int64) : Trace Clock :=
  [⟨.queryPerformanceCounter, counter⟩, ⟨.queryPerformanceFrequency, frequency⟩]

/-- The time since the counter was 0, in nanoseconds. -/
def time (counter frequency : Int64) : ℚ := counter.toInt * 1000000000 / frequency.toInt

/-- The calls of a reading that is taken at the time `a`. -/
def ReadAt (frequency : Int64) (s : Trace Clock) (a : ℚ) : Prop :=
  ∃ counter, s = reading counter frequency ∧ InRange counter frequency ∧ a = time counter frequency

theorem runs_ofbNowNs {t : Trace Clock} {r : UInt64} : ofbNowNs.Runs t r ↔
    ∃ counter frequency, t = reading counter frequency ∧ r = nowNs counter frequency := by
  constructor
  · rintro ⟨counter, _, rfl, frequency, _, rfl, rfl, rfl⟩
    exact ⟨counter, frequency, rfl, rfl⟩
  · rintro ⟨counter, frequency, rfl, rfl⟩
    exact ⟨counter, _, rfl, frequency, _, rfl, rfl, rfl⟩

theorem runs_ofbNowNs_reading {counter frequency : Int64} {r : UInt64} :
    ofbNowNs.Runs (reading counter frequency) r ↔ r = nowNs counter frequency := by
  rw [runs_ofbNowNs]
  constructor
  · rintro ⟨_, _, ht, rfl⟩
    cases ht
    rfl
  · rintro rfl
    exact ⟨counter, frequency, rfl, rfl⟩

/-- The quotient and the remainder converted apart are the product converted at once. -/
theorem div_mul_add_mod_mul_div (n k : ℕ) {d : ℕ} (hd : 0 < d) :
    n / d * k + n % d * k / d = n * k / d := by
  have hsplit : n * k = d * (n / d * k) + n % d * k := by
    calc n * k = (d * (n / d) + n % d) * k := by rw [Nat.div_add_mod]
      _ = d * (n / d * k) + n % d * k := by rw [Nat.add_mul, Nat.mul_assoc]
  rw [hsplit, Nat.mul_add_div hd]

section Range

variable {counter counter' frequency : Int64}

/-- The operands of the conversion, as natural numbers. -/
theorem InRange.exists_nat (h : InRange counter frequency) : ∃ n d : ℕ,
    counter.toInt = n ∧ frequency.toInt = d ∧ 0 < d ∧ d ≤ 18446744073 ∧ n / d < 18446744073
      ∧ (counter / frequency).toUInt64.toNat = n / d
      ∧ (counter % frequency).toUInt64.toNat = n % d ∧ frequency.toUInt64.toNat = d := by
  obtain ⟨hone, hle, hnonneg, hlt⟩ := h
  obtain ⟨n, hn⟩ := Int.eq_ofNat_of_zero_le hnonneg
  obtain ⟨d, hd⟩ := Int.eq_ofNat_of_zero_le (show 0 ≤ frequency.toInt by omega)
  have hne : frequency ≠ -1 := by
    rintro rfl
    exact absurd hone (by decide)
  have hdiv : (counter / frequency).toInt = (n / d : ℕ) := by
    rw [Int64.toInt_div_of_ne_right _ _ hne, hn, hd, Int.ofNat_tdiv]
  have hmod : (counter % frequency).toInt = (n % d : ℕ) := by
    rw [Int64.toInt_mod, hn, hd, Int.ofNat_tmod]
  rw [hn, hd, ← Int.natCast_ediv] at hlt
  exact ⟨n, d, hn, hd, by omega, by omega, by omega, toNat_toUInt64 hdiv, toNat_toUInt64 hmod,
    toNat_toUInt64 hd⟩

theorem nowNs_exact (h : InRange counter frequency) : NoWrap counter frequency
    ∧ ((nowNs counter frequency).toNat : ℤ) = counter.toInt * 1000000000 / frequency.toInt := by
  obtain ⟨n, d, hn, hd, hpos, hle, hlt, hseconds, hrest, hfrequency⟩ := h.exists_nat
  have hmod : n % d < d := Nat.mod_lt n hpos
  have hsub : n % d * 1000000000 / d < 1000000000 := by
    rw [Nat.div_lt_iff_lt_mul hpos, Nat.mul_comm]
    exact Nat.mul_lt_mul_of_pos_left hmod (by decide)
  have hk : (1000000000 : UInt64).toNat = 1000000000 := rfl
  have hleft : ((counter / frequency).toUInt64 * 1000000000).toNat = n / d * 1000000000 := by
    rw [UInt64.toNat_mul, hseconds, hk]
    exact Nat.mod_eq_of_lt (by omega)
  have hright : ((counter % frequency).toUInt64 * 1000000000 / frequency.toUInt64).toNat
      = n % d * 1000000000 / d := by
    rw [UInt64.toNat_div, UInt64.toNat_mul, hrest, hk, hfrequency]
    rw [Nat.mod_eq_of_lt (by omega)]
  refine ⟨⟨?_, ?_, ?_⟩, ?_⟩
  · rw [hseconds]
    omega
  · rw [hrest]
    omega
  · rw [hleft, hright]
    omega
  · unfold nowNs
    rw [UInt64.toNat_add, hleft, hright, Nat.mod_eq_of_lt (by omega),
      div_mul_add_mod_mul_div n _ hpos, hn, hd]
    norm_cast

theorem time_nonneg (h : InRange counter frequency) : 0 ≤ time counter frequency := by
  obtain ⟨n, d, hn, hd, -⟩ := h.exists_nat
  unfold time
  rw [hn, hd]
  positivity

theorem nowNs_shows (h : InRange counter frequency) :
    Shows (nowNs counter frequency) (time counter frequency) := by
  obtain ⟨n, d, hn, hd, -⟩ := h.exists_nat
  have hvalue := (nowNs_exact h).2
  have hfloor : ⌊((n * 1000000000 : ℕ) : ℚ) / (d : ℕ)⌋₊ = n * 1000000000 / d :=
    Nat.floor_div_eq_div (n * 1000000000) d
  unfold Shows time
  rw [hn, hd] at hvalue ⊢
  push_cast at hfloor ⊢
  rw [hfloor]
  exact_mod_cast hvalue

theorem time_mono (h : InRange counter frequency) (hle : counter ≤ counter') :
    time counter frequency ≤ time counter' frequency := by
  have hone : (1 : ℚ) ≤ frequency.toInt := by exact_mod_cast h.one_le
  have hcounter : (counter.toInt : ℚ) ≤ counter'.toInt := by
    exact_mod_cast Int64.le_iff_toInt_le.1 hle
  unfold time
  gcongr

end Range

end Windows

/-! ## POSIX -/

namespace Posix

structure InRange (now : Timespec) : Prop where
  sec_nonneg : 0 ≤ now.tvSec.toInt
  sec_lt : now.tvSec.toInt < 18446744073
  nsec_nonneg : 0 ≤ now.tvNsec.toInt
  nsec_lt : now.tvNsec.toInt < 1000000000

/-- The order of `(tv_sec, tv_nsec)`. -/
def Before (now now' : Timespec) : Prop :=
  now.tvSec < now'.tvSec ∨ (now.tvSec = now'.tvSec ∧ now.tvNsec < now'.tvNsec)

/-- Neither the product nor the sum leaves 64 bits. -/
structure NoWrap (now : Timespec) : Prop where
  seconds : now.tvSec.toUInt64.toNat * 1000000000 < 2 ^ 64
  sum : (now.tvSec.toUInt64 * 1000000000).toNat + now.tvNsec.toUInt64.toNat < 2 ^ 64

/-- The call of a reading. -/
def reading (now : Timespec) : Trace Clock := [⟨.clockGettimeMonotonic, (0, now)⟩]

/-- The time of the clock, in nanoseconds. -/
def time (now : Timespec) : ℚ := now.tvSec.toInt * 1000000000 + now.tvNsec.toInt

/-- The calls of a reading that is taken at the time `a`. -/
def ReadAt (s : Trace Clock) (a : ℚ) : Prop := ∃ now, s = reading now ∧ InRange now ∧ a = time now

theorem runs_ofbNowNs_reading {now : Timespec} {r : UInt64} :
    ofbNowNs.Runs (reading now) r ↔ r = nowNs now := by
  constructor
  · rintro ⟨_, _, ht, h⟩
    cases ht
    exact h.2
  · rintro rfl
    exact ⟨(0, now), [], rfl, rfl, rfl⟩

section Range

variable {now now' : Timespec}

theorem nowNs_exact (h : InRange now) : NoWrap now
    ∧ ((nowNs now).toNat : ℤ) = now.tvSec.toInt * 1000000000 + now.tvNsec.toInt := by
  obtain ⟨hsec0, hsec, hnsec0, hnsec⟩ := h
  obtain ⟨s, hs⟩ := Int.eq_ofNat_of_zero_le hsec0
  obtain ⟨n, hn⟩ := Int.eq_ofNat_of_zero_le hnsec0
  have hk : (1000000000 : UInt64).toNat = 1000000000 := rfl
  have hseconds : (now.tvSec.toUInt64 * 1000000000).toNat = s * 1000000000 := by
    rw [UInt64.toNat_mul, toNat_toUInt64 hs, hk]
    exact Nat.mod_eq_of_lt (by omega)
  refine ⟨⟨?_, ?_⟩, ?_⟩
  · rw [toNat_toUInt64 hs]
    omega
  · rw [hseconds, toNat_toUInt64 hn]
    omega
  · unfold nowNs
    rw [UInt64.toNat_add, hseconds, toNat_toUInt64 hn, Nat.mod_eq_of_lt (by omega), hs, hn]
    norm_cast

theorem time_nonneg (h : InRange now) : 0 ≤ time now := by
  have hsec : (0 : ℚ) ≤ now.tvSec.toInt := by exact_mod_cast h.sec_nonneg
  have hnsec : (0 : ℚ) ≤ now.tvNsec.toInt := by exact_mod_cast h.nsec_nonneg
  unfold time
  positivity

theorem nowNs_shows (h : InRange now) : Shows (nowNs now) (time now) := by
  have hvalue : ((nowNs now).toNat : ℚ) = time now := by
    unfold time
    exact_mod_cast (nowNs_exact h).2
  unfold Shows
  rw [← hvalue, Nat.floor_natCast]

theorem nowNs_lt (h : InRange now) (h' : InRange now') (hlt : Before now now') :
    nowNs now < nowNs now' := by
  have hvalue := (nowNs_exact h).2
  have hvalue' := (nowNs_exact h').2
  obtain ⟨-, -, -, hnsec⟩ := h
  obtain ⟨-, -, hnsec0, -⟩ := h'
  rw [UInt64.lt_iff_toNat_lt]
  rcases hlt with hsec | ⟨hsec, hlt⟩
  · rw [Int64.lt_iff_toInt_lt] at hsec
    omega
  · rw [Int64.lt_iff_toInt_lt] at hlt
    rw [hsec] at hvalue
    omega

end Range

end Posix

/-! ## The runner linked with a clock -/

section Link

variable {C : Api} {P R : Type} {clock : Prog C UInt64} {readAt : Trace C → ℚ → Prop}

/-- The calls of a batch that was run and timed by a clock. -/
def timedTrace (backend : Ptr) (n : UInt64) (s₁ s₂ : Trace C) : Trace ((Driver P R).plus C) :=
  Prog.rightTrace s₁ ++ @Prog.leftEvent (Driver P R) C ⟨.backendRunBatch backend n, (0 : Int)⟩
    :: Prog.rightTrace s₂

/-- The calls of a batch determine those of its readings. -/
theorem timedTrace_inj {backend : Ptr} {n : UInt64} {s₁ s₂ s₁' s₂' : Trace C}
    (h : timedTrace (P := P) (R := R) backend n s₁ s₂ = timedTrace backend n s₁' s₂') :
    s₁ = s₁' ∧ s₂ = s₂' := by
  unfold timedTrace at h
  induction s₁ generalizing s₁' with
  | nil =>
    cases s₁' with
    | nil => exact ⟨rfl, Prog.rightTrace_injective (List.cons.inj h).2⟩
    | cons e s₁' => exact absurd (congrArg Sigma.fst (List.cons.inj h).1) Sum.inl_ne_inr
  | cons e s₁ ih =>
    cases s₁' with
    | nil => exact absurd (congrArg Sigma.fst (List.cons.inj h).1) Sum.inr_ne_inl
    | cons e' s₁' =>
      obtain ⟨hhead, htail⟩ := List.cons.inj h
      obtain ⟨rfl, hs₂⟩ := ih htail
      exact ⟨by rw [Prog.rightEvent_injective hhead], hs₂⟩

/-- Linked with `clock`, a batch that succeeds reports the time between its two readings, up to
less than a nanosecond. -/
def ElapsedWithin (clock : Prog C UInt64) (readAt : Trace C → ℚ → Prop) (backend : Ptr)
    (n : UInt64) (batch : Prog (Driver P R) (Int × Sample)) : Prop :=
  ∀ t sample, (batch.link (withClock clock)).Runs t (0, sample) →
    ∃ s₁ s₂, t = timedTrace backend n s₁ s₂ ∧
      ∀ a b, readAt s₁ a → readAt s₂ b → |(sample.elapsedNs.toNat : ℚ) - (b - a)| < 1

theorem runs_timeBatch_link {counted : Bool} {backend : Ptr} {n messageSize : UInt64}
    {sample sample' : Sample} {t : Trace ((Driver P R).plus C)} :
    ((timeBatch counted backend n messageSize sample).link (withClock clock)).Runs t (0, sample') ↔
      ∃ s₁ s₂ start stop, t = timedTrace backend n s₁ s₂ ∧ clock.Runs s₁ start
        ∧ clock.Runs s₂ stop ∧ Timed counted n messageSize start stop sample' := by
  rw [Prog.runs_link]
  constructor
  · rintro ⟨s, hs, himpl⟩
    obtain ⟨start, stop, rfl, hT⟩ := runs_timeBatch_ok.1 hs
    obtain ⟨t₁, _, rfl, hstart, t₂, _, rfl, hbatch, t₃, _, rfl, hstop, rfl⟩ := himpl
    obtain ⟨s₁, hs₁, rfl⟩ := Prog.runs_link_askRight.1 hstart
    obtain ⟨s₂, hs₂, rfl⟩ := Prog.runs_link_askRight.1 hstop
    obtain rfl := Prog.runs_ask.1 hbatch
    exact ⟨s₁, s₂, start, stop, by simp [timedTrace, Prog.leftEvent], hs₁, hs₂, hT⟩
  · rintro ⟨s₁, s₂, start, stop, rfl, hs₁, hs₂, hT⟩
    refine ⟨_, runs_timeBatch_ok.2 ⟨start, stop, rfl, hT⟩, _, _, rfl,
      Prog.runs_link_askRight.2 ⟨s₁, hs₁, rfl⟩, [_], _, rfl, Prog.runs_ask.2 rfl, _, [],
      (List.append_nil _).symm, Prog.runs_link_askRight.2 ⟨s₂, hs₂, rfl⟩, rfl⟩

theorem elapsed_within (counted : Bool) (backend : Ptr) (n messageSize : UInt64) (sample : Sample)
    (hshows : ∀ s a r, readAt s a → clock.Runs s r → 0 ≤ a ∧ Shows r a) :
    ElapsedWithin (P := P) (R := R) clock readAt backend n
      (timeBatch counted backend n messageSize sample) := by
  intro t sample' h
  obtain ⟨s₁, s₂, start, stop, ht, hs₁, hs₂, hT⟩ := runs_timeBatch_link.1 h
  refine ⟨s₁, s₂, ht, fun a b ha hb => ?_⟩
  obtain ⟨ha0, ha⟩ := hshows s₁ a start ha hs₁
  obtain ⟨hb0, hb⟩ := hshows s₂ b stop hb hs₂
  rw [hT.sample_eq]
  exact ha.elapsed hb ha0 hb0 hT.lt

theorem Windows.shows_of_readAt {frequency : Int64} (s : Trace Clock) (a : ℚ) (r : UInt64)
    (hs : ReadAt frequency s a) (hr : ofbNowNs.Runs s r) : 0 ≤ a ∧ Shows r a := by
  obtain ⟨counter, rfl, h, rfl⟩ := hs
  obtain rfl := runs_ofbNowNs_reading.1 hr
  exact ⟨time_nonneg h, nowNs_shows h⟩

theorem Posix.shows_of_readAt (s : Trace Clock) (a : ℚ) (r : UInt64) (hs : ReadAt s a)
    (hr : ofbNowNs.Runs s r) : 0 ≤ a ∧ Shows r a := by
  obtain ⟨now, rfl, h, rfl⟩ := hs
  obtain rfl := runs_ofbNowNs_reading.1 hr
  exact ⟨time_nonneg h, nowNs_shows h⟩

/-- `ofb_now_ns` returns the conversion of what the clock answers, which is exact and keeps the
order of the readings, and the runner reports the time between two of them. -/
theorem clock_exact (backend : Ptr) (n messageSize : UInt64) (benchmark : Tls.Benchmark)
    (sample : Sample) :
    (∀ counter frequency r, Windows.ofbNowNs.Runs (Windows.reading counter frequency) r ↔
      r = Windows.nowNs counter frequency)
    ∧ (∀ counter frequency, Windows.InRange counter frequency → Windows.NoWrap counter frequency
      ∧ ((Windows.nowNs counter frequency).toNat : ℤ)
        = counter.toInt * 1000000000 / frequency.toInt)
    ∧ (∀ counter counter' frequency, Windows.InRange counter frequency →
      Windows.InRange counter' frequency → counter ≤ counter' →
      Windows.nowNs counter frequency ≤ Windows.nowNs counter' frequency)
    ∧ (∀ now r, Posix.ofbNowNs.Runs (Posix.reading now) r ↔ r = Posix.nowNs now)
    ∧ (∀ now, Posix.InRange now → Posix.NoWrap now
      ∧ ((Posix.nowNs now).toNat : ℤ) = now.tvSec.toInt * 1000000000 + now.tvNsec.toInt)
    ∧ (∀ now now', Posix.InRange now → Posix.InRange now' → Posix.Before now now' →
      Posix.nowNs now < Posix.nowNs now')
    ∧ (∀ frequency,
      ElapsedWithin (P := P) (R := R) Windows.ofbNowNs (Windows.ReadAt frequency) backend n
        (ofbRunSample backend n messageSize sample)
      ∧ ElapsedWithin Windows.ofbNowNs (Windows.ReadAt frequency) backend n
        (Tls.runTimed backend n benchmark messageSize sample))
    ∧ ElapsedWithin (P := P) (R := R) Posix.ofbNowNs Posix.ReadAt backend n
      (ofbRunSample backend n messageSize sample)
    ∧ ElapsedWithin Posix.ofbNowNs Posix.ReadAt backend n
      (Tls.runTimed backend n benchmark messageSize sample) := by
  refine ⟨fun _ _ _ => Windows.runs_ofbNowNs_reading, fun _ _ => Windows.nowNs_exact, ?_,
    fun _ _ => Posix.runs_ofbNowNs_reading, fun _ => Posix.nowNs_exact,
    fun _ _ => Posix.nowNs_lt, fun frequency => ⟨?_, ?_⟩, ?_, ?_⟩
  · intro counter counter' frequency h h' hle
    exact (Windows.nowNs_shows h).le (Windows.nowNs_shows h') (Windows.time_mono h hle)
  · exact elapsed_within _ _ _ _ _ Windows.shows_of_readAt
  · exact elapsed_within _ _ _ _ _ Windows.shows_of_readAt
  · exact elapsed_within _ _ _ _ _ Posix.shows_of_readAt
  · exact elapsed_within _ _ _ _ _ Posix.shows_of_readAt

end Link

/-- What a batch of 16 bytes reports that takes 100 ns. -/
def hundredNs : Sample := { iterations := 1, elapsedNs := 100, bytes := 16 }

/-- A counter of 10 MHz, read at two consecutive ticks around a batch, and two POSIX readings. -/
theorem clock_exact_tenMegahertz :
    Windows.ofbNowNs.Runs (Windows.reading 10000019 10000000) 1000001900
      ∧ Windows.ofbNowNs.Runs (Windows.reading 10000020 10000000) 1000002000
      ∧ (1000001900 : ℤ) = (10000019 : Int64).toInt * 1000000000 / (10000000 : Int64).toInt
      ∧ Windows.nowNs 10000019 10000000 ≤ Windows.nowNs 10000020 10000000
      ∧ Posix.ofbNowNs.Runs (Posix.reading ⟨3, 7⟩) 3000000007
      ∧ Posix.ofbNowNs.Runs (Posix.reading ⟨4, 0⟩) 4000000000
      ∧ (3000000007 : ℤ) = (3 : Int64).toInt * 1000000000 + (7 : Int64).toInt
      ∧ Posix.nowNs ⟨3, 7⟩ < Posix.nowNs ⟨4, 0⟩
      ∧ ((@ofbRunSample Aead.Params Aead.Row 0 1 16 .unset).link
          (withClock Windows.ofbNowNs)).Runs
        (timedTrace 0 1 (Windows.reading 10000019 10000000) (Windows.reading 10000020 10000000))
        (0, hundredNs)
      ∧ |(100 : ℚ) - (Windows.time 10000020 10000000 - Windows.time 10000019 10000000)| < 1 := by
  have hfirst : Windows.InRange 10000019 10000000 :=
    ⟨by decide, by decide, by decide, by decide⟩
  have hsecond : Windows.InRange 10000020 10000000 :=
    ⟨by decide, by decide, by decide, by decide⟩
  have hnow : Posix.InRange ⟨3, 7⟩ := ⟨by decide, by decide, by decide, by decide⟩
  have hlater : Posix.InRange ⟨4, 0⟩ := ⟨by decide, by decide, by decide, by decide⟩
  have hvalue : Windows.nowNs 10000019 10000000 = 1000001900 := by decide
  have hvalue' : Windows.nowNs 10000020 10000000 = 1000002000 := by decide
  have hposixValue : Posix.nowNs ⟨3, 7⟩ = 3000000007 := by decide
  obtain ⟨hruns, hexact, hmono, hposix, hposixExact, hlt, helapsed, -⟩ :=
    @clock_exact Aead.Params Aead.Row 0 1 16 .transfer .unset
  have hstart := (hruns 10000019 10000000 1000001900).2 hvalue.symm
  have hstop := (hruns 10000020 10000000 1000002000).2 hvalue'.symm
  have htimed : Timed true 1 16 1000001900 1000002000 hundredNs :=
    ⟨by decide, by decide, by decide, by decide⟩
  have hbatch : ((@ofbRunSample Aead.Params Aead.Row 0 1 16 .unset).link
      (withClock Windows.ofbNowNs)).Runs
        (timedTrace 0 1 (Windows.reading 10000019 10000000) (Windows.reading 10000020 10000000))
        (0, hundredNs) :=
    runs_timeBatch_link.2 ⟨_, _, _, _, rfl, hstart, hstop, htimed⟩
  refine ⟨hstart, hstop, ?_, hmono _ _ _ hfirst hsecond (by decide),
    (hposix _ _).2 hposixValue.symm, (hposix _ _).2 (by decide), ?_,
    hlt _ _ hnow hlater (.inl (by decide)), hbatch, ?_⟩
  · have h := (hexact _ _ hfirst).2
    rw [hvalue] at h
    exact h
  · have h := (hposixExact _ hnow).2
    rw [hposixValue] at h
    exact h
  · obtain ⟨s₁, s₂, ht, hwithin⟩ := (helapsed 10000000).1 _ _ hbatch
    obtain ⟨rfl, rfl⟩ := timedTrace_inj ht
    exact hwithin _ _ ⟨_, rfl, hfirst, rfl⟩ ⟨_, rfl, hsecond, rfl⟩

end OfbBench
