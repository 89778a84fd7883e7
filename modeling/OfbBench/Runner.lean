import OfbBench.Lib.Prog

/-!
# The runner

The calls the two benchmark programs make (the backend, the clock, the output streams), one timed
batch (`ofb_run_sample`, `run_timed`) and the calibration of the iteration count (`ofb_calibrate`,
`calibrate`).

The `long double` operations round by an arbitrary function `rnd` of the exact result; `id` is
exact arithmetic.
-/

namespace OfbBench

/-- The address of an object a library or the allocator handed out. -/
abbrev Ptr := ℕ

def uint64Max : UInt64 := 18446744073709551615

/-- `size_t` is a 64-bit type. -/
def sizeMax : UInt64 := uint64Max

def uintMax : UInt64 := 4294967295

def intMax : UInt64 := 2147483647

inductive Stream
  | stdout
  | stderr
  deriving DecidableEq, Repr

/-- What a benchmark program calls, `P` being its backend's parameters and `R` its result rows.
A row is one event, though `printf` may write it in two pieces. -/
inductive Driver.Call (P R : Type)
  | backendCreate (params : P)
  | backendVerify (backend : Ptr)
  | backendRunBatch (backend : Ptr) (iterations : UInt64)
  | backendDestroy (backend : Option Ptr)
  | nowNs
  | printRow (row : R)
  | print (stream : Stream) (text : String)

/-- `create` answers with the new backend, or with nothing and leaves `*backend` as it was;
`verify` and `run_batch` with their return value; the clock with its reading, 0 when it fails. -/
@[reducible] def Driver.Resp {P R : Type} : Driver.Call P R → Type
  | .backendCreate _ => Option Ptr
  | .backendVerify _ => Int
  | .backendRunBatch _ _ => Int
  | .backendDestroy _ => Unit
  | .nowNs => UInt64
  | .printRow _ => Unit
  | .print _ _ => Unit

abbrev Driver (P R : Type) : Api := ⟨Driver.Call P R, Driver.Resp⟩

section Calls

variable {P R : Type}

def backendCreate (params : P) : Prog (Driver P R) (Option Ptr) :=
  .ask (A := Driver P R) (.backendCreate params)

def backendVerify (backend : Ptr) : Prog (Driver P R) Int :=
  .ask (A := Driver P R) (.backendVerify backend)

def backendRunBatch (backend : Ptr) (iterations : UInt64) : Prog (Driver P R) Int :=
  .ask (A := Driver P R) (.backendRunBatch backend iterations)

def backendDestroy (backend : Option Ptr) : Prog (Driver P R) Unit :=
  .ask (A := Driver P R) (.backendDestroy backend)

def ofbNowNs : Prog (Driver P R) UInt64 := .ask (A := Driver P R) .nowNs

def printRow (row : R) : Prog (Driver P R) Unit := .ask (A := Driver P R) (.printRow row)

def print (stream : Stream) (text : String) : Prog (Driver P R) Unit :=
  .ask (A := Driver P R) (.print stream text)

variable {α : Type} {t : Trace (Driver P R)} {b : α}

theorem runs_backendCreate_bind {params : P} {f : Option Ptr → Prog (Driver P R) α} :
    (backendCreate params >>= f).Runs t b ↔
      ∃ r t', t = ⟨.backendCreate params, r⟩ :: t' ∧ (f r).Runs t' b := Iff.rfl

theorem runs_backendVerify_bind {backend : Ptr} {f : Int → Prog (Driver P R) α} :
    (backendVerify backend >>= f).Runs t b ↔
      ∃ r t', t = ⟨.backendVerify backend, r⟩ :: t' ∧ (f r).Runs t' b := Iff.rfl

theorem runs_backendRunBatch_bind {backend : Ptr} {n : UInt64} {f : Int → Prog (Driver P R) α} :
    (backendRunBatch backend n >>= f).Runs t b ↔
      ∃ r t', t = ⟨.backendRunBatch backend n, r⟩ :: t' ∧ (f r).Runs t' b := Iff.rfl

theorem runs_backendDestroy_bind {backend : Option Ptr} {f : Unit → Prog (Driver P R) α} :
    (backendDestroy backend >>= f).Runs t b ↔
      ∃ t', t = ⟨.backendDestroy backend, ()⟩ :: t' ∧ (f ()).Runs t' b :=
  ⟨fun ⟨_, t', ht, h⟩ => ⟨t', ht, h⟩, fun ⟨t', ht, h⟩ => ⟨(), t', ht, h⟩⟩

theorem runs_ofbNowNs_bind {f : UInt64 → Prog (Driver P R) α} :
    (ofbNowNs >>= f).Runs t b ↔ ∃ r t', t = ⟨.nowNs, r⟩ :: t' ∧ (f r).Runs t' b := Iff.rfl

theorem runs_printRow_bind {row : R} {f : Unit → Prog (Driver P R) α} :
    (printRow row >>= f).Runs t b ↔ ∃ t', t = ⟨.printRow row, ()⟩ :: t' ∧ (f ()).Runs t' b :=
  ⟨fun ⟨_, t', ht, h⟩ => ⟨t', ht, h⟩, fun ⟨t', ht, h⟩ => ⟨(), t', ht, h⟩⟩

theorem runs_print_bind {stream : Stream} {text : String} {f : Unit → Prog (Driver P R) α} :
    (print stream text >>= f).Runs t b ↔
      ∃ t', t = ⟨.print stream text, ()⟩ :: t' ∧ (f ()).Runs t' b :=
  ⟨fun ⟨_, t', ht, h⟩ => ⟨t', ht, h⟩, fun ⟨t', ht, h⟩ => ⟨(), t', ht, h⟩⟩

end Calls

/-- `struct ofb_sample` and `struct timed_sample`. -/
structure Sample where
  iterations : UInt64
  elapsedNs : UInt64
  bytes : UInt64
  deriving DecidableEq, Repr

/-- What an uninitialised `struct ofb_sample` holds; it is written before it is read. -/
def Sample.unset : Sample := ⟨0, 0, 0⟩

section Timing

variable {P R : Type}

/-- The sample of a batch of `iterations` between the readings `start` and `stop`. -/
def measured (counted : Bool) (iterations messageSize start stop : UInt64) : Sample where
  iterations := iterations
  elapsedNs := stop - start
  bytes := if counted then iterations * messageSize else 0

/-- A timed batch: `ofb_run_sample` and `run_timed` differ only in whether the bytes are counted.
The return value comes with `*sample` as the call leaves it. -/
def timeBatch (counted : Bool) (backend : Ptr) (iterations messageSize : UInt64)
    (sample : Sample) : Prog (Driver P R) (Int × Sample) := do
  let start ← ofbNowNs
  if start = 0 then pure (-1, sample) else do
    let rc ← backendRunBatch backend iterations
    if rc ≠ 0 then pure (-1, sample) else do
      let stop ← ofbNowNs
      if stop ≤ start ∨
          (counted ∧ messageSize ≠ 0 ∧ iterations > uint64Max / messageSize) then
        pure (-1, sample)
      else
        pure (0, measured counted iterations messageSize start stop)

def ofbRunSample (backend : Ptr) (iterations messageSize : UInt64) (sample : Sample) :
    Prog (Driver P R) (Int × Sample) :=
  timeBatch true backend iterations messageSize sample

/-- The iteration counts of a calibration: they are never 0. -/
abbrev Count := { n : UInt64 // 0 < n.toNat }

theorem toNat_double {n : UInt64} (h : ¬ n > uint64Max / 2) : (n * 2).toNat = 2 * n.toNat := by
  have hmax : uint64Max.toNat = 18446744073709551615 := rfl
  have htwo : (2 : UInt64).toNat = 2 := rfl
  rw [gt_iff_lt, UInt64.lt_iff_toNat_lt, UInt64.toNat_div, hmax, htwo] at h
  rw [UInt64.toNat_mul, htwo]
  omega

/-- The loop of a calibration: the count doubles until a batch of it takes an eighth of the target
or it cannot be doubled. It returns with the count and sample it stopped at. -/
def calibrateLoop (timed : UInt64 → Sample → Prog (Driver P R) (Int × Sample)) (targetNs : UInt64)
    (count : Count) (sample : Sample) : Prog (Driver P R) (Int × Count × Sample) := do
  let (rc, sample) ← timed count.1 sample
  if rc ≠ 0 then pure (-1, count, sample) else
    if h : sample.elapsedNs ≥ targetNs / 8 ∨ count.1 > uint64Max / 2 then
      pure (0, count, sample)
    else
      calibrateLoop timed targetNs
        ⟨count.1 * 2, by rw [toNat_double fun h' => h (.inr h')]; have := count.2; omega⟩ sample
termination_by 2 ^ 64 - count.1.toNat
decreasing_by
  have hd := toNat_double fun h' => h (.inr h')
  have := (count.1 * 2).toNat_lt
  have := count.2
  omega

end Timing

section Rescale

variable (rnd : ℚ → ℚ)

/-- `(uint64_t) x` for a `long double` in range. -/
def truncate (x : ℚ) : UInt64 := UInt64.ofNat ⌊x⌋₊

/-- `(long double) count * (long double) target_ns / (long double) elapsed_ns`. -/
def scaled (count targetNs elapsedNs : UInt64) : ℚ :=
  rnd (rnd (rnd count.toNat * rnd targetNs.toNat) / rnd elapsedNs.toNat)

/-- The count a calibration ends with: rescaled to the target unless the batch reached it or the
rescaled count is out of range. -/
def rescale (count targetNs elapsedNs : UInt64) : UInt64 :=
  if elapsedNs < targetNs ∧ elapsedNs ≠ 0 then
    if scaled rnd count targetNs elapsedNs < rnd uint64Max.toNat then
      truncate (scaled rnd count targetNs elapsedNs)
    else count
  else count

variable {P R : Type}

/-- `ofb_calibrate` and `calibrate` differ in the batch they time and in the count they start from.
The return value comes with `*iterations` as the call leaves it. -/
def calibrateFrom (timed : UInt64 → Sample → Prog (Driver P R) (Int × Sample)) (start : Count)
    (targetNs iterations : UInt64) : Prog (Driver P R) (Int × UInt64) := do
  let (rc, count, sample) ← calibrateLoop timed targetNs start .unset
  if rc ≠ 0 then pure (-1, iterations) else
    let count := rescale rnd count.1 targetNs sample.elapsedNs
    pure (0, if count = 0 then 1 else count)

def ofbCalibrate (backend : Ptr) (messageSize targetNs iterations : UInt64) :
    Prog (Driver P R) (Int × UInt64) :=
  calibrateFrom rnd (fun count sample => ofbRunSample backend count messageSize sample)
    ⟨64, by decide⟩ targetNs iterations

/-- `(long double) bytes * 1000000000.0L / (long double) elapsed_ns / 1048576.0L`. -/
def mibPerSecond (sample : Sample) : ℚ :=
  rnd (rnd (rnd (rnd sample.bytes.toNat * 1000000000) / rnd sample.elapsedNs.toNat) / 1048576)

/-- `(long double) iterations * 1000000000.0L / (long double) elapsed_ns`. -/
def handshakesPerSecond (sample : Sample) : ℚ :=
  rnd (rnd (rnd sample.iterations.toNat * 1000000000) / rnd sample.elapsedNs.toNat)

end Rescale

end OfbBench
