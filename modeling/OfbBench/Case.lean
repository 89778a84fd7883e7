import OfbBench.Runner

/-!
# One case of a benchmark matrix

The `run_case` functions of the two programs share their steps: create, verify, calibrate, take
samples, destroy. They differ in the batch they time, the row they print and in what they do when
a step fails.
-/

namespace OfbBench

/-- The step of a case that failed. -/
inductive Stage
  | create
  | verify
  | calibrate
  | sample
  deriving DecidableEq, Repr

section

variable {P R : Type} (timed : Ptr → UInt64 → Sample → Prog (Driver P R) (Int × Sample))
  (row : ℕ → Sample → R) (failed : Stage → Option Ptr → Prog (Driver P R) Int)

/-- The sample loop, with `remaining` samples to take and `i` taken. -/
def sampleLoop (backend : Ptr) (iterations : UInt64) : ℕ → ℕ → Sample → Prog (Driver P R) Int
  | 0, _, _ => do
    backendDestroy (some backend)
    pure 0
  | remaining + 1, i, sample => do
    let (rc, sample) ← timed backend iterations sample
    if rc ≠ 0 then failed .sample (some backend)
    else do
      printRow (row i sample)
      sampleLoop backend iterations remaining (i + 1) sample

/-- `run_case` with the parts in which the programs differ. -/
def caseWith (params : P) (calibration : Ptr → Prog (Driver P R) (Int × UInt64)) (samples : ℕ) :
    Prog (Driver P R) Int := do
  let created ← backendCreate params
  match created with
  | none => failed .create none
  | some backend => do
    let rc ← backendVerify backend
    if rc ≠ 0 then failed .verify (some backend)
    else do
      let (rc, iterations) ← calibration backend
      if rc ≠ 0 then failed .calibrate (some backend)
      else sampleLoop timed row failed backend iterations samples 0 .unset

end

end OfbBench
