import OfbBench.Lib.Link
import OfbBench.Runner

/-!
# The clock

`src/timer.c`: the two bodies of `ofb_now_ns`, of which a build has one, and the runner linked with
either.
-/

namespace OfbBench

namespace Windows

inductive Clock.Call
  | queryPerformanceCounter
  | queryPerformanceFrequency

/-- Both calls answer with the `QuadPart` they store, a signed 64-bit number. What they return is
not looked at. -/
@[reducible] def Clock.Resp : Clock.Call → Type
  | .queryPerformanceCounter => Int64
  | .queryPerformanceFrequency => Int64

abbrev Clock : Api := ⟨Clock.Call, Clock.Resp⟩

/-- The conversion of a counter. The division of a product binds tighter than the sum. -/
def nowNs (counter frequency : Int64) : UInt64 :=
  (counter / frequency).toUInt64 * 1000000000
    + (counter % frequency).toUInt64 * 1000000000 / frequency.toUInt64

def ofbNowNs : Prog Clock UInt64 := do
  let counter ← @Prog.ask Clock .queryPerformanceCounter
  let frequency ← @Prog.ask Clock .queryPerformanceFrequency
  pure (nowNs counter frequency)

end Windows

namespace Posix

/-- `struct timespec`; `time_t` and `long` are 64-bit types. -/
structure Timespec where
  tvSec : Int64
  tvNsec : Int64
  deriving DecidableEq

inductive Clock.Call
  | clockGettimeMonotonic

/-- The call answers with its return value and what `now` holds after it. -/
@[reducible] def Clock.Resp : Clock.Call → Type
  | .clockGettimeMonotonic => Int × Timespec

abbrev Clock : Api := ⟨Clock.Call, Clock.Resp⟩

def nowNs (now : Timespec) : UInt64 := now.tvSec.toUInt64 * 1000000000 + now.tvNsec.toUInt64

def ofbNowNs : Prog Clock UInt64 := do
  let (rc, now) ← @Prog.ask Clock .clockGettimeMonotonic
  if rc ≠ 0 then pure 0 else pure (nowNs now)

end Posix

section Link

variable {P R : Type} {C : Api}

/-- The calls of the runner, the clock's made by `clock`. -/
def withClock (clock : Prog C UInt64) :
    (c : Driver.Call P R) → Prog ((Driver P R).plus C) (Driver.Resp c)
  | .nowNs => clock.link Prog.askRight
  | c => @Prog.askLeft (Driver P R) C c

end Link

end OfbBench
