import Ntprof.Record

/-!
# The offset between the clocks (`src/loader.c`)

The kernel stamps packets with the real-time clock, the records use the monotonic one. `real_minus_mono` estimates the
difference, for the filter of the BPF programs.
-/

namespace Ntprof

/-- `struct timespec`. -/
structure Timespec where
  tvSec : S64
  tvNsec : S64

/-- A time in nanoseconds. -/
def Timespec.ns (t : Timespec) : S64 := t.tvSec * 1000000000 + t.tvNsec

/-- The three clock readings of one turn: monotonic, real-time, monotonic. -/
structure ClockRead where
  m1 : Timespec
  r : Timespec
  m2 : Timespec

/-- `gap`. -/
def ClockRead.gap (c : ClockRead) : S64 := c.m2.ns - c.m1.ns

/-- The offset that one turn gives. -/
def ClockRead.offset (c : ClockRead) : S64 := c.r.ns - (c.m1.ns + c.gap.sdiv 2)

/-- One turn of the loop, with `best` and `best_gap`. -/
def narrower (best : S64 × S64) (c : ClockRead) : S64 × S64 :=
  if c.gap.slt best.2 then (c.offset, c.gap) else best

/-- `real_minus_mono`, for what the clocks return. -/
def realMinusMono (reads : Vector ClockRead 16) : S64 :=
  (reads.toList.foldl narrower (0, 0x7fffffffffffffff#64)).1

end Ntprof
