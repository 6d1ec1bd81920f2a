import Ntprof.Bpf.TargetRdma
import Ntprof.Bpf.HostRdma
import Ntprof.Lib.ClockRun

/-!
# The clock of a run

`bpf_ktime_get_ns()` counts the nanoseconds since boot: it never goes back, and no hook runs at time 0.
-/

namespace Ntprof.Bpf

/-- What the helpers return in the hook of an event. -/
def HostEvent.env : HostEvent → Option HookEnv
  | .arm _ => none
  | .setupCmd env _ => some env
  | .nvmeDone env _ => some env
  | .blkDone env _ => some env
  | .tcp env _ => some env
  | .rdma env _ => some env

/-- What the helpers return in the hook of an event. -/
def TgtEvent.env : TgtEvent → Option HookEnv
  | .arm _ => none
  | .reqInit _ env _ => some env
  | .exec env _ _ => some env
  | .beIssue env _ => some env
  | .beDone env _ => some env
  | .complete env _ => some env
  | .tcp env _ => some env
  | .rdma env _ => some env

/-- The time of an event. -/
def HostEvent.now (e : HostEvent) : Option U64 := e.env.map HookEnv.now

/-- The time of an event. -/
def TgtEvent.now (e : TgtEvent) : Option U64 := e.env.map HookEnv.now

/-- 146 years of nanoseconds. The sum of two spans of such a clock is still a positive 64-bit value. -/
def clockLimit : U64 := 1#64 <<< 62

end Ntprof.Bpf
