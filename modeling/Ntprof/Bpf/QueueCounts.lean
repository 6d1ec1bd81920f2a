import Ntprof.Bpf.HostRdma
import Ntprof.Bpf.TargetRdma
import Ntprof.Lib.PrefixRun

/-!
# Exact queue counts (`--exact-queues`)

What the counts in `qstats` and `tqstats` stand for: the requests in `counted` and the commands in
`tcounted` that are still to be taken off them.
-/

namespace Ntprof.Bpf

/-- The request is counted on a queue under a flag. -/
def Counted.on (bit : U32) (queue : U64) (c : Counted) : Bool :=
  decide (c.queue = queue) && decide (c.flags &&& bit ≠ 0)

/-- The command is counted on a queue under a flag. -/
def TCounted.on (bit : U32) (sq : U64) (c : TCounted) : Bool :=
  decide (c.sq = sq) && decide (c.flags &&& bit ≠ 0)

/-- Each count of a host queue is the number of requests that are counted on it, and each request is
counted on a queue that has counts. -/
structure HostState.Exact (s : HostState) : Prop where
  unsent : ∀ e ∈ s.qstats.entries, e.2.unsent.toInt = s.counted.tally (Counted.on cntUnsent e.1)
  inflight : ∀ e ∈ s.qstats.entries, e.2.inflight.toInt = s.counted.tally (Counted.on cntInflight e.1)
  held : ∀ e ∈ s.counted.entries, (s.qstats.lookup e.2.queue).isSome

/-- Each count of a target queue is the number of commands that are counted on it, and each command is
counted on a queue that has counts. -/
structure TgtState.Exact (s : TgtState) : Prop where
  outstanding : ∀ e ∈ s.tqstats.entries,
    e.2.outstanding.toInt = s.tcounted.tally (TCounted.on cntOutstanding e.1)
  respQueue : ∀ e ∈ s.tqstats.entries,
    e.2.respQueue.toInt = s.tcounted.tally (TCounted.on cntRespQueued e.1)
  held : ∀ e ∈ s.tcounted.entries, (s.tqstats.lookup e.2.sq).isSome

/-! ## Full maps -/

/-- The request and the queue of a `->queue_rq()` of the transport. -/
def HostEvent.queued (tr : Transport) : HostEvent → Option (U64 × U64)
  | .tcp _ (.queueRq rq driverData) => if tr = .tcp then some (rq, driverData) else none
  | .rdma _ (.queueRq rq driverData) => if tr = .rdma then some (rq, driverData) else none
  | _ => none

/-- `host_queue_rq` counts a new request while `counted` is full. -/
def hostOverflow (tr : Transport) (f : Filter) (s : HostState) (e : HostEvent) : Bool :=
  match e.queued tr with
  | none => false
  | some (rq, queue) =>
    s.armed && f.trackQueues && (s.counted.lookup rq).isNone &&
      ((s.qstats.lookup queue).isSome || !s.qstats.full) && s.counted.full

/-- No request of the run is counted while `counted` is full. -/
def hostFits (tr : Transport) (k : Layout) (f : Filter) (s : HostState) (es : List HostEvent) : Bool :=
  PrefixRun.avoids (hostStep tr k f) (hostOverflow tr f) s es

/-- `ntp_t_req_init` counts a command on a new `nvmet_req` while `tcounted` is full. -/
def tgtOverflow (tr : Transport) (f : Filter) (s : TgtState) : TgtEvent → Bool
  | .reqInit seen env a =>
    seen && reqInitRecognised tr s env a && f.trackQueues && (s.tcounted.lookup a.req).isNone &&
      ((s.tqstats.lookup a.sq).isSome || !s.tqstats.full) && s.tcounted.full
  | _ => false

/-- No command of the run is counted while `tcounted` is full. -/
def tgtFits (tr : Transport) (f : Filter) (s : TgtState) (es : List TgtEvent) : Bool :=
  PrefixRun.avoids (tgtStep tr f) (tgtOverflow tr f) s es

end Ntprof.Bpf
