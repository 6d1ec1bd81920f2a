import Ntprof.Bpf.TargetRdma
import Ntprof.Bpf.HostRdma
import Ntprof.Lib.CpuContext

/-!
# The hooked calls of a run

Which events are the entry and the exit of a hooked call, for each of the contexts that live in per-CPU
slots: `rx_ctx`, `send_ctx` and `tsend_ctx` of a host object and `tgt_ctx` of a target object. An entry
hook that returns early stores nothing. The environment of an event says on which CPU its thread is then;
between two events of a thread it may have been preempted and have migrated.
-/

namespace Ntprof.Bpf

open CpuContext

/-- The tags of the slots. -/
def ctxTags {γ : Type} [Tagged γ] (slots : Nat → γ) (cpu : ℕ) : U64 := Tagged.tid (slots cpu)

/-- The calls that receive: of `nvme_tcp_recv_skb` over TCP, of a completion handler over RDMA. -/
def rxOp (tr : Transport) (f : Filter) (s : HostState) : HostEvent → Op U64
  | .tcp env (.recvSkb _ _ _) => if tr = .tcp then .enter env.cpu env.tid (!s.idle f) else .other
  | .tcp env .recvSkbExit => if tr = .tcp then .leave env.cpu env.tid else .other
  | .rdma env (.sendDone _ _) => if tr = .rdma then .enter env.cpu env.tid (!s.idle f) else .other
  | .rdma env (.recvDone _ _) => if tr = .rdma then .enter env.cpu env.tid (!s.idle f) else .other
  | .rdma env (.invDone _) => if tr = .rdma then .enter env.cpu env.tid (!s.idle f) else .other
  | .rdma env .rxExit => if tr = .rdma then .leave env.cpu env.tid else .other
  | _ => .other

/-- The calls of the `nvme_tcp_try_send_*` functions, in the kretprobe flavour. -/
def sendOp (tr : Transport) : HostEvent → Op U64
  | .tcp env (.sendKp _) => if tr = .tcp then .enter env.cpu env.tid true else .other
  | .tcp env (.sendKr _ _ _) => if tr = .tcp then .leave env.cpu env.tid else .other
  | _ => .other

/-- The calls of `nvme_tcp_try_send`. -/
def tsendOp (tr : Transport) (f : Filter) (s : HostState) : HostEvent → Op U64
  | .tcp env (.trySend _ _) => if tr = .tcp then .enter env.cpu env.tid (!s.idle f) else .other
  | .tcp env (.trySendDone _ _ _) => if tr = .tcp then .leave env.cpu env.tid else .other
  | _ => .other

/-- The calls of `nvmet_rdma_recv_done`. -/
def tgtOp (tr : Transport) : TgtEvent → Op U64
  | .rdma env (.recvDone _) => if tr = .rdma then .enter env.cpu env.tid true else .other
  | .rdma env .recvDoneExit => if tr = .rdma then .leave env.cpu env.tid else .other
  | _ => .other

end Ntprof.Bpf
