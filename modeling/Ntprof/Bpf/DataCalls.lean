import Ntprof.Bpf.Clock

/-!
# The calls that move data

Which orders of hooks the receiving side of a queue can produce while it takes in data.
-/

namespace Ntprof.Bpf

/-- The copies of the target's `io_work` follow each other: a copy's exit is the next hook after its entry,
on the same CPU and thread. `open?` is the copy whose exit is due. A copy that goes unseen as a whole has
neither event. -/
def WholeCopies (open? : Option HookEnv) : List TgtEvent → Prop
  | [] => True
  | e :: es =>
    match open?, e with
    | _, .arm _ => WholeCopies open? es
    | none, .tcp env (.copy _ _ _) => WholeCopies (some env) es
    | none, .tcp _ (.copyDone _) => False
    | none, _ => WholeCopies none es
    | some env, .tcp env' (.copyDone _) => env'.cpu = env.cpu ∧ env'.tid = env.tid ∧ WholeCopies none es
    | some _, _ => False

/-- The calls of `nvme_tcp_recv_skb` follow each other, each on one CPU and thread. `open?` is the entry of
the call that is open. -/
def RecvCalls (open? : Option HookEnv) : List HostEvent → Prop
  | [] => True
  | e :: es =>
    match open?, e with
    | none, .tcp env (.recvSkb _ _ _) => RecvCalls (some env) es
    | some _, .tcp _ (.recvSkb _ _ _) => False
    | none, .tcp _ .recvSkbExit => False
    | some env, .tcp env' .recvSkbExit => env'.cpu = env.cpu ∧ env'.tid = env.tid ∧ RecvCalls none es
    | _, _ => RecvCalls open? es

/-- The receiving hooks run in threads: `bpf_get_current_pid_tgid()` is 0 in the idle task only. There other drivers
call `blk_mq_complete_request_remote` too, for requests without a record. -/
def Threaded (s : HostState) : HostEvent → Prop
  | .tcp env (.copy _ _) => env.tid ≠ 0
  | .tcp env (.r2t _) => env.tid ≠ 0
  | .tcp env .recvSkbExit => env.tid ≠ 0
  | .tcp env (.complete rq _) => s.hostRec rq ≠ none → env.tid ≠ 0
  | _ => True

/-! ## What a copy at the host counts for -/

/-- The context and the entry with which `on_copy` gets past its returns. -/
def copyTarget (f : Filter) (s : HostState) (env : HookEnv) (skb : U64) (pdu : Option U16) :
    Option (HostRx × HostEntry) :=
  if s.idle f then none
  else
    match ntpCtxGet s.rxCtx env, pdu with
    | some c, some cid =>
      if c.skb ≠ skb then none
      else ((s.rqByCid c.queue cid).bind s.hostEntry).map fun e => (c, e)
    | _, _ => none

/-- A copy, of the data of a read `e` that has not completed yet. If the call counts for no read, `on_copy`
lets the time of this one start at the call's entry: then the call has not worked on the read before. -/
structure CountsOnce (c : HostRx) (e : HostEntry) : Prop where
  running : e.record.ts .rspProc = 0
  fresh : c.dataRq = 0 → e.record.ts .c2hProc ≠ 0 → e.record.ts .c2hProc ≤ c.enter ∧ e.record.ts .c2hDone ≤ c.enter

/-- No copy counts twice, no request is set up anew while an open call counts for it, and a read whose data
was seen is over only after its completion was parsed in a call. -/
def ReadOnce (f : Filter) (s : HostState) : HostEvent → Prop
  | .tcp env (.copy skb pdu) => ∀ c e, copyTarget f s env skb pdu = some (c, e) → e.rq ≠ 0 → CountsOnce c e
  | .setupCmd env a => setupStores .tcp f s env a = true → ∀ cpu, (s.rxCtx cpu).tid ≠ 0 → (s.rxCtx cpu).dataRq ≠ a.rq
  | .blkDone _ rq => ∀ r, s.hostRec rq = some r → r.ts .c2hProc ≠ 0 → r.ts .rspProc ≠ 0
  | _ => True

end Ntprof.Bpf
