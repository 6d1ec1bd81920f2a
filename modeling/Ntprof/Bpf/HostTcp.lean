import Ntprof.Bpf.Host

/-!
# The NVMe/TCP host hooks (`bpf/nvme_tcp_host.bpf.c`)

A `struct nvme_tcp_request` stands for itself in the events and contexts; `rq_from_pdu` gives its request.
`host_queue_of` is with the hook that calls it, in `Ntprof.Bpf.Host`.
-/

namespace Ntprof.Bpf

/-! ## Sending -/

/-- `on_send_done`; `moreToSend` says that the queue's `request` is still set. -/
def tcpOnSendDone (k : Layout) (f : Filter) (s : HostState) (env : HookEnv) (req : U64) (ret : BitVec 32)
    (cmdPdu moreToSend : Bool) : HostState :=
  if ret ≠ 1 ∨ s.idle f then s
  else
    let rq := rqFromPdu k req
    let s := if cmdPdu && f.trackQueues then s.uncount rq cntUnsent false else s
    if moreToSend then s
    else
      match s.hostRec rq with
      | none => s
      | some r =>
        if r.ts .cmdSent = 0 then s.setRec rq (r.stamp .cmdSent env.now)
        else if r.ts .r2tProc ≠ 0 then s.setRec rq (r.stamp .dataSent env.now)
        else s

/-- `send_enter`, on its context. -/
def sendEnter (slots : Nat → SendCtx) (env : HookEnv) (req : U64) : Nat → SendCtx :=
  ctxPut slots env { tid := env.tid, req := req }

/-- `send_exit`, on its context. -/
def sendLeave (slots : Nat → SendCtx) (env : HookEnv) : Nat → SendCtx := ctxClear slots env

/-- `send_exit`. -/
def sendExit (k : Layout) (f : Filter) (s : HostState) (env : HookEnv) (ret : BitVec 32)
    (cmdPdu moreToSend : Bool) : HostState :=
  match ntpCtxGet s.sendCtx env with
  | none => s
  | some c =>
    tcpOnSendDone k f { s with sendCtx := sendLeave s.sendCtx env } env c.req ret cmdPdu moreToSend

/-- `on_send_h2c`. -/
def onSendH2c (k : Layout) (s : HostState) (env : HookEnv) (req : U64) : HostState :=
  if s.inflight = 0 then s
  else
    match s.hostRec (rqFromPdu k req) with
    | none => s
    | some r =>
      if r.ts .r2tProc ≠ 0 then s.setRec (rqFromPdu k req) (r.stampOnce .dataStart env.now) else s

/-- The request that a queue sends, and whether its command PDU is still to be sent. -/
structure QueueRequest where
  req : KAddr
  sendCmdPdu : Bool

/-- `tsend_found`, on the context. -/
def TsendCtx.found (c : TsendCtx) (q : QueueRequest) : TsendCtx :=
  { c with req := q.req, cmdPdu := q.sendCmdPdu }

/-- The context `try_send_enter` stores. -/
def tsendStart (env : HookEnv) (queue : U64) (request : Option QueueRequest) : TsendCtx :=
  match request with
  | none => { tid := env.tid, queue := queue, req := 0 }
  | some q => TsendCtx.found { tid := env.tid, queue := queue, req := 0 } q

/-- `try_send_enter`. -/
def trySendEnter (k : Layout) (f : Filter) (s : HostState) (env : HookEnv) (queue : U64)
    (request : Option QueueRequest) : HostState :=
  if s.idle f then s
  else
    let s := { s with tsendCtx := ctxPut s.tsendCtx env (tsendStart env queue request) }
    match request with
    | none => s
    | some q => onSendH2c k s env q.req

/-- `on_sock_send`; `userData` is the socket's, `request` that of the queue in the context. -/
def onSockSend (k : Layout) (f : Filter) (s : HostState) (env : HookEnv) (userData : U64)
    (request : Option QueueRequest) : HostState :=
  if s.idle f then s
  else
    match ntpCtxGet s.tsendCtx env with
    | none => s
    | some c =>
      if c.req ≠ 0 ∨ userData ≠ c.queue then s
      else
        match request with
        | none => s
        | some q => onSendH2c k { s with tsendCtx := ctxPut s.tsendCtx env (c.found q) } env q.req

/-- `try_send_exit`, on its context. -/
def trySendLeave (slots : Nat → TsendCtx) (env : HookEnv) : Nat → TsendCtx := ctxClear slots env

/-- `try_send_exit`; `sent` says that the command PDU is no longer the queue's next. -/
def trySendExit (k : Layout) (f : Filter) (s : HostState) (env : HookEnv) (ret : BitVec 32)
    (sent moreToSend : Bool) : HostState :=
  match ntpCtxGet s.tsendCtx env with
  | none => s
  | some c =>
    let s := { s with tsendCtx := trySendLeave s.tsendCtx env }
    if c.req = 0 then s
    else
      let s := if c.cmdPdu && f.trackQueues && sent then s.uncount (rqFromPdu k c.req) cntUnsent false
        else s
      tcpOnSendDone k f s env c.req ret false moreToSend

/-! ## Receiving -/

/-- `on_recv_skb`: the skb, the queue of its socket and its timestamp. -/
def onRecvSkb (f : Filter) (s : HostState) (env : HookEnv) (skb userData : U64) (tstamp : S64) :
    HostState :=
  if s.idle f then s
  else
    { s with
      rxCtx := hostRxEnter s.rxCtx env userData skb (ntpSkbArrival f tstamp env.now) env.now }

/-- In `on_recv_skb_exit`: a sampled read whose data the call copied gets the call's time. -/
def recvSkbData (s : HostState) (env : HookEnv) (c : HostRx) : HostState :=
  if c.dataRq = 0 then s
  else
    match s.hostRec c.dataRq with
    | none => s
    | some r => s.setRec c.dataRq (hostDataDone r c env.now)

/-- `on_recv_skb_exit`, on its context: `host_data_done` runs if the read has a record. -/
def recvSkbLeave (slots : Nat → HostRx) (env : HookEnv) (counted : Bool) : Nat → HostRx :=
  match ntpCtxGet slots env with
  | none => slots
  | some c => ctxPut slots env { (if counted then c.dataDone else c) with tid := 0 }

/-- `on_recv_skb_exit`. -/
def onRecvSkbExit (s : HostState) (env : HookEnv) : HostState :=
  match ntpCtxGet s.rxCtx env with
  | none => s
  | some c =>
    let counted := c.dataRq ≠ 0 ∧ (s.hostRec c.dataRq).isSome
    { recvSkbData s env c with rxCtx := recvSkbLeave s.rxCtx env counted }

/-- In `on_copy`: another sampled read's data ended earlier in this skb. -/
def switchRead (s : HostState) (env : HookEnv) (c : HostRx) : HostState :=
  if c.dataRq ≠ 0 then
    match s.hostRec c.dataRq with
    | none => s
    | some prev => s.setRec c.dataRq (hostDataDone prev c env.now)
  else s

/-- In `on_copy`: the first copy of a read stamps its first data. -/
def firstData (r : HostRec) (c : HostRx) (now : U64) : HostRec :=
  if r.ts .c2hProc = 0 then (r.stamp .c2hArr c.arrival).stamp .c2hProc now else r

/-- In `on_copy`: when this call started to work on the read's data. -/
def busyFrom (r : HostRec) (c : HostRx) (now : U64) : U64 :=
  if r.ts .c2hProc = 0 then now else if c.dataRq ≠ 0 then now else c.enter

/-- `on_copy` for a read `rq` that has an entry `e`. -/
def copyData (s : HostState) (env : HookEnv) (c : HostRx) (rq : U64) (e : HostEntry) : HostState :=
  let s := s.setRec rq (e.record.stamp .c2hLastArr c.arrival)
  if c.dataRq = e.rq then s
  else
    let s := switchRead s env c
    match s.hostRec rq with
    | none => s
    | some r =>
      { s.setRec rq (firstData r c env.now) with
        rxCtx := ctxPut s.rxCtx env { c with dataRq := e.rq, busyFrom := busyFrom r c env.now } }

/-- `on_copy`; `pdu` is the cid in the header of a C2H data PDU, if the queue in the context holds one. -/
def hostOnCopy (f : Filter) (s : HostState) (env : HookEnv) (skb : U64) (pdu : Option U16) : HostState :=
  if s.idle f then s
  else
    match ntpCtxGet s.rxCtx env with
    | none => s
    | some c =>
      if c.skb ≠ skb then s
      else
        match pdu with
        | none => s
        | some cid =>
          match s.rqByCid c.queue cid with
          | none => s
          | some rq =>
            match s.hostEntry rq with
            | none => s
            | some e => copyData s env c rq e

/-- `on_r2t`. -/
def onR2t (k : Layout) (s : HostState) (env : HookEnv) (req : U64) : HostState :=
  match ntpCtxGet s.rxCtx env with
  | none => s
  | some c =>
    match s.hostRec (rqFromPdu k req) with
    | none => s
    | some r =>
      if r.ts .r2tProc ≠ 0 then s.setRec (rqFromPdu k req) (r.orFlags ntpFMultiR2t)
      else
        s.setRec (rqFromPdu k req)
          (((r.orFlags ntpFR2t).stamp .r2tArr c.arrival).stamp .r2tProc env.now)

/-- `on_complete`; `c2hData` says that the header in the context's queue is that of C2H data. -/
def onComplete (f : Filter) (s : HostState) (env : HookEnv) (rq : KAddr) (c2hData : Bool) : HostState :=
  match hostComplete f s env rq with
  | (s, false) => s
  | (s, true) =>
    match s.hostRec rq with
    | none => s
    | some r =>
      if r.ts .c2hProc = 0 then s
      else if (ntpCtxGet s.rxCtx env).isSome && c2hData then s.setRec rq (r.orFlags ntpFDataSuccess)
      else s

/-! ## Events -/

/-- What makes an NVMe/TCP host hook run. -/
inductive HostTcpEvent where
  | queueRq (rq : KAddr) (driverData : U64)
  | sendFx (req : U64) (ret : BitVec 32) (cmdPdu moreToSend : Bool)
  | sendKp (req : U64)
  | sendKr (ret : BitVec 32) (cmdPdu moreToSend : Bool)
  | sendH2c (req : U64)
  | trySend (queue : U64) (request : Option QueueRequest)
  | sockSend (userData : U64) (request : Option QueueRequest)
  | trySendDone (ret : BitVec 32) (sent moreToSend : Bool)
  | recvSkb (skb userData : U64) (tstamp : S64)
  | recvSkbExit
  | copy (skb : U64) (pdu : Option U16)
  | r2t (req : U64)
  | complete (rq : KAddr) (c2hData : Bool)

/-- The hook of an event. -/
def HostTcpEvent.run (k : Layout) (f : Filter) (s : HostState) (env : HookEnv) :
    HostTcpEvent → HostState
  | .queueRq rq driverData => hostQueueRq f s env rq driverData
  | .sendFx req ret cmdPdu moreToSend => tcpOnSendDone k f s env req ret cmdPdu moreToSend
  | .sendKp req => { s with sendCtx := sendEnter s.sendCtx env req }
  | .sendKr ret cmdPdu moreToSend => sendExit k f s env ret cmdPdu moreToSend
  | .sendH2c req => onSendH2c k s env req
  | .trySend queue request => trySendEnter k f s env queue request
  | .sockSend userData request => onSockSend k f s env userData request
  | .trySendDone ret sent moreToSend => trySendExit k f s env ret sent moreToSend
  | .recvSkb skb userData tstamp => onRecvSkb f s env skb userData tstamp
  | .recvSkbExit => onRecvSkbExit s env
  | .copy skb pdu => hostOnCopy f s env skb pdu
  | .r2t req => onR2t k s env req
  | .complete rq c2hData => onComplete f s env rq c2hData

end Ntprof.Bpf
