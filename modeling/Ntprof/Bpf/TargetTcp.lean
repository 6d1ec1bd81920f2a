import Ntprof.Bpf.Target

/-!
# The NVMe/TCP target hooks (`bpf/nvme_tcp_target.bpf.c`)

`tgt_is_ours`, `tgt_sampled` and what they use are with the hook that calls them, in
`Ntprof.Bpf.Target`.
-/

namespace Ntprof.Bpf

/-! ## What a thread last read from a socket -/

/-- `on_copy`: the skb, its socket and the offset of the copy. -/
def onCopy (s : TgtState) (env : HookEnv) (skb sk : U64) (offset : S64) : TgtState :=
  let enter := if s.inflight ≠ 0 then env.now else 0
  { s with
    tcpRx := ctxPut s.tcpRx env { tid := env.tid, skb := skb, sk := sk, enter := enter, offset := offset } }

/-- What `on_copy_done` reads: the copy's result, and through the socket in its context the queue
(`ownsSocket`: it points back to the socket), whether the queue receives data, the `nvmet_req` of the
command it receives, and the skb's timestamp. `own` is no argument of the hook: it is the `nvmet_req`
whose data the copy moved, if any. -/
structure CopyDoneArgs where
  ret : BitVec 32
  ownsSocket : Bool
  recvData : Bool
  cmd : Option KAddr
  tstamp : S64 := 0
  own : Option KAddr

/-- In `on_copy_done`: data after an R2T, its PDU header parsed, not yet executed. -/
def awaitsData (r : TgtRec) : Bool :=
  r.hdr.has ntpFR2t && r.ts .dataProc != 0 && r.ts .exec == 0

/-- In `on_copy_done`: when the time of this copy starts to count. -/
def copyFrom (r : TgtRec) (c : TcpRx) : U64 :=
  if r.h2cSkbs = 0 ∧ 0 < c.offset.toInt then r.ts .dataProc else c.enter

/-- In `on_copy_done`: the time of a copy is added to the record. -/
def addCopy (f : Filter) (r : TgtRec) (c : TcpRx) (tstamp : S64) (now : U64) : TgtRec :=
  let r' := (r.stamp .dataDone now).stamp .dataLastArr (ntpSkbArrival f tstamp now)
  { r' with h2cBusyNs := r.h2cBusyNs + (now - copyFrom r c), h2cSkbs := r.h2cSkbs + 1 }

/-- `on_copy_done`, of a copy whose start was seen. -/
def copyDone (f : Filter) (s : TgtState) (env : HookEnv) (c : TcpRx) (a : CopyDoneArgs) : TgtState :=
  if !a.ownsSocket || !a.recvData then s
  else
    match a.cmd with
    | none => s
    | some req =>
      match s.tgtRec req with
      | none => s
      | some r =>
        if !awaitsData r then s
        else if env.now < copyFrom r c then s
        else s.setRec req (addCopy f r c a.tstamp env.now)

/-- `on_copy_done`. -/
def onCopyDone (f : Filter) (s : TgtState) (env : HookEnv) (a : CopyDoneArgs) : TgtState :=
  if s.inflight = 0 then s
  else
    match ntpCtxGet s.tcpRx env with
    | none => s
    | some c =>
      let s := { s with tcpRx := ctxPut s.tcpRx env { c with enter := 0 } }
      if c.enter = 0 ∨ a.ret ≠ 0 then s else copyDone f s env c a

/-! ## Transport events -/

/-- What `on_queue_resp` reads of a command over TCP. -/
structure TcpRespArgs where
  req : KAddr
  opcode : U8
  rbytesDone : U32
  transferLen : U32

/-- `nvmet_tcp_need_data_in()`: a write whose data has not all arrived. -/
def TcpRespArgs.needDataIn (a : TcpRespArgs) : Bool :=
  a.opcode == ntpNvmeCmdWrite && decide (a.rbytesDone < a.transferLen)

/-- Stamp the record of `req` once, if there is one. -/
def TgtState.stampRec (s : TgtState) (req : U64) (i : TgtTs) (t : U64) : TgtState :=
  match s.tgtRec req with
  | none => s
  | some r => s.setRec req (r.stampOnce i t)

/-- `on_queue_resp`. -/
def tcpOnQueueResp (f : Filter) (s : TgtState) (env : HookEnv) (a : TcpRespArgs) : TgtState :=
  if s.idle f then s
  else if (f.trackQueues || (s.tgtRec a.req).isSome) && a.needDataIn then
    s.stampRec a.req .r2tQueued env.now
  else
    let s := if f.trackQueues then s.countRespQueued a.req else s
    s.stampRec a.req .rspQueued env.now

/-- `on_h2c`; `sk` is the socket of the command's queue. -/
def onH2c (f : Filter) (s : TgtState) (env : HookEnv) (req : KAddr) (sk : U64) (tstamp : S64) : TgtState :=
  if s.inflight = 0 then s
  else
    match s.tgtRec req with
    | none => s
    | some r =>
      if r.ts .r2tSent = 0 then s.setRec req (r.orFlags ntpFInlineData)
      else if r.ts .dataProc ≠ 0 then s
      else
        let arrival := rxArrival f s env sk tstamp env.now
        s.setRec req (((r.orFlags ntpFR2t).stamp .dataArr arrival).stamp .dataProc env.now)

/-- `cmd->state`, as far as `on_sendmsg` tells its values apart. -/
inductive SendState where
  | r2t
  | dataPdu
  | response
  | other
  deriving DecidableEq, Repr

/-- What `on_sendmsg` reads: the socket, its queue, and the `nvmet_req`, the offset and the state of the
command the queue sends. -/
structure SendmsgArgs where
  sock : U64
  queue : U64
  sndCmd : Option KAddr
  offset : U64
  state : SendState
  sqhdDisabled : Bool

/-- In `on_sendmsg`: the PDU that goes out, for a command `req`. -/
def sendPdu (f : Filter) (s : TgtState) (env : HookEnv) (req : U64) (a : SendmsgArgs) : TgtState :=
  match a.state with
  | .r2t => s.stampRec req .r2tSent env.now
  | .dataPdu =>
    let s := s.stampRec req .c2hSent env.now
    if a.sqhdDisabled then
      let s := match s.tgtRec req with
        | none => s
        | some r => s.setRec req (r.orFlags ntpFDataSuccess)
      s.tgtFinish f env req
    else s
  | .response =>
    let s := match s.tgtRec req with
      | none => s
      | some r => s.setRec req (r.stamp .rspSent env.now)
    s.tgtFinish f env req
  | .other => s

/-- `on_sendmsg`. -/
def onSendmsg (f : Filter) (s : TgtState) (env : HookEnv) (a : SendmsgArgs) : TgtState :=
  if s.idle f then s
  else if s.tqueues.lookup a.queue ≠ some a.sock then s
  else
    match a.sndCmd with
    | none => s
    | some req =>
      if a.offset ≠ 0 then s
      else if (s.tgtRec req).isNone ∧ !f.trackQueues then s
      else sendPdu f s env req a

/-! ## Events -/

/-- What makes an NVMe/TCP target hook run. -/
inductive TgtTcpEvent where
  | copy (skb sk : U64) (offset : S64)
  | copyDone (a : CopyDoneArgs)
  | queueResp (a : TcpRespArgs)
  | h2c (req : KAddr) (sk : U64) (tstamp : S64)
  | sendmsg (a : SendmsgArgs)

/-- The hook of an event. -/
def TgtTcpEvent.run (f : Filter) (s : TgtState) (env : HookEnv) : TgtTcpEvent → TgtState
  | .copy skb sk offset => onCopy s env skb sk offset
  | .copyDone a => onCopyDone f s env a
  | .queueResp a => tcpOnQueueResp f s env a
  | .h2c req sk tstamp => onH2c f s env req sk tstamp
  | .sendmsg a => onSendmsg f s env a

end Ntprof.Bpf
