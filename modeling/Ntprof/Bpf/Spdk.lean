import Ntprof.Bpf.HostRdma

/-!
# SPDK's transports (`bpf/spdk.bpf.h`, `bpf/spdk_*.bpf.c`)

SPDK samples commands and times them itself. A done probe hands over the times of a command that is over, and
its program turns them into a record at once. Over TCP two times come from the kernel: those of the packets
that a thread read and of what it sent, which are kept in a ring for each CPU. The state also holds what only
some of the four objects use.
-/

namespace Ntprof.Bpf

/-- `struct ntp_filter` with the fields that only the SPDK objects read. -/
structure SpdkFilter extends Filter where
  npids : U8 := 0
  pids : Vector U32 8 := Vector.replicate _ 0

/-! ## SPDK's times -/

/-- `SPDK_TIMES`. -/
abbrev spdkTimes : Nat := 10

instance neZeroSpdkTimes : NeZero spdkTimes := ⟨by decide⟩

/-- `struct spdk_times`: what the programs read of it. -/
structure SpdkTimes where
  t : Fin spdkTimes → U64 := fun _ => 0
  r2ts : U16 := 0
  flags : U16 := 0
  bytes : U32 := 0

/-- `SPDK_F_C2H_SUCCESS`. -/
def spdkFC2hSuccess : U16 := 1#16 <<< 0

/-- `enum spdk_host_event`. -/
inductive SpdkHostEvent where
  | submit
  | cmdSent
  | r2t
  | h2cStart
  | h2cSent
  | c2h
  | rsp
  | done
  deriving DecidableEq, Repr

/-- `enum spdk_tgt_event`. -/
inductive SpdkTgtEvent where
  | cmd
  | r2tQueued
  | r2tSent
  | h2c
  | exec
  | executed
  | rspQueued
  | c2hSent
  | rspSent
  deriving DecidableEq, Repr

/-- `enum spdk_rdma_host_event`. -/
inductive SpdkRdmaHostEvent where
  | submit
  | cmdPosted
  | sendDone
  | rsp
  | done
  deriving DecidableEq, Repr

/-- `enum spdk_rdma_tgt_event`. -/
inductive SpdkRdmaTgtEvent where
  | cmdArr
  | cmd
  | readQueued
  | readPosted
  | readDone
  | exec
  | executed
  | rspQueued
  | rspPosted
  | sendDone
  deriving DecidableEq, Repr

namespace SpdkTimes

/-- The time of an event of a host over TCP. -/
def host (st : SpdkTimes) (e : SpdkHostEvent) : U64 :=
  st.t (match e with
    | .submit => 0 | .cmdSent => 1 | .r2t => 2 | .h2cStart => 3 | .h2cSent => 4 | .c2h => 5 | .rsp => 6 | .done => 7)

/-- The time of an event of a target over TCP. -/
def tgt (st : SpdkTimes) (e : SpdkTgtEvent) : U64 :=
  st.t (match e with
    | .cmd => 0 | .r2tQueued => 1 | .r2tSent => 2 | .h2c => 3 | .exec => 4 | .executed => 5 | .rspQueued => 6
    | .c2hSent => 7 | .rspSent => 8)

/-- The time of an event of a host over RDMA. -/
def rdmaHost (st : SpdkTimes) (e : SpdkRdmaHostEvent) : U64 :=
  st.t (match e with | .submit => 0 | .cmdPosted => 1 | .sendDone => 2 | .rsp => 3 | .done => 4)

/-- The time of an event of a target over RDMA. -/
def rdmaTgt (st : SpdkTimes) (e : SpdkRdmaTgtEvent) : U64 :=
  st.t (match e with
    | .cmdArr => 0 | .cmd => 1 | .readQueued => 2 | .readPosted => 3 | .readDone => 4 | .exec => 5 | .executed => 6
    | .rspQueued => 7 | .rspPosted => 8 | .sendDone => 9)

end SpdkTimes

/-! ## Rings of (time, value) -/

/-- `SPDK_RING`. -/
def spdkRing : Nat := 512

/-- `struct spdk_ring`. -/
structure SpdkRing where
  tid : U64 := 0
  n : U64 := 0
  t : Fin spdkRing → U64 := fun _ => 0
  v : Fin spdkRing → U64 := fun _ => 0

/-- `x & (SPDK_RING - 1)`. -/
def ringSlot (x : U64) : Fin spdkRing :=
  ⟨(x &&& BitVec.ofNat 64 (spdkRing - 1)).toNat, by
    rw [BitVec.toNat_and]
    exact lt_of_le_of_lt Nat.and_le_right (by decide)⟩

/-- `spdk_ring_own`: the ring of thread `tid`, that may have taken the slot over. -/
def spdkRingOwn (r : SpdkRing) (tid : U64) : SpdkRing := if r.tid ≠ tid then { r with tid := tid, n := 0 } else r

/-- `spdk_ring_add`. -/
def spdkRingAdd (r : SpdkRing) (t v : U64) : SpdkRing :=
  { r with t := Function.update r.t (ringSlot r.n) t
           v := Function.update r.v (ringSlot r.n) v
           n := r.n + 1 }

/-- A halving in `spdk_ring_find`, of the range from `lo` to `hi`. -/
def halve (r : SpdkRing) (base x : U64) (range : U64 × U64) : U64 × U64 :=
  let mid := (range.1 + range.2) / 2
  if range.1 < range.2 then
    if r.t (ringSlot (base + mid)) ≤ x then (mid + 1, range.2) else (range.1, mid)
  else range

/-- `spdk_ring_find`, on the ring in this CPU's slot. -/
def spdkRingFind (r : SpdkRing) (tid x : U64) : U64 :=
  if r.tid ≠ tid ∨ x = 0 then 0
  else
    let n : U64 := if r.n < BitVec.ofNat 64 spdkRing then r.n else BitVec.ofNat 64 spdkRing
    let base := r.n - n
    let lo := ((halve r base x)^[10] (0, n)).1
    if lo ≠ 0 then r.v (ringSlot (base + lo - 1)) else 0

/-- `struct spdk_rx`. -/
structure SpdkRx where
  tid : U64 := 0
  start : U64 := 0
  copied : Bool := false

instance : Tagged SpdkRx := ⟨SpdkRx.tid, fun c t => { c with tid := t }, fun _ _ => rfl⟩

/-! ## The state of an object -/

/-- The state of an SPDK object: its variables and maps, and what it put on the ring buffer. -/
structure SpdkState where
  armed : Bool := false
  counters : Counters := fun _ => 0
  recvRing : Nat → SpdkRing := fun _ => {}
  sendRing : Nat → SpdkRing := fun _ => {}
  rx : Nat → SpdkRx := fun _ => {}
  events : List Rec := []

/-- `ntp_count`. -/
def SpdkState.count (s : SpdkState) (i : Counter) (delta : U64) : SpdkState :=
  { s with counters := ntpCount s.counters i delta }

/-- `spdk_process`: the thread is of a process that is watched. -/
def spdkProcess (f : SpdkFilter) (env : HookEnv) : Bool :=
  (List.finRange 8).any fun i => decide (i.val < f.npids.toNat) && f.pids[i] == (env.tid >>> 32).setWidth 32

/-! ## Socket hooks -/

/-- `spdk_recvmsg`. -/
def spdkRecvmsg (f : SpdkFilter) (s : SpdkState) (env : HookEnv) : SpdkState :=
  if f.npids = 0 ∨ !spdkProcess f env then s
  else { s with rx := ctxPut s.rx env { tid := env.tid, start := env.now, copied := false } }

/-- `spdk_copy`; `tstamp` is the skb's. -/
def spdkCopy (f : SpdkFilter) (s : SpdkState) (env : HookEnv) (tstamp : S64) : SpdkState :=
  match ntpCtxGet s.rx env with
  | none => s
  | some c =>
    if c.copied then s
    else
      let ring := spdkRingOwn (s.recvRing env.cpu) env.tid
      { s with
        rx := ctxPut s.rx env { c with copied := true }
        recvRing := Function.update s.recvRing env.cpu
          (spdkRingAdd ring c.start (ntpSkbArrival f.toFilter tstamp env.now)) }

/-- `spdk_sendmsg`. -/
def spdkSendmsg (f : SpdkFilter) (s : SpdkState) (env : HookEnv) : SpdkState :=
  if f.npids = 0 ∨ !spdkProcess f env then s
  else
    let ring := spdkRingOwn (s.sendRing env.cpu) env.tid
    { s with sendRing := Function.update s.sendRing env.cpu (spdkRingAdd ring env.now env.now) }

/-- `spdk_arrival`. -/
def spdkArrival (s : SpdkState) (env : HookEnv) (parsed floor : U64) : U64 :=
  let a := spdkRingFind (s.recvRing env.cpu) env.tid parsed
  if a ≠ 0 ∧ floor ≤ a ∧ a ≤ parsed then a else parsed

/-- `spdk_handed`. -/
def spdkHanded (s : SpdkState) (env : HookEnv) (taken queued : U64) : U64 :=
  let e := spdkRingFind (s.sendRing env.cpu) env.tid taken
  if e ≠ 0 ∧ queued ≤ e ∧ e ≤ taken then e else taken

/-! ## Done probes -/

/-- An SPDK command: what `spdk_read_cmd` copies. -/
structure SpdkCmd extends NvmeCmd where
  dptr1 : U64 := 0

/-- The arguments of a done probe; `none` where reading the process's memory fails. -/
structure DoneArgs where
  cmd : Option SpdkCmd
  qid : U32
  cntlid : U32
  times : Option SpdkTimes

/-- The id of the command of a done probe. -/
def DoneArgs.id (d : DoneArgs) (c : SpdkCmd) : CmdId :=
  { ntpReadCmd c.toNvmeCmd with cntlid := d.cntlid.setWidth 16, qid := d.qid.setWidth 16 }

/-- `spdk_selected`. -/
def spdkSelected (f : SpdkFilter) (c : SpdkCmd) (bytes : U32) : Bool :=
  ntpTypeMatches f.toFilter c.opcode && ntpSampled f.toFilter c.commandId c.slba c.length &&
    ntpSizeMatches f.toFilter bytes

/-- The length of a command: in its SGL over TCP, passed by SPDK over RDMA. -/
def spdkBytes (tr : Transport) (c : SpdkCmd) (st : SpdkTimes) : U32 :=
  match tr with
  | .tcp => c.dptr1.setWidth 32
  | .rdma => st.bytes

/-- The flags `NTP_F_SPDK` and `NTP_F_WRITE`. -/
def spdkFlags (c : SpdkCmd) : U16 := ntpFSpdk ||| if c.opcode = ntpNvmeCmdWrite then ntpFWrite else 0

/-- A flag that is set if the condition holds. -/
def flagIf (b : Bool) (bit : U16) : U16 := if b then bit else 0

/-- `BPF_SNPRINTF`: the text, cut to the length and ended by a zero byte. -/
def snprintf (len : Nat) (text : String) : Vector U8 len :=
  Vector.ofFn fun i => if i.val + 1 < len then ((text.toList.map fun c => BitVec.ofNat 8 c.toNat)[i.val]?).getD 0 else 0

/-- The record of `ntp_u_nvme_tcp_done`. -/
def spdkTcpHostRec (s : SpdkState) (env : HookEnv) (d : DoneArgs) (c : SpdkCmd) (st : SpdkTimes) : HostRec :=
  let write := c.opcode == ntpNvmeCmdWrite
  let floor := st.host .submit
  { hdr := { kind := ntpRecHost, transport := ntpTrTcp, cpu := BitVec.ofNat 32 env.cpu
             flags := spdkFlags c ||| flagIf (st.host .r2t != 0) ntpFR2t |||
               flagIf (decide (1 < st.r2ts)) ntpFMultiR2t |||
               flagIf (write && st.host .r2t == 0) ntpFInlineData |||
               flagIf (!write && st.host .c2h != 0 && st.host .rsp == 0) ntpFDataSuccess }
    id := d.id c
    bytes := spdkBytes .tcp c st
    ctrlInstance := d.cntlid
    disk := snprintf _ s!"spdk-c{d.cntlid.toNat}n{c.nsid.toNat}"
    ts := fun
      | .start => st.host .submit
      | .queueRq => st.host .submit
      | .cmdSent => st.host .cmdSent
      | .r2tProc => st.host .r2t
      | .r2tArr => spdkArrival s env (st.host .r2t) floor
      | .dataStart => st.host .h2cStart
      | .dataSent => st.host .h2cSent
      | .c2hProc => st.host .c2h
      | .c2hArr => spdkArrival s env (st.host .c2h) floor
      | .rspArr => spdkArrival s env (st.host .rsp) floor
      | .rspProc => st.host .done
      | .nvmeDone => st.host .done
      | .blkDone => st.host .done
      | _ => 0 }

/-- The record of `ntp_u_nvme_rdma_done`. -/
def spdkRdmaHostRec (_s : SpdkState) (env : HookEnv) (d : DoneArgs) (c : SpdkCmd) (st : SpdkTimes) : HostRec :=
  { hdr := { kind := ntpRecHost, transport := ntpTrRdma, cpu := BitVec.ofNat 32 env.cpu, flags := spdkFlags c }
    id := d.id c
    bytes := spdkBytes .rdma c st
    ctrlInstance := d.cntlid
    disk := snprintf _ s!"spdk-c{d.cntlid.toNat}n{c.nsid.toNat}"
    ts := fun
      | .start => st.rdmaHost .submit
      | .queueRq => st.rdmaHost .submit
      | .cmdSent => st.rdmaHost .cmdPosted
      | .sendDone => st.rdmaHost .sendDone
      | .rspArr => st.rdmaHost .rsp
      | .rspProc => st.rdmaHost .done
      | .nvmeDone => st.rdmaHost .done
      | .blkDone => st.rdmaHost .done
      | _ => 0 }

/-- The record of `ntp_u_nvmf_tcp_done`. -/
def spdkTcpTgtRec (s : SpdkState) (env : HookEnv) (d : DoneArgs) (c : SpdkCmd) (st : SpdkTimes) : TgtRec :=
  { hdr := { kind := ntpRecTarget, transport := ntpTrTcp, cpu := BitVec.ofNat 32 env.cpu
             flags := spdkFlags c ||| flagIf (st.tgt .r2tQueued != 0) ntpFR2t |||
               flagIf (decide (1 < st.r2ts)) ntpFMultiR2t |||
               flagIf (st.flags &&& spdkFC2hSuccess != 0) ntpFDataSuccess }
    id := d.id c
    bytes := spdkBytes .tcp c st
    ts := fun
      | .cmdProc => st.tgt .cmd
      | .cmdArr => spdkArrival s env (st.tgt .cmd) 0
      | .r2tQueued => st.tgt .r2tQueued
      | .r2tSent => spdkHanded s env (st.tgt .r2tSent) (st.tgt .r2tQueued)
      | .dataProc => st.tgt .h2c
      | .dataArr => spdkArrival s env (st.tgt .h2c) (st.tgt .r2tQueued)
      | .exec => st.tgt .exec
      | .complete => st.tgt .executed
      | .rspQueued => st.tgt .rspQueued
      | .c2hSent => spdkHanded s env (st.tgt .c2hSent) (st.tgt .rspQueued)
      | .rspSent => spdkHanded s env (st.tgt .rspSent) (st.tgt .rspQueued)
      | _ => 0 }

/-- The record of `ntp_u_nvmf_rdma_done`. -/
def spdkRdmaTgtRec (_s : SpdkState) (env : HookEnv) (d : DoneArgs) (c : SpdkCmd) (st : SpdkTimes) : TgtRec :=
  let write := c.opcode == ntpNvmeCmdWrite
  { hdr := { kind := ntpRecTarget, transport := ntpTrRdma, cpu := BitVec.ofNat 32 env.cpu
             flags := spdkFlags c |||
               flagIf write (if st.rdmaTgt .readQueued ≠ 0 then ntpFRdmaRead else ntpFInlineData) }
    id := d.id c
    bytes := spdkBytes .rdma c st
    ts := fun
      | .cmdArr => st.rdmaTgt .cmdArr
      | .cmdProc => st.rdmaTgt .cmd
      | .r2tQueued => st.rdmaTgt .readQueued
      | .r2tSent => st.rdmaTgt .readPosted
      | .dataArr => st.rdmaTgt .readDone
      | .dataProc => st.rdmaTgt .readDone
      | .exec => st.rdmaTgt .exec
      | .complete => st.rdmaTgt .executed
      | .rspQueued => st.rdmaTgt .rspQueued
      | .rspSent => st.rdmaTgt .rspPosted
      | .c2hSent => if write then 0 else st.rdmaTgt .rspPosted
      | .sendDone => st.rdmaTgt .sendDone
      | _ => 0 }

/-- The command and the times of a done probe, where it gets past reading them. -/
def DoneArgs.read (d : DoneArgs) : Option (SpdkCmd × SpdkTimes) :=
  match d.cmd with
  | none => none
  | some c =>
    if !ntpIsRw c.opcode then none
    else
      match d.times with
      | none => none
      | some st => some (c, st)

/-- The end of a done probe: the record goes to the ring buffer. `spdk_submit` -/
def spdkEmit (s : SpdkState) (env : HookEnv) (emitted : Counter) (r : Rec) : SpdkState :=
  if env.rbFull then s.count .rbDrops 1 else { s.count emitted 1 with events := s.events ++ [r] }

/-- The throughput counters of a host's done probe: SPDK reports sampled commands only. -/
def spdkThroughput (f : SpdkFilter) (s : SpdkState) (c : SpdkCmd) (bytes : U32) : SpdkState :=
  let every := f.sampleEvery.setWidth 64
  if c.opcode = ntpNvmeCmdWrite then
    (s.count .hostWriteIos every).count .hostWriteBytes (bytes.setWidth 64 * every)
  else (s.count .hostReadIos every).count .hostReadBytes (bytes.setWidth 64 * every)

/-- The done probe of a host. -/
def spdkHostDone (tr : Transport)
    (record : SpdkState → HookEnv → DoneArgs → SpdkCmd → SpdkTimes → HostRec) (f : SpdkFilter)
    (s : SpdkState) (env : HookEnv) (d : DoneArgs) : SpdkState :=
  if !s.armed then s
  else
    match d.read with
    | none => s
    | some (c, st) =>
      let s := spdkThroughput f s c (spdkBytes tr c st)
      if !spdkSelected f c (spdkBytes tr c st) then s
      else if f.nsid ≠ 0 ∧ c.nsid ≠ f.nsid then s
      else spdkEmit (s.count .hostSampled 1) env .hostEmitted (.host (record s env d c st))

/-- The done probe of a target. -/
def spdkTgtDone (tr : Transport)
    (record : SpdkState → HookEnv → DoneArgs → SpdkCmd → SpdkTimes → TgtRec) (f : SpdkFilter)
    (s : SpdkState) (env : HookEnv) (d : DoneArgs) : SpdkState :=
  if !s.armed then s
  else
    match d.read with
    | none => s
    | some (c, st) =>
      let s := s.count .tgtCmds (f.sampleEvery.setWidth 64)
      if !spdkSelected f c (spdkBytes tr c st) then s
      else spdkEmit (s.count .tgtSampled 1) env .tgtEmitted (.target (record s env d c st))

/-- `ntp_u_nvme_tcp_done`. -/
def ntpUNvmeTcpDone := spdkHostDone .tcp spdkTcpHostRec

/-- `ntp_u_nvme_rdma_done`. -/
def ntpUNvmeRdmaDone := spdkHostDone .rdma spdkRdmaHostRec

/-- `ntp_u_nvmf_tcp_done`. -/
def ntpUNvmfTcpDone := spdkTgtDone .tcp spdkTcpTgtRec

/-- `ntp_u_nvmf_rdma_done`. -/
def ntpUNvmfRdmaDone := spdkTgtDone .rdma spdkRdmaTgtRec

/-! ## Events -/

/-- The four SPDK objects. -/
inductive SpdkObject where
  | tcpHost
  | tcpTarget
  | rdmaHost
  | rdmaTarget
  deriving DecidableEq, Repr

/-- What happens at an SPDK object: a hook on the kernel's sockets, a done probe, or a write of `ntp_armed` by
user space. -/
inductive SpdkEvent where
  | arm (on : Bool)
  | recvmsg (env : HookEnv)
  | copy (env : HookEnv) (tstamp : S64)
  | sendmsg (env : HookEnv)
  | done (env : HookEnv) (d : DoneArgs)

/-- The done probe of an object. -/
def SpdkObject.done : SpdkObject → SpdkFilter → SpdkState → HookEnv → DoneArgs → SpdkState
  | .tcpHost => ntpUNvmeTcpDone
  | .tcpTarget => ntpUNvmfTcpDone
  | .rdmaHost => ntpUNvmeRdmaDone
  | .rdmaTarget => ntpUNvmfRdmaDone

/-- One event at an object; those over RDMA have no socket hooks, and only a target watches what is sent. -/
def spdkStep (o : SpdkObject) (f : SpdkFilter) (s : SpdkState) : SpdkEvent → SpdkState
  | .arm on => { s with armed := on }
  | .recvmsg env => if o = .tcpHost ∨ o = .tcpTarget then spdkRecvmsg f s env else s
  | .copy env tstamp => if o = .tcpHost ∨ o = .tcpTarget then spdkCopy f s env tstamp else s
  | .sendmsg env => if o = .tcpTarget then spdkSendmsg f s env else s
  | .done env d => o.done f s env d

/-- A run of an SPDK object. -/
def spdkRun (o : SpdkObject) (f : SpdkFilter) (s : SpdkState) (es : List SpdkEvent) : SpdkState :=
  es.foldl (spdkStep o f) s

end Ntprof.Bpf
