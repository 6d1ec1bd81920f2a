import Ntprof.Record

/-!
# The stage model (`src/model.c`)

One host record, and its target record when there is one, is turned into latency components. Only
differences between timestamps of the same machine are taken. The components are signed 64-bit
values; all sums and differences wrap.
-/

namespace Ntprof

/-- `enum ntp_io_class`. -/
inductive IoClass where
  | read
  | writeInline
  | writeR2t
  deriving DecidableEq, Repr

/-- `enum ntp_comp`: the components in path order, then the details that split one of them. -/
inductive Comp where
  | blkSub
  | trSub
  | net
  | tgtRx
  | tgtSub
  | tgtWait
  | tgtData
  | tgtBe
  | tgtCmpl
  | hostRx
  | hostWait
  | hostData
  | trCmpl
  | blkCmpl
  | remote
  | e2e
  | tgtBeSub
  | tgtDev
  | tgtBeCmpl
  | cmplIpi
  | netData
  deriving DecidableEq, Repr

/-- The components in the order of the enumeration; there are `NTP_C_NR` of them. -/
def Comp.all : List Comp :=
  [.blkSub, .trSub, .net, .tgtRx, .tgtSub, .tgtWait, .tgtData, .tgtBe, .tgtCmpl, .hostRx, .hostWait,
    .hostData, .trCmpl, .blkCmpl, .remote, .e2e, .tgtBeSub, .tgtDev, .tgtBeCmpl, .cmplIpi, .netData]

instance : Fintype Comp where
  elems := Comp.all.toFinset
  complete := by intro x; cases x <;> decide

/-- `enum ntp_stage`. -/
inductive Stage where
  | s1
  | s2
  | s3s5
  | s6
  | s7s9
  deriving DecidableEq, Repr

/-- The stages in the order of the enumeration; there are `NTP_STAGE_NR` of them. -/
def Stage.all : List Stage := [.s1, .s2, .s3s5, .s6, .s7s9]

instance : Fintype Stage where
  elems := Stage.all.toFinset
  complete := by intro x; cases x <;> decide

/-- `struct ntp_comp_info`. -/
structure CompInfo where
  name : String
  stage : String
  desc : String
  detail : Bool

/-- `ntp_comps`. -/
def ntpComps : Comp → CompInfo
  | .blkSub => ⟨"blk_submission", "host_block_layer", "host block layer, submission", false⟩
  | .trSub => ⟨"transport_submission", "host_driver", "host driver, submission", false⟩
  | .net => ⟨"network", "network", "network: wire and NICs (computed)", false⟩
  | .tgtRx => ⟨"target_rx_stack", "network", "network: target receive path", false⟩
  | .tgtSub => ⟨"target_transport_submission", "target_driver", "target driver, submission", false⟩
  | .tgtWait => ⟨"target_data_wait", "network", "network: rest of the data arriving", false⟩
  | .tgtData =>
    ⟨"target_data_processing", "target_driver", "target driver, processing the data", false⟩
  | .tgtBe => ⟨"target_subsystem", "storage", "storage: target block layer and drive", false⟩
  | .tgtCmpl => ⟨"target_transport_completion", "target_driver", "target driver, completion", false⟩
  | .hostRx => ⟨"host_rx_stack", "network", "network: host receive path", false⟩
  | .hostWait => ⟨"host_data_wait", "network", "network: rest of the data arriving", false⟩
  | .hostData => ⟨"host_data_processing", "host_driver", "host driver, processing the data", false⟩
  | .trCmpl => ⟨"transport_completion", "host_driver", "host driver, completion", false⟩
  | .blkCmpl => ⟨"blk_completion", "host_block_layer", "host block layer, completion", false⟩
  | .remote => ⟨"remote", "network_and_target", "network and target (no target record)", false⟩
  | .e2e => ⟨"end_to_end", "end_to_end", "end to end", false⟩
  | .tgtBeSub => ⟨"target_blk_submission", "storage", "target block layer, submission", true⟩
  | .tgtDev => ⟨"target_device", "storage", "drive", true⟩
  | .tgtBeCmpl => ⟨"target_blk_completion", "storage", "target block layer, completion", true⟩
  | .cmplIpi => ⟨"completion_ipi", "host_block_layer", "handoff to nvme_complete_rq", true⟩
  | .netData => ⟨"net_data_transfer", "network", "data transfer (RDMA, at the target)", true⟩

/-- `ntp_stage_keys`. -/
def ntpStageKeys : Stage → String
  | .s1 => "host_block_layer"
  | .s2 => "host_driver"
  | .s3s5 => "network"
  | .s6 => "target_driver"
  | .s7s9 => "storage"

/-- `struct ntp_breakdown`. The bit sets `valid` and `stage_valid` are their membership tests. -/
structure Breakdown where
  ioClass : IoClass := .read
  joined : Bool := false
  postEstimated : Bool := false
  valid : Comp → Bool := fun _ => false
  comp : Comp → S64 := fun _ => 0
  stage : Stage → S64 := fun _ => 0
  stageValid : Stage → Bool := fun _ => false
  deriving DecidableEq

/-- `enum ntp_model_err`. -/
inductive ModelErr where
  | ok
  | incompleteHost
  | incompleteTarget
  deriving DecidableEq, Repr

/-! ## Which events a record needs -/

/-- `ntp_io_class_of`. -/
def ntpIoClassOf (h : HostRec) : IoClass :=
  if !h.hdr.has ntpFWrite then .read
  else if h.hdr.has ntpFR2t then .writeR2t
  else .writeInline

/-- `have_all`: every event of `idx` was seen. -/
def haveAll {ι : Type} (ts : ι → U64) (idx : List ι) : Bool := idx.all fun i => ts i != 0

def hostReqRead : List HostTs := [.queueRq, .cmdSent, .c2hArr, .c2hProc, .rspProc, .blkDone]

def hostReqInline : List HostTs := [.queueRq, .cmdSent, .rspArr, .rspProc, .blkDone]

def hostReqR2t : List HostTs :=
  [.queueRq, .cmdSent, .r2tArr, .r2tProc, .dataStart, .rspArr, .rspProc, .blkDone]

def tgtReqRead : List TgtTs := [.cmdArr, .cmdProc, .exec, .complete, .c2hSent]

def tgtReqInline : List TgtTs := [.cmdArr, .cmdProc, .exec, .complete, .rspSent]

def tgtReqR2t : List TgtTs :=
  [.cmdArr, .cmdProc, .r2tSent, .dataArr, .dataProc, .exec, .complete, .rspSent]

def hostReqRdma : List HostTs := [.queueRq, .cmdSent, .rspArr, .rspProc, .blkDone]

def tgtReqRdma : List TgtTs := [.cmdArr, .cmdProc, .exec, .complete]

/-- `host_complete`. -/
def hostComplete (h : HostRec) : IoClass → Bool
  | .read => haveAll h.ts hostReqRead
  | .writeInline => haveAll h.ts hostReqInline
  | .writeR2t => haveAll h.ts hostReqR2t

/-- `target_complete`. -/
def targetComplete (t : TgtRec) : IoClass → Bool
  | .read => haveAll t.ts tgtReqRead
  | .writeInline => haveAll t.ts tgtReqInline
  | .writeR2t => haveAll t.ts tgtReqR2t

/-! ## Components -/

/-- `set`: give component `c` the value `v`. -/
def Breakdown.set (b : Breakdown) (c : Comp) (v : S64) : Breakdown :=
  { b with comp := Function.update b.comp c v, valid := Function.update b.valid c true }

/-- `b->comp[c] += v`. -/
def Breakdown.add (b : Breakdown) (c : Comp) (v : S64) : Breakdown :=
  { b with comp := Function.update b.comp c (b.comp c + v) }

/-- `d`: the difference of two timestamps, as a signed value. -/
def d (later earlier : U64) : S64 := later - earlier

/-- `common_host`: blk-mq at both ends and the submission. -/
def commonHost (h : HostRec) (b : Breakdown) : Breakdown :=
  let H := h.ts
  let b := b.set .trSub (d (H .cmdSent) (H .queueRq))
  let b := b.set .blkCmpl (d (H .blkDone) (H .rspProc))
  let b :=
    if H .start ≠ 0 ∧ H .start ≤ H .queueRq then
      (b.set .blkSub (d (H .queueRq) (H .start))).set .e2e (d (H .blkDone) (H .start))
    else b.set .e2e (d (H .blkDone) (H .queueRq))
  if H .nvmeDone ≠ 0 then b.set .cmplIpi (d (H .nvmeDone) (H .rspProc)) else b

/-- `backend_details`: the back end's block request splits the target subsystem time. -/
def backendDetails (T : TgtTs → U64) (b : Breakdown) : Breakdown :=
  -- a drive completion after nvmet_req_complete belongs to another command
  if T .beIssue = 0 ∨ T .beDone = 0 ∨ T .complete < T .beDone then b
  else
    let b := b.set .tgtBeSub (d (T .beIssue) (T .exec))
    let b := b.set .tgtDev (d (T .beDone) (T .beIssue))
    b.set .tgtBeCmpl (d (T .complete) (T .beDone))

/-- `data_phase`: the receiver's time on the data from `first` to `done`, apart from its wait for the
rest of it. Returns false, setting nothing, for a record without a data phase. -/
def dataPhase (first done next busyNs : U64) (busyC waitC : Comp) (b : Breakdown) :
    Bool × Breakdown :=
  if busyNs = 0 ∨ done = 0 ∨ done < first ∨ next < done then (false, b)
  else
    let span := d done first
    let busy : S64 := if span < busyNs then span else busyNs
    (true, (b.set busyC busy).set waitC (span - busy))

/-- `read_data_phase`. -/
def readDataPhase (h : HostRec) (b : Breakdown) : Breakdown :=
  let H := h.ts
  let (found, b) := dataPhase (H .c2hProc) (H .c2hDone) (H .rspProc) h.c2hBusyNs .hostData .hostWait b
  if found then b.set .trCmpl (d (H .rspProc) (H .c2hDone))
  else b.set .trCmpl (d (H .rspProc) (H .c2hProc))

/-- `write_data_phase`: also returns the part of the span that is the transport's submission. -/
def writeDataPhase (t : TgtRec) (b : Breakdown) : S64 × Breakdown :=
  let T := t.ts
  let (found, b) := dataPhase (T .dataProc) (T .dataDone) (T .exec) t.h2cBusyNs .tgtData .tgtWait b
  if found then (d (T .exec) (T .dataDone), b) else (d (T .exec) (T .dataProc), b)

/-- `host_side`: NVMe/TCP, the host side alone. -/
def hostSide (h : HostRec) (b : Breakdown) : Breakdown :=
  let H := h.ts
  let b := commonHost h b
  match b.ioClass with
  | .read =>
    let b := b.set .remote (d (H .c2hArr) (H .cmdSent))
    let b := b.set .hostRx (d (H .c2hProc) (H .c2hArr))
    readDataPhase h b
  | .writeInline =>
    let b := b.set .remote (d (H .rspArr) (H .cmdSent))
    let b := b.set .hostRx (d (H .rspProc) (H .rspArr))
    b.set .trCmpl 0
  | .writeR2t =>
    let b := b.add .trSub (d (H .dataStart) (H .r2tProc))
    let b := b.set .remote (d (H .r2tArr) (H .cmdSent) + d (H .rspArr) (H .dataStart))
    let b := b.set .hostRx (d (H .r2tProc) (H .r2tArr) + d (H .rspProc) (H .rspArr))
    b.set .trCmpl 0

/-- The end of `target_side` and `rdma_target_side`: what is left of the remote component after the
target's `residence` is the network's. -/
def splitRemote (residence : S64) (b : Breakdown) : Breakdown :=
  let b := b.set .net (b.comp .remote - residence)
  { b with valid := Function.update b.valid .remote false
           comp := Function.update b.comp .remote 0 }

/-- `target_side`: split the remote component into network and target components. -/
def targetSide (t : TgtRec) (b : Breakdown) : Breakdown :=
  let T := t.ts
  let b := b.set .tgtBe (d (T .complete) (T .exec))
  let (residence, b) : S64 × Breakdown :=
    match b.ioClass with
    | .read =>
      let b := b.set .tgtRx (d (T .cmdProc) (T .cmdArr))
      let b := b.set .tgtSub (d (T .exec) (T .cmdProc))
      let b := b.set .tgtCmpl (d (T .c2hSent) (T .complete))
      (d (T .c2hSent) (T .cmdArr), b)
    | .writeInline =>
      let b := b.set .tgtRx (d (T .cmdProc) (T .cmdArr))
      let b := b.set .tgtSub (d (T .exec) (T .cmdProc))
      let b := b.set .tgtCmpl (d (T .rspSent) (T .complete))
      (d (T .rspSent) (T .cmdArr), b)
    | .writeR2t =>
      let b := b.set .tgtRx (d (T .cmdProc) (T .cmdArr) + d (T .dataProc) (T .dataArr))
      let (sub, b) := writeDataPhase t b
      let b := b.set .tgtSub (d (T .r2tSent) (T .cmdProc) + sub)
      let b := b.set .tgtCmpl (d (T .rspSent) (T .complete))
      (d (T .r2tSent) (T .cmdArr) + d (T .rspSent) (T .dataArr), b)
  backendDetails T (splitRemote residence b)

/-- `rdma_host_side`: the host sees one round trip. -/
def rdmaHostSide (h : HostRec) (b : Breakdown) : Breakdown :=
  let H := h.ts
  let b := commonHost h b
  let b := b.set .remote (d (H .rspArr) (H .cmdSent))
  let b := b.set .hostRx (d (H .rspProc) (H .rspArr))
  b.set .trCmpl 0

/-- The timestamps `rdma_target_side` works on: a posting after its own send completion was another
command's and is dropped. -/
def rdmaOwnPosting (T : TgtTs → U64) : TgtTs → U64 :=
  if T .sendDone ≠ 0 ∧ T .sendDone < T .rspSent then
    Function.update (Function.update T .rspSent 0) .c2hSent 0
  else T

/-- In `rdma_target_side`: the transport's submission. A write whose data was fetched by RDMA READ
is one after R2T, and its fetch is a detail of the network. -/
def rdmaSubmission (fetch : Bool) (T : TgtTs → U64) (b : Breakdown) : Breakdown :=
  if fetch then
    let b := b.set .tgtSub (d (T .r2tSent) (T .cmdProc) + d (T .exec) (T .dataProc))
    ({ b with ioClass := .writeR2t } : Breakdown).set .netData (d (T .dataProc) (T .r2tSent))
  else b.set .tgtSub (d (T .exec) (T .cmdProc))

/-- In `rdma_target_side`: a read's RDMA WRITE and response, posted until the send completion. -/
def rdmaReadTransfer (t : TgtRec) (T : TgtTs → U64) (b : Breakdown) : Breakdown :=
  if !t.hdr.has ntpFWrite ∧ T .c2hSent ≠ 0 ∧ T .sendDone ≠ 0 then
    b.set .netData (d (T .sendDone) (T .c2hSent))
  else b

/-- The rest of `rdma_target_side`, once the posting of the response is known. -/
def rdmaSplit (t : TgtRec) (T : TgtTs → U64) (b : Breakdown) : Breakdown :=
  let fetch := t.hdr.has ntpFRdmaRead
  let fetchNs : S64 := if fetch then d (T .dataProc) (T .r2tSent) else 0
  let b := b.set .tgtRx (d (T .cmdProc) (T .cmdArr))
  let b := rdmaReadTransfer t T (rdmaSubmission fetch T b)
  let b := b.set .tgtBe (d (T .complete) (T .exec))
  let b := b.set .tgtCmpl (d (T .rspSent) (T .complete))
  let residence := d (T .rspSent) (T .cmdArr) - fetchNs
  backendDetails T (splitRemote residence b)

/-- `rdma_target_side`. -/
def rdmaTargetSide (t : TgtRec) (b : Breakdown) : Bool × Breakdown :=
  let fetch := t.hdr.has ntpFRdmaRead
  if !haveAll t.ts tgtReqRdma ∨ (fetch ∧ (t.ts .r2tSent = 0 ∨ t.ts .dataProc = 0)) then (false, b)
  else
    let T := rdmaOwnPosting t.ts
    if T .rspSent = 0 then
      -- the posting was not seen: nvmet_req_complete's time stands in for it
      if T .sendDone = 0 then (false, b)
      else
        let T' := Function.update T .rspSent (T .complete)
        let T' := if !t.hdr.has ntpFWrite then Function.update T' .c2hSent (T' .complete) else T'
        (true, rdmaSplit t T' { b with postEstimated := true })
    else (true, rdmaSplit t T b)

/-! ## Stages -/

/-- `stage`: a stage needs every one of `parts`; `extras` count where present. -/
def stage (b : Breakdown) (s : Stage) (parts extras : List Comp) : Breakdown :=
  if parts.all b.valid then
    let sum := (parts.map b.comp).sum + ((extras.filter b.valid).map b.comp).sum
    { b with stage := Function.update b.stage s sum
             stageValid := Function.update b.stageValid s true }
  else b

/-- `stages`. -/
def stages (b : Breakdown) : Breakdown :=
  let b := stage b .s1 [.blkSub, .blkCmpl] []
  let b := stage b .s2 [.trSub, .trCmpl] [.hostData]
  let b := stage b .s3s5 [.net, .tgtRx, .hostRx] [.hostWait, .tgtWait]
  let b := stage b .s6 [.tgtSub, .tgtCmpl] [.tgtData]
  stage b .s7s9 [.tgtBe] []

/-! ## The breakdown of a command -/

/-- The RDMA branch of `ntp_breakdown` after the host side. -/
def rdmaJoin (h : HostRec) (t : Option TgtRec) (b : Breakdown) : ModelErr × Breakdown :=
  match t with
  | none => (.ok, b)
  | some t =>
    let sameDir := !t.hdr.has ntpFWrite == !h.hdr.has ntpFWrite
    if sameDir && t.hdr.transport == ntpTrRdma then
      let (used, b) := rdmaTargetSide t b
      if used then (.ok, { b with joined := true }) else (.incompleteTarget, b)
    else (.incompleteTarget, b)

/-- The TCP branch of `ntp_breakdown` after the host side. -/
def tcpJoin (t : Option TgtRec) (b : Breakdown) : ModelErr × Breakdown :=
  match t with
  | none => (.ok, b)
  | some t =>
    let sameClass := t.hdr.has ntpFR2t == decide (b.ioClass = .writeR2t)
    if sameClass && targetComplete t b.ioClass then
      (.ok, { targetSide t b with joined := true })
    else (.incompleteTarget, b)

/-- `ntp_breakdown`. -/
def ntpBreakdown (h : HostRec) (t : Option TgtRec) : ModelErr × Breakdown :=
  let out : Breakdown := { ioClass := ntpIoClassOf h }
  if h.hdr.transport = ntpTrRdma then
    if !haveAll h.ts hostReqRdma then (.incompleteHost, out)
    else
      let (err, b) := rdmaJoin h t (rdmaHostSide h out)
      (err, stages b)
  else if !hostComplete h out.ioClass then (.incompleteHost, out)
  else
    let (err, b) := tcpJoin t (hostSide h out)
    (err, stages b)

end Ntprof
