import Ntprof.Bpf.Spdk
import Mathlib.Logic.Function.Basic

/-!
# The times of a command in SPDK (`include/spdk_internal/ntprof.h`)

What the patch of SPDK adds to its transports: the times of a sampled command, which events they hold, and the two
places where a time is not written at once. The socket layer keeps the low 32 bits of the time at which it handed a
PDU to the kernel, and over RDMA a work request is queued first and posted in a batch. `ntprof_now()` is an argument
of each step.
-/

namespace Ntprof.Spdk

open Bpf

/-- `struct ntprof_times`: what the programs of the kernel read of it, and what only SPDK does. -/
structure NtprofTimes extends SpdkTimes where
  /-- The command is sampled. -/
  on : Bool := false
  /-- RDMA: 1 + the event the next posting stamps. -/
  postEv : U8 := 0

/-- An event's place in the times. -/
abbrev Event := Fin spdkTimes

/-- `enum ntprof_host_event`. -/
def hostEvent : SpdkHostEvent → Event
  | .submit => 0
  | .cmdSent => 1
  | .r2t => 2
  | .h2cStart => 3
  | .h2cSent => 4
  | .c2h => 5
  | .rsp => 6
  | .done => 7

/-- `enum ntprof_tgt_event`. -/
def tgtEvent : SpdkTgtEvent → Event
  | .cmd => 0
  | .r2tQueued => 1
  | .r2tSent => 2
  | .h2c => 3
  | .exec => 4
  | .executed => 5
  | .rspQueued => 6
  | .c2hSent => 7
  | .rspSent => 8

/-- A time is written. -/
def NtprofTimes.set (t : NtprofTimes) (ev : Event) (time : U64) : NtprofTimes :=
  { t with t := Function.update t.t ev time }

@[simp] theorem NtprofTimes.set_on (t : NtprofTimes) (ev : Event) (time : U64) : (t.set ev time).on = t.on := rfl

@[simp] theorem NtprofTimes.set_self (t : NtprofTimes) (ev : Event) (time : U64) : (t.set ev time).t ev = time := by
  show Function.update t.t ev time ev = time
  rw [Function.update_self]

theorem NtprofTimes.set_of_ne (t : NtprofTimes) {ev x : Event} (h : x ≠ ev) (time : U64) :
    (t.set ev time).t x = t.t x := by
  show Function.update t.t ev time x = t.t x
  rw [Function.update_of_ne h]

/-- `ntprof_sample_hash`. -/
def ntprofSampleHash (cid : U16) (slba : U64) (nlb : U16) : U64 :=
  let x := slba ^^^ (cid.setWidth 64 <<< 48) ^^^ (nlb.setWidth 64 <<< 32)
  let x := x ^^^ (x >>> 30)
  let x := x * 0xbf58476d1ce4e5b9#64
  let x := x ^^^ (x >>> 27)
  let x := x * 0x94d049bb133111eb#64
  x ^^^ (x >>> 31)

/-- `ntprof_sampled`, with the sampling period `every`. -/
def ntprofSampled (every : U32) (cmd : NvmeCmd) : Bool :=
  if every = 0 then false
  else if cmd.opcode ≠ ntpNvmeCmdRead ∧ cmd.opcode ≠ ntpNvmeCmdWrite then false
  else ntprofSampleHash cmd.commandId cmd.slba cmd.length % every.setWidth 64 == 0

/-- `ntprof_begin`. -/
def ntprofBegin (t : NtprofTimes) (every : U32) (cmd : NvmeCmd) (event : Event) (now : U64) : NtprofTimes :=
  if ntprofSampled every cmd then NtprofTimes.set { on := true } event now else { t with on := false }

theorem ntprofBegin_sampled (t : NtprofTimes) {every : U32} {cmd : NvmeCmd} (h : ntprofSampled every cmd) (ev : Event)
    (now : U64) : ntprofBegin t every cmd ev now = NtprofTimes.set { on := true } ev now := if_pos h

/-- `ntprof_stamp`: record an event the first time it happens. -/
def ntprofStamp (t : NtprofTimes) (ev : Event) (now : U64) : NtprofTimes := if t.t ev = 0 then t.set ev now else t

@[simp] theorem ntprofStamp_on (t : NtprofTimes) (ev : Event) (now : U64) : (ntprofStamp t ev now).on = t.on := by
  unfold ntprofStamp
  split_ifs <;> rfl

theorem ntprofStamp_of_ne (t : NtprofTimes) {ev x : Event} (h : x ≠ ev) (now : U64) :
    (ntprofStamp t ev now).t x = t.t x := by
  unfold ntprofStamp
  split_ifs
  · exact t.set_of_ne h now
  · rfl

theorem ntprofStamp_self (t : NtprofTimes) (ev : Event) (now : U64) :
    (ntprofStamp t ev now).t ev = if t.t ev = 0 then now else t.t ev := by
  unfold ntprofStamp
  split_ifs
  · exact t.set_self ev now
  · rfl

/-- A stamp of a time that was not written. -/
theorem ntprofStamp_zero {t : NtprofTimes} {ev : Event} (h : t.t ev = 0) (now : U64) :
    (ntprofStamp t ev now).t ev = now := by
  rw [ntprofStamp_self, if_pos h]

/-! ## PDUs over TCP -/

/-- `enum spdk_nvme_tcp_pdu_type`. -/
inductive PduType where
  | capsuleCmd
  | capsuleResp
  | h2cData
  | c2hData
  | r2t
  | other
  deriving DecidableEq, Repr

/-- `SPDK_NVME_TCP_C2H_DATA_FLAGS_SUCCESS`. -/
def c2hDataFlagsSuccess : U8 := 1#8 <<< 3

/-- `ntprof_widen`. -/
def ntprofWiden (lo : U32) (base : U64) : U64 :=
  if base ≠ 0 then base + (lo - base.setWidth 32).setWidth 64 else 0

/-- `ntprof_nvme_pdu_sent`. -/
def ntprofNvmePduSent (t : NtprofTimes) (type : PduType) (sent : U32) : NtprofTimes :=
  if type = .capsuleCmd ∧ t.t (hostEvent .cmdSent) = 0 then
    t.set (hostEvent .cmdSent) (ntprofWiden sent (t.t (hostEvent .submit)))
  else if type = .h2cData then t.set (hostEvent .h2cSent) (ntprofWiden sent (t.t (hostEvent .h2cStart)))
  else t

/-- `ntprof_nvmf_pdu_sent`. -/
def ntprofNvmfPduSent (t : NtprofTimes) (type : PduType) (flags : U8) (sent : U32) : NtprofTimes :=
  match type with
  | .r2t =>
    if t.t (tgtEvent .r2tSent) = 0 then t.set (tgtEvent .r2tSent) (ntprofWiden sent (t.t (tgtEvent .r2tQueued)))
    else t
  | .c2hData =>
    let t :=
      if t.t (tgtEvent .c2hSent) = 0 then t.set (tgtEvent .c2hSent) (ntprofWiden sent (t.t (tgtEvent .rspQueued)))
      else t
    if flags &&& c2hDataFlagsSuccess ≠ 0 then
      { t.set (tgtEvent .rspSent) (ntprofWiden sent (t.t (tgtEvent .rspQueued))) with flags := t.flags ||| spdkFC2hSuccess }
    else t
  | .capsuleResp => t.set (tgtEvent .rspSent) (ntprofWiden sent (t.t (tgtEvent .rspQueued)))
  | _ => t

/-- `ntprof_nvmf_pdu_queued`. -/
def ntprofNvmfPduQueued (t : NtprofTimes) (type : PduType) (now : U64) : NtprofTimes :=
  match type with
  | .r2t => { ntprofStamp t (tgtEvent .r2tQueued) now with r2ts := t.r2ts + 1 }
  | .c2hData => ntprofStamp t (tgtEvent .rspQueued) now
  | .capsuleResp => ntprofStamp t (tgtEvent .rspQueued) now
  | _ => t

/-- `struct spdk_sock_request`: what the patch adds to it. -/
structure SockRequest where
  ntprof : Bool := false
  ntprofSent : U32 := 0

/-- `spdk_sock_request_pend`: the whole request has been handed to the kernel. -/
def spdkSockRequestPend (req : SockRequest) (now : U64) : SockRequest :=
  if req.ntprof then { req with ntprofSent := now.setWidth 32 } else req

/-- `spdk_sock_request_complete`. -/
def spdkSockRequestComplete (req : SockRequest) : SockRequest := { req with ntprof := false }

/-- `struct nvme_tcp_pdu`. -/
structure TcpPdu where
  type : PduType
  flags : U8
  sockReq : SockRequest

variable {ι : Type} [DecidableEq ι]

/-- A request of a TCP transport: the times of its command, and the PDUs `ι` that may carry it. -/
structure TcpReq (ι : Type) where
  times : NtprofTimes
  pdu : ι → TcpPdu

/-- What happens to a PDU of a command: it is written to the socket, `sendmsg()` takes the last of it, and its
callback runs. -/
inductive PduOp (ι : Type) where
  | write (p : ι) (type : PduType) (flags : U8) (now : U64)
  | pend (p : ι) (now : U64)
  | written (p : ι)

/-- The target: `nvmf_tcp_qpair_write_req_pdu`, the socket layer, and `_req_pdu_write_done`. -/
def nvmfStep (req : TcpReq ι) : PduOp ι → TcpReq ι
  | .write p type flags now =>
    let pdu : TcpPdu := ⟨type, flags, { (req.pdu p).sockReq with ntprof := req.times.on }⟩
    { times := if req.times.on then ntprofNvmfPduQueued req.times type now else req.times
      pdu := Function.update req.pdu p pdu }
  | .pend p now =>
    let pdu := req.pdu p
    { req with pdu := Function.update req.pdu p { pdu with sockReq := spdkSockRequestPend pdu.sockReq now } }
  | .written p =>
    let pdu := req.pdu p
    { times :=
        if req.times.on then ntprofNvmfPduSent req.times pdu.type pdu.flags pdu.sockReq.ntprofSent else req.times
      pdu := Function.update req.pdu p { pdu with sockReq := spdkSockRequestComplete pdu.sockReq } }

/-- The host: `nvme_tcp_qpair_capsule_cmd_send` and `nvme_tcp_send_h2c_data`, the socket layer, and
`pdu_write_done`. -/
def nvmeStep (req : TcpReq ι) : PduOp ι → TcpReq ι
  | .write p type flags now =>
    let pdu : TcpPdu := ⟨type, flags, { (req.pdu p).sockReq with ntprof := req.times.on }⟩
    { times :=
        if req.times.on ∧ type = .h2cData then ntprofStamp req.times (hostEvent .h2cStart) now else req.times
      pdu := Function.update req.pdu p pdu }
  | .pend p now =>
    let pdu := req.pdu p
    { req with pdu := Function.update req.pdu p { pdu with sockReq := spdkSockRequestPend pdu.sockReq now } }
  | .written p =>
    let pdu := req.pdu p
    { times :=
        if (pdu.type = .capsuleCmd ∨ pdu.type = .h2cData) ∧ req.times.on then
          ntprofNvmePduSent req.times pdu.type pdu.sockReq.ntprofSent
        else req.times
      pdu := Function.update req.pdu p { pdu with sockReq := spdkSockRequestComplete pdu.sockReq } }

/-! ## Work requests over RDMA -/

/-- `NTPROF_POSTS`. -/
def ntprofPosts : ℕ := 8

/-- A queue pair: the times of its requests, by their addresses `ι`, and those in `struct ntprof_posts`. -/
structure RdmaQpair (ι : Type) where
  times : ι → NtprofTimes
  posts : List ι := []

/-- `ntprof_post_later`. -/
def ntprofPostLater (q : RdmaQpair ι) (x : ι) (ev : Event) (now : U64) : RdmaQpair ι :=
  if q.posts.length = ntprofPosts then
    { q with times := Function.update q.times x (ntprofStamp (q.times x) ev now) }
  else
    { times := Function.update q.times x { q.times x with postEv := BitVec.ofNat 8 (ev.val + 1) }
      posts := q.posts ++ [x] }

/-- One turn of the loop of `ntprof_posted`. -/
def postOne (t : NtprofTimes) (now : U64) : NtprofTimes :=
  let i := t.postEv.toNat - 1
  let stamped :=
    if h : t.on ∧ t.postEv ≠ 0 ∧ i < spdkTimes then
      if t.t ⟨i, h.2.2⟩ = 0 then t.set ⟨i, h.2.2⟩ now else t
    else t
  { stamped with postEv := 0 }

/-- `ntprof_posted`. -/
def ntprofPosted (q : RdmaQpair ι) (now : U64) : RdmaQpair ι :=
  { times := q.posts.foldl (fun times x => Function.update times x (postOne (times x) now)) q.times
    posts := [] }

/-- What happens on a queue pair whose commands begin with the event `first`. -/
inductive PostOp (ι : Type) where
  | begin (x : ι) (every : U32) (cmd : NvmeCmd) (now : U64)
  | queue (x : ι) (ev : Event) (now : U64)
  | posted (now : U64)
  | done (x : ι)

/-- One step of a queue pair. The transports queue an event only for a command that is sampled. -/
def postStep (first : Event) (q : RdmaQpair ι) : PostOp ι → RdmaQpair ι
  | .begin x every cmd now =>
    { q with times := Function.update q.times x (ntprofBegin (q.times x) every cmd first now) }
  | .queue x ev now => if (q.times x).on then ntprofPostLater q x ev now else q
  | .posted now => ntprofPosted q now
  | .done x => { q with times := Function.update q.times x { q.times x with on := false } }

end Ntprof.Spdk
