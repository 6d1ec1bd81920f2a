import Mathlib.Data.BitVec
import Mathlib.Data.Fintype.Pi

/-!
# Records of sampled commands (`bpf/ntprof.h`)

Each sampled NVMe-oF command leaves one record per side. The fixed-width integers of the source are
bit vectors: `+`, `-` and `*` wrap, `<` and `≤` are the unsigned comparisons, and a signed value is
read with `BitVec.toInt`. A timestamp of 0 means that the event was not seen. Padding is left out.
-/

namespace Ntprof

abbrev U8 := BitVec 8
abbrev U16 := BitVec 16
abbrev U32 := BitVec 32
abbrev U64 := BitVec 64
abbrev S64 := BitVec 64

/-- `UINT64_MAX`. -/
def uint64Max : U64 := BitVec.allOnes 64

/-- `enum ntp_host_ts`: the events of the initiator. -/
inductive HostTs where
  | start
  | queueRq
  | cmdSent
  | r2tArr
  | r2tProc
  | dataStart
  | dataSent
  | c2hArr
  | c2hProc
  | rspArr
  | rspProc
  | nvmeDone
  | blkDone
  | sendDone
  | c2hLastArr
  | c2hDone
  deriving DecidableEq, Repr

/-- The events in the order of the enumeration; there are `NTP_H_NR` of them. -/
def HostTs.all : List HostTs :=
  [.start, .queueRq, .cmdSent, .r2tArr, .r2tProc, .dataStart, .dataSent, .c2hArr,
    .c2hProc, .rspArr, .rspProc, .nvmeDone, .blkDone, .sendDone, .c2hLastArr, .c2hDone]

instance : Fintype HostTs where
  elems := HostTs.all.toFinset
  complete := by intro x; cases x <;> decide

/-- `enum ntp_tgt_ts`: the events of the target. -/
inductive TgtTs where
  | cmdArr
  | cmdProc
  | r2tQueued
  | r2tSent
  | dataArr
  | dataProc
  | exec
  | beIssue
  | beDone
  | complete
  | rspQueued
  | c2hSent
  | rspSent
  | sendDone
  | dataLastArr
  | dataDone
  deriving DecidableEq, Repr

/-- The events in the order of the enumeration; there are `NTP_T_NR` of them. -/
def TgtTs.all : List TgtTs :=
  [.cmdArr, .cmdProc, .r2tQueued, .r2tSent, .dataArr, .dataProc, .exec, .beIssue,
    .beDone, .complete, .rspQueued, .c2hSent, .rspSent, .sendDone, .dataLastArr, .dataDone]

instance : Fintype TgtTs where
  elems := TgtTs.all.toFinset
  complete := by intro x; cases x <;> decide

/-- `struct ntp_cmd_id`: what identifies a command on the wire, on both sides. -/
structure CmdId where
  slba : U64 := 0
  nsid : U32 := 0
  cntlid : U16 := 0
  qid : U16 := 0
  cid : U16 := 0
  nlb : U16 := 0
  opcode : U8 := 0
  deriving DecidableEq

/-- `struct ntp_rec_hdr`. -/
structure RecHdr where
  kind : U8 := 0
  transport : U8 := 0
  flags : U16 := 0
  cpu : U32 := 0
  deriving DecidableEq

/-! ## Constants -/

/-- `NTP_REC_HOST`. -/
def ntpRecHost : U8 := 1

/-- `NTP_REC_TARGET`. -/
def ntpRecTarget : U8 := 2

/-- `NTP_TR_TCP`. -/
def ntpTrTcp : U8 := 1

/-- `NTP_TR_RDMA`. -/
def ntpTrRdma : U8 := 2

/-- `NTP_F_WRITE`: data direction host to target. -/
def ntpFWrite : U16 := 1#16 <<< 0

/-- `NTP_F_INLINE_DATA`: write carried in the command capsule. -/
def ntpFInlineData : U16 := 1#16 <<< 1

/-- `NTP_F_R2T`: write solicited by R2T (TCP). -/
def ntpFR2t : U16 := 1#16 <<< 2

/-- `NTP_F_DATA_SUCCESS`: read completed by the C2H SUCCESS flag. -/
def ntpFDataSuccess : U16 := 1#16 <<< 3

/-- `NTP_F_MULTI_R2T`: more than one R2T for this command. -/
def ntpFMultiR2t : U16 := 1#16 <<< 4

/-- `NTP_F_QUEUES`: the queue fields were tracked. -/
def ntpFQueues : U16 := 1#16 <<< 5

/-- `NTP_F_RDMA_READ`: the target fetched the write data. -/
def ntpFRdmaRead : U16 := 1#16 <<< 6

/-- `NTP_F_SPDK`: recorded in SPDK. -/
def ntpFSpdk : U16 := 1#16 <<< 7

/-- `NTP_F_REUSED`: the target record was emitted when its `nvmet_req` came back. -/
def ntpFReused : U16 := 1#16 <<< 8

/-- `NTP_NVME_CMD_WRITE`. -/
def ntpNvmeCmdWrite : U8 := 1

/-- `NTP_NVME_CMD_READ`. -/
def ntpNvmeCmdRead : U8 := 2

/-- `NTP_DISK_NAME_LEN`. -/
def ntpDiskNameLen : Nat := 32

/-- The test `hdr.flags & bit`. -/
def RecHdr.has (hdr : RecHdr) (bit : U16) : Bool := hdr.flags &&& bit != 0

/-! ## Records -/

/-- `struct ntp_host_rec`. -/
structure HostRec where
  hdr : RecHdr := {}
  id : CmdId := {}
  bytes : U32 := 0
  ctrlInstance : U32 := 0
  qUnsent : U16 := 0
  qInflight : U16 := 0
  disk : Vector U8 ntpDiskNameLen := Vector.replicate _ 0
  ts : HostTs → U64 := fun _ => 0
  c2hBusyNs : U64 := 0
  c2hSkbs : U32 := 0
  deriving DecidableEq

/-- `struct ntp_tgt_rec`. -/
structure TgtRec where
  hdr : RecHdr := {}
  id : CmdId := {}
  bytes : U32 := 0
  qOutstanding : U16 := 0
  qRespQueue : U16 := 0
  ts : TgtTs → U64 := fun _ => 0
  h2cBusyNs : U64 := 0
  h2cSkbs : U32 := 0
  deriving DecidableEq

/-- A record of either side, as the ring buffer and the record files carry them. -/
inductive Rec where
  | host (h : HostRec)
  | target (t : TgtRec)
  deriving DecidableEq

def Rec.host? : Rec → Option HostRec
  | .host h => some h
  | .target _ => none

def Rec.target? : Rec → Option TgtRec
  | .host _ => none
  | .target t => some t

end Ntprof
