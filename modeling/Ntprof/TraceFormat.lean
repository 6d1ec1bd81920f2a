import Ntprof.TraceFile
import Ntprof.Stats
import Ntprof.Lib.Bytes

/-!
# Record files, byte by byte (`src/trace_file.c`)

The structures are written as they are in memory on a little-endian machine, at the offsets of
`bpf/ntprof.h` and `src/trace_file.h`. Padding is written as it is and not read. A file is the list of
its bytes: it can be opened and read, and a read beyond its end is a short one.
-/

namespace Ntprof

open Bytes

/-! ## Layout -/

/-- The place of an event in `ts[]`. -/
def HostTs.index (i : HostTs) : Nat := HostTs.all.idxOf i

def TgtTs.index (i : TgtTs) : Nat := TgtTs.all.idxOf i

/-- `NTP_H_NR`. -/
def ntpHNr : Nat := HostTs.all.length

/-- `NTP_T_NR`. -/
def ntpTNr : Nat := TgtTs.all.length

/-- `NTP_H_NR_V3`. -/
def ntpHNrV3 : Nat := HostTs.c2hLastArr.index

/-- `NTP_T_NR_V4`. -/
def ntpTNrV4 : Nat := TgtTs.dataLastArr.index

/-- `sizeof(struct ntp_rec_hdr)`. -/
def sizeofRecHdr : Nat := 8

/-- `offsetof(struct ntp_host_rec, ts)`. -/
def offsetofHostTs : Nat := 80

/-- `sizeof(struct ntp_host_rec)`. -/
def sizeofHostRec : Nat := offsetofHostTs + ntpHNr * 8 + 16

/-- `offsetof(struct ntp_tgt_rec, ts)`. -/
def offsetofTgtTs : Nat := 40

/-- `sizeof(struct ntp_tgt_rec)`. -/
def sizeofTgtRec : Nat := offsetofTgtTs + ntpTNr * 8 + 16

/-- `sizeof(struct ntp_file_header)`. -/
def sizeofFileHeader : Nat := 184

/-- The padding of a host record: `id.pad`, `pad` and `pad2`. -/
structure HostPad where
  id : Vector U8 3 := Vector.replicate _ 0
  pad : U32 := 0
  pad2 : U32 := 0

/-- The padding of a target record. -/
structure TgtPad where
  id : Vector U8 3 := Vector.replicate _ 0
  pad2 : U32 := 0

/-- `struct ntp_rec_hdr` in memory. -/
def encodeRecHdr (h : RecHdr) : List U8 :=
  leBytes 1 h.kind ++ leBytes 1 h.transport ++ leBytes 2 h.flags ++ leBytes 4 h.cpu

/-- `struct ntp_cmd_id` in memory. -/
def encodeCmdId (id : CmdId) (pad : Vector U8 3) : List U8 :=
  leBytes 8 id.slba ++ leBytes 4 id.nsid ++ leBytes 2 id.cntlid ++ leBytes 2 id.qid ++ leBytes 2 id.cid ++
    leBytes 2 id.nlb ++ leBytes 1 id.opcode ++ pad.toList

/-- What a host record has before `ts[]`. -/
def encodeHostHead (h : HostRec) (p : HostPad) : List U8 :=
  encodeRecHdr h.hdr ++ encodeCmdId h.id p.id ++ leBytes 4 h.bytes ++ leBytes 4 h.ctrlInstance ++
    leBytes 2 h.qUnsent ++ leBytes 2 h.qInflight ++ leBytes 4 p.pad ++ h.disk.toList

/-- `struct ntp_host_rec` in memory. -/
def encodeHostRec (h : HostRec) (p : HostPad) : List U8 :=
  encodeHostHead h p ++ HostTs.all.flatMap (fun i => leBytes 8 (h.ts i)) ++ leBytes 8 h.c2hBusyNs ++
    leBytes 4 h.c2hSkbs ++ leBytes 4 p.pad2

/-- What a target record has before `ts[]`. -/
def encodeTgtHead (t : TgtRec) (p : TgtPad) : List U8 :=
  encodeRecHdr t.hdr ++ encodeCmdId t.id p.id ++ leBytes 4 t.bytes ++ leBytes 2 t.qOutstanding ++
    leBytes 2 t.qRespQueue

/-- `struct ntp_tgt_rec` in memory. -/
def encodeTgtRec (t : TgtRec) (p : TgtPad) : List U8 :=
  encodeTgtHead t p ++ TgtTs.all.flatMap (fun i => leBytes 8 (t.ts i)) ++ leBytes 8 t.h2cBusyNs ++
    leBytes 4 t.h2cSkbs ++ leBytes 4 p.pad2

/-- `struct ntp_file_header` in memory; its `pad` is 0, as `ntp_header_init` leaves it. -/
def encodeFileHeader (h : FileHeader) : List U8 :=
  h.magic.toList ++ leBytes 4 h.version ++ leBytes 4 h.headerSize ++ leBytes 4 h.hostRecSize ++
    leBytes 4 h.tgtRecSize ++ leBytes 4 h.role ++ leBytes 4 h.transport ++ leBytes 4 h.sampleEvery ++
    leBytes 4 (0 : U32) ++ leBytes 8 h.startMonoNs ++ leBytes 8 h.startRealNs ++ h.hostname.toList ++
    h.kernel.toList

def decodeRecHdr (m : List U8) : RecHdr where
  kind := field 8 0 m
  transport := field 8 1 m
  flags := field 16 2 m
  cpu := field 32 4 m

def decodeCmdId (m : List U8) : CmdId where
  slba := field 64 8 m
  nsid := field 32 16 m
  cntlid := field 16 20 m
  qid := field 16 22 m
  cid := field 16 24 m
  nlb := field 16 26 m
  opcode := field 8 28 m

/-- The host record in the memory `m`. -/
def decodeHostRec (m : List U8) : HostRec where
  hdr := decodeRecHdr m
  id := decodeCmdId m
  bytes := field 32 32 m
  ctrlInstance := field 32 36 m
  qUnsent := field 16 40 m
  qInflight := field 16 42 m
  disk := chars ntpDiskNameLen 48 m
  ts i := field 64 (offsetofHostTs + 8 * i.index) m
  c2hBusyNs := field 64 208 m
  c2hSkbs := field 32 216 m

/-- The target record in the memory `m`. -/
def decodeTgtRec (m : List U8) : TgtRec where
  hdr := decodeRecHdr m
  id := decodeCmdId m
  bytes := field 32 32 m
  qOutstanding := field 16 36 m
  qRespQueue := field 16 38 m
  ts i := field 64 (offsetofTgtTs + 8 * i.index) m
  h2cBusyNs := field 64 168 m
  h2cSkbs := field 32 176 m

/-- The file header in the memory `m`. -/
def decodeFileHeader (m : List U8) : FileHeader where
  magic := chars 8 0 m
  version := field 32 8 m
  headerSize := field 32 12 m
  hostRecSize := field 32 16 m
  tgtRecSize := field 32 20 m
  role := field 32 24 m
  transport := field 32 28 m
  sampleEvery := field 32 32 m
  startMonoNs := field 64 40 m
  startRealNs := field 64 48 m
  hostname := chars 64 56 m
  kernel := chars 64 120 m

/-! ## The header -/

/-- `NTP_FILE_MAGIC`, `"NTPROF2"` with its terminator. -/
def ntpFileMagic : Vector U8 8 := #v[0x4e, 0x54, 0x50, 0x52, 0x4f, 0x46, 0x32, 0]

/-- `NTP_FILE_VERSION`. -/
def ntpFileVersion : U32 := 5

/-- What `ntp_header_init` asks the machine for: `now_mono_ns`, `now_real_ns`, `gethostname` and
`uname`, the last two where they succeed. -/
structure Machine where
  monoNs : U64
  realNs : U64
  hostname : Option (List U8)
  release : Option (List U8)

/-- `ntp_header_init`. -/
def ntpHeaderInit (env : Machine) (role transport sampleEvery : U32) : FileHeader where
  magic := ntpFileMagic
  version := ntpFileVersion
  headerSize := BitVec.ofNat 32 sizeofFileHeader
  hostRecSize := BitVec.ofNat 32 sizeofHostRec
  tgtRecSize := BitVec.ofNat 32 sizeofTgtRec
  role := role
  transport := transport
  sampleEvery := sampleEvery
  startMonoNs := env.monoNs
  startRealNs := env.realNs
  hostname := toCharArray 64 (env.hostname.getD [0x75, 0x6e, 0x6b, 0x6e, 0x6f, 0x77, 0x6e])
  kernel := toCharArray 64 (env.release.getD [])

/-! ## Writing -/

/-- `struct ntp_writer`; the file is what has been written to it. -/
structure Writer where
  f : Option (List U8) := none
  records : Nat := 0

/-- How opening the file and writing its header went. -/
inductive OpenIo where
  | done
  | noFile
  | noHeader
  deriving DecidableEq

/-- `ntp_writer_open`. -/
def ntpWriterOpen (io : OpenIo) (hdr : FileHeader) : Int × Writer :=
  match io with
  | .done => (0, ⟨some (encodeFileHeader hdr), 0⟩)
  | .noFile | .noHeader => (-1, ⟨none, 0⟩)

/-- `ntp_writer_add`. A failed `fwrite` has written the first `short` bytes. -/
def ntpWriterAdd (short : Option Nat) (w : Writer) (rec : List U8) : Int × Writer :=
  match short with
  | none => (0, ⟨w.f.map (· ++ rec), w.records + 1⟩)
  | some n => (-1, { w with f := w.f.map (· ++ rec.take n) })

/-! ## Reading -/

/-- `struct ntp_reader_ops`: the callbacks that are not null. -/
structure ReaderOps (σ : Type) where
  host : Option (HostRec → σ → Int × σ)
  target : Option (TgtRec → σ → Int × σ)

/-- What `ntp_read_file` prints before it returns -1. -/
inductive ReadMsg where
  | notARecordFile
  | anotherVersion (version : U32)
  | corrupt (kind : U8)
  | truncated
  deriving DecidableEq

/-- The texts of the messages, without the path in front. -/
def ReadMsg.text : ReadMsg → String
  | .notARecordFile => " is not an ntprof record file"
  | .anotherVersion v => ": written by another ntprof version (file v" ++ toString v.toNat ++ ")"
  | .corrupt k => ": corrupt record (kind " ++ toString k.toNat ++ ")"
  | .truncated => ": truncated record"

/-- `host_size` in `ntp_read_file`. -/
def hostSize (version : U32) : Nat :=
  if 4 ≤ version then sizeofHostRec else offsetofHostTs + ntpHNrV3 * 8

/-- `tgt_size` in `ntp_read_file`. -/
def tgtSize (version : U32) : Nat :=
  if 5 ≤ version then sizeofTgtRec
  else if 3 ≤ version then offsetofTgtTs + ntpTNrV4 * 8
  else offsetofTgtTs + TgtTs.sendDone.index * 8

/-- `fread` of one item of `n` bytes: the item and the rest of the file, if there are as many. -/
def fread (n : Nat) (f : List U8) : Option (List U8 × List U8) :=
  if n ≤ f.length then some (f.take n, f.drop n) else none

/-- Write `data` at offset `o` of the memory `m`. -/
def overlay (o : Nat) (data m : List U8) : List U8 := m.take o ++ data ++ m.drop (o + data.length)

theorem length_of_fread {n : Nat} {f a g : List U8} (h : fread n f = some (a, g)) :
    a.length = n ∧ g.length + n = f.length := by
  unfold fread at h
  split_ifs at h with hn
  simp only [Option.some.injEq, Prod.mk.injEq] at h
  obtain ⟨rfl, rfl⟩ := h
  rw [List.length_take, List.length_drop]
  omega

/-- Call a callback that may be null. -/
def callBack {σ α : Type} (cb : Option (α → σ → Int × σ)) (a : α) (arg : σ) : Int × σ :=
  match cb with
  | none => (0, arg)
  | some cb => cb a arg

/-- The size of a record of a kind, if there is such a kind. -/
def recSize (version : U32) (kind : U8) : Option Nat :=
  if kind = ntpRecHost then some (hostSize version)
  else if kind = ntpRecTarget then some (tgtSize version)
  else none

/-- The loop of `ntp_read_file`, over the rest of the file, with the union `rec` as the bytes `buf`:
`ret`, what was printed, and the callbacks' argument. -/
def readLoop {σ : Type} (version : U32) (ops : ReaderOps σ) (f buf : List U8) (arg : σ) :
    Int × Option ReadMsg × σ :=
  match _ : fread sizeofRecHdr f with
  | none => (0, none, arg)
  | some (hdr, f) =>
    let buf := overlay 0 hdr buf
    -- what an older record lacks reads as 0
    let buf := overlay sizeofRecHdr (List.replicate (sizeofHostRec - sizeofRecHdr) 0) buf
    let kind := (decodeRecHdr buf).kind
    match recSize version kind with
    | none => (-1, some (.corrupt kind), arg)
    | some size =>
      match hr : fread (size - sizeofRecHdr) f with
      | none => (-1, some .truncated, arg)
      | some (rest, f) =>
        let buf := overlay sizeofRecHdr rest buf
        let (ret, arg) :=
          if kind = ntpRecHost then callBack ops.host (decodeHostRec buf) arg
          else callBack ops.target (decodeTgtRec buf) arg
        if ret ≠ 0 then (ret, none, arg) else readLoop version ops f buf arg
termination_by f.length
decreasing_by
  have h1 := (length_of_fread ‹fread sizeofRecHdr _ = some _›).2
  have h2 := (length_of_fread hr).2
  simp only [sizeofRecHdr] at *
  omega

/-- What `ntp_read_file` leaves: its return value, `*hdr` where it was read, what was printed, and the
callbacks' argument. -/
structure ReadResult (σ : Type) where
  ret : Int
  hdr : Option FileHeader := none
  msg : Option ReadMsg := none
  arg : σ

/-- The test of the header's version and sizes. -/
def FileHeader.supported (h : FileHeader) : Bool :=
  decide (2 ≤ h.version) && decide (h.version ≤ ntpFileVersion) &&
    h.headerSize.toNat == sizeofFileHeader && h.hostRecSize.toNat == hostSize h.version &&
    h.tgtRecSize.toNat == tgtSize h.version

/-- `ntp_read_file`, of a file with the bytes `f`. The union `rec` is not initialised: it starts as
`buf`. -/
def ntpReadFile {σ : Type} (f buf : List U8) (ops : ReaderOps σ) (arg : σ) : ReadResult σ :=
  match fread sizeofFileHeader f with
  | none => { ret := -1, msg := some .notARecordFile, arg := arg }
  | some (m, f) =>
    let hdr := decodeFileHeader m
    if hdr.magic ≠ ntpFileMagic then
      { ret := -1, hdr := some hdr, msg := some .notARecordFile, arg := arg }
    else if !hdr.supported then
      { ret := -1, hdr := some hdr, msg := some (.anotherVersion hdr.version), arg := arg }
    else
      let (ret, msg, arg) := readLoop hdr.version ops f buf arg
      { ret := if ret < 0 then -1 else 0, hdr := some hdr, msg := msg, arg := arg }

/-- The callbacks of `load_run`, as far as the order of the records goes. -/
def collectOps : ReaderOps (List Rec) where
  host := some fun h recs => (0, recs ++ [.host h])
  target := some fun t recs => (0, recs ++ [.target t])

/-- What `load_run` gets of a file. -/
def readRecordFile (buf f : List U8) : Option RecordFile :=
  match ntpReadFile f buf collectOps [] with
  | { ret := 0, hdr := some hdr, arg := recs, .. } => some ⟨hdr, recs⟩
  | _ => none

end Ntprof
