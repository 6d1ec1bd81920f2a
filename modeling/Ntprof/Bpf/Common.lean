import Ntprof.Record

/-!
# Maps and helpers of every BPF object (`bpf/common.bpf.h`)

A hook is a function on the object's state. What it reads from kernel memory are its arguments, and
`HookEnv` holds what the BPF helpers tell it: the CPU and the thread it runs on, the clock, and whether
the ring buffer takes a record. A table indexed by a hash of a kernel address is a function on its
slots; a per-CPU array is a function of the CPU.
-/

namespace Ntprof.Bpf

/-! ## What a hook runs in -/

/-- What the helpers return while a hook runs. -/
structure HookEnv where
  /-- `bpf_get_smp_processor_id()` -/
  cpu : Nat
  /-- `bpf_get_current_pid_tgid()` -/
  tid : U64
  /-- `bpf_ktime_get_ns()` -/
  now : U64
  /-- `bpf_ringbuf_output()` fails -/
  rbFull : Bool := false
  /-- which entry a full LRU map gives up -/
  lruVictim : Nat := 0

/-- A kernel address an event is about; it is not NULL. -/
abbrev KAddr := { a : U64 // a ≠ 0 }

/-- `struct ntp_filter`: the fields that the kernel objects read. -/
structure Filter where
  sampleEvery : U32 := 1
  ioType : U8 := 2
  nSizes : U8 := 0
  ctrlFilter : Bool := false
  trackQueues : Bool := false
  minBytes : U32 := 0
  maxBytes : U32 := 0
  sizes : Vector U32 16 := Vector.replicate _ 0
  ctrlMask : Vector U64 4 := Vector.replicate _ 0
  nsid : U32 := 0
  realMinusMono : S64 := 0

/-- `enum ntp_counter`. -/
inductive Counter where
  | hostReadIos
  | hostReadBytes
  | hostWriteIos
  | hostWriteBytes
  | hostSampled
  | hostEmitted
  | tgtCmds
  | tgtSampled
  | tgtEmitted
  | rbDrops
  | mapFull
  | stale
  deriving DecidableEq, Repr

/-- The counters, each summed over the CPUs as user space reads it. -/
abbrev Counters := Counter → U64

/-- `ntp_count`. -/
def ntpCount (c : Counters) (i : Counter) (delta : U64) : Counters :=
  Function.update c i (c i + delta)

/-! ## Direct-mapped tables -/

/-- `NTP_REC_SLOTS`. -/
def ntpRecSlots : Nat := 1 <<< 14

/-- A slot of a table of records. -/
abbrev Slot := Fin ntpRecSlots

theorem ntpSlot_lt (x : U32) : (x &&& BitVec.ofNat 32 (ntpRecSlots - 1)).toNat < ntpRecSlots := by
  rw [BitVec.toNat_and]
  exact lt_of_le_of_lt Nat.and_le_right (by decide)

/-- `ntp_slot(addr, NTP_REC_SLOTS)`. -/
def ntpSlot (addr : U64) : Slot :=
  let h : U32 := (((addr >>> 6) ^^^ (addr >>> 26)) * 0x9e3779b1#64).setWidth 32
  ⟨(h &&& BitVec.ofNat 32 (ntpRecSlots - 1)).toNat, ntpSlot_lt h⟩

/-! ## Hash maps -/

/-- A BPF hash map: the entries it holds, at most `maxEntries`. -/
structure BpfMap (κ ν : Type) where
  maxEntries : Nat
  entries : List (κ × ν) := []

namespace BpfMap

variable {κ ν : Type} [DecidableEq κ]

/-- `bpf_map_lookup_elem`. -/
def lookup (m : BpfMap κ ν) (k : κ) : Option ν := (m.entries.find? fun e => e.1 = k).map Prod.snd

/-- A write through the pointer `bpf_map_lookup_elem` returned. -/
def modify (m : BpfMap κ ν) (k : κ) (f : ν → ν) : BpfMap κ ν :=
  { m with entries := m.entries.map fun e => if e.1 = k then (e.1, f e.2) else e }

/-- `bpf_map_update_elem(.., BPF_NOEXIST)`; it fails for a key that is there and on a full map. -/
def updateNoExist (m : BpfMap κ ν) (k : κ) (v : ν) : BpfMap κ ν :=
  if (m.lookup k).isNone ∧ m.entries.length < m.maxEntries then
    { m with entries := m.entries ++ [(k, v)] }
  else m

/-- `bpf_map_update_elem(.., BPF_ANY)`; a new key fails on a full map. -/
def updateAny (m : BpfMap κ ν) (k : κ) (v : ν) : BpfMap κ ν :=
  if (m.lookup k).isSome then m.modify k fun _ => v else m.updateNoExist k v

/-- `bpf_map_delete_elem`. -/
def delete (m : BpfMap κ ν) (k : κ) : BpfMap κ ν :=
  { m with entries := m.entries.filter fun e => e.1 ≠ k }

/-- `bpf_map_update_elem(.., BPF_ANY)` on an LRU map: a full one gives up an entry first. -/
def updateLru (m : BpfMap κ ν) (victim : Nat) (k : κ) (v : ν) : BpfMap κ ν :=
  if (m.lookup k).isNone ∧ m.maxEntries ≤ m.entries.length then
    { m with entries := m.entries.eraseIdx victim ++ [(k, v)] }
  else m.updateAny k v

omit [DecidableEq κ]

/-- The map has no room for another key. -/
def full (m : BpfMap κ ν) : Bool := decide (m.maxEntries ≤ m.entries.length)

/-- How many entries have a value with the property `p`. -/
def tally (m : BpfMap κ ν) (p : ν → Bool) : Nat := m.entries.countP fun e => p e.2

end BpfMap

/-! ## Per-thread contexts in per-CPU slots -/

/-- A context that starts with `u64 tid`. -/
class Tagged (γ : Type) where
  tid : γ → U64
  setTid : γ → U64 → γ
  tid_setTid : ∀ c t, tid (setTid c t) = t

/-- `NTP_CTX_GET`: the context in this CPU's slot, if it carries this thread's tag. -/
def ntpCtxGet {γ : Type} [Tagged γ] (slots : Nat → γ) (env : HookEnv) : Option γ :=
  if Tagged.tid (slots env.cpu) = env.tid then some (slots env.cpu) else none

/-- Write this CPU's context. -/
def ctxPut {γ : Type} (slots : Nat → γ) (env : HookEnv) (c : γ) : Nat → γ :=
  Function.update slots env.cpu c

/-- `c->tid = 0` for the context `NTP_CTX_GET` found, if it found one. -/
def ctxClear {γ : Type} [Tagged γ] (slots : Nat → γ) (env : HookEnv) : Nat → γ :=
  match ntpCtxGet slots env with
  | none => slots
  | some c => ctxPut slots env (Tagged.setTid c 0)

/-! ## Arrival times of skbs -/

/-- `NTP_SKB_STAMP_MAX_AGE_NS`. -/
def ntpSkbStampMaxAgeNs : U64 := 1000000000

/-- `ntp_plausible`. -/
def ntpPlausible (ts now : U64) : Bool :=
  decide (ts ≠ 0) && decide (ts ≤ now) && decide (now - ts < ntpSkbStampMaxAgeNs)

/-- `ntp_skb_arrival`, for an skb whose `tstamp` is `t`. -/
def ntpSkbArrival (f : Filter) (t : S64) (now : U64) : U64 :=
  if t.toInt ≤ 0 then now
  else
    let mono : U64 := t - f.realMinusMono
    if ntpPlausible mono now then mono
    else if ntpPlausible t now then t
    else now

/-! ## NVMe -/

/-- The fields of a wire-format command that `ntp_read_cmd` copies. -/
structure NvmeCmd where
  opcode : U8
  commandId : U16
  nsid : U32
  slba : U64
  length : U16

/-- `ntp_read_cmd`: the id of a command, but for its controller and queue. -/
def ntpReadCmd (c : NvmeCmd) : CmdId :=
  { opcode := c.opcode, cid := c.commandId, nsid := c.nsid, slba := c.slba, nlb := c.length }

/-- `ntp_sample_hash`. -/
def ntpSampleHash (cid : U16) (slba : U64) (nlb : U16) : U64 :=
  let x := slba ^^^ (cid.setWidth 64 <<< 48) ^^^ (nlb.setWidth 64 <<< 32)
  let x := x ^^^ (x >>> 30)
  let x := x * 0xbf58476d1ce4e5b9#64
  let x := x ^^^ (x >>> 27)
  let x := x * 0x94d049bb133111eb#64
  x ^^^ (x >>> 31)

/-- `ntp_sampled`. -/
def ntpSampled (f : Filter) (cid : U16) (slba : U64) (nlb : U16) : Bool :=
  if f.sampleEvery ≤ 1 then true
  else ntpSampleHash cid slba nlb % f.sampleEvery.setWidth 64 == 0

/-- `ntp_is_rw`. -/
def ntpIsRw (opcode : U8) : Bool := opcode == ntpNvmeCmdRead || opcode == ntpNvmeCmdWrite

/-- The test of `filter.io_type`. -/
def ntpTypeMatches (f : Filter) (opcode : U8) : Bool :=
  f.ioType == 2 || f.ioType == (if opcode == ntpNvmeCmdWrite then 1 else 0)

/-- `ntp_size_matches`. -/
def ntpSizeMatches (f : Filter) (bytes : U32) : Bool :=
  if f.nSizes ≠ 0 then
    (List.finRange 16).any fun i => decide (i.val < f.nSizes.toNat) && f.sizes[i] == bytes
  else if f.minBytes ≠ 0 ∧ bytes < f.minBytes then false
  else if f.maxBytes ≠ 0 ∧ f.maxBytes < bytes then false
  else true

/-- `ntp_clamp_u16`. -/
def ntpClampU16 (v : BitVec 32) : U16 :=
  if v.toInt < 0 then 0 else if 0xffff < v.toInt then 0xffff else v.setWidth 16

end Ntprof.Bpf

/-! ## Stamping a record -/

namespace Ntprof

/-- Write a timestamp of a target record. -/
def TgtRec.stamp (r : TgtRec) (i : TgtTs) (t : U64) : TgtRec :=
  { r with ts := Function.update r.ts i t }

/-- `ntp_stamp_once`. -/
def TgtRec.stampOnce (r : TgtRec) (i : TgtTs) (t : U64) : TgtRec :=
  if r.ts i = 0 then r.stamp i t else r

/-- Set flags of a target record. -/
def TgtRec.orFlags (r : TgtRec) (bits : U16) : TgtRec :=
  { r with hdr := { r.hdr with flags := r.hdr.flags ||| bits } }

/-- Write a timestamp of a host record. -/
def HostRec.stamp (r : HostRec) (i : HostTs) (t : U64) : HostRec :=
  { r with ts := Function.update r.ts i t }

/-- `ntp_stamp_once`. -/
def HostRec.stampOnce (r : HostRec) (i : HostTs) (t : U64) : HostRec :=
  if r.ts i = 0 then r.stamp i t else r

/-- Set flags of a host record. -/
def HostRec.orFlags (r : HostRec) (bits : U16) : HostRec :=
  { r with hdr := { r.hdr with flags := r.hdr.flags ||| bits } }

end Ntprof
