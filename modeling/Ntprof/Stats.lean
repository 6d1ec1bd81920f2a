import Ntprof.Util
import Ntprof.Model
import Mathlib.Data.Rat.Floor
import Mathlib.Data.List.Sort

/-!
# Statistics (`src/stats.c`)

Breakdowns are collected in groups, by I/O type, size and device. A sample vector is a list, a pointer
to a group is its index. The floating-point numbers of the summaries are read as exact rationals.
-/

namespace Ntprof

/-! ## Summaries -/

/-- `ntp_quantiles`. -/
def ntpQuantiles : List ℚ :=
  [10 / 100, 50 / 100, 70 / 100, 80 / 100, 90 / 100, 95 / 100, 99 / 100, 999 / 1000]

/-- `struct ntp_summary`. -/
structure Summary where
  n : Nat := 0
  mean : ℚ := 0
  min : S64 := 0
  max : S64 := 0
  q : List S64 := []

/-- `cmp_i64(a, b) <= 0`. -/
def cmpI64 (a b : S64) : Bool := decide (a.toInt ≤ b.toInt)

/-- The conversion of a floating-point number to an integer: towards 0. -/
def truncInt (x : ℚ) : Int := if 0 ≤ x then ⌊x⌋ else ⌈x⌉

/-- One quantile of the sorted samples: linear interpolation between closest ranks. -/
def quantileOf (v : List S64) (q : ℚ) : S64 :=
  let pos := q * ((v.length - 1 : Nat) : ℚ)
  let lo := ⌊pos⌋.toNat
  let frac := pos - lo
  if v.length ≤ lo + 1 then v.getD (v.length - 1) 0
  else
    let gap : S64 := v.getD (lo + 1) 0 - v.getD lo 0
    v.getD lo 0 + BitVec.ofInt 64 (truncInt ((gap.toInt : ℚ) * frac + 1 / 2))

/-- The sum of the samples, as a number. -/
def sumInt (v : List S64) : Int := (v.map BitVec.toInt).sum

/-- `ntp_summarize`; it also sorts the vector. -/
def ntpSummarize (v : List S64) : List S64 × Summary :=
  if v.length = 0 then (v, {})
  else
    let sorted := v.mergeSort cmpI64
    (sorted,
      { n := v.length
        mean := (sumInt sorted : ℚ) / (v.length : ℚ)
        min := sorted.getD 0 0
        max := sorted.getD (v.length - 1) 0
        q := ntpQuantiles.map (quantileOf sorted) })

/-! ## Session names -/

/-- The string in a character array. -/
def cString {n : Nat} (buf : Vector U8 n) : List U8 := buf.toList.takeWhile (· ≠ 0)

/-- What `snprintf` leaves in a zeroed character array. -/
def toCharArray (n : Nat) (s : List U8) : Vector U8 n :=
  Vector.ofFn fun i => if i.val + 1 < n then s.getD i.val 0 else 0

/-- `"nvme"`. -/
def nvmeText : List U8 := [0x6e, 0x76, 0x6d, 0x65]

/-- The text `ntp_session_name` writes for a disk name: `nvme1c2n3` becomes `nvme1n3`. -/
def sessionText (disk : List U8) : List U8 :=
  if nvmeText.isPrefixOf disk then
    let c := (disk.drop 4).dropWhile isDigit
    let n := (c.drop 1).dropWhile isDigit
    -- *c == 'c' && isdigit(c[1]), then *n == 'n'
    if c.head? = some 0x63#8 ∧ ((c.drop 1).head?.any isDigit) ∧ n.head? = some 0x6e#8 then
      disk.take (disk.length - c.length) ++ n
    else disk
  else disk

/-- `ntp_session_name`. -/
def ntpSessionName (disk : Vector U8 ntpDiskNameLen) : Vector U8 ntpDiskNameLen :=
  toCharArray ntpDiskNameLen (sessionText (cString disk))

/-- `ntp_session_name` for any string and any buffer: the string it leaves in a buffer of `len` bytes. The precision of
its `%.*s` is an `int`, which holds the length of a name. -/
def sessionName (len : Nat) (disk : List U8) : List U8 := (sessionText disk).take (len - 1)

/-! ## Groups -/

/-- `enum ntp_queue_metric`. -/
inductive QueueMetric where
  | hostUnsent
  | hostInflight
  | tgtOutstanding
  | tgtRespQueue
  deriving DecidableEq, Repr

/-- `struct ntp_group_key`. -/
structure GroupKey where
  isWrite : Int
  bytes : U32
  session : Vector U8 ntpDiskNameLen
  deriving DecidableEq

/-- `struct ntp_group`. -/
structure Group where
  key : GroupKey
  records : Nat := 0
  joined : Nat := 0
  badHost : Nat := 0
  badTarget : Nat := 0
  postEstimated : Nat := 0
  transport : U8 := 0
  spdkHost : Bool := false
  spdkTarget : Bool := false
  comp : Comp → List S64 := fun _ => []
  stage : Stage → List S64 := fun _ => []
  queue : QueueMetric → List S64 := fun _ => []

/-- `struct ntp_stats`. -/
structure Stats where
  groups : List Group := []
  byType : Bool
  bySize : Bool
  bySession : Bool
  sampleEvery : U32 := 1
  firstNs : U64 := 0
  lastNs : U64 := 0

/-- `ntp_stats_init`. -/
def ntpStatsInit (byType bySize bySession : Bool) : Stats :=
  { byType := byType, bySize := bySize, bySession := bySession }

/-- `ntp_stats_reset`: forget all samples, keep the grouping. -/
def ntpStatsReset (s : Stats) : Stats :=
  { ntpStatsInit s.byType s.bySize s.bySession with sampleEvery := s.sampleEvery }

/-- The key `group_for` computes for a record. -/
def groupKey (s : Stats) (h : HostRec) : GroupKey where
  isWrite := if s.byType then (if h.hdr.has ntpFWrite then 1 else 0) else -1
  bytes := if s.bySize then h.bytes else 0
  session := if s.bySession then ntpSessionName h.disk else Vector.replicate _ 0

/-- `group_for`: the group of a record, made if it is the first one. -/
def groupFor (s : Stats) (h : HostRec) : Stats × Nat :=
  let k := groupKey s h
  match s.groups.findIdx? fun g => g.key = k with
  | some i => (s, i)
  | none => ({ s with groups := s.groups ++ [{ key := k }] }, s.groups.length)

/-- `i64vec_push`, where the component or stage is valid. -/
def pushIf (p : Bool) (v : List S64) (x : S64) : List S64 := if p then v ++ [x] else v

/-- The samples of the queue lengths, when they were tracked. -/
def pushQueues (h : HostRec) (t : Option TgtRec) (joined : Bool) (queue : QueueMetric → List S64) :
    QueueMetric → List S64
  | .hostUnsent => pushIf (h.hdr.has ntpFQueues) (queue .hostUnsent) (h.qUnsent.setWidth 64)
  | .hostInflight => pushIf (h.hdr.has ntpFQueues) (queue .hostInflight) (h.qInflight.setWidth 64)
  | .tgtOutstanding =>
    match t with
    | none => queue .tgtOutstanding
    | some t =>
      pushIf (joined && t.hdr.has ntpFQueues) (queue .tgtOutstanding) (t.qOutstanding.setWidth 64)
  | .tgtRespQueue =>
    match t with
    | none => queue .tgtRespQueue
    | some t =>
      pushIf (joined && t.hdr.has ntpFQueues) (queue .tgtRespQueue) (t.qRespQueue.setWidth 64)

/-- What `ntp_stats_add` does to the record's group. -/
def Group.addRec (g : Group) (h : HostRec) (t : Option TgtRec) : Group :=
  let (err, b) := ntpBreakdown h t
  let g := { g with records := g.records + 1, transport := h.hdr.transport
                    spdkHost := g.spdkHost || h.hdr.has ntpFSpdk
                    spdkTarget := g.spdkTarget || t.any fun t : TgtRec => t.hdr.has ntpFSpdk }
  if err = .incompleteHost then { g with badHost := g.badHost + 1 }
  else
    { g with badTarget := if err = ModelErr.incompleteTarget then g.badTarget + 1 else g.badTarget
             joined := if b.joined then g.joined + 1 else g.joined
             postEstimated := if b.postEstimated then g.postEstimated + 1 else g.postEstimated
             comp := fun c => pushIf (b.valid c) (g.comp c) (b.comp c)
             stage := fun i => pushIf (b.stageValid i) (g.stage i) (b.stage i)
             queue := pushQueues h t b.joined g.queue }

/-- `ntp_stats_add`. -/
def ntpStatsAdd (s : Stats) (h : HostRec) (t : Option TgtRec) : Stats :=
  let (s, i) := groupFor s h
  let Q := h.ts .queueRq
  { s with groups := s.groups.modify i fun g => g.addRec h t
           firstNs := if Q ≠ 0 ∧ (s.firstNs = 0 ∨ Q < s.firstNs) then Q else s.firstNs
           lastNs := if s.lastNs < h.ts .blkDone then h.ts .blkDone else s.lastNs }

/-- A sequence of `ntp_stats_add` calls. -/
def statsRun (s : Stats) (recs : List (HostRec × Option TgtRec)) : Stats :=
  recs.foldl (fun s r => ntpStatsAdd s r.1 r.2) s

end Ntprof
