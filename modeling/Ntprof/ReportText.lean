import Ntprof.Config
import Ntprof.Report
import Ntprof.JsonReport

/-!
# The text report (`src/report.c`)

`ntp_report_text` shows the groups with the most records first, and folds the small ones into one line. The counters of
a group are 64 bits wide, so sums and products of them wrap. Floating-point numbers are read as exact rationals and
written by `Printf`, as in the JSON report.
-/

namespace Ntprof

/-- `struct ntp_report_opts`. -/
structure ReportOpts where
  aggr : Aggr := .avg
  distribution : Bool := false
  breakdown : Bool := false
  detail : Bool := false
  queueLength : Bool := false
  allGroups : Bool := false

/-- `MINOR_GROUP_PCT`. -/
def minorGroupPct : U64 := 1

/-! ## Groups -/

/-- The counter `records` of a group, in its 64 bits. -/
def Group.count (g : Group) : U64 := BitVec.ofNat 64 g.records

/-- `s->groups[k].records`. -/
def Stats.count (s : Stats) (k : ℕ) : U64 := (s.groups[k]?).elim 0 Group.count

/-- `total_records`. -/
def totalRecords (s : Stats) : U64 := s.groups.foldl (fun n g => n + g.count) 0

/-- The inner loop of `order_groups`, and the write behind it: group `i` goes to its place in `idx`, from place `j` on
to the front. -/
def orderLoop (s : Stats) (i : ℕ) : ℕ → List ℕ → List ℕ
  | 0, idx => idx.set 0 i
  | j + 1, idx =>
    if s.count (idx.getD j 0) < s.count i then orderLoop s i j (idx.set (j + 1) (idx.getD j 0))
    else idx.set (j + 1) i

/-- `order_groups`. -/
def orderGroups (s : Stats) : List ℕ :=
  let n := s.groups.length
  (List.range n).foldl (fun idx i => orderLoop s i i idx) (List.replicate (if n ≠ 0 then n else 1) 0)

/-- `folded`. -/
def folded (s : Stats) (idx : List ℕ) (i : ℕ) (total : U64) (o : ReportOpts) : Bool :=
  i ≠ 0 && !o.allGroups && s.count (idx.getD i 0) * 100 < total * minorGroupPct

/-! ## Conversions -/

/-- `%wd` and the like: blanks in front. -/
def padLeft (w : ℕ) (t : List U8) : List U8 := t.leftpad w 0x20#8

/-- `%-ws`: blanks behind. -/
def padRight (w : ℕ) (t : List U8) : List U8 := t.rightpad w 0x20#8

/-- `us`. -/
def us (ns : ℚ) : ℚ := ns / 1000

/-- A time in nanoseconds as microseconds. -/
def usOf (ns : S64) : ℚ := us (ns.toInt : ℚ)

/-- `human`, in a buffer of 16 bytes. -/
def human (P : Printf) (v : ℚ) : List U8 :=
  cutText 16 <|
    if v < 1000 then P.fixed 0 v
    else if v < 1000000 then P.fixed 1 (v / 1000) ++ text "k"
    else P.fixed 2 (v / 1000000) ++ text "M"

/-- `share`. -/
def share (part whole : ℚ) : ℚ := if 0 < whole then 100 * part / whole else 0

/-- The number of `#` in a share bar; `BAR_WIDTH` is 24. -/
def barWidth (pct : ℚ) : ℕ := (min (truncInt (pct * 24 / 100 + 1 / 2)) 24).toNat

/-- `bar`. -/
def bar (pct : ℚ) : List U8 := List.replicate (barWidth pct) 0x23#8

/-- The size in a group's label. -/
def sizeLabel (P : Printf) (bytes : U32) : List U8 :=
  if bytes &&& 0xfffff#32 = 0 then P.unsigned (bytes >>> 20).toNat ++ text "MiB"
  else if bytes &&& 1023#32 = 0 then P.unsigned (bytes >>> 10).toNat ++ text "KiB"
  else P.unsigned bytes.toNat ++ text "B"

/-- A part of a label, with a blank if it is not the first one. -/
def labelPart (before : List U8) (part : List U8) : List U8 :=
  before ++ (if before.length ≠ 0 then text " " else []) ++ part

/-- `ntp_group_label`: each part goes behind the others while there is room, so a buffer of `len` bytes has the front
of them all. -/
def ntpGroupLabel (P : Printf) (k : GroupKey) (len : ℕ) : List U8 :=
  let ty := if 0 ≤ k.isWrite then (if k.isWrite ≠ 0 then text "write" else text "read") else []
  let size := if k.bytes ≠ 0 then labelPart ty (sizeLabel P k.bytes) else ty
  let all := if (cString k.session).length ≠ 0 then labelPart size (cString k.session) else size
  cutText len (if all.length ≠ 0 then all else text "all")

/-! ## A group -/

/-- `Q_P50`, `Q_P99` and `Q_P999`: indexes in `ntp_quantiles`. -/
def qP50 : ℕ := 1
def qP99 : ℕ := 6
def qP999 : ℕ := 7

/-- `NAME_W`. -/
def nameW : ℕ := 38

/-- `print_latency`. -/
def printLatency (P : Printf) (o : ReportOpts) (e : Summary) : List U8 :=
  let q (i : ℕ) := P.fixed 2 (usOf (e.q.getD i 0))
  text "  latency (us): mean " ++ P.fixed 2 (us e.mean) ++
    (if o.aggr = .min then text ", min " ++ P.fixed 2 (usOf e.min) else []) ++
    (if o.distribution then
      if o.aggr = .dist then
        ntpQuantileNames.zipIdx.flatMap fun (name, i) => text ", " ++ text name ++ text " " ++ q i
      else text ", p50 " ++ q qP50 ++ text ", p99 " ++ q qP99 ++ text ", p99.9 " ++ q qP999
    else []) ++
    (if o.aggr = .max ∨ o.aggr = .dist then text ", max " ++ P.fixed 2 (usOf e.max) else []) ++ text "\n"

/-- The line of one stage. -/
def stageLine (P : Printf) (inflight : Bool) (rate : ℚ) (e2e : Summary) (row : SRow) : List U8 :=
  let pct := share row.m.mean e2e.mean
  text "  " ++ padRight nameW (text row.desc) ++ text " " ++ padLeft 8 (P.fixed 2 (us row.m.mean)) ++ text " " ++
    padLeft 5 (P.fixed 0 pct) ++ text "%" ++
    (if inflight then text " " ++ padLeft 8 (P.fixed 2 (rate * row.m.mean / 1000000000)) else []) ++
    text "  " ++ bar pct ++ text "\n"

/-- `top`: the first row with the largest mean, of those with samples. -/
def largestRow : List SRow → Option SRow → Option SRow
  | [], top => top
  | row :: rows, top =>
    if row.m.n = 0 then largestRow rows top
    else
      match top with
      | none => largestRow rows (some row)
      | some t => largestRow rows (if t.m.mean < row.m.mean then some row else some t)

/-- What `print_stages` writes. -/
def stagesText (P : Printf) (o : ReportOpts) (rate : ℚ) (e2e : Summary) (rows : List SRow) : List U8 :=
  let inflight := o.queueLength && decide (0 < rate)
  text "  " ++ padRight nameW (text "stage") ++ text " " ++ padLeft 8 (text "mean us") ++ text " " ++
    padLeft 6 (text "share") ++ (if inflight then text " " ++ padLeft 8 (text "avg QD") else []) ++ text "\n" ++
    (rows.filter fun row => row.m.n ≠ 0).flatMap (stageLine P inflight rate e2e) ++
    match largestRow rows none with
    | none => []
    | some top =>
      if 1 < rows.length then
        text "  largest: " ++ text top.desc ++ text ", " ++ P.fixed 0 (share top.m.mean e2e.mean) ++
          text " % of the latency\n"
      else []

/-- The loop of `print_queues`: the group with sorted vectors, and the text; `any` tells whether there was one. -/
def queuesLoop (P : Printf) (g : Group) (any : Bool) : List QueueMetric → Group × List U8
  | [] => (g, if any then text "\n" else [])
  | q :: qs =>
    let (sorted, m) := ntpSummarize (g.queue q)
    let g := { g with queue := Function.update g.queue q sorted }
    if m.n = 0 then queuesLoop P g any qs
    else
      let (g, rest) := queuesLoop P g true qs
      (g, (if any then text "," else text "  queue length at arrival (mean/p99):") ++ text " " ++
        text (ntpQueueNames q) ++ text " " ++ P.fixed 2 m.mean ++ text "/" ++ P.signed (m.q.getD qP99 0).toInt ++ rest)

/-- `print_queues`. -/
def printQueues (P : Printf) (g : Group) : Group × List U8 := queuesLoop P g false QueueMetric.all

/-! ## The component table -/

/-- `display`: the components with their indents. -/
def display : List (Comp × ℕ) :=
  [(.blkSub, 0), (.trSub, 0), (.net, 0), (.netData, 2), (.tgtRx, 0), (.tgtSub, 0), (.tgtWait, 0), (.tgtData, 0),
    (.tgtBe, 0), (.tgtBeSub, 2), (.tgtDev, 2), (.tgtBeCmpl, 2), (.tgtCmpl, 0), (.remote, 0), (.hostRx, 0),
    (.hostWait, 0), (.hostData, 0), (.trCmpl, 0), (.blkCmpl, 0), (.cmplIpi, 2), (.e2e, 0)]

/-- `columns`. -/
def columns (o : ReportOpts) : List ℕ :=
  if !o.distribution then []
  else if o.aggr = .dist then List.range ntpQuantileNames.length
  else [qP50, qP99]

/-- `print_header`. -/
def printHeader (o : ReportOpts) : List U8 :=
  text "  " ++ padRight nameW (text "component") ++ text " " ++ padLeft 8 (text "n") ++ text " " ++
    padLeft 9 (text "mean") ++ text " " ++ padLeft 7 (text "L") ++
    (if o.aggr = .min then text " " ++ padLeft 9 (text "min") else []) ++
    ((columns o).flatMap fun i => text " " ++ padLeft 9 (text (ntpQuantileNames.getD i ""))) ++
    (if o.aggr = .max then text " " ++ padLeft 9 (text "max") else []) ++ text "   (us)\n"

/-- `print_row`. -/
def printRow (P : Printf) (o : ReportOpts) (label : String) (indent : ℕ) (m : Summary) (rate : ℚ) : List U8 :=
  text "  " ++ padLeft indent [] ++ padRight (nameW - indent) (text label) ++ text " " ++ padLeft 8 (P.unsigned m.n) ++
    text " " ++ padLeft 9 (P.fixed 2 (us m.mean)) ++ text " " ++
    padLeft 7 (if 0 < rate then P.fixed 2 (rate * m.mean / 1000000000) else text "-") ++
    (if o.aggr = .min then text " " ++ padLeft 9 (P.fixed 2 (usOf m.min)) else []) ++
    ((columns o).flatMap fun i => text " " ++ padLeft 9 (P.fixed 2 (usOf (m.q.getD i 0)))) ++
    (if o.aggr = .max then text " " ++ padLeft 9 (P.fixed 2 (usOf m.max)) else []) ++ text "\n"

/-- The loop of `print_components`. -/
def componentsLoop (P : Printf) (o : ReportOpts) (rate : ℚ) (g : Group) : List (Comp × ℕ) → Group × List U8
  | [] => (g, [])
  | (c, indent) :: rows =>
    let (sorted, m) := ntpSummarize (g.comp c)
    let (g, rest) := componentsLoop P o rate (g.setVec (.comp c) sorted) rows
    (g, (if m.n = 0 then [] else printRow P o (ntpComps c).desc indent m rate) ++ rest)

/-- `print_components`. -/
def printComponents (P : Printf) (o : ReportOpts) (rate : ℚ) (g : Group) : Group × List U8 :=
  let (g, rows) := componentsLoop P o rate g display
  (g, text "  components, in path order (L: commands in each, by Little's law)\n" ++ printHeader o ++ rows)

/-- The first lines of `print_group`. -/
def groupHead (P : Printf) (s : Stats) (g : Group) : List U8 :=
  let rate := ntpGroupRate s g
  let usable : U64 := g.count - BitVec.ofNat 64 g.badHost
  let joined : U64 := BitVec.ofNat 64 g.joined
  text "\n== " ++ ntpGroupLabel P g.key 96 ++ text ": " ++ P.unsigned g.count.toNat ++ text " commands sampled" ++
    (if 0 < rate then text " (from about " ++ human P rate ++ text " commands/s)" else []) ++
    (if joined = usable ∧ usable ≠ 0 then text ", all with the target's side"
    else if joined ≠ 0 then
      text ", " ++ P.fixed 0 (share (joined.toNat : ℚ) (usable.toNat : ℚ)) ++ text " % with the target's side"
    else text ", host side only") ++ text "\n" ++
    (if g.badHost ≠ 0 ∨ g.badTarget ≠ 0 then
      text "  incomplete records left out: " ++ P.unsigned g.badHost ++ text " host, " ++ P.unsigned g.badTarget ++
        text " target (events missed; see ntprof probe)\n"
    else []) ++
    (if g.postEstimated ≠ 0 then
      text "  " ++ P.unsigned g.postEstimated ++
        text (" target records lack the response's posting (a kprobe that did not run): nvmet_req_complete's time " ++
          "stands in, so their target driver completion reads 0\n")
    else [])

/-- `print_group`: the group with sorted vectors, and the text. -/
def printGroup (P : Printf) (s : Stats) (g : Group) (o : ReportOpts) : Group × List U8 :=
  let rate := ntpGroupRate s g
  let head := groupHead P s g
  let (sorted, e2e) := ntpSummarize (g.comp .e2e)
  let g := g.setVec (.comp .e2e) sorted
  if e2e.n = 0 then (g, head)
  else
    let (g, stages) :=
      if o.breakdown then
        let (g, rows) := printStages g
        (g, stagesText P o rate e2e rows)
      else (g, [])
    let (g, queues) := if o.queueLength then printQueues P g else (g, [])
    let (g, comps) := if o.detail then printComponents P o rate g else (g, [])
    (g, head ++ printLatency P o e2e ++ stages ++ queues ++ comps)

/-! ## The report -/

/-- What one call wrote to the file: that there is nothing, a group, or the line of the groups that are not shown. -/
inductive ReportPart where
  | nothing (t : List U8)
  | group (k : ℕ) (t : List U8)
  | minor (n : ℕ) (records : U64) (t : List U8)

/-- One round of the first loop of `print_minor`, with the groups and the records counted so far. -/
def minorStep (s : Stats) (idx : List ℕ) (total : U64) (o : ReportOpts) (sum : ℕ × U64) (i : ℕ) : ℕ × U64 :=
  if folded s idx i total o then (sum.1 + 1, sum.2 + s.count (idx.getD i 0)) else sum

/-- The first loop of `print_minor`: how many groups are not shown, and their records. -/
def minorCount (s : Stats) (idx : List ℕ) (total : U64) (o : ReportOpts) : ℕ × U64 :=
  (List.range s.groups.length).foldl (minorStep s idx total o) (0, 0)

/-- The second loop of `print_minor`: how many labels it wrote, and the text. At most four are listed. -/
def minorLabels (P : Printf) (s : Stats) (idx : List ℕ) (total : U64) (o : ReportOpts) (listed : ℕ) :
    List ℕ → ℕ × List U8
  | [] => (listed, [])
  | i :: is =>
    if listed < 4 then
      if folded s idx i total o then
        let label := (s.groups[idx.getD i 0]?).elim [] fun g => ntpGroupLabel P g.key 96
        let (n, rest) := minorLabels P s idx total o (listed + 1) is
        (n, (if listed ≠ 0 then text "," else []) ++ text " " ++ label ++ rest)
      else minorLabels P s idx total o listed is
    else (listed, [])

/-- `print_minor`. -/
def printMinor (P : Printf) (s : Stats) (idx : List ℕ) (total : U64) (o : ReportOpts) : List ReportPart :=
  let (n, records) := minorCount s idx total o
  if n = 0 then []
  else
    let (listed, labels) := minorLabels P s idx total o 0 (List.range s.groups.length)
    [.minor n records
      (text "+ " ++ P.unsigned n ++ text " more group" ++ (if 1 < n then text "s" else []) ++ text " with " ++
        P.unsigned records.toNat ++ text " record" ++ (if 1 < records then text "s" else []) ++
        text " in all (under " ++ P.unsigned minorGroupPct.toNat ++ text " % each):" ++ labels ++
        (if listed < n then text ", ..." else []) ++ text "; --all-groups shows them\n")]

/-- The loop of `ntp_report_text` over the places of the order. -/
def groupsLoop (P : Printf) (o : ReportOpts) (idx : List ℕ) (total : U64) (s : Stats) :
    List ℕ → Stats × List ReportPart
  | [] => (s, [])
  | i :: is =>
    if folded s idx i total o then groupsLoop P o idx total s is
    else
      let k := idx.getD i 0
      match s.groups[k]? with
      -- the order has only indexes of groups
      | none => groupsLoop P o idx total s is
      | some g =>
        let (g, t) := printGroup P s g o
        let (s, parts) := groupsLoop P o idx total { s with groups := s.groups.set k g } is
        (s, .group k t :: parts)

/-- `ntp_report_text`: the statistics, where the samples of the groups that are shown are sorted, and what was
written. -/
def ntpReportText (P : Printf) (s : Stats) (o : ReportOpts) : Stats × List ReportPart :=
  let total := totalRecords s
  if s.groups.length = 0 then
    (s, [.nothing (text ("no NVMe-oF read or write was sampled: was I/O running on the profiled device? " ++
      "(one command in -s N is sampled)\n"))])
  else
    let idx := orderGroups s
    let (s, parts) := groupsLoop P o idx total s (List.range s.groups.length)
    (s, parts ++ printMinor P s idx total o)

end Ntprof
