import Ntprof.Util
import Ntprof.TraceFile
import Ntprof.Bpf.Target

/-!
# Task specifications (`src/config.c`)

The configuration, its ini file, and the filter that the loader makes of it. A character array holds a text that
was cut to one byte less than its length. What only the command line sets is in `RunConfig`.
-/

namespace Ntprof

open Bpf (Transport Filter)

/-- `enum ntp_io_type`. -/
inductive IoType where
  | read
  | write
  | both
  deriving DecidableEq, Repr

/-- The value of an I/O type. -/
def IoType.code : IoType → U8
  | .read => 0
  | .write => 1
  | .both => 2

/-- `enum ntp_aggr`. -/
inductive Aggr where
  | avg
  | min
  | max
  | dist
  deriving DecidableEq, Repr

/-- `NTP_MAX_SIZE_FILTERS`. -/
def ntpMaxSizeFilters : ℕ := 16

/-- `struct ntp_config`. -/
structure NtpConfig where
  session : List U8 := []
  ioType : IoType := .read
  sizes : Vector U32 ntpMaxSizeFilters := Vector.replicate _ 0
  nSizes : ℕ := 0
  minSize : U64 := 0
  maxSize : U64 := 0
  online : Bool := false
  dataDir : List U8 := []
  intervalS : U32 := 0
  sampleEvery : U32 := 0
  bufferMb : U32 := 0
  aggr : Aggr := .avg
  repDistribution : Bool := false
  repThroughput : Bool := false
  repBreakdown : Bool := false
  repQueueLength : Bool := false
  repDetail : Bool := false
  repAllGroups : Bool := false
  groupBySize : Bool := false
  groupByType : Bool := false
  groupBySession : Bool := false
  role : U32 := 0
  transport : Transport := .tcp
  exactQueues : Bool := false
  spdkHost : List U8 := []
  spdkTarget : List U8 := []
  deriving DecidableEq

/-- `struct ntp_config`, with the fields that only the command line sets. -/
structure RunConfig extends NtpConfig where
  durationS : U32 := 0
  output : List U8 := []
  json : List U8 := []
  btfDir : List U8 := []
  forceKprobes : Bool := false
  forceFentry : Bool := false
  deriving DecidableEq

/-- `snprintf(buf, sizeof(buf), "%s", v)`: what is left in a buffer of `n` bytes. -/
def cutText (n : ℕ) (v : List U8) : List U8 := v.take (n - 1)

/-- `config_defaults`. -/
def configDefaults : NtpConfig :=
  { session := cutText 64 (text "all")
    ioType := .both
    online := true
    dataDir := cutText 256 (text "./data")
    intervalS := 1
    sampleEvery := 1000
    bufferMb := 16
    aggr := .avg
    repDistribution := true
    repThroughput := true
    repBreakdown := true
    repQueueLength := true
    groupBySize := true
    groupByType := true
    groupBySession := true
    role := ntpRoleHost
    transport := .tcp }

/-! ## Values -/

/-- `config_set_io_type`. -/
def configSetIoType (c : NtpConfig) (v : List U8) : Int × NtpConfig :=
  if sameText v (text "read") then (0, { c with ioType := .read })
  else if sameText v (text "write") then (0, { c with ioType := .write })
  else if sameText v (text "both") then (0, { c with ioType := .both })
  else (-1, c)

/-- The tokens that `strtok_r(v, ",")` gives: those between commas that are not empty. -/
def commaTokens (v : List U8) : List (List U8) := (v.splitOn 0x2c#8).filter fun t => t.length ≠ 0

/-- The loop of `config_set_sizes`: the sizes, how many were taken, and the return value. -/
def setSizesLoop (sizes : Vector U32 ntpMaxSizeFilters) (n : ℕ) :
    List (List U8) → Vector U32 ntpMaxSizeFilters × ℕ × Int
  | [] => (sizes, n, 0)
  | tok :: toks =>
    if n = ntpMaxSizeFilters then (sizes, n, -1)
    else
      let (ret, size) := parseSize (strip tok) 0
      if ret ≠ 0 ∨ size = 0 ∨ 0xffffffff#64 < size then (sizes, n, -1)
      else setSizesLoop (sizes.setIfInBounds n (size.setWidth 32)) (n + 1) toks

/-- `config_set_sizes`. -/
def configSetSizes (c : NtpConfig) (v : List U8) : Int × NtpConfig :=
  let (sizes, n, ret) := setSizesLoop c.sizes 0 (commaTokens v)
  (ret, { c with sizes := sizes, nSizes := if ret = 0 then n else c.nSizes })

/-- `config_set_aggr`. -/
def configSetAggr (c : NtpConfig) (v : List U8) : Int × NtpConfig :=
  if sameText v (text "avg") then (0, { c with aggr := .avg })
  else if sameText v (text "min") then (0, { c with aggr := .min })
  else if sameText v (text "max") then (0, { c with aggr := .max })
  else if sameText v (text "dist") then (0, { c with aggr := .dist })
  else (-1, c)

/-- `set_uint`. -/
def setUint (v : List U8) (out min : U32) : Int × U32 :=
  let (x, rest, err) := strtoull v
  if err ∨ rest.headD 0 ≠ 0 ∨ x < min.setWidth 64 ∨ 0xffffffff#64 < x then (-1, out) else (0, x.setWidth 32)

/-- `set_bool`. -/
def setBool (v : List U8) (out : Bool) : Int × Bool := parseBool v out

/-- `set_size`. -/
def setSize (v : List U8) (out : U64) : Int × U64 := parseSize v out

/-- A value goes into the field that `set` writes. -/
def stored {α : Type} (p : Int × α) (set : α → NtpConfig) : Int × NtpConfig := (p.1, set p.2)

/-- `apply`: one "section:key = value" pair. Unknown keys only warn. -/
def apply (c : NtpConfig) (sect key v : List U8) : Int × NtpConfig :=
  let is (s k : String) : Bool := sameText sect (text s) && sameText key (text k)
  if is "Workload" "SESSION_NAME" then (0, { c with session := cutText 64 v })
  else if is "Workload" "IO_TYPE" then configSetIoType c v
  else if is "Workload" "IO_SIZE" then configSetSizes c v
  else if is "Workload" "MIN_IO_SIZE" then stored (setSize v c.minSize) fun x => { c with minSize := x }
  else if is "Workload" "MAX_IO_SIZE" then stored (setSize v c.maxSize) fun x => { c with maxSize := x }
  else if is "Execution" "NETWORK_BANDWIDTH_LIMIT" || is "Execution" "NVME_DRIVE_BANDWIDTH_LIMIT" then (0, c)
  else if is "Profiling" "IS_ONLINE" then stored (setBool v c.online) fun x => { c with online := x }
  else if is "Profiling" "DATA_DIR" then (0, { c with dataDir := cutText 256 v })
  else if is "Profiling" "TIME_INTERVAL" then stored (setUint v c.intervalS 1) fun x => { c with intervalS := x }
  else if is "Profiling" "FREQUENCY" then stored (setUint v c.sampleEvery 1) fun x => { c with sampleEvery := x }
  else if is "Profiling" "BUFFER_SIZE" then stored (setUint v c.bufferMb 1) fun x => { c with bufferMb := x }
  else if is "Profiling" "AGGREGATION" then configSetAggr c v
  else if is "Report" "ENABLE_LATENCY_DISTRIBUTION" then
    stored (setBool v c.repDistribution) fun x => { c with repDistribution := x }
  else if is "Report" "ENABLE_THROUGHPUT" then
    stored (setBool v c.repThroughput) fun x => { c with repThroughput := x }
  else if is "Report" "ENABLE_LATENCY_BREAKDOWN" then
    stored (setBool v c.repBreakdown) fun x => { c with repBreakdown := x }
  else if is "Report" "ENABLE_QUEUE_LENGTH" then
    stored (setBool v c.repQueueLength) fun x => { c with repQueueLength := x }
  else if is "Report" "ENABLE_COMPONENT_DETAIL" then stored (setBool v c.repDetail) fun x => { c with repDetail := x }
  else if is "Report" "SHOW_ALL_GROUPS" then stored (setBool v c.repAllGroups) fun x => { c with repAllGroups := x }
  else if is "Report" "ENABLE_GROUP_BY_SIZE" then stored (setBool v c.groupBySize) fun x => { c with groupBySize := x }
  else if is "Report" "ENABLE_GROUP_BY_TYPE" then stored (setBool v c.groupByType) fun x => { c with groupByType := x }
  else if is "Report" "ENABLE_GROUP_BY_SESSION" then
    stored (setBool v c.groupBySession) fun x => { c with groupBySession := x }
  else if is "Report" "QUEUE_TRACKING" then
    if sameText v (text "exact") then (0, { c with exactQueues := true })
    else if sameText v (text "estimate") then (0, { c with exactQueues := false })
    else (-1, c)
  else if is "Profiling" "SPDK_HOST" then (0, { c with spdkHost := cutText 512 v })
  else if is "Profiling" "SPDK_TARGET" then (0, { c with spdkTarget := cutText 512 v })
  else (0, c)

/-! ## The ini file -/

/-- `cut_comment`, inside the quotes `quote` (0: outside quotes). -/
def cutComment (quote : U8) : List U8 → List U8
  | [] => []
  | c :: s =>
    if quote ≠ 0 then c :: cutComment (if c = quote then 0 else quote) s
    else if c = 0x22#8 ∨ c = 0x27#8 then c :: cutComment c s
    else if c = 0x3b#8 ∨ c = 0x23#8 then []
    else c :: cutComment 0 s

/-- What `config_load_ini` prints before it gives up; `line` is the number of the line. -/
inductive IniError where
  | cannotOpen
  | malformedSection (line : ℕ)
  | expectedKeyValue (line : ℕ)
  | badValue (line : ℕ) (key : List U8)
  deriving DecidableEq

/-- One turn of the loop of `config_load_ini`, for a line without its comment: the configuration and the section. -/
def iniLine (c : NtpConfig) (sect : List U8) (line : ℕ) (s : List U8) : NtpConfig × List U8 × Option IniError :=
  let s := strip s
  if s.length = 0 then (c, sect, none)
  else if s.headD 0 = 0x5b#8 then
    if s.contains 0x5d#8 then (c, cutText 64 (strip ((s.takeWhile (· ≠ 0x5d#8)).drop 1)), none)
    else (c, sect, some (.malformedSection line))
  else if s.contains 0x3d#8 then
    let key := s.takeWhile (· ≠ 0x3d#8)
    let (ret, c) := apply c sect (strip key) (strip ((s.dropWhile (· ≠ 0x3d#8)).drop 1))
    (c, sect, if ret ≠ 0 then some (.badValue line (strip (leftByStrip key))) else none)
  else (c, sect, some (.expectedKeyValue line))

/-- The loop of `config_load_ini`, over the lines without their comments; `line` is the number of the next one. -/
def iniLines (c : NtpConfig) (sect : List U8) (line : ℕ) : List (List U8) → NtpConfig × Option IniError
  | [] => (c, none)
  | s :: rest =>
    match iniLine c sect line s with
    | (c, _, some err) => (c, some err)
    | (c, sect, none) => iniLines c sect (line + 1) rest

/-- The size of `line`. -/
def iniLineSize : ℕ := 1024

/-- What `fgets` reads one after another, with room for `room` more bytes of the first one: up to the end of a line,
or up to the end of the room. -/
def fgetsFrom (room : ℕ) : List U8 → List (List U8)
  | [] => []
  | c :: cs =>
    if c = 0x0a#8 ∨ room ≤ 1 then [c] :: fgetsFrom (iniLineSize - 1) cs
    else
      match fgetsFrom (room - 1) cs with
      | [] => [[c]]
      | l :: ls => (c :: l) :: ls

/-- `config_load_ini`, for a file with these bytes, or one that cannot be opened. Returns the return value, the
configuration and the error. -/
def configLoadIni (c : NtpConfig) (file : Option (List U8)) : Int × NtpConfig × Option IniError :=
  match file with
  | none => (-1, c, some .cannotOpen)
  | some bytes =>
    let lines := (fgetsFrom (iniLineSize - 1) bytes).map fun buf => cutComment 0 (textOf buf)
    let (c, err) := iniLines c [] 1 lines
    (if err.isSome then -1 else 0, c, err)

/-! ## The filter (`src/loader.c`) -/

/-- `fill_filter`. -/
def fillFilter (c : NtpConfig) (hostSel : Option Filter) (realMinusMono : S64) : Filter :=
  { sampleEvery := if c.sampleEvery ≠ 0 then c.sampleEvery else 1
    ioType := c.ioType.code
    nSizes := BitVec.ofNat 8 c.nSizes
    sizes := Vector.ofFn fun i => if i.val < c.nSizes then c.sizes[i] else 0
    minBytes := c.minSize.setWidth 32
    maxBytes := c.maxSize.setWidth 32
    ctrlFilter := hostSel.elim false Filter.ctrlFilter
    ctrlMask := hostSel.elim (Vector.replicate _ 0) Filter.ctrlMask
    nsid := hostSel.elim 0 Filter.nsid
    trackQueues := c.exactQueues
    realMinusMono := realMinusMono }

end Ntprof
