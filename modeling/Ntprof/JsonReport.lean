import Ntprof.Lib.Json
import Ntprof.Stats
import Ntprof.TraceFile

/-!
# The JSON report (`src/report.c`)

The text that `ntp_report_json` writes. How `printf` writes numbers is a parameter, of which only this is known: each
of them is a number of JSON. The floating-point numbers of the report are read as exact rationals.
-/

namespace Ntprof

/-- The conversions of `printf` that the report uses: `%u`, `%zu` and `%llu`; `%lld`; and `%.nf`. -/
structure Printf where
  unsigned : ℕ → List U8
  signed : ℤ → List U8
  fixed : ℕ → ℚ → List U8
  unsigned_number : ∀ n, Json.IsNumber (unsigned n)
  signed_number : ∀ z, Json.IsNumber (signed z)
  fixed_number : ∀ digits x, Json.IsNumber (fixed digits x)

/-- `struct ntp_tput`. -/
structure Tput where
  seconds : ℚ
  readIos : U64
  readBytes : U64
  writeIos : U64
  writeBytes : U64
  estimated : Bool

/-- `ntp_quantile_names`. -/
def ntpQuantileNames : List String := ["p10", "p50", "p70", "p80", "p90", "p95", "p99", "p99.9"]

/-- `ntp_queue_names`. -/
def ntpQueueNames : QueueMetric → String
  | .hostUnsent => "host_unsent"
  | .hostInflight => "host_inflight"
  | .tgtOutstanding => "target_outstanding"
  | .tgtRespQueue => "target_resp_queue"

/-- The queue lengths in the order of the enumeration; there are `NTP_Q_NR` of them. -/
def QueueMetric.all : List QueueMetric := [.hostUnsent, .hostInflight, .tgtOutstanding, .tgtRespQueue]

/-- `ntp_group_rate`. -/
def ntpGroupRate (s : Stats) (g : Group) : ℚ :=
  if s.firstNs = 0 ∨ s.lastNs < s.firstNs + 10000000#64 then 0
  else (g.records : ℚ) * (s.sampleEvery.toNat : ℚ) * 1000000000 / ((s.lastNs - s.firstNs).toNat : ℚ)

/-! ## Strings -/

/-- A digit of `%x`. -/
def hexDigit (n : ℕ) : U8 := if n < 10 then BitVec.ofNat 8 (0x30 + n) else BitVec.ofNat 8 (0x61 + (n - 10))

/-- One byte of a string in `json_str`. -/
def jsonByte (c : U8) : List U8 :=
  if c = 0x22#8 ∨ c = 0x5c#8 then [0x5c#8, c]
  else if c < 0x20#8 then text "\\u" ++ [hexDigit 0, hexDigit 0, hexDigit (c.toNat / 16), hexDigit (c.toNat % 16)]
  else [c]

/-- What `json_str` writes between the quotes. -/
def jsonBody : List U8 → List U8
  | [] => []
  | c :: s => if c = 0 then [] else jsonByte c ++ jsonBody s

/-- `json_str`. -/
def jsonStr (s : List U8) : List U8 := [0x22#8] ++ jsonBody s ++ [0x22#8]

/-! ## The report -/

/-- `json_summary`. -/
def jsonSummary (P : Printf) (m : Summary) : List U8 :=
  text "\x7b\"n\": " ++ P.unsigned m.n ++ text ", \"mean_ns\": " ++ P.fixed 1 m.mean ++ text ", \"min_ns\": " ++
    P.signed m.min.toInt ++ text ", \"max_ns\": " ++ P.signed m.max.toInt ++
    (ntpQuantileNames.zipIdx.flatMap fun (name, i) =>
      text ", \"" ++ text name ++ text "_ns\": " ++ P.signed (m.q.getD i 0).toInt) ++
    text "\x7d"

/-- A loop over `as` that skips some of them, with a comma before each one but the first. -/
def jsonLoop {α : Type} (write : α → Option (List U8)) (first : Bool) : List α → List U8
  | [] => []
  | a :: as =>
    match write a with
    | none => jsonLoop write first as
    | some t => (if first then [] else text ",") ++ t ++ jsonLoop write false as

/-- One component of a group. -/
def jsonComp (P : Printf) (rate : ℚ) (g : Group) (c : Comp) : Option (List U8) :=
  let m := (ntpSummarize (g.comp c)).2
  if m.n = 0 then none
  else
    some (text "\n       \"" ++ text (ntpComps c).name ++ text "\": \x7b\"stage\": \"" ++ text (ntpComps c).stage ++
      text "\", \"description\": " ++ jsonStr (text (ntpComps c).desc) ++ text ", \"occupancy\": " ++
      P.fixed 3 (rate * m.mean / 1000000000) ++ text ", \"summary\": " ++ jsonSummary P m ++ text "\x7d")

/-- One stage, or one queue length, of a group, with the samples `v`. -/
def jsonSamples (P : Printf) (name : String) (v : List S64) : Option (List U8) :=
  let m := (ntpSummarize v).2
  if m.n = 0 then none else some (text "\n       \"" ++ text name ++ text "\": " ++ jsonSummary P m)

/-- One group. -/
def jsonGroup (P : Printf) (s : Stats) (g : Group) : List U8 :=
  let rate := ntpGroupRate s g
  text "\n    \x7b\"type\": " ++
    jsonStr (if g.key.isWrite < 0 then text "any" else if g.key.isWrite ≠ 0 then text "write" else text "read") ++
    text ", \"bytes\": " ++ P.unsigned g.key.bytes.toNat ++ text ", \"session\": " ++ jsonStr (cString g.key.session) ++
    text ", \"records\": " ++ P.unsigned g.records ++ text ", \"joined\": " ++ P.unsigned g.joined ++
    text ", \"incomplete_host\": " ++ P.unsigned g.badHost ++ text ", \"incomplete_target\": " ++
    P.unsigned g.badTarget ++ text ", \"post_estimated\": " ++ P.unsigned g.postEstimated ++
    text ", \"rate_per_s\": " ++ P.fixed 1 rate ++ text ",\n     \"components\": \x7b" ++
    jsonLoop (jsonComp P rate g) true Comp.all ++
    text "\x7d,\n     \"stages\": \x7b" ++
    jsonLoop (fun st => jsonSamples P (ntpStageKeys st) (g.stage st)) true Stage.all ++
    text "\x7d,\n     \"queues\": \x7b" ++
    jsonLoop (fun q => jsonSamples P (ntpQueueNames q) (g.queue q)) true QueueMetric.all ++
    text "\x7d\x7d"

/-- The part of the report that is about the run. -/
def jsonMeta (P : Printf) (hdr : FileHeader) : List U8 :=
  text "  \"host\": " ++ jsonStr (cString hdr.hostname) ++ text ",\n  \"kernel\": " ++ jsonStr (cString hdr.kernel) ++
    text ",\n  \"sample_every\": " ++ P.unsigned hdr.sampleEvery.toNat ++ text ",\n  \"start_realtime_ns\": " ++
    P.unsigned hdr.startRealNs.toNat ++ text ",\n"

/-- The part of the report that is about the throughput. -/
def jsonTput (P : Printf) (t : Tput) : List U8 :=
  text "  \"throughput\": \x7b\"seconds\": " ++ P.fixed 3 t.seconds ++ text ", \"read_ios\": " ++
    P.unsigned t.readIos.toNat ++ text ", \"read_bytes\": " ++ P.unsigned t.readBytes.toNat ++
    text ", \"write_ios\": " ++ P.unsigned t.writeIos.toNat ++ text ", \"write_bytes\": " ++
    P.unsigned t.writeBytes.toNat ++ text ", \"estimated\": " ++ (if t.estimated then text "true" else text "false") ++
    text "\x7d,\n"

/-- What `ntp_report_json` writes. -/
def jsonText (P : Printf) (s : Stats) (hdr : Option FileHeader) (tput : Option Tput) : List U8 :=
  text "\x7b\n  \"tool\": \"ntprof\",\n" ++ hdr.elim [] (jsonMeta P) ++ tput.elim [] (jsonTput P) ++
    text "  \"groups\": [" ++ jsonLoop (fun g => some (jsonGroup P s g)) true s.groups ++ text "\n  ]\n\x7d\n"

/-- The samples of a group are sorted on the way. -/
def Group.summarized (g : Group) : Group :=
  { g with comp := fun c => (ntpSummarize (g.comp c)).1
           stage := fun st => (ntpSummarize (g.stage st)).1
           queue := fun q => (ntpSummarize (g.queue q)).1 }

/-- `ntp_report_json`: the return value, the statistics, and the file. The file may not open, and what was written may
not arrive. -/
def ntpReportJson (P : Printf) (opens closes : Bool) (s : Stats) (hdr : Option FileHeader) (tput : Option Tput) :
    Int × Stats × Option (List U8) :=
  if !opens then (-1, s, none)
  else
    (if closes then 0 else -1, { s with groups := s.groups.map Group.summarized },
      if closes then some (jsonText P s hdr tput) else none)

end Ntprof
