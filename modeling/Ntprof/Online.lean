import Ntprof.Recording
import Ntprof.PollLoop
import Ntprof.JsonReport

/-!
# Interval reports (`src/record.c`)

The loop of `record` with what it prints: at each tick the statistics and the throughput since the last one, at the
end those of the whole recording. The counters of the BPF objects are read through `ntp_loader_counter`.
-/

namespace Ntprof

open Bpf (Counter)

/-! ## The counters -/

/-- The counter map of each object: the counters of each CPU, unless the map cannot be read. -/
abbrev CounterMaps := List (Option (List (Counter → U64)))

/-- `ntp_loader_counter`. -/
def ntpLoaderCounter (maps : CounterMaps) (c : Counter) : U64 :=
  maps.foldl (fun total m => (m.getD []).foldl (fun total cpu => total + cpu c) total) 0

/-- `read_tput`. -/
def readTput (c : RunConfig) (maps : CounterMaps) : Tput :=
  { seconds := 0
    readIos := ntpLoaderCounter maps .hostReadIos
    readBytes := ntpLoaderCounter maps .hostReadBytes
    writeIos := ntpLoaderCounter maps .hostWriteIos
    writeBytes := ntpLoaderCounter maps .hostWriteBytes
    estimated := decide (c.spdkHost.length ≠ 0) }

/-- `tput_delta`. -/
def tputDelta (now prev : Tput) (seconds : ℚ) : Tput :=
  { seconds := seconds
    readIos := now.readIos - prev.readIos
    readBytes := now.readBytes - prev.readBytes
    writeIos := now.writeIos - prev.writeIos
    writeBytes := now.writeBytes - prev.writeBytes
    estimated := now.estimated }

/-- `commands_seen`. -/
def commandsSeen (c : RunConfig) (maps : CounterMaps) : U64 :=
  if c.role &&& ntpRoleHost ≠ 0 then ntpLoaderCounter maps .hostReadIos + ntpLoaderCounter maps .hostWriteIos
  else ntpLoaderCounter maps .tgtCmds

/-! ## The loop -/

/-- `IDLE_HINT_NS`. -/
def idleHintNs : U64 := 5#64 * 1000000000#64

/-- One `ntp_loader_poll` with the clock and the counters after it. -/
structure Turn where
  /-- What the poll delivers, each with whether its write fails. -/
  records : List (RingData × Bool)
  /-- The poll returns an error. -/
  fails : Bool := false
  now : U64
  counters : CounterMaps

/-- What is printed at a tick: its time span since the start, the throughput and the statistics. -/
structure Interval where
  fromNs : U64
  toNs : U64
  tput : Tput
  stats : Stats

/-- The variables of the loop, and what it has printed. -/
structure LoopVars where
  session : Session
  prevTick : U64
  nextTick : U64
  prevTput : Tput
  /-- `idle_hint`. -/
  hinted : Bool := false
  /-- The warning that no command was seen. -/
  warned : Bool := false
  shown : List Interval := []

/-- What is printed and kept at a tick, after the joiner has given up its old records. -/
def showInterval (c : RunConfig) (start : U64) (l : LoopVars) (t : Turn) : LoopVars :=
  if c.online ∧ c.role &&& ntpRoleHost ≠ 0 then
    let cur := readTput c t.counters
    let delta := tputDelta cur l.prevTput ((t.now - l.prevTick).toNat / 1000000000)
    { l with
      prevTput := cur
      shown := l.shown ++
        [{ fromNs := l.prevTick - start, toNs := t.now - start, tput := delta, stats := l.session.interval }] }
  else l

/-- The tick of an interval. -/
def loopTick (c : RunConfig) (start : U64) (l : LoopVars) (t : Turn) : LoopVars :=
  let s := (releaseUnmatched l.session (t.now - hostWaitNs)).1
  let s := { s with joiner := s.joiner.map fun j => (ntpJoinerExpire j (t.now - targetExpiryNs)).1 }
  let l := showInterval c start { l with session := s, nextTick := l.nextTick + intervalNs c.intervalS } t
  { l with session := { l.session with interval := ntpStatsReset l.session.interval }, prevTick := t.now }

/-- The hint that nothing is seen. -/
def idleHint (c : RunConfig) (start : U64) (l : LoopVars) (t : Turn) : LoopVars :=
  if !l.hinted ∧ idleHintNs ≤ t.now - start then
    { l with hinted := true, warned := decide (commandsSeen c t.counters = 0) }
  else l

/-- The records of a poll go through `on_record`. -/
def takeRecords (s : Session) (records : List (RingData × Bool)) : Session :=
  records.foldl (fun s r => (onRecord s r.1 r.2).1) s

/-- The loop of `record`, until it is stopped: the variables, and whether polling failed. -/
def recordTurns (c : RunConfig) (start : U64) (l : LoopVars) : List Turn → LoopVars × Bool
  | [] => (l, false)
  | t :: ts =>
    let l := { l with session := takeRecords l.session t.records }
    if t.fails then (l, true)
    else if c.durationS ≠ 0 ∧ c.durationS.setWidth 64 * 1000000000#64 ≤ t.now - start then (l, false)
    else
      let l := idleHint c start l t
      if t.now < l.nextTick then recordTurns c start l ts
      else recordTurns c start (loopTick c start l t) ts

/-- The variables when the loop starts. -/
def startLoop (c : RunConfig) (s : Session) (start : U64) (counters : CounterMaps) : LoopVars :=
  { session := s
    prevTick := start
    nextTick := start + intervalNs c.intervalS
    prevTput := readTput c counters }

/-- The report at the end: the time, the throughput and the statistics of the whole recording. -/
structure FinalReport where
  ns : U64
  tput : Tput
  stats : Stats

/-- After the loop: `drained` comes in after the counters are read; then what waits is released. -/
def finishLoop (c : RunConfig) (start : U64) (first : CounterMaps) (l : LoopVars) (endNs : U64) (last : CounterMaps)
    (drained : List (RingData × Bool)) : Session × Option FinalReport :=
  let s := (releaseUnmatched (takeRecords l.session drained) uint64Max).1
  let delta := tputDelta (readTput c last) (readTput c first) ((endNs - start).toNat / 1000000000)
  (s, if c.role &&& ntpRoleHost ≠ 0 then some { ns := endNs - start, tput := delta, stats := s.total } else none)

end Ntprof
