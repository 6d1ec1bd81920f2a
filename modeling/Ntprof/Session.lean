import Ntprof.Join
import Ntprof.Stats

/-!
# A recording session (`src/record.c`)

What the ring buffer delivers goes through `on_record`; at every interval the records that waited too
long are given up, and at the end all that still wait. A session in role both has a joiner. Each step
also returns the records it handed to `add_host`, in order. The record file is reduced to whether a
write of it failed.
-/

namespace Ntprof

/-- `TARGET_EXPIRY_NS`. -/
def targetExpiryNs : U64 := 10#64 * 1000000000#64

/-- `TARGETS_PER_KEY`. -/
def targetsPerKey : Nat := 64

/-- `HOST_WAIT_NS`. -/
def hostWaitNs : U64 := 100#64 * 1000000#64

/-- What the ring buffer delivers, by its size. -/
inductive RingData where
  | hostSized (h : HostRec)
  | tgtSized (t : TgtRec)
  | otherSized

/-- `struct session`. -/
structure Session where
  writing : Bool
  writeErrors : Nat := 0
  joiner : Option Joiner
  interval : Stats
  total : Stats
  hostRecords : Nat := 0
  targetRecords : Nat := 0
  malformed : Nat := 0

/-- What is handed to `add_host`: a host record and its target record, if it has one. -/
abbrev Handed := List (HostRec × Option TgtRec)

/-- `add_host`. -/
def addHost (s : Session) (h : HostRec) (t : Option TgtRec) : Session :=
  { s with interval := ntpStatsAdd s.interval h t, total := ntpStatsAdd s.total h t }

/-- A sequence of `add_host` calls. -/
def addHosts (s : Session) (handed : Handed) : Session :=
  handed.foldl (fun s r => addHost s r.1 r.2) s

/-- The end of `on_record`: the record is saved. -/
def saveRecord (s : Session) (writeFails : Bool) : Session :=
  if s.writing && writeFails then { s with writeErrors := s.writeErrors + 1 } else s

/-- `on_record`, for a host record. -/
def onHostRecord (s : Session) (h : HostRec) : Session × Handed :=
  let s := { s with hostRecords := s.hostRecords + 1 }
  match s.joiner with
  | none => (addHost s h none, [(h, none)])
  | some j =>
    match ntpJoinerHostArrives j h with
    | (j, some t) => (addHost { s with joiner := some j } h (some t), [(h, some t)])
    | (j, none) => ({ s with joiner := some j }, [])

/-- `on_record`, for a target record. -/
def onTargetRecord (s : Session) (t : TgtRec) : Session × Handed :=
  let s := { s with targetRecords := s.targetRecords + 1 }
  match s.joiner with
  | none => (s, [])
  | some j =>
    match ntpJoinerTargetArrives j t with
    | (j, some h) => (addHost { s with joiner := some j } h (some t), [(h, some t)])
    | (j, none) => ({ s with joiner := some j }, [])

/-- `on_record`. -/
def onRecord (s : Session) (data : RingData) (writeFails : Bool) : Session × Handed :=
  match data with
  | .hostSized h =>
    if h.hdr.kind = ntpRecHost then
      let (s, handed) := onHostRecord s h
      (saveRecord s writeFails, handed)
    else ({ s with malformed := s.malformed + 1 }, [])
  | .tgtSized t =>
    if t.hdr.kind = ntpRecTarget then
      let (s, handed) := onTargetRecord s t
      (saveRecord s writeFails, handed)
    else ({ s with malformed := s.malformed + 1 }, [])
  | .otherSized => ({ s with malformed := s.malformed + 1 }, [])

/-- `ntp_joiner_release_hosts` with `add_unmatched`. -/
def releaseUnmatched (s : Session) (beforeNs : U64) : Session × Handed :=
  match s.joiner with
  | none => (s, [])
  | some j =>
    let (j, released, _) := ntpJoinerReleaseHosts j beforeNs
    let handed := released.map fun h => (h, none)
    (addHosts { s with joiner := some j } handed, handed)

/-- The tick of an interval in `record`. -/
def intervalTick (s : Session) (now : U64) : Session × Handed :=
  let (s, handed) := releaseUnmatched s (now - hostWaitNs)
  let s := { s with joiner := s.joiner.map fun j => (ntpJoinerExpire j (now - targetExpiryNs)).1 }
  ({ s with interval := ntpStatsReset s.interval }, handed)

/-- What happens to a session. -/
inductive SessionEvent where
  | record (data : RingData) (writeFails : Bool)
  | tick (now : U64)

/-- One event. -/
def sessionStep (s : Session) : SessionEvent → Session × Handed
  | .record data writeFails => onRecord s data writeFails
  | .tick now => intervalTick s now

/-- The events of a session, in order. -/
def sessionSteps (s : Session) : List SessionEvent → Session × Handed
  | [] => (s, [])
  | e :: es =>
    let (s, handed) := sessionStep s e
    let (s, rest) := sessionSteps s es
    (s, handed ++ rest)

/-- A whole session, with the final release. -/
def sessionRun (s : Session) (events : List SessionEvent) : Session × Handed :=
  let (s, handed) := sessionSteps s events
  let (s, rest) := releaseUnmatched s uint64Max
  (s, handed ++ rest)

/-- The grouping and sampling options of a session's configuration. -/
structure SessionConfig where
  byType : Bool
  bySize : Bool
  bySession : Bool
  sampleEvery : U32

/-- The statistics of a session that starts. -/
def SessionConfig.stats (c : SessionConfig) : Stats :=
  { ntpStatsInit c.byType c.bySize c.bySession with sampleEvery := c.sampleEvery }

/-- The session of role both that `record` starts. -/
def sessionBoth (c : SessionConfig) (writing : Bool) : Session :=
  { writing := writing, joiner := some (ntpJoinerNew targetsPerKey), interval := c.stats
    total := c.stats }

/-- The host records `on_record` accepts. -/
def acceptedHosts (events : List SessionEvent) : List HostRec :=
  events.filterMap fun
    | .record (.hostSized h) _ => if h.hdr.kind = ntpRecHost then some h else none
    | _ => none

/-- The target records `on_record` accepts. -/
def acceptedTargets (events : List SessionEvent) : List TgtRec :=
  events.filterMap fun
    | .record (.tgtSized t) _ => if t.hdr.kind = ntpRecTarget then some t else none
    | _ => none

end Ntprof
