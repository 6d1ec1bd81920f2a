import Ntprof.Session
import Ntprof.TraceFormat
import Ntprof.Offline
import Ntprof.Supervisor

/-!
# A recording and its file (`src/record.c`, `src/offline.c`)

A session saves the records it accepts, as they are in the ring buffer, while it adds them to its statistics. `report`
reads such files back and makes statistics of its own.
-/

namespace Ntprof

open Supervisor

/-- `NTP_ROLE_BOTH`. -/
def ntpRoleBoth : U32 := ntpRoleHost ||| ntpRoleTarget

/-- What the ring buffer delivers, by its size, with the padding. -/
inductive RawData where
  | hostSized (h : HostRec) (p : HostPad)
  | tgtSized (t : TgtRec) (p : TgtPad)
  | otherSized

/-- The data without its padding. -/
def RawData.ring : RawData → RingData
  | .hostSized h _ => .hostSized h
  | .tgtSized t _ => .tgtSized t
  | .otherSized => .otherSized

/-- The bytes that `on_record` saves, where it does not take the data for malformed. -/
def RawData.saved : RawData → Option (List U8)
  | .hostSized h p => if h.hdr.kind = ntpRecHost then some (encodeHostRec h p) else none
  | .tgtSized t p => if t.hdr.kind = ntpRecTarget then some (encodeTgtRec t p) else none
  | .otherSized => none

/-- `struct session` with its writer. -/
structure Recording where
  session : Session
  w : Writer

/-- What happens to a recording: data comes, with how far its write gets where that fails, or an interval ends. -/
inductive RecordingEvent where
  | data (d : RawData) (short : Option ℕ)
  | tick (now : U64)

/-- What that is for the session. -/
def RecordingEvent.session : RecordingEvent → SessionEvent
  | .data d short => .record d.ring short.isSome
  | .tick now => .tick now

/-- The last line of `on_record`: what it does to the file. -/
def saveData (r : Recording) : RecordingEvent → Writer
  | .data d short =>
    match d.saved with
    | some bytes => if r.session.writing then (ntpWriterAdd short r.w bytes).2 else r.w
    | none => r.w
  | .tick _ => r.w

/-- One event. -/
def recordingStep (r : Recording) (e : RecordingEvent) : Recording :=
  ⟨(sessionStep r.session e.session).1, saveData r e⟩

/-- The events of a recording, in order. -/
def recordingSteps (r : Recording) (es : List RecordingEvent) : Recording := es.foldl recordingStep r

/-- The statistics that `record` starts with. -/
def startStats (c : RunConfig) : Stats :=
  { ntpStatsInit c.groupByType c.groupBySize c.groupBySession with sampleEvery := c.sampleEvery }

/-- `hdr` in `record`. -/
def recordHeader (c : RunConfig) (env : Machine) : FileHeader :=
  ntpHeaderInit env c.role (c.transport.code.setWidth 32) c.sampleEvery

/-- `record`, up to its loop. -/
def startRecording (c : RunConfig) (env : Machine) (io : OpenIo) : Option Recording :=
  let session : Session :=
    { writing := false
      joiner := if c.role = ntpRoleBoth then some (ntpJoinerNew targetsPerKey) else none
      interval := startStats c
      total := startStats c }
  if c.output = [] then some ⟨session, {}⟩
  else
    let (ret, w) := ntpWriterOpen io (recordHeader c env)
    if ret ≠ 0 then none else some ⟨{ session with writing := true }, w⟩

/-- The final release. -/
def endRecording (r : Recording) : Recording := { r with session := (releaseUnmatched r.session uint64Max).1 }

/-- `close_writer`. -/
def closeWriter (r : Recording) (ret : U8) (closeFails : Bool) : U8 :=
  if !r.session.writing then ret
  else if closeFails ∨ r.session.writeErrors ≠ 0 then exitFailure
  else ret

/-- What `cmd_report` prints a report of. -/
structure Report where
  hdr : FileHeader
  stats : Stats
  run : Run

/-- `cmd_report`, up to the report; without one it fails. -/
def cmdReport {φ : Type} (c : RunConfig) (read : φ → Option RecordFile) (files : List φ) : Option Report :=
  if files = [] then none
  else
    match loadRun read files (ntpStatsInit c.groupByType c.groupBySize c.groupBySession) with
    | none => none
    | some out =>
      match out.run.hostHdr with
      | none => none
      | some hdr => some ⟨hdr, { out.stats with sampleEvery := hdr.sampleEvery }, out.run⟩

end Ntprof
