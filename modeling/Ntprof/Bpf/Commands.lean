import Ntprof.Bpf.TargetRdma

/-!
# Which command wrote what

A target object knows nothing of commands: it sees addresses of `nvmet_req`s that are handed out again.
This module follows a run from outside. Each call of `nvmet_req_init` starts a command, whether or not its
hook runs, and every other hook belongs to the command that its `nvmet_req` carries at that time. For
each field of each record it notes the command whose hook wrote it.
-/

namespace Ntprof.Bpf

/-- What hooks write into a record as a command proceeds: the timestamps and the flags. -/
inductive TgtField where
  | ts (i : TgtTs)
  | flag (bit : Fin 16)
  deriving DecidableEq

/-- `NTP_F_REUSED` is no event of the command: it says that the record was emitted when the next command
came. -/
def TgtField.isEvent : TgtField → Bool
  | .ts _ => true
  | .flag bit => !ntpFReused.getLsbD bit

/-- The value of a field. -/
def TgtField.of (r : TgtRec) : TgtField → U64
  | .ts i => r.ts i
  | .flag bit => if r.hdr.flags.getLsbD bit then 1 else 0

/-- The commands of a run so far. They are numbered from 1 on; 0 is no command. -/
structure Commands where
  /-- how many have started -/
  started : ℕ := 0
  /-- the id of each, if its command could be read -/
  id : ℕ → Option CmdId := fun _ => none
  /-- the one that each `nvmet_req` carries -/
  cur : U64 → ℕ := fun _ => 0
  /-- the one whose hook wrote a field of the record in a slot -/
  writer : Slot → TgtField → ℕ := fun _ _ => 0
  /-- the records on the ring buffer, and for each field the one whose hook wrote it -/
  emitted : List (TgtRec × (TgtField → ℕ)) := []

/-- A command starts. -/
def Commands.start (m : Commands) (a : ReqInitArgs) : Commands :=
  { m with started := m.started + 1
           id := Function.update m.id (m.started + 1) (a.cmd.map a.id)
           cur := Function.update m.cur a.req (m.started + 1) }

/-- A call of `nvmet_req_init` starts a command. -/
def Commands.arrive (m : Commands) : TgtEvent → Commands
  | .reqInit _ _ a => m.start a
  | _ => m

/-- The command that an event belongs to. -/
def Commands.of (m : Commands) (s : TgtState) (e : TgtEvent) : ℕ := ((e.own s).map m.cur).getD 0

/-- Who wrote the fields of `new`, that were those of `old`, after a hook of command `n`. -/
def writers (old new : TgtRec) (writer : TgtField → ℕ) (n : ℕ) (fld : TgtField) : ℕ :=
  if fld.of new = fld.of old then writer fld else n

/-- An event that takes the object from `s` to `s'`. A new record is wholly written by its command. -/
def Commands.next (m : Commands) (s s' : TgtState) (e : TgtEvent) : Commands :=
  let m := m.arrive e
  let n := m.of s e
  let slot := ntpSlot ((e.key s).getD 0)
  let started := s'.counters .tgtSampled ≠ s.counters .tgtSampled
  { m with
    writer := fun i =>
      if started ∧ i = slot then fun _ => n
      else writers (s.treqs i).record (s'.treqs i).record (m.writer i) n
    emitted := m.emitted ++ (s'.events.drop s.events.length).map fun r =>
      (r, writers (s.treqs slot).record r (m.writer slot) n) }

/-- A run of a target object, with its commands. -/
def commandsRun (tr : Transport) (f : Filter) (sm : TgtState × Commands) (es : List TgtEvent) :
    TgtState × Commands :=
  es.foldl (fun sm e => (tgtStep tr f sm.1 e, sm.2.next sm.1 (tgtStep tr f sm.1 e) e)) sm

/-- Every record on the ring buffer was written by one command, the one whose id it carries. -/
def Commands.Unmixed (m : Commands) : Prop :=
  ∀ p ∈ m.emitted, ∃ n, m.id n = some p.1.id ∧
    ∀ fld : TgtField, fld.isEvent → fld.of p.1 ≠ 0 → p.2 fld = n

/-- The record of `req` is in its slot. -/
def TgtState.isOpen (s : TgtState) (req : U64) : Prop := (s.treqs (ntpSlot req)).req = req

/-- What it takes for an event not to mix two commands: a command that starts on an `nvmet_req` whose
record is still open is seen by the hook of `nvmet_req_init`, past its early returns; and a hook that
takes its `nvmet_req` from a context and finds a record with it finds that of its own call. -/
def TgtEvent.Orderly (tr : Transport) (s : TgtState) (e : TgtEvent) : Prop :=
  (∀ seen env a, e = .reqInit seen env a → s.isOpen a.req →
    (seen && reqInitRecognised tr s env a) = true) ∧
  ∀ req, e.key s = some req → s.isOpen req → e.own s = some req

/-- Every event of a run is orderly in the state it happens in. -/
def OrderlyRun (tr : Transport) (f : Filter) : TgtState → List TgtEvent → Prop
  | _, [] => True
  | s, e :: es => e.Orderly tr s ∧ OrderlyRun tr f (tgtStep tr f s e) es

end Ntprof.Bpf
