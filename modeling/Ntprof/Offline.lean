import Ntprof.Join
import Ntprof.Stats
import Ntprof.TraceFile

/-!
# Reports of record files (`src/offline.c`)

`read` stands for `ntp_read_file`; it gives nothing for a file that cannot be read.
-/

namespace Ntprof

/-- `struct run`. -/
structure Run where
  joiner : Joiner
  hosts : List HostRec
  targets : Nat
  hostHdr : Option FileHeader

/-- `on_host` and `on_target`. -/
def onFileRec (r : Run) : Rec → Run
  | .host h => { r with hosts := r.hosts ++ [h] }
  | .target t => { r with joiner := ntpJoinerAddTarget r.joiner t, targets := r.targets + 1 }

/-- One file of the first loop of `load_run`. -/
def loadFile (r : Run) (f : RecordFile) : Run :=
  let r := f.recs.foldl onFileRec r
  if f.hdr.role &&& ntpRoleHost ≠ 0 ∧ r.hostHdr.isNone then { r with hostHdr := some f.hdr } else r

/-- The first loop of `load_run`: a file that cannot be read ends it. -/
def loadFiles {φ : Type} (read : φ → Option RecordFile) (r : Run) : List φ → Option Run
  | [] => some r
  | f :: fs =>
    match read f with
    | none => none
    | some file => loadFiles read (loadFile r file) fs

/-- The second loop of `load_run`: the host records in order, each with what `ntp_joiner_match` found
for it. -/
def matchHosts (j : Joiner) : List HostRec → Joiner × List (HostRec × Option TgtRec)
  | [] => (j, [])
  | h :: hs =>
    let (j, t) := ntpJoinerMatch j h
    let (j, rest) := matchHosts j hs
    (j, (h, t) :: rest)

/-- What `load_run` leaves: the run, the records it handed to `ntp_stats_add`, and the statistics. -/
structure Loaded where
  run : Run
  handed : List (HostRec × Option TgtRec)
  stats : Stats

/-- `load_run`. -/
def loadRun {φ : Type} (read : φ → Option RecordFile) (files : List φ) (stats : Stats) :
    Option Loaded :=
  match loadFiles read ⟨ntpJoinerNew 0, [], 0, none⟩ files with
  | none => none
  | some r =>
    let (j, handed) := matchHosts r.joiner r.hosts
    some ⟨{ r with joiner := j }, handed, statsRun stats handed⟩

end Ntprof
