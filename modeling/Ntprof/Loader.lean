import Ntprof.TraceFile
import Ntprof.Bpf.Target

/-!
# Loading the BPF objects (`src/loader.c`, `src/spdk.c`)

What matters here of opening, disarming and closing a loader are the `ntp_armed` flags and the sampling
periods in the SPDK processes. `Machine` says how everything else went: which objects could be opened and
loaded, which processes were found, when one of them exits and which writes to a process fail.
-/

namespace Ntprof.Loader

open Bpf (Transport)

/-! ## Objects -/

/-- The BPF objects, in the order of `objects`. -/
inductive Object where
  | nvmeTcpHost
  | nvmeTcpTarget
  | nvmeRdmaHost
  | nvmeRdmaTarget
  | spdkTcpHost
  | spdkTcpTarget
  | spdkRdmaHost
  | spdkRdmaTarget
  deriving DecidableEq, Repr

/-- `objects`. -/
def objects : List Object :=
  [.nvmeTcpHost, .nvmeTcpTarget, .nvmeRdmaHost, .nvmeRdmaTarget, .spdkTcpHost, .spdkTcpTarget, .spdkRdmaHost,
    .spdkRdmaTarget]

/-- `role` of an object. -/
def Object.role : Object → U32
  | .nvmeTcpHost | .nvmeRdmaHost | .spdkTcpHost | .spdkRdmaHost => ntpRoleHost
  | .nvmeTcpTarget | .nvmeRdmaTarget | .spdkTcpTarget | .spdkRdmaTarget => ntpRoleTarget

/-- `transport` of an object. -/
def Object.transport : Object → Transport
  | .nvmeTcpHost | .nvmeTcpTarget | .spdkTcpHost | .spdkTcpTarget => .tcp
  | .nvmeRdmaHost | .nvmeRdmaTarget | .spdkRdmaHost | .spdkRdmaTarget => .rdma

/-- `spdk` of an object: its role runs in SPDK. -/
def Object.spdk : Object → Bool
  | .nvmeTcpHost | .nvmeTcpTarget | .nvmeRdmaHost | .nvmeRdmaTarget => false
  | .spdkTcpHost | .spdkTcpTarget | .spdkRdmaHost | .spdkRdmaTarget => true

/-- `struct ntp_config`: what the loader reads of it. `spdkHost` and `spdkTarget` say that a binary is given
for the role. -/
structure Config where
  role : U32
  transport : Transport
  spdkHost : Bool := false
  spdkTarget : Bool := false
  sampleEvery : U32 := 1000

/-- `role_in_spdk`. -/
def roleInSpdk (c : Config) (role : U32) : Bool :=
  if role &&& ntpRoleHost ≠ 0 then c.spdkHost else c.spdkTarget

/-- `wanted`. -/
def wanted (c : Config) (d : Object) : Bool :=
  decide (c.role &&& d.role ≠ 0) && decide (c.transport = d.transport) && d.spdk == roleInSpdk c d.role

/-! ## SPDK processes -/

/-- `struct ntp_spdk_proc`: a process and the address of its sampling variable. -/
structure SpdkProc where
  pid : BitVec 32
  gate : U64
  deriving DecidableEq, Repr

/-- `NTP_MAX_PIDS` -/
def ntpMaxPids : Nat := 8

/-- What `ntp_spdk_find` finds: each process once, and not more than there is room for. -/
structure Found where
  procs : List SpdkProc := []
  nodup : (procs.map SpdkProc.pid).Nodup := by decide
  bounded : procs.length ≤ ntpMaxPids := by decide

/-- The sampling variables; a process that has exited has none. -/
abbrev Gates := SpdkProc → Option U32

/-- How `open_one` ended, before and after it counts the instance, but for looking for processes. -/
inductive OpenOne where
  | notOpened
  | failed
  | loaded
  deriving DecidableEq, Repr

/-- What the loader does not decide. The calls of `ntp_spdk_set_gate` are numbered. -/
structure Machine where
  /-- the session is one of this host, and the kernel's symbols can be read -/
  ready : Bool := true
  openOne : Object → OpenOne := fun _ => .loaded
  find : Object → Found := fun _ => {}
  /-- every program could be attached and the ring buffer be made -/
  attached : Bool := true
  /-- the processes that exit before a call -/
  exits : Nat → SpdkProc → Bool := fun _ _ => false
  /-- a call that writes a period fails -/
  setFails : Nat → Bool := fun _ => false
  /-- a call that writes 0 fails -/
  clearFails : Nat → Bool := fun _ => false

/-- The processes' side of a run: their gates, how often `ntp_spdk_set_gate` was called, and the gates after
each call, the last first. -/
structure Run where
  gates : Gates
  calls : Nat := 0
  history : List Gates := []

/-- `ntp_spdk_set_gate`; returns whether it succeeded. -/
def ntpSpdkSetGate (m : Machine) (p : SpdkProc) (every : U32) (r : Run) : Bool × Run :=
  let gates : Gates := fun q => if m.exits r.calls q then none else r.gates q
  let fails := if every = 0 then m.clearFails r.calls else m.setFails r.calls
  let ok := (gates p).isSome && !fails
  let gates : Gates := if ok then Function.update gates p (some every) else gates
  (ok, ⟨gates, r.calls + 1, gates :: r.history⟩)

/-! ## The loader -/

/-- `struct obj_inst`. -/
structure ObjInst where
  desc : Object
  procs : List SpdkProc := []
  armed : Bool := false
  gated : Bool := false

/-- Open the objects in order; returns whether all were loaded. -/
def openObjects (m : Machine) : List Object → List ObjInst × Bool
  | [] => ([], true)
  | d :: ds =>
    match m.openOne d with
    | .notOpened => ([], false)
    | .failed => ([{ desc := d }], false)
    | .loaded =>
      if d.spdk && (m.find d).procs.isEmpty then ([{ desc := d }], false)
      else
        let (insts, ok) := openObjects m ds
        ({ desc := d, procs := if d.spdk then (m.find d).procs else [] } :: insts, ok)

/-- Set the gates of processes one after the other; stop at the first that fails. -/
def setGates (m : Machine) (every : U32) : List SpdkProc → Run → Bool × Run
  | [], r => (true, r)
  | p :: ps, r =>
    match ntpSpdkSetGate m p every r with
    | (true, r) => setGates m every ps r
    | (false, r) => (false, r)

/-- Clear the gates of processes one after the other, in `ungate`. -/
def clearGates (m : Machine) (ps : List SpdkProc) (r : Run) : Run :=
  ps.foldl (fun r p => (ntpSpdkSetGate m p 0 r).2) r

/-- Let SPDK sample, the last instance first; returns whether all gates were set. -/
def gateInsts (m : Machine) (every : U32) : List ObjInst → Run → Bool × List ObjInst × Run
  | [], r => (true, [], r)
  | o :: os, r =>
    match gateInsts m every os r with
    | (false, os, r) => (false, o :: os, r)
    | (true, os, r) =>
      let (ok, r) := setGates m every o.procs r
      (ok, { o with gated := !o.procs.isEmpty } :: os, r)

/-- `ungate`. -/
def ungate (m : Machine) (o : ObjInst) (r : Run) : ObjInst × Run :=
  if o.gated then ({ o with gated := false }, clearGates m o.procs r) else (o, r)

/-- `ungate` of every instance, the first first. -/
def ungateInsts (m : Machine) : List ObjInst → Run → List ObjInst × Run
  | [], r => ([], r)
  | o :: os, r =>
    let (o, r) := ungate m o r
    let (os, r) := ungateInsts m os r
    (o :: os, r)

/-- `ntp_loader_close`. -/
def ntpLoaderClose (m : Machine) (insts : List ObjInst) (r : Run) : Run := (ungateInsts m insts r).2

/-- `ntp_loader_disarm`; clearing a flag and clearing gates do not affect each other. -/
def ntpLoaderDisarm (m : Machine) (insts : List ObjInst) (r : Run) : List ObjInst × Run :=
  let (insts, r) := ungateInsts m insts r
  (insts.map fun o => { o with armed := false }, r)

/-- `ntp_loader_open`; a loader that could not be opened is closed again. -/
def ntpLoaderOpen (m : Machine) (c : Config) (r : Run) : Option (List ObjInst) × Run :=
  let (insts, ok) := if m.ready then openObjects m (objects.filter (wanted c)) else ([], false)
  if !ok || insts.isEmpty || !m.attached then (none, ntpLoaderClose m insts r)
  else
    let insts := insts.map fun o => { o with armed := true }
    match gateInsts m c.sampleEvery insts r with
    | (true, insts, r) => (some insts, r)
    | (false, insts, r) => (none, ntpLoaderClose m insts r)

/-- What is done with an open loader. -/
inductive Op where
  | disarm
  | close
  deriving DecidableEq, Repr

/-- An operation on a loader; there is none after `ntp_loader_close`. -/
def step (m : Machine) : Option (List ObjInst) × Run → Op → Option (List ObjInst) × Run
  | (none, r), _ => (none, r)
  | (some insts, r), .disarm =>
    let (insts, r) := ntpLoaderDisarm m insts r
    (some insts, r)
  | (some insts, r), .close => (none, ntpLoaderClose m insts r)

/-- A loader is opened, and the operations are done with it. -/
def run (m : Machine) (c : Config) (gates : Gates) (ops : List Op) : Option (List ObjInst) × Run :=
  ops.foldl (step m) (ntpLoaderOpen m c { gates := gates })

/-! ## The order of the gates -/

/-- The processes whose gates a loader sets for a role. -/
def rolesProcs (c : Config) (find : Object → Found) (role : U32) : List SpdkProc :=
  ((objects.filter (wanted c)).filter fun d => d.spdk && decide (d.role = role)).flatMap fun d => (find d).procs

/-- The SPDK host processes of a loader. -/
def hostProcs (c : Config) (find : Object → Found) : List SpdkProc := rolesProcs c find ntpRoleHost

/-- The SPDK target processes of a loader. -/
def targetProcs (c : Config) (find : Object → Found) : List SpdkProc := rolesProcs c find ntpRoleTarget

/-- Every gate is 0. -/
def AllZero (g : Gates) : Prop := ∀ p v, g p = some v → v = 0

/-- When the gate of a host process is not 0, none of a target process is: what a host samples, its target
samples too. -/
def Ordered (hosts targets : List SpdkProc) (g : Gates) : Prop :=
  ∀ h ∈ hosts, ∀ v, g h = some v → v ≠ 0 → ∀ t ∈ targets, ∀ u, g t = some u → u ≠ 0

/-- A process that is both a host and a target process is the last of either. -/
def SharedLast (hosts targets : List SpdkProc) : Prop :=
  ∀ p ∈ hosts, p ∈ targets → hosts.getLast? = some p ∧ targets.getLast? = some p

end Ntprof.Loader
