import Ntprof.Bpf.HostRdma

/-!
# Which attempt of a request wrote what

A request goes through `nvme_setup_cmd` once for each attempt, with a new cid, and completes in
`block_rq_complete`. This module follows a run of a host object from outside: it numbers the events, and
notes for each request its last `nvme_setup_cmd` and for each timestamp in a slot the event that wrote it.
-/

namespace Ntprof.Bpf

/-- An `nvme_setup_cmd`: which event it was, and the id of its command if that could be read. -/
structure Attempt where
  event : ℕ
  id : Option CmdId

/-- A record on the ring buffer, with the last attempt of its request and who wrote its timestamps. -/
structure EmittedHost where
  record : HostRec
  last : Option Attempt
  writer : HostTs → ℕ

/-- The attempts of a run so far. -/
structure Attempts where
  /-- how many events there were -/
  events : ℕ := 0
  /-- the last attempt of each request -/
  last : U64 → Option Attempt := fun _ => none
  /-- the event that wrote a timestamp of the record in a slot -/
  writer : Slot → HostTs → ℕ := fun _ _ => 0
  emitted : List EmittedHost := []

/-- `nvme_setup_cmd` starts an attempt. -/
def Attempts.arrive (m : Attempts) : HostEvent → Attempts
  | .setupCmd _ a =>
    { m with last := Function.update m.last a.rq (some ⟨m.events + 1, a.cmd.map a.id⟩) }
  | _ => m

/-- The request whose record an event can end. -/
def HostEvent.ends : HostEvent → U64
  | .blkDone _ rq => rq
  | _ => 0

/-- Who wrote the timestamps of `new`, that were those of `old`, after event `n`. -/
def tsWriters (old new : HostRec) (writer : HostTs → ℕ) (n : ℕ) (i : HostTs) : ℕ :=
  if new.ts i = old.ts i then writer i else n

/-- An event that takes the object from `s` to `s'`. -/
def Attempts.next (m : Attempts) (s s' : HostState) (e : HostEvent) : Attempts :=
  let m := m.arrive e
  let n := m.events + 1
  let slot := ntpSlot e.ends
  { m with
    events := n
    writer := fun i => tsWriters (s.reqs i).record (s'.reqs i).record (m.writer i) n
    emitted := m.emitted ++ (s'.events.drop s.events.length).map fun r =>
      ⟨r, m.last e.ends, tsWriters (s.reqs slot).record r (m.writer slot) n⟩ }

/-- A run of a host object, with its attempts. -/
def attemptsRun (tr : Transport) (k : Layout) (f : Filter) (sm : HostState × Attempts)
    (es : List HostEvent) : HostState × Attempts :=
  es.foldl (fun sm e => (hostStep tr k f sm.1 e, sm.2.next sm.1 (hostStep tr k f sm.1 e) e)) sm

/-- The timestamps of the transport and of the completion: all but the start of the request and its
`->queue_rq()`, which come before the attempt is set up. -/
def afterSetup : HostTs → Bool
  | .start => false
  | .queueRq => false
  | _ => true

/-- The record carries the id of the last attempt of its request, and its timestamps were written after
that attempt was set up. -/
def EmittedHost.OneAttempt (p : EmittedHost) : Prop :=
  ∃ n, p.last = some ⟨n, some p.record.id⟩ ∧
    ∀ i : HostTs, afterSetup i → p.record.ts i ≠ 0 → n < p.writer i

/-- Every record on the ring buffer is of one attempt, the last one. -/
def Attempts.Unmixed (m : Attempts) : Prop := ∀ p ∈ m.emitted, p.OneAttempt

/-- What it takes for an event not to mix two attempts: an `nvme_setup_cmd` on a request whose record is
still open starts the record anew, past every test between the key and the slot. -/
def HostEvent.Orderly (tr : Transport) (f : Filter) (s : HostState) (e : HostEvent) : Prop :=
  ∀ env a, e = .setupCmd env a → (s.reqs (ntpSlot a.rq)).rq = a.rq → setupStores tr f s env a = true

/-- Every event of a run is orderly in the state it happens in. -/
def OrderlyHostRun (tr : Transport) (k : Layout) (f : Filter) : HostState → List HostEvent → Prop
  | _, [] => True
  | s, e :: es => e.Orderly tr f s ∧ OrderlyHostRun tr k f (hostStep tr k f s e) es

end Ntprof.Bpf
