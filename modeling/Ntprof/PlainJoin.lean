import Ntprof.Join
import Ntprof.Lib.KeyedList

/-!
# The joiner without its hash table

What the joiner is for: two lists of waiting records in arrival order. Taking a command removes the
oldest record with that command's id, the bound drops the oldest record of a key, expiry removes the
records that are too old. Nothing here knows of chains, buckets or capacities.
-/

namespace Ntprof

open KeyedList

/-- The controller, the queue and the command identifier: what the records of one bucket share. -/
def CmdId.key (id : CmdId) : U16 × U16 × U16 := (id.cntlid, id.qid, id.cid)

section List

variable {α : Type} [Waiting α]

/-- The key a record waits under. -/
def waitKey (r : α) : U16 × U16 × U16 := (idOf r).key

/-- Append `r`, after dropping the oldest record of its key if there are `maxPerKey` of them. Also
returns the number of dropped records. -/
def plainPush (l : List α) (r : α) (maxPerKey : Nat) : List α × Nat :=
  if maxPerKey ≠ 0 ∧ (under waitKey (waitKey r) l).length = maxPerKey then
    ((l.eraseP fun x => waitKey x = waitKey r) ++ [r], 1)
  else
    (l ++ [r], 0)

/-- The oldest record whose id is `id`. -/
def plainFind (l : List α) (id : CmdId) : Option α := l.find? fun r => idOf r = id

/-- Remove the oldest record whose id is `id`. -/
def plainTake (l : List α) (id : CmdId) : List α × Option α :=
  (l.eraseP fun r => idOf r = id, plainFind l id)

/-- Remove the records whose aging timestamp is before `beforeNs`, and return them. -/
def plainExpire (l : List α) (beforeNs : U64) : List α × List α :=
  (l.filter fun r => !decide (agingTs r < beforeNs), l.filter fun r => decide (agingTs r < beforeNs))

end List

/-- The records that wait for their counterpart, the oldest first. -/
structure PlainJoiner where
  targets : List TgtRec
  hosts : List HostRec
  maxPerKey : Nat

/-- A joiner in which nothing waits. -/
def PlainJoiner.new (maxPerKey : Nat) : PlainJoiner := ⟨[], [], maxPerKey⟩

/-- Keep a target record. -/
def PlainJoiner.addTarget (p : PlainJoiner) (t : TgtRec) : PlainJoiner :=
  { p with targets := (plainPush p.targets t p.maxPerKey).1 }

/-- Keep a host record. -/
def PlainJoiner.addHost (p : PlainJoiner) (h : HostRec) : PlainJoiner :=
  { p with hosts := (plainPush p.hosts h p.maxPerKey).1 }

/-- Take the target record of `h`. -/
def PlainJoiner.takeTarget (p : PlainJoiner) (h : HostRec) : PlainJoiner :=
  { p with targets := (plainTake p.targets h.id).1 }

/-- Take the host record of `t`. -/
def PlainJoiner.takeHost (p : PlainJoiner) (t : TgtRec) : PlainJoiner :=
  { p with hosts := (plainTake p.hosts t.id).1 }

/-- The joiner after a call. -/
def PlainJoiner.next (p : PlainJoiner) : JoinOp → PlainJoiner
  | .addTarget t => p.addTarget t
  | .matchHost h => p.takeTarget h
  | .hostArrives h =>
    match plainFind p.targets h.id with
    | some _ => p.takeTarget h
    | none => p.addHost h
  | .targetArrives t =>
    match plainFind p.hosts t.id with
    | some _ => p.takeHost t
    | none => p.addTarget t
  | .releaseHosts b => { p with hosts := (plainExpire p.hosts b).1 }
  | .expire b => { p with targets := (plainExpire p.targets b).1 }

/-- The target record a call hands out. -/
def PlainJoiner.tgtOut (p : PlainJoiner) : JoinOp → Option TgtRec
  | .matchHost h | .hostArrives h => plainFind p.targets h.id
  | _ => none

/-- The host record a call hands out. -/
def PlainJoiner.hostOut (p : PlainJoiner) : JoinOp → Option HostRec
  | .targetArrives t => plainFind p.hosts t.id
  | _ => none

/-- The host records a call gives up on. -/
def PlainJoiner.released (p : PlainJoiner) : JoinOp → List HostRec
  | .releaseHosts b => (plainExpire p.hosts b).2
  | _ => []

/-- The return value of a call. -/
def PlainJoiner.ret (p : PlainJoiner) : JoinOp → Nat
  | .addTarget _ => 0
  | .matchHost h | .hostArrives h => if (plainFind p.targets h.id).isSome then 1 else 0
  | .targetArrives t => if (plainFind p.hosts t.id).isSome then 1 else 0
  | .releaseHosts b => (plainExpire p.hosts b).2.length
  | .expire b => (plainExpire p.targets b).2.length

/-- One call on the plain joiner. -/
def plainStep (p : PlainJoiner) (op : JoinOp) : PlainJoiner × JoinOut :=
  (p.next op,
    { ret := p.ret op, tgtOut := p.tgtOut op, hostOut := p.hostOut op, released := p.released op
      pending := (p.next op).targets.length, waitingHosts := (p.next op).hosts.length })

/-- A sequence of calls on the plain joiner. -/
def plainRun (p : PlainJoiner) : List JoinOp → PlainJoiner × List JoinOut
  | [] => (p, [])
  | op :: ops =>
    let (p, out) := plainStep p op
    let (p, outs) := plainRun p ops
    (p, out :: outs)

/-- A record of either side arrives at the plain joiner: the pair it completes. -/
def plainArrive (p : PlainJoiner) : Rec → PlainJoiner × Option (HostRec × TgtRec)
  | .host h => (p.next (.hostArrives h), (plainFind p.targets h.id).map fun t => (h, t))
  | .target t => (p.next (.targetArrives t), (plainFind p.hosts t.id).map fun h => (h, t))

/-- The records of both sides arrive at the plain joiner. -/
def plainArriveAll (p : PlainJoiner) : List Rec → PlainJoiner × List (HostRec × TgtRec)
  | [] => (p, [])
  | r :: rs =>
    let (p, pair) := plainArrive p r
    let (p, pairs) := plainArriveAll p rs
    (p, pair.toList ++ pairs)

/-- Two calls show the same; the order in which records of different keys are given to the callback
is left open. -/
structure SameOut (o o' : JoinOut) : Prop where
  ret : o.ret = o'.ret
  tgtOut : o.tgtOut = o'.tgtOut
  hostOut : o.hostOut = o'.hostOut
  released : ∀ k, under waitKey k o.released = under waitKey k o'.released
  pending : o.pending = o'.pending
  waitingHosts : o.waitingHosts = o'.waitingHosts

end Ntprof
