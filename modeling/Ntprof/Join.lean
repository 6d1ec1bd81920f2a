import Ntprof.Record
import Ntprof.Lib.Chains

/-!
# Joining host and target records (`src/join.c`)

Records wait for their counterpart per (cntlid, qid, cid), in arrival order, in a hash table of
chained buckets. A bucket is an array that grows by doubling; its capacity is kept here only to show
that a record is never written beyond it. The out parameters of the source are the results of the
functions: a return value of 1 with a record is `some`, a return value of 0 is `none`.
-/

namespace Ntprof

/-- `struct bucket`: the records of one key, the oldest first. -/
structure Bucket (α : Type) where
  key : U64
  cap : Nat
  recs : List α

/-- `struct table`. There is at least one chain. -/
structure Table (α : Type) where
  nbuckets : Nat
  nbuckets_pos : 0 < nbuckets
  v : Fin nbuckets → List (Bucket α)
  pending : Nat

/-- A record that can wait: its `id_off` and `ts_off`, as the fields they are the offsets of. -/
class Waiting (α : Type) where
  idOf : α → CmdId
  agingTs : α → U64

export Waiting (idOf agingTs)

instance : Waiting TgtRec := ⟨TgtRec.id, fun t => t.ts .cmdArr⟩

instance : Waiting HostRec := ⟨HostRec.id, fun h => h.ts .blkDone⟩

/-- `key_of`. -/
def keyOf (id : CmdId) : U64 :=
  id.cntlid.setWidth 64 <<< 32 ||| id.qid.setWidth 64 <<< 16 ||| id.cid.setWidth 64

/-- `same_command`. -/
def sameCommand (a b : CmdId) : Bool :=
  a.opcode == b.opcode && a.nsid == b.nsid && a.slba == b.slba && a.nlb == b.nlb

/-- The hash of `lookup`. -/
def lookupHash (key : U64) : U64 :=
  let h := key
  let h := h ^^^ (h >>> 33)
  let h := h * 0xff51afd7ed558ccd#64
  h ^^^ (h >>> 33)

theorem lookupHash_lt (key : U64) {n : Nat} (hn : 0 < n) :
    (lookupHash key &&& BitVec.ofNat 64 (n - 1)).toNat < n := by
  have hle : (BitVec.ofNat 64 (n - 1)).toNat ≤ n - 1 := by
    rw [BitVec.toNat_ofNat]
    exact Nat.mod_le _ _
  rw [BitVec.toNat_and]
  have := Nat.and_le_right (n := (lookupHash key).toNat) (m := (BitVec.ofNat 64 (n - 1)).toNat)
  omega

section Table

variable {α : Type}

/-- `table_init`. -/
def tableInit : Table α := ⟨1 <<< 16, by decide, fun _ => [], 0⟩

/-- The chain of a key, `h & (t->nbuckets - 1)`. -/
def Table.slotOf (t : Table α) (key : U64) : Fin t.nbuckets :=
  ⟨(lookupHash key &&& BitVec.ofNat 64 (t.nbuckets - 1)).toNat, lookupHash_lt key t.nbuckets_pos⟩

/-- `lookup`: the bucket of a key, if it has one. -/
def Table.lookup (t : Table α) (key : U64) : Option (Bucket α) :=
  Chains.get Bucket.key t.slotOf t.v key

/-- Write the bucket of its key through the link `lookup` returned. -/
def Table.store (t : Table α) (b : Bucket α) : Table α :=
  { t with v := Chains.put Bucket.key t.slotOf t.v b }

/-- `*link = b->next`. -/
def Table.unlink (t : Table α) (key : U64) : Table α :=
  { t with v := Chains.del Bucket.key t.slotOf t.v key }

/-- Write `t->pending`. -/
def Table.setPending (t : Table α) (n : Nat) : Table α := { t with pending := n }

/-- The capacity of a full bucket after it has grown. -/
def grownCap (cap maxPerKey : Nat) : Nat :=
  if maxPerKey ≠ 0 ∧ maxPerKey < cap * 2 then maxPerKey else cap * 2

variable [Waiting α]

/-- `table_push`: append `r`. Also returns 1 if the oldest record of its key was dropped for it. -/
def tablePush (t : Table α) (r : α) (maxPerKey : Nat) : Table α × Nat :=
  let key := keyOf (idOf r)
  match t.lookup key with
  | none =>
    let t := t.store ⟨key, 1, [r]⟩
    (t.setPending (t.pending + 1), 0)
  | some b =>
    if maxPerKey ≠ 0 ∧ b.recs.length = maxPerKey then
      let t := t.setPending (t.pending - 1)
      let t := t.store { b with recs := b.recs.drop 1 ++ [r] }
      (t.setPending (t.pending + 1), 1)
    else
      let cap := if b.recs.length = b.cap then grownCap b.cap maxPerKey else b.cap
      let t := t.store { b with cap := cap, recs := b.recs ++ [r] }
      (t.setPending (t.pending + 1), 0)

/-- `table_take`: remove the oldest record of command `id`. -/
def tableTake (t : Table α) (id : CmdId) : Table α × Option α :=
  match t.lookup (keyOf id) with
  | none => (t, none)
  | some b =>
    match b.recs.find? fun r => sameCommand (idOf r) id with
    | none => (t, none)
    | some r =>
      let rest := b.recs.eraseP fun r => sameCommand (idOf r) id
      let t := if rest.length = 0 then t.unlink b.key else t.store { b with recs := rest }
      (t.setPending (t.pending - 1), some r)

/-- The inner loop of `table_expire`: what is left of a bucket; it is unlinked when nothing is. -/
def expireBucket (beforeNs : U64) (b : Bucket α) : Option (Bucket α) :=
  let kept := b.recs.filter fun r => !decide (agingTs r < beforeNs)
  if kept.length = 0 then none else some { b with recs := kept }

/-- The inner loop of `table_expire`: the records it takes out of a bucket. -/
def expiredOf (beforeNs : U64) (b : Bucket α) : List α :=
  b.recs.filter fun r => decide (agingTs r < beforeNs)

/-- The outer loop of `table_expire`, for one chain: the chains, `t->pending`, the records given to the
callback so far and `dropped`. -/
def expireChain {n : Nat} (beforeNs : U64) (acc : (Fin n → List (Bucket α)) × Nat × List α × Nat)
    (s : Fin n) : (Fin n → List (Bucket α)) × Nat × List α × Nat :=
  let (v, pending, gone, dropped) := acc
  let out := (v s).flatMap (expiredOf beforeNs)
  (Function.update v s ((v s).filterMap (expireBucket beforeNs)), pending - out.length,
    gone ++ out, dropped + out.length)

/-- `table_expire`: remove the records whose aging timestamp is before `beforeNs`. Returns the records
in the order in which the callback gets them, and their number. -/
def tableExpire (t : Table α) (beforeNs : U64) : Table α × List α × Nat :=
  let (v, pending, gone, dropped) :=
    (List.finRange t.nbuckets).foldl (expireChain beforeNs) (t.v, t.pending, [], 0)
  ({ t with v := v, pending := pending }, gone, dropped)

end Table

/-- The records that wait in a table, chain after chain. -/
def Table.records {α : Type} (t : Table α) : List α :=
  (List.finRange t.nbuckets).flatMap fun s => (t.v s).flatMap Bucket.recs

/-- The number of records that wait under a key. -/
def Table.held {α : Type} (t : Table α) (key : U64) : Nat := (t.lookup key).elim 0 fun b => b.recs.length

/-! ## The joiner -/

/-- `struct ntp_join_stats`. -/
structure JoinStats where
  targetsAdded : Nat := 0
  targetsEvicted : Nat := 0
  targetsExpired : Nat := 0
  matched : Nat := 0
  hostUnmatched : Nat := 0
  deriving DecidableEq, Repr

/-- `struct ntp_joiner`. -/
structure Joiner where
  targets : Table TgtRec
  hosts : Table HostRec
  maxPerKey : Nat
  st : JoinStats

/-- `ntp_joiner_new`. -/
def ntpJoinerNew (maxPerKey : Nat) : Joiner := ⟨tableInit, tableInit, maxPerKey, {}⟩

/-- `ntp_joiner_add_target`. -/
def ntpJoinerAddTarget (j : Joiner) (t : TgtRec) : Joiner :=
  let (targets, dropped) := tablePush j.targets t j.maxPerKey
  { j with targets := targets
           st := { j.st with targetsEvicted := j.st.targetsEvicted + dropped
                             targetsAdded := j.st.targetsAdded + 1 } }

/-- `ntp_joiner_match`: find and remove the target record of `h`. -/
def ntpJoinerMatch (j : Joiner) (h : HostRec) : Joiner × Option TgtRec :=
  match tableTake j.targets h.id with
  | (targets, some t) =>
    ({ j with targets := targets, st := { j.st with matched := j.st.matched + 1 } }, some t)
  | (targets, none) =>
    ({ j with targets := targets, st := { j.st with hostUnmatched := j.st.hostUnmatched + 1 } }, none)

/-- `ntp_joiner_target_arrives`: the waiting host record of `t`, or nothing after keeping `t`. -/
def ntpJoinerTargetArrives (j : Joiner) (t : TgtRec) : Joiner × Option HostRec :=
  match tableTake j.hosts t.id with
  | (hosts, some h) =>
    ({ j with hosts := hosts
              st := { j.st with targetsAdded := j.st.targetsAdded + 1
                                matched := j.st.matched + 1 } }, some h)
  | (hosts, none) => (ntpJoinerAddTarget { j with hosts := hosts } t, none)

/-- `ntp_joiner_host_arrives`: the target record of `h`, or nothing after keeping `h`. -/
def ntpJoinerHostArrives (j : Joiner) (h : HostRec) : Joiner × Option TgtRec :=
  match tableTake j.targets h.id with
  | (targets, some t) =>
    ({ j with targets := targets, st := { j.st with matched := j.st.matched + 1 } }, some t)
  | (targets, none) =>
    let (hosts, dropped) := tablePush j.hosts h j.maxPerKey
    ({ j with targets := targets, hosts := hosts
              st := { j.st with hostUnmatched :=
                        if dropped ≠ 0 then j.st.hostUnmatched + 1 else j.st.hostUnmatched } }, none)

/-- `ntp_joiner_release_hosts`: give up on the host records that completed before `beforeNs`. Returns
the records given to the callback, in order, and their number. -/
def ntpJoinerReleaseHosts (j : Joiner) (beforeNs : U64) : Joiner × List HostRec × Nat :=
  let (hosts, released, n) := tableExpire j.hosts beforeNs
  ({ j with hosts := hosts, st := { j.st with hostUnmatched := j.st.hostUnmatched + n } }, released, n)

/-- `ntp_joiner_expire`: drop the target records that arrived before `beforeNs`; returns how many. -/
def ntpJoinerExpire (j : Joiner) (beforeNs : U64) : Joiner × Nat :=
  let (targets, _, dropped) := tableExpire j.targets beforeNs
  ({ j with targets := targets
            st := { j.st with targetsExpired := j.st.targetsExpired + dropped } }, dropped)

/-- `ntp_joiner_pending`. -/
def ntpJoinerPending (j : Joiner) : Nat := j.targets.pending

/-- `ntp_joiner_waiting_hosts`. -/
def ntpJoinerWaitingHosts (j : Joiner) : Nat := j.hosts.pending

/-! ## Records as they arrive -/

/-- A record of either side arrives, as `on_record` gives it to the joiner: the pair it completes. -/
def joinArrive (j : Joiner) : Rec → Joiner × Option (HostRec × TgtRec)
  | .host h =>
    let (j, t) := ntpJoinerHostArrives j h
    (j, t.map fun t => (h, t))
  | .target t =>
    let (j, h) := ntpJoinerTargetArrives j t
    (j, h.map fun h => (h, t))

/-- The records of both sides arrive; the pairs they complete, in order. -/
def joinArriveAll (j : Joiner) : List Rec → Joiner × List (HostRec × TgtRec)
  | [] => (j, [])
  | r :: rs =>
    let (j, pair) := joinArrive j r
    let (j, pairs) := joinArriveAll j rs
    (j, pair.toList ++ pairs)

/-! ## Sequences of calls -/

/-- One call of the joiner's interface. -/
inductive JoinOp where
  | addTarget (t : TgtRec)
  | matchHost (h : HostRec)
  | hostArrives (h : HostRec)
  | targetArrives (t : TgtRec)
  | releaseHosts (beforeNs : U64)
  | expire (beforeNs : U64)

/-- What a caller sees of a call: its return value, the record written to the out parameter, the
records given to the callback, and the two pending counts after it. -/
structure JoinOut where
  ret : Nat
  tgtOut : Option TgtRec := none
  hostOut : Option HostRec := none
  released : List HostRec := []
  pending : Nat
  waitingHosts : Nat
  deriving DecidableEq

/-- One call on the joiner. -/
def joinStep (j : Joiner) (op : JoinOp) : Joiner × JoinOut :=
  match op with
  | .addTarget t =>
    let j := ntpJoinerAddTarget j t
    (j, { ret := 0, pending := ntpJoinerPending j, waitingHosts := ntpJoinerWaitingHosts j })
  | .matchHost h =>
    let (j, out) := ntpJoinerMatch j h
    (j, { ret := out.toList.length, tgtOut := out, pending := ntpJoinerPending j,
          waitingHosts := ntpJoinerWaitingHosts j })
  | .hostArrives h =>
    let (j, out) := ntpJoinerHostArrives j h
    (j, { ret := out.toList.length, tgtOut := out, pending := ntpJoinerPending j,
          waitingHosts := ntpJoinerWaitingHosts j })
  | .targetArrives t =>
    let (j, out) := ntpJoinerTargetArrives j t
    (j, { ret := out.toList.length, hostOut := out, pending := ntpJoinerPending j,
          waitingHosts := ntpJoinerWaitingHosts j })
  | .releaseHosts b =>
    let (j, released, n) := ntpJoinerReleaseHosts j b
    (j, { ret := n, released := released, pending := ntpJoinerPending j,
          waitingHosts := ntpJoinerWaitingHosts j })
  | .expire b =>
    let (j, n) := ntpJoinerExpire j b
    (j, { ret := n, pending := ntpJoinerPending j, waitingHosts := ntpJoinerWaitingHosts j })

/-- A sequence of calls: the joiner after it and what each call showed. -/
def joinRun (j : Joiner) : List JoinOp → Joiner × List JoinOut
  | [] => (j, [])
  | op :: ops =>
    let (j, out) := joinStep j op
    let (j, outs) := joinRun j ops
    (j, out :: outs)

end Ntprof
