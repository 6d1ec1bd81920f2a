import Ntprof.Proofs.OfflineProofs

/-!
# Proofs: the joiner's accounts

Every target record that was added is matched, evicted, expired or still pending, and every host
record that was given is matched, unmatched or still waiting. The tables' counts are the numbers of
their records, so no count is ever decremented below 0. Last, a record that waits does so because its
counterpart does not.
-/

namespace Ntprof

open KeyedList

/-! ## What each table operation does to the pending count -/

section Table

variable {α : Type} [Waiting α]

theorem length_plainPush (l : List α) (r : α) (maxPerKey : Nat) :
    (plainPush l r maxPerKey).1.length + (plainPush l r maxPerKey).2 = l.length + 1 := by
  unfold plainPush
  split_ifs with h
  · -- the key is full, so there is a record to drop
    have hpos : 0 < (under waitKey (waitKey r) l).length := by omega
    obtain ⟨x, hx⟩ := List.exists_mem_of_length_pos hpos
    obtain ⟨hxl, hxk⟩ := (mem_under waitKey).1 hx
    have hlen := List.length_eraseP_of_mem hxl (p := fun x => decide (waitKey x = waitKey r)) (by simpa using hxk)
    have hl : 0 < l.length := List.length_pos_of_mem hxl
    simp only [List.length_append, List.length_singleton]
    omega
  · simp

theorem length_plainTake (l : List α) (id : CmdId) :
    (plainTake l id).1.length + (plainTake l id).2.toList.length = l.length := by
  unfold plainTake
  cases hf : plainFind l id with
  | none =>
    simp only [eraseP_of_find?_none hf]
    rfl
  | some r =>
    have hlen := length_eraseP_of_find? hf
    simp only [Option.toList_some, List.length_singleton]
    omega

theorem length_plainExpire (l : List α) (beforeNs : U64) :
    (plainExpire l beforeNs).1.length + (plainExpire l beforeNs).2.length = l.length := by
  have hsplit := List.length_eq_length_filter_add (l := l) fun r => decide (agingTs r < beforeNs)
  simp only [plainExpire]
  omega

section Rep

variable {maxPerKey : Nat} {t : Table α} {l : List α}

theorem TableRep.push_pending (h : TableRep maxPerKey t l) (r : α) :
    (tablePush t r maxPerKey).1.pending + (tablePush t r maxPerKey).2 = t.pending + 1 := by
  obtain ⟨hrep, hout⟩ := h.push r
  rw [hrep.pending, hout, h.pending]
  exact length_plainPush l r maxPerKey

theorem TableRep.take_pending (h : TableRep maxPerKey t l) (id : CmdId) :
    (tableTake t id).1.pending + (tableTake t id).2.toList.length = t.pending := by
  obtain ⟨hrep, hout⟩ := h.take id
  rw [hrep.pending, hout, h.pending]
  exact length_plainTake l id

theorem TableRep.expire_pending (h : TableRep maxPerKey t l) (beforeNs : U64) :
    (tableExpire t beforeNs).1.pending + (tableExpire t beforeNs).2.2 = t.pending := by
  obtain ⟨hrep, -, hout⟩ := h.expire beforeNs
  rw [hrep.pending, hout, h.pending]
  exact length_plainExpire l beforeNs

end Rep

/-! ## Decrements -/

/-- The decrement of `table_push`: the pending count before it and what is taken off. -/
def pushSubs (t : Table α) (r : α) (maxPerKey : Nat) : List (Nat × Nat) :=
  match t.lookup (keyOf (idOf r)) with
  | none => []
  | some b => if maxPerKey ≠ 0 ∧ b.recs.length = maxPerKey then [(t.pending, 1)] else []

/-- The decrement of `table_take`. -/
def takeSubs (t : Table α) (id : CmdId) : List (Nat × Nat) :=
  (tableTake t id).2.toList.map fun _ => (t.pending, 1)

/-- Decrements one after the other. -/
def subsFrom (pending : Nat) : List Nat → List (Nat × Nat)
  | [] => []
  | d :: ds => (pending, d) :: subsFrom (pending - d) ds

/-- The decrements of `table_expire`: one for each bucket, chain after chain. -/
def expireSubs (t : Table α) (beforeNs : U64) : List (Nat × Nat) :=
  subsFrom t.pending
    (((List.finRange t.nbuckets).flatMap t.v).map fun b => (expiredOf beforeNs b).length)

theorem subsFrom_le {pending : Nat} {ds : List Nat} (h : ds.sum ≤ pending) :
    ∀ s ∈ subsFrom pending ds, s.2 ≤ s.1 := by
  induction ds generalizing pending with
  | nil => simp [subsFrom]
  | cons d ds ih =>
    rw [List.sum_cons] at h
    intro s hs
    rw [subsFrom, List.mem_cons] at hs
    rcases hs with rfl | hs
    · show d ≤ pending
      omega
    · exact ih (by omega) s hs

theorem length_allExpired (t : Table α) (beforeNs : U64) :
    (allExpired t beforeNs).length =
      (((List.finRange t.nbuckets).flatMap t.v).map fun b => (expiredOf beforeNs b).length).sum := by
  rw [allExpired, ← List.flatMap_assoc, List.length_flatMap]

section Rep

variable {maxPerKey : Nat} {t : Table α} {l : List α}

/-- A full bucket holds a record, which is counted. -/
theorem TableRep.pushSubs_le (h : TableRep maxPerKey t l) (r : α) :
    ∀ s ∈ pushSubs t r maxPerKey, s.2 ≤ s.1 := by
  unfold pushSubs
  cases hb : t.lookup (keyOf (idOf r)) with
  | none => simp
  | some b =>
    obtain ⟨-, hbr, hok⟩ := h.of_some hb
    have hle : b.recs.length ≤ t.pending := by
      rw [hbr, h.pending]
      exact List.length_filter_le _ _
    have hpos : 0 < b.recs.length := List.length_pos_iff.2 hok.nonempty
    intro s hs
    simp only at hs
    split_ifs at hs
    · rw [List.mem_singleton] at hs
      subst hs
      show 1 ≤ t.pending
      omega
    · simp at hs

/-- A record that is found is counted. -/
theorem TableRep.takeSubs_le (h : TableRep maxPerKey t l) (id : CmdId) :
    ∀ s ∈ takeSubs t id, s.2 ≤ s.1 := by
  have hp := h.take_pending id
  unfold takeSubs
  cases hf : (tableTake t id).2 with
  | none => simp
  | some r =>
    rw [hf] at hp
    intro s hs
    simp only [Option.toList_some, List.map_cons, List.map_nil, List.mem_singleton] at hs
    subst hs
    show 1 ≤ t.pending
    rw [← hp]
    exact Nat.le_add_left 1 _

/-- All records that expire are counted, so they can be taken off bucket by bucket. -/
theorem TableRep.expireSubs_le (h : TableRep maxPerKey t l) (beforeNs : U64) :
    ∀ s ∈ expireSubs t beforeNs, s.2 ≤ s.1 := by
  have hp := h.expire_pending beforeNs
  have hn : (tableExpire t beforeNs).2.2 = (allExpired t beforeNs).length := by rw [tableExpire_eq]
  refine subsFrom_le ?_
  rw [← length_allExpired, ← hn]
  omega

end Rep

end Table

/-! ## The accounts -/

/-- The decrements of a call on the joiner. -/
def joinSubs (j : Joiner) : JoinOp → List (Nat × Nat)
  | .addTarget t => pushSubs j.targets t j.maxPerKey
  | .matchHost h => takeSubs j.targets h.id
  | .hostArrives h =>
    if (tableTake j.targets h.id).2.isSome then takeSubs j.targets h.id
    else pushSubs j.hosts h j.maxPerKey
  | .targetArrives t =>
    if (tableTake j.hosts t.id).2.isSome then takeSubs j.hosts t.id
    else pushSubs j.targets t j.maxPerKey
  | .releaseHosts b => expireSubs j.hosts b
  | .expire b => expireSubs j.targets b

/-- The number of host records given to the joiner. -/
def hostsGiven : List JoinOp → Nat
  | [] => 0
  | .matchHost _ :: ops | .hostArrives _ :: ops => hostsGiven ops + 1
  | _ :: ops => hostsGiven ops

/-- The two accounts of a joiner that was given `given` host records. -/
structure Accounts (given : Nat) (j : Joiner) : Prop where
  targets : j.st.targetsAdded =
    j.st.matched + j.st.targetsEvicted + j.st.targetsExpired + ntpJoinerPending j
  hosts : given = j.st.matched + j.st.hostUnmatched + ntpJoinerWaitingHosts j

section Joiner

variable {j : Joiner} {p : PlainJoiner} {given : Nat}

theorem Accounts.addTarget (ha : Accounts given j) (hr : JoinerRep j p) (t : TgtRec) :
    Accounts given (ntpJoinerAddTarget j t) := by
  have hp := hr.targets.push_pending t
  rw [← hr.maxPerKey] at hp
  have h1 := ha.targets
  refine ⟨?_, ha.hosts⟩
  simp only [ntpJoinerAddTarget, ntpJoinerPending] at h1 ⊢
  omega

theorem Accounts.matchHost (ha : Accounts given j) (hr : JoinerRep j p) (h : HostRec) :
    Accounts (given + 1) (ntpJoinerMatch j h).1 := by
  have hp := hr.targets.take_pending h.id
  have h1 := ha.targets
  have h2 := ha.hosts
  unfold ntpJoinerMatch
  simp only [ntpJoinerPending, ntpJoinerWaitingHosts] at h1 h2
  cases htake : tableTake j.targets h.id with
  | mk targets out =>
    rw [htake] at hp
    cases out with
    | none =>
      simp only [Option.toList_none, List.length_nil] at hp
      constructor
      · show _ = _ + targets.pending
        simp only
        omega
      · show _ = _ + j.hosts.pending
        simp only
        omega
    | some t =>
      simp only [Option.toList_some, List.length_singleton] at hp
      constructor
      · show _ = _ + targets.pending
        simp only
        omega
      · show _ = _ + j.hosts.pending
        simp only
        omega

/-- A push drops one record at most. -/
theorem tablePush_dropped {α : Type} [Waiting α] (t : Table α) (r : α) (maxPerKey : Nat) :
    (tablePush t r maxPerKey).2 ≤ 1 := by
  simp only [tablePush]
  cases t.lookup (keyOf (idOf r)) with
  | none => exact Nat.zero_le 1
  | some b =>
    simp only
    split_ifs
    · exact Nat.le_refl 1
    · exact Nat.zero_le 1
    · exact Nat.zero_le 1

theorem Accounts.hostArrives (ha : Accounts given j) (hr : JoinerRep j p) (h : HostRec) :
    Accounts (given + 1) (ntpJoinerHostArrives j h).1 := by
  have hp := hr.targets.take_pending h.id
  have hq := hr.hosts.push_pending h
  have hd := tablePush_dropped j.hosts h j.maxPerKey
  rw [← hr.maxPerKey] at hq
  have h1 := ha.targets
  have h2 := ha.hosts
  unfold ntpJoinerHostArrives
  simp only [ntpJoinerPending, ntpJoinerWaitingHosts] at h1 h2
  cases htake : tableTake j.targets h.id with
  | mk targets out =>
    rw [htake] at hp
    cases out with
    | none =>
      simp only [Option.toList_none, List.length_nil] at hp
      constructor
      · show _ = _ + targets.pending
        simp only
        omega
      · show _ = _ + (tablePush j.hosts h j.maxPerKey).1.pending
        simp only
        split_ifs <;> omega
    | some t =>
      simp only [Option.toList_some, List.length_singleton] at hp
      constructor
      · show _ = _ + targets.pending
        simp only
        omega
      · show _ = _ + j.hosts.pending
        simp only
        omega

theorem Accounts.targetArrives (ha : Accounts given j) (hr : JoinerRep j p) (t : TgtRec) :
    Accounts given (ntpJoinerTargetArrives j t).1 := by
  obtain ⟨htab, hout⟩ := hr.hosts.take t.id
  have hp := hr.hosts.take_pending t.id
  have h1 := ha.targets
  have h2 := ha.hosts
  unfold ntpJoinerTargetArrives
  simp only [ntpJoinerPending, ntpJoinerWaitingHosts] at h1 h2
  cases htake : tableTake j.hosts t.id with
  | mk hosts out =>
    rw [htake] at hp htab
    cases out with
    | none =>
      simp only [Option.toList_none, List.length_nil] at hp
      have hr' : JoinerRep { j with hosts := hosts } { p with hosts := (plainTake p.hosts t.id).1 } :=
        ⟨hr.maxPerKey, hr.targets, htab⟩
      have ha' : Accounts given { j with hosts := hosts } := by
        refine ⟨h1, ?_⟩
        show _ = _ + hosts.pending
        simp only
        omega
      exact ha'.addTarget hr' t
    | some h =>
      simp only [Option.toList_some, List.length_singleton] at hp
      constructor
      · show _ = _ + j.targets.pending
        simp only
        omega
      · show _ = _ + hosts.pending
        simp only
        omega

theorem Accounts.releaseHosts (ha : Accounts given j) (hr : JoinerRep j p) (b : U64) :
    Accounts given (ntpJoinerReleaseHosts j b).1 := by
  have hp := hr.hosts.expire_pending b
  have h2 := ha.hosts
  refine ⟨ha.targets, ?_⟩
  show given = j.st.matched + (j.st.hostUnmatched + (tableExpire j.hosts b).2.2) +
    (tableExpire j.hosts b).1.pending
  unfold ntpJoinerWaitingHosts at h2
  omega

theorem Accounts.expire (ha : Accounts given j) (hr : JoinerRep j p) (b : U64) :
    Accounts given (ntpJoinerExpire j b).1 := by
  have hp := hr.targets.expire_pending b
  have h1 := ha.targets
  refine ⟨?_, ha.hosts⟩
  show j.st.targetsAdded = j.st.matched + j.st.targetsEvicted +
    (j.st.targetsExpired + (tableExpire j.targets b).2.2) + (tableExpire j.targets b).1.pending
  unfold ntpJoinerPending at h1
  omega

/-- Every call keeps the accounts. -/
theorem Accounts.step (ha : Accounts given j) (hr : JoinerRep j p) (op : JoinOp) :
    Accounts (given + hostsGiven [op]) (joinStep j op).1 := by
  cases op with
  | addTarget t => exact ha.addTarget hr t
  | matchHost h => exact ha.matchHost hr h
  | hostArrives h => exact ha.hostArrives hr h
  | targetArrives t => exact ha.targetArrives hr t
  | releaseHosts b => exact ha.releaseHosts hr b
  | expire b => exact ha.expire hr b

theorem hostsGiven_cons (op : JoinOp) (ops : List JoinOp) :
    hostsGiven (op :: ops) = hostsGiven [op] + hostsGiven ops := by
  cases op <;> simp only [hostsGiven] <;> omega

theorem Accounts.run (ha : Accounts given j) (hr : JoinerRep j p) (ops : List JoinOp) :
    Accounts (given + hostsGiven ops) (joinRun j ops).1 := by
  induction ops generalizing j p given with
  | nil => exact ha
  | cons op ops ih =>
    have := ih (ha.step hr op) (hr.step op).1
    rwa [Nat.add_assoc, ← hostsGiven_cons] at this

/-- No decrement of a call is larger than what it is taken from. -/
theorem JoinerRep.subs_le (hr : JoinerRep j p) (op : JoinOp) : ∀ s ∈ joinSubs j op, s.2 ≤ s.1 := by
  have hpt : ∀ t : TgtRec, ∀ s ∈ pushSubs j.targets t j.maxPerKey, s.2 ≤ s.1 := by
    rw [hr.maxPerKey]
    exact hr.targets.pushSubs_le
  have hph : ∀ h : HostRec, ∀ s ∈ pushSubs j.hosts h j.maxPerKey, s.2 ≤ s.1 := by
    rw [hr.maxPerKey]
    exact hr.hosts.pushSubs_le
  cases op with
  | addTarget t => exact hpt t
  | matchHost h => exact hr.targets.takeSubs_le h.id
  | hostArrives h =>
    simp only [joinSubs]
    split_ifs
    · exact hr.targets.takeSubs_le h.id
    · exact hph h
  | targetArrives t =>
    simp only [joinSubs]
    split_ifs
    · exact hr.hosts.takeSubs_le t.id
    · exact hpt t
  | releaseHosts b => exact hr.hosts.expireSubs_le b
  | expire b => exact hr.targets.expireSubs_le b

end Joiner

/-- After any sequence of calls on a fresh joiner, both accounts balance, and the next call, whichever
it is, takes nothing off a pending count that is not there. -/
theorem join_accounts_balance (maxPerKey : Nat) (ops : List JoinOp) :
    let j := (joinRun (ntpJoinerNew maxPerKey) ops).1
    j.st.targetsAdded =
        j.st.matched + j.st.targetsEvicted + j.st.targetsExpired + ntpJoinerPending j ∧
      hostsGiven ops = j.st.matched + j.st.hostUnmatched + ntpJoinerWaitingHosts j ∧
      ∀ op, ∀ s ∈ joinSubs j op, s.2 ≤ s.1 := by
  intro j
  have ha : Accounts 0 (ntpJoinerNew maxPerKey) := ⟨rfl, rfl⟩
  have hrun := ha.run (joinerRep_new maxPerKey) ops
  rw [Nat.zero_add] at hrun
  exact ⟨hrun.targets, hrun.hosts, fun op => ((joinerRep_new maxPerKey).run ops).1.subs_le op⟩

/-! ## No join is missed -/

/-- The calls of an online session: every record is looked for on the other side before it is kept. -/
def JoinOp.online : JoinOp → Bool
  | .addTarget _ | .matchHost _ => false
  | _ => true

/-- No host record waits together with the target record of its command. -/
def NoMissedJoin (p : PlainJoiner) : Prop := ∀ h ∈ p.hosts, ∀ t ∈ p.targets, h.id ≠ t.id

theorem NoMissedJoin.subset {p q : PlainJoiner} (hp : NoMissedJoin p) (hh : ∀ h ∈ q.hosts, h ∈ p.hosts)
    (ht : ∀ t ∈ q.targets, t ∈ p.targets) : NoMissedJoin q :=
  fun h hm t tm => hp h (hh h hm) t (ht t tm)

theorem mem_plainPush {α : Type} [Waiting α] {l : List α} {r x : α} {maxPerKey : Nat}
    (hx : x ∈ (plainPush l r maxPerKey).1) : x ∈ l ∨ x = r := by
  unfold plainPush at hx
  split_ifs at hx
  · rw [List.mem_append, List.mem_singleton] at hx
    exact hx.imp_left List.mem_of_mem_eraseP
  · simpa using hx

/-- A record is kept only when its counterpart was looked for and is not there; nothing else adds a
record. -/
theorem NoMissedJoin.next {p : PlainJoiner} (hp : NoMissedJoin p) {op : JoinOp}
    (hop : op.online = true) : NoMissedJoin (p.next op) := by
  cases op with
  | addTarget t => cases hop
  | matchHost h => cases hop
  | hostArrives h =>
    cases hf : plainFind p.targets h.id with
    | some t =>
      have hnext : p.next (.hostArrives h) = p.takeTarget h := by simp [PlainJoiner.next, hf]
      rw [hnext]
      exact hp.subset (fun _ hm => hm) fun _ tm => List.mem_of_mem_eraseP tm
    | none =>
      have hnext : p.next (.hostArrives h) = p.addHost h := by simp [PlainJoiner.next, hf]
      rw [hnext]
      intro x xm t tm
      rcases mem_plainPush xm with xm | rfl
      · exact hp x xm t tm
      · have := List.find?_eq_none.1 hf t tm
        exact fun e => this (decide_eq_true e.symm)
  | targetArrives t =>
    cases hf : plainFind p.hosts t.id with
    | some h =>
      have hnext : p.next (.targetArrives t) = p.takeHost t := by simp [PlainJoiner.next, hf]
      rw [hnext]
      exact hp.subset (fun _ hm => List.mem_of_mem_eraseP hm) fun _ tm => tm
    | none =>
      have hnext : p.next (.targetArrives t) = p.addTarget t := by simp [PlainJoiner.next, hf]
      rw [hnext]
      intro h hm x xm
      rcases mem_plainPush xm with xm | rfl
      · exact hp h hm x xm
      · have := List.find?_eq_none.1 hf h hm
        exact fun e => this (decide_eq_true e)
  | releaseHosts b => exact hp.subset (fun _ hm => List.mem_of_mem_filter hm) fun _ tm => tm
  | expire b => exact hp.subset (fun _ hm => hm) fun _ tm => List.mem_of_mem_filter tm

theorem NoMissedJoin.run {p : PlainJoiner} (hp : NoMissedJoin p) {ops : List JoinOp}
    (hops : ∀ op ∈ ops, op.online = true) : NoMissedJoin (plainRun p ops).1 := by
  induction ops generalizing p with
  | nil => exact hp
  | cons op ops ih =>
    exact ih (hp.next (hops op List.mem_cons_self)) fun x hx => hops x (List.mem_cons_of_mem _ hx)

/-- In every state an online session reaches, evictions and expiry included, no host record and target
record of the same command both wait. -/
theorem no_join_missed_online (maxPerKey : Nat) (ops : List JoinOp)
    (hops : ∀ op ∈ ops, op.online = true) :
    let j := (joinRun (ntpJoinerNew maxPerKey) ops).1
    ∀ h ∈ j.hosts.records, ∀ t ∈ j.targets.records,
      ¬ (h.id.cntlid = t.id.cntlid ∧ h.id.qid = t.id.qid ∧ h.id.cid = t.id.cid ∧
        h.id.opcode = t.id.opcode ∧ h.id.nsid = t.id.nsid ∧ h.id.slba = t.id.slba ∧
        h.id.nlb = t.id.nlb) := by
  intro j h hm t tm
  have hnew : NoMissedJoin (.new maxPerKey) := fun _ hm => absurd hm List.not_mem_nil
  have hrep := ((joinerRep_new maxPerKey).run ops).1
  have hne := hnew.run hops h (hrep.hosts.records.mem_iff.1 hm) t (hrep.targets.records.mem_iff.1 tm)
  rintro ⟨h1, h2, h3, h4, h5, h6, h7⟩
  refine hne ?_
  rcases hh : h.id with ⟨_, _, _, _, _, _, _⟩
  rcases ht : t.id with ⟨_, _, _, _, _, _, _⟩
  simp_all

/-- Two reads of one command id: the host's record of the one and the target's of the other. -/
def twoHalves : List JoinOp :=
  [.hostArrives { id := { cid := 7, opcode := 2, slba := 8 } },
    .targetArrives { id := { cid := 7, opcode := 2, slba := 16 } }, .expire 1, .releaseHosts 0]

theorem no_join_missed_online_halves :
    (∀ op ∈ twoHalves, op.online = true) ∧
    ∀ h ∈ (joinRun (ntpJoinerNew 64) twoHalves).1.hosts.records,
      ∀ t ∈ (joinRun (ntpJoinerNew 64) twoHalves).1.targets.records,
      ¬ (h.id.cntlid = t.id.cntlid ∧ h.id.qid = t.id.qid ∧ h.id.cid = t.id.cid ∧
        h.id.opcode = t.id.opcode ∧ h.id.nsid = t.id.nsid ∧ h.id.slba = t.id.slba ∧
        h.id.nlb = t.id.nlb) := by
  have honline : ∀ op ∈ twoHalves, op.online = true := by decide
  exact ⟨honline, no_join_missed_online 64 twoHalves honline⟩

end Ntprof
