import Ntprof.Bpf.Proofs.TargetProofs
import Ntprof.Bpf.Proofs.HostProofs
import Mathlib.Data.BitVec

/-!
# The accounts of the records

`ntp_inflight` is the number of occupied slots, and every sampled command was emitted, dropped, replaced
or is still in a slot. So a hook that returns because `ntp_inflight` is 0 would have found no record.
-/

namespace Ntprof.Bpf

open SlotTable

/-- The number of occupied slots. -/
def TgtState.occupied (s : TgtState) : ℕ := SlotTable.occupied s.owner

/-- The number of occupied slots. -/
def HostState.occupied (s : HostState) : ℕ := SlotTable.occupied s.owner

/-- The counters of a target object agree with its table. -/
def TgtState.Accounted (s : TgtState) : Prop := SlotTable.Balanced s.owner s.ledger

/-- The counters of a host object agree with its table. -/
def HostState.Accounted (s : HostState) : Prop := SlotTable.Balanced s.owner s.ledger

theorem card_slot_cast {n : ℕ} (hn : n ≤ Fintype.card Slot) (h : (n : U64) = 0) : n = 0 := by
  have hlt : n < 2 ^ 64 := by
    rw [Fintype.card_fin] at hn
    exact lt_of_le_of_lt hn (by decide)
  have h' : n % 2 ^ 64 = 0 := by simpa using congrArg BitVec.toNat h
  rwa [Nat.mod_eq_of_lt hlt] at h'

/-! ## Target -/

section Target

variable {tr : Transport} {f : Filter} {s s' : TgtState} {key : U64} {env : HookEnv}

theorem TgtState.Accounted.quiet (h : s.Accounted) (hq : Quiet s s') : s'.Accounted := by
  unfold TgtState.Accounted
  rw [hq.owner, hq.ledger]
  exact h

theorem TgtState.Accounted.touched (h : s.Accounted) (ht : Touched key s s') : s'.Accounted := by
  unfold TgtState.Accounted
  rw [ht.owner, ht.ledger]
  exact h

theorem Finished.owner_eq {full : Bool} {r : TgtRec} (hf : Finished key full r s s') :
    s'.owner = Function.update s.owner (ntpSlot key) 0 := by
  funext i
  by_cases hi : i = ntpSlot key
  · rw [hi, hf.freed, Function.update_self]
  · rw [Function.update_of_ne hi, TgtState.owner, hf.other i hi]
    rfl

theorem TgtState.Accounted.finished {full : Bool} {r : TgtRec} (h : s.Accounted) (hk : key ≠ 0)
    (hf : Finished key full r s s') : s'.Accounted := by
  unfold TgtState.Accounted
  rw [hf.owner_eq, hf.ledger]
  exact SlotTable.Balanced.finish h (by rwa [hf.isOpen]) full

theorem TgtState.Accounted.effect (h : s.Accounted) (hk : key ≠ 0) (he : HookEffect key s s') :
    s'.Accounted := by
  cases he with
  | touched ht => exact h.touched ht
  | finished full r hf => exact h.finished hk hf

theorem TgtState.Accounted.stored {r : TgtRec} (h : s.Accounted) (hk : key ≠ 0)
    (hs : Stored key r s s') : s'.Accounted := by
  have howner : s'.owner = Function.update s.owner (ntpSlot key) key := by
    funext i
    by_cases hi : i = ntpSlot key
    · rw [hi, TgtState.owner, hs.treqs, Function.update_self, Function.update_self]
    · rw [TgtState.owner, hs.treqs, Function.update_of_ne hi, Function.update_of_ne hi]
      rfl
  unfold TgtState.Accounted
  rw [howner, hs.ledger]
  exact SlotTable.Balanced.start h _ hk

theorem TgtState.Accounted.flush (h : s.Accounted) (hk : key ≠ 0) (hf : FlushEffect env key s s') :
    s'.Accounted := by
  cases hf with
  | none hq _ => exact h.quiet hq
  | flushed r hr hf => exact h.finished hk hf

theorem TgtState.Accounted.init {a : ReqInitArgs} (h : s.Accounted) (hi : InitEffect env a s s') :
    s'.Accounted := by
  cases hi with
  | unsampled s₁ hf hq => exact (h.flush a.req.2 hf).quiet hq
  | sampled s₁ hf c hc r hid hs => exact (h.flush a.req.2 hf).stored a.req.2 hs

/-- One event keeps the accounts, unless its hook works on an `nvmet_req` of 0. -/
theorem TgtState.Accounted.step (h : s.Accounted) (e : TgtEvent) (hk : e.key s ≠ some 0) :
    (tgtStep tr f s e).Accounted := by
  by_cases he : ∀ seen env a, e ≠ .reqInit seen env a
  · have heff := effect_tgtStep tr f s e he
    cases hkey : e.key s with
    | none =>
      rw [hkey] at heff
      exact h.quiet heff
    | some key =>
      rw [hkey] at heff hk
      exact h.effect (fun h0 => hk (by rw [h0])) heff
  · simp only [ne_eq, not_forall, not_not] at he
    obtain ⟨seen, env, a, rfl⟩ := he
    cases hrec : seen && reqInitRecognised tr s env a with
    | false =>
      rw [tgtStep_reqInit_missed hrec]
      exact h
    | true =>
      obtain ⟨rfl, hours⟩ := Bool.and_eq_true_iff.mp hrec
      exact h.init (effect_reqInit hours)

/-- The hooks of a run work on non-zero addresses. Only the kretprobe could do otherwise: on a thread
with id 0 it also finds a context that was never filled. -/
def OnNonZero (tr : Transport) (f : Filter) : TgtState → List TgtEvent → Prop
  | _, [] => True
  | s, e :: es => e.key s ≠ some 0 ∧ OnNonZero tr f (tgtStep tr f s e) es

theorem TgtState.Accounted.run {es : List TgtEvent} (h : s.Accounted) (hes : OnNonZero tr f s es) :
    (tgtRun tr f s es).Accounted := by
  induction es generalizing s with
  | nil => exact h
  | cons e es ih => exact ih (h.step e hes.1) hes.2

theorem TgtState.accounted_init : ({} : TgtState).Accounted := by
  have h0 : SlotTable.occupied ({} : TgtState).owner = 0 := occupied_all_free fun _ => rfl
  constructor
  · rw [h0]
    rfl
  · rw [h0]
    rfl

theorem TgtState.Accounted.free (h : s.Accounted) (h0 : s.inflight = 0) (i : Slot) : s.owner i = 0 :=
  SlotTable.Balanced.free_of_inflight h (fun _ hn => card_slot_cast hn) h0 i

theorem TgtState.Accounted.tgtRec_none (h : s.Accounted) (h0 : s.inflight = 0) (hk : key ≠ 0) :
    s.tgtRec key = none := by
  cases hr : s.tgtRec key with
  | none => rfl
  | some r =>
    have hown := (TgtState.tgtRec_eq_some.mp hr).1
    exact absurd (hown.symm.trans (h.free h0 (ntpSlot key))) hk

/-- The hook of the event finds no record, whatever it reads as `ntp_inflight`: it takes no slot and emits nothing. -/
def TgtState.FindsNothing (tr : Transport) (f : Filter) (s : TgtState) (e : TgtEvent) : Prop :=
  ∀ n, (∀ i, (tgtStep tr f { s with inflight := n } e).owner i = 0) ∧
    (tgtStep tr f { s with inflight := n } e).events = s.events

theorem TgtState.findsNothing (hfree : ∀ i, s.owner i = 0) {e : TgtEvent} (he : ∀ seen env a, e ≠ .reqInit seen env a)
    (hk : e.key s ≠ some 0) : s.FindsNothing tr f e := by
  intro n
  have hkeys : e.key { s with inflight := n } = e.key s := by
    cases e with
    | rdma env e => cases e <;> rfl
    | _ => rfl
  have heff := effect_tgtStep tr f { s with inflight := n } e he
  rw [hkeys] at heff
  cases hkey : e.key s with
  | none =>
    rw [hkey] at heff
    exact ⟨fun i => (congrFun heff.owner i).trans (hfree i), heff.events⟩
  | some key =>
    rw [hkey] at heff hk
    cases heff with
    | touched ht => exact ⟨fun i => (congrFun ht.owner i).trans (hfree i), ht.events⟩
    | finished full r hf =>
      -- the record that ended would have been in a slot
      have hzero : key = 0 := hf.isOpen.symm.trans (hfree (ntpSlot key))
      exact absurd (congrArg some hzero) hk

end Target

/-! ## Host -/

section Host

variable {tr : Transport} {k : Layout} {f : Filter} {s s' : HostState} {rq : U64} {env : HookEnv}

theorem HostState.Accounted.touched (h : s.Accounted) (ht : HostTouched s s') : s'.Accounted := by
  unfold HostState.Accounted
  rw [ht.owner, ht.ledger]
  exact h

theorem HostState.Accounted.finished {full : Bool} {r : HostRec} (h : s.Accounted) (hk : rq ≠ 0)
    (hf : HostFinished rq full r s s') : s'.Accounted := by
  have howner : s'.owner = Function.update s.owner (ntpSlot rq) 0 := by
    funext i
    by_cases hi : i = ntpSlot rq
    · rw [hi, hf.freed, Function.update_self]
    · rw [Function.update_of_ne hi, HostState.owner, hf.other i hi]
      rfl
  unfold HostState.Accounted
  rw [howner, hf.ledger]
  exact SlotTable.Balanced.finish h (by rwa [hf.isOpen]) full

theorem HostState.Accounted.stored {r : HostRec} (h : s.Accounted) (hk : rq ≠ 0)
    (hs : HostStored rq r s s') : s'.Accounted := by
  have howner : s'.owner = Function.update s.owner (ntpSlot rq) rq := by
    funext i
    by_cases hi : i = ntpSlot rq
    · rw [hi, HostState.owner, hs.own, Function.update_self]
    · rw [Function.update_of_ne hi, HostState.owner, hs.other i hi]
      rfl
  unfold HostState.Accounted
  rw [howner, hs.ledger]
  exact SlotTable.Balanced.start h _ hk

theorem HostState.Accounted.step (h : s.Accounted) (e : HostEvent) :
    (hostStep tr k f s e).Accounted := by
  cases e with
  | arm on => exact h.touched (.of_eq rfl rfl rfl)
  | setupCmd env a =>
    cases hst : setupStores tr f s env a with
    | false => exact h.touched (effect_ntpHSetupCmd_unsampled hst)
    | true =>
      obtain ⟨s₁, c, p, ht, -, hs⟩ := effect_ntpHSetupCmd_sampled hst
      exact (h.touched ht).stored a.rq.2 hs
  | nvmeDone env rq => exact h.touched (hostTouched_ntpHNvmeDone rq)
  | blkDone env rq =>
    rcases effect_ntpHBlkDone tr s env rq with heq | hf
    · rw [hostStep, heq]
      exact h
    · exact h.finished rq.2 hf
  | tcp env e =>
    simp only [hostStep]
    split
    · exact h.touched (hostTouched_tcp e)
    · exact h
  | rdma env e =>
    simp only [hostStep]
    split
    · exact h.touched (hostTouched_rdma e)
    · exact h

theorem HostState.Accounted.run (es : List HostEvent) (h : s.Accounted) :
    (hostRun tr k f s es).Accounted := by
  induction es generalizing s with
  | nil => exact h
  | cons e es ih => exact ih (h.step e)

theorem HostState.accounted_init : ({} : HostState).Accounted := by
  have h0 : SlotTable.occupied ({} : HostState).owner = 0 := occupied_all_free fun _ => rfl
  constructor
  · rw [h0]
    rfl
  · rw [h0]
    rfl

theorem HostState.Accounted.free (h : s.Accounted) (h0 : s.inflight = 0) (i : Slot) : s.owner i = 0 :=
  SlotTable.Balanced.free_of_inflight h (fun _ hn => card_slot_cast hn) h0 i

theorem HostState.Accounted.hostRec_none (h : s.Accounted) (h0 : s.inflight = 0) (hk : rq ≠ 0) :
    s.hostRec rq = none := by
  cases hr : s.hostRec rq with
  | none => rfl
  | some r =>
    have hown := (HostState.hostRec_eq_some.mp hr).1
    exact absurd (hown.symm.trans (h.free h0 (ntpSlot rq))) hk

/-- The hook of the event finds no record, whatever it reads as `ntp_inflight`: it takes no slot and emits nothing. A
look-up through an entry of `cid_idx` that was cleared leads to a free slot. -/
def HostState.FindsNothing (tr : Transport) (k : Layout) (f : Filter) (s : HostState) (e : HostEvent) : Prop :=
  ∀ n, (∀ i, (hostStep tr k f { s with inflight := n } e).owner i = 0) ∧
    (hostStep tr k f { s with inflight := n } e).events = s.events

theorem HostState.findsNothing (hfree : ∀ i, s.owner i = 0) {e : HostEvent} (he : ∀ env a, e ≠ .setupCmd env a) :
    s.FindsNothing tr k f e := by
  intro n
  have htouched : ∀ {s'}, HostTouched { s with inflight := n } s' → (∀ i, s'.owner i = 0) ∧ s'.events = s.events :=
    fun ht => ⟨fun i => (congrFun ht.owner i).trans (hfree i), ht.events⟩
  cases e with
  | arm on => exact htouched (.of_eq rfl rfl rfl)
  | setupCmd env a => exact absurd rfl (he env a)
  | nvmeDone env rq => exact htouched (hostTouched_ntpHNvmeDone rq)
  | blkDone env rq =>
    rcases effect_ntpHBlkDone tr { s with inflight := n } env rq with heq | hf
    · rw [hostStep, heq]
      exact ⟨hfree, rfl⟩
    · have hzero : rq.1 = 0 := hf.isOpen.symm.trans (hfree (ntpSlot rq))
      exact absurd hzero rq.2
  | tcp env e =>
    simp only [hostStep]
    split
    · exact htouched (hostTouched_tcp e)
    · exact ⟨hfree, rfl⟩
  | rdma env e =>
    simp only [hostStep]
    split
    · exact htouched (hostTouched_rdma e)
    · exact ⟨hfree, rfl⟩

end Host

/-! ## Both objects -/

/-- In every state that a host object reaches by any run of its hooks, and in every state that a target
object reaches by a run on non-zero addresses, `ntp_inflight` is the number of occupied slots, the
sampled commands are those emitted, dropped, replaced and in a slot, and with `ntp_inflight` at 0 there
is no record for a hook to find: each hook that returns early then would have found none. -/
theorem records_accounted (tr tr' : Transport) (k : Layout) (f f' : Filter) (hes : List HostEvent)
    (tes : List TgtEvent) (hnz : OnNonZero tr' f' {} tes) :
    let h := hostRun tr k f {} hes
    let t := tgtRun tr' f' {} tes
    (h.inflight = BitVec.ofNat 64 h.occupied ∧
      h.counters .hostSampled = h.counters .hostEmitted + h.counters .rbDrops + h.counters .stale +
        BitVec.ofNat 64 h.occupied ∧
      (h.inflight = 0 → (∀ i, (h.reqs i).rq = 0) ∧ (∀ rq, rq ≠ 0 → h.hostRec rq = none) ∧
        ∀ e, (∀ env a, e ≠ .setupCmd env a) → h.FindsNothing tr k f e)) ∧
    (t.inflight = BitVec.ofNat 64 t.occupied ∧
      t.counters .tgtSampled = t.counters .tgtEmitted + t.counters .rbDrops + t.counters .stale +
        BitVec.ofNat 64 t.occupied ∧
      (t.inflight = 0 → (∀ i, (t.treqs i).req = 0) ∧ (∀ req, req ≠ 0 → t.tgtRec req = none) ∧
        ∀ e, (∀ seen env a, e ≠ .reqInit seen env a) → e.key t ≠ some 0 → t.FindsNothing tr' f' e)) := by
  intro h t
  have hh : h.Accounted := HostState.accounted_init.run hes
  have ht : t.Accounted := TgtState.accounted_init.run hnz
  refine ⟨⟨hh.inflight, hh.sampled, fun h0 => ⟨hh.free h0, fun _ => hh.hostRec_none h0, fun e he => ?_⟩⟩,
    ht.inflight, ht.sampled, fun h0 => ⟨ht.free h0, fun _ => ht.tgtRec_none h0, fun e he hk => ?_⟩⟩
  · exact HostState.findsNothing (hh.free h0) he
  · exact TgtState.findsNothing (ht.free h0) he hk

/-! ### Two commands on one `nvmet_req` -/

/-- A hook that runs on CPU 0, on thread 7, at time `now`. -/
def hookAt (now : U64) : HookEnv := { cpu := 0, tid := 7, now := now }

/-- A read of block 8. -/
def readCmd (cid : U16) : NvmeCmd :=
  { opcode := ntpNvmeCmdRead, commandId := cid, nsid := 1, slba := 8, length := 0 }

/-- A call of `nvmet_req_init` for a read on the first I/O queue. -/
def initRead (req : KAddr) (cid : U16) : ReqInitArgs :=
  { req := req, sq := 0x200, qid := 1, cntlid := 1, cmd := some (readCmd cid) }

/-- The `nvmet_req` of the examples. -/
def someReq : KAddr := ⟨0x40#64, by decide⟩

/-- The first command is emitted; the second one is in its slot. -/
def twoCommands : List TgtEvent :=
  [.arm true, .rdma (hookAt 1) (.recvDone 0x100), .reqInit true (hookAt 2) (initRead someReq 3),
    .rdma (hookAt 3) (.queueRespKp someReq), .rdma (hookAt 4) (.queueRespKr someReq),
    .rdma (hookAt 5) (.sendDone someReq), .reqInit true (hookAt 6) (initRead someReq 4)]

theorem onNonZero_twoCommands : OnNonZero .rdma {} {} twoCommands := by
  refine ⟨?_, ?_, ?_, ?_, ?_, ?_, ?_, trivial⟩ <;> decide +kernel

theorem records_accounted_two_commands :
    OnNonZero .rdma {} {} twoCommands ∧
      (tgtRun .rdma {} {} twoCommands).inflight = 1 ∧
      (tgtRun .rdma {} {} twoCommands).counters .tgtSampled = 2 ∧
      (tgtRun .rdma {} {} twoCommands).inflight =
        BitVec.ofNat 64 (tgtRun .rdma {} {} twoCommands).occupied := by
  refine ⟨onNonZero_twoCommands, by decide +kernel, by decide +kernel, ?_⟩
  exact (records_accounted .rdma .rdma ⟨0, 0⟩ {} {} [] twoCommands onNonZero_twoCommands).2.1

end Ntprof.Bpf
