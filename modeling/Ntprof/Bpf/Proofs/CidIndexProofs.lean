import Ntprof.Bpf.Proofs.WritesProofs
import Ntprof.Bpf.Proofs.AttemptsProofs
import Ntprof.Lib.PrefixRun

/-!
# The cid index

`cid_idx` leads from a queue and a cid to a request, and the request's key to its entry in `reqs`. Both
tables are direct-mapped and overwritten independently. An index entry leads to the record of its own
command as long as its request is not set up again for another cid behind its back.
-/

namespace Ntprof.Bpf

/-- The entry that `host_rec_by_cid` and `on_copy` find. -/
def HostState.entryByCid (s : HostState) (queue : U64) (cid : U16) : Option HostEntry :=
  (s.rqByCid queue cid).bind s.hostEntry

/-! ## No transport hook touches the index -/

/-- Each record is still that of its command. -/
def SameId (r r' : HostRec) : Prop := r'.id = r.id

instance : IsPreorder HostRec SameId where
  refl _ := rfl
  trans _ _ _ h h' := h'.trans h

/-- Nothing is said about the contexts. -/
def AnyCtx (_ _ : Nat → HostRx) : Prop := True

instance : IsPreorder (Nat → HostRx) AnyCtx where
  refl _ := trivial
  trans _ _ _ _ _ := trivial

section Hooks

variable {k : Layout} {f : Filter} {s : HostState} {env : HookEnv}

theorem sameId_receiveWrites (c : HostRx) (now : U64) : ReceiveWrites SameId c now where
  done r := hostDataDone_id r c now
  lastArr _ := rfl
  first r := firstData_id r c now
  r2t _ := rfl
  rsp r rq := completeRec_id r c rq now
  flags _ _ := rfl

theorem sameId_tcp (e : HostTcpEvent) : HostWrites SameId AnyCtx s (e.run k f s env) := by
  by_cases he : e.sends = true
  · exact writes_sends (fun _ _ => rfl) (fun _ _ => rfl) (fun _ _ => rfl) he
  · exact writes_receives (fun c _ => sameId_receiveWrites c env.now) (fun _ _ _ _ => trivial)
      (fun _ _ _ => trivial) (fun _ => trivial) (Bool.eq_false_iff.mpr he)

theorem sameId_onPosted (s : HostState) (qe : U64) (ret : BitVec 32) :
    HostWrites SameId AnyCtx s (onPosted k f s env qe ret) := by
  unfold onPosted
  split
  · exact .refl s
  · exact (writes_uncount ..).trans (writes_stampRec (fun _ _ => rfl) _)

theorem sameId_rdma (e : HostRdmaEvent) : HostWrites SameId AnyCtx s (e.run k f s env) := by
  cases e with
  | queueRq rq driverData => exact writes_hostQueueRq rq driverData
  | postFx qe ret => exact sameId_onPosted ..
  | postKp qe => exact .of_eq rfl rfl rfl rfl
  | postKr ret =>
    show HostWrites SameId AnyCtx s (ntpHrPostKr k f s env ret)
    unfold ntpHrPostKr
    split
    · exact .refl s
    · have hc : HostWrites SameId AnyCtx s { s with postCtx := ctxClear s.postCtx env } := .of_eq rfl rfl rfl rfl
      exact hc.trans (sameId_onPosted ..)
  | sendDone wrCqe qpContext =>
    show HostWrites SameId AnyCtx s (rdmaOnSendDone k f s env wrCqe qpContext)
    unfold rdmaOnSendDone
    split
    · exact .refl s
    · exact (writes_stampRec (fun _ _ => rfl) _).trans (.of_ctx trivial)
  | recvDone qpContext cid =>
    show HostWrites SameId AnyCtx s (rdmaOnRecvDone f s env qpContext cid)
    unfold rdmaOnRecvDone
    split
    · exact .refl s
    · dsimp only
      split
      · exact .of_ctx trivial
      · exact (writes_stampRec (fun _ _ => rfl) _).trans (.of_ctx trivial)
  | invDone qpContext =>
    show HostWrites SameId AnyCtx s (onInvDone f s env qpContext)
    unfold onInvDone
    split
    · exact .refl s
    · exact .of_ctx trivial
  | rxExit => exact .of_ctx trivial
  | complete rq => exact writes_hostComplete rq (fun c _ => sameId_receiveWrites c env.now) (fun _ _ _ _ => trivial)

end Hooks

/-! ## The invariant -/

/-- Every index entry that leads to an entry of `reqs` leads to that of its own command, and is in its own
slot. -/
structure HostState.Indexed (s : HostState) : Prop where
  leads : ∀ i, (s.cidIdx i).rq ≠ 0 → (s.reqs (ntpSlot (s.cidIdx i).rq)).rq = (s.cidIdx i).rq →
    (s.reqs (ntpSlot (s.cidIdx i).rq)).queue = (s.cidIdx i).queue ∧
      (s.reqs (ntpSlot (s.cidIdx i).rq)).record.id.cid = (s.cidIdx i).cid
  place : ∀ i, (s.cidIdx i).rq ≠ 0 → cidSlotOf (s.cidIdx i).queue (s.cidIdx i).cid = i

theorem HostState.indexed_init : ({} : HostState).Indexed :=
  ⟨fun _ h => absurd rfl h, fun _ h => absurd rfl h⟩

theorem HostState.Indexed.writes {s s' : HostState} (h : s.Indexed) (hw : HostWrites SameId AnyCtx s s') :
    s'.Indexed := by
  refine ⟨fun i hi hown => ?_, fun i hi => ?_⟩
  · rw [hw.cidIdx] at hi hown ⊢
    rw [hw.rq] at hown
    rw [hw.queue, show ((s'.reqs (ntpSlot (s.cidIdx i).rq)).record.id) = _ from hw.record _]
    exact h.leads i hi hown
  · rw [hw.cidIdx] at hi ⊢
    exact h.place i hi

/-- A record starts for a request that no other index entry leads to. -/
theorem HostState.Indexed.store {s : HostState} (h : s.Indexed) {rq queue : U64} {r : HostRec}
    (hnew : ∀ i, i ≠ cidSlotOf queue r.id.cid → (s.cidIdx i).rq ≠ rq) :
    (storeHostRec s rq queue r).Indexed := by
  refine ⟨fun i hi hown => ?_, fun i hi => ?_⟩
  · rw [storeHostRec_cidIdx, storeHostRec_reqs] at *
    by_cases hslot : i = cidSlotOf queue r.id.cid
    · rw [hslot, Function.update_self]
      dsimp only
      rw [Function.update_self]
      exact ⟨rfl, rfl⟩
    · rw [Function.update_of_ne hslot] at hi hown ⊢
      by_cases hreq : ntpSlot (s.cidIdx i).rq = ntpSlot rq
      · -- the slot now belongs to `rq`, which this index entry does not name
        rw [hreq, Function.update_self] at hown
        exact absurd hown.symm (hnew i hslot)
      · rw [Function.update_of_ne hreq] at hown ⊢
        exact h.leads i hi hown
  · rw [storeHostRec_cidIdx] at hi ⊢
    by_cases hslot : i = cidSlotOf queue r.id.cid
    · rw [hslot, Function.update_self]
    · rw [Function.update_of_ne hslot] at hi ⊢
      exact h.place i hi

theorem hostEmit_cidIdx (s : HostState) (env : HookEnv) (r : HostRec) :
    (hostEmit s env r).cidIdx = s.cidIdx := by
  unfold hostEmit
  split <;> rfl

theorem forgetCid_cidIdx (s : HostState) (queue : U64) (cid : U16) (rq : U64) (i : Slot) :
    (forgetCid s queue cid rq).cidIdx i = s.cidIdx i ∨
      ((s.cidIdx i).rq = rq ∧ (forgetCid s queue cid rq).cidIdx i = { s.cidIdx i with rq := 0 }) := by
  unfold forgetCid
  dsimp only
  split
  · rename_i hrq
    by_cases hi : i = cidSlotOf queue cid
    · subst hi
      exact Or.inr ⟨hrq, Function.update_self ..⟩
    · exact Or.inl (Function.update_of_ne hi ..)
  · exact Or.inl rfl

/-- Entries were cleared, in both tables, and none was written. -/
theorem HostState.Indexed.clear {s s' : HostState} (h : s.Indexed)
    (hidx : ∀ i, (s'.cidIdx i).rq ≠ 0 → s'.cidIdx i = s.cidIdx i)
    (hreqs : ∀ j, (s'.reqs j).rq ≠ 0 → s'.reqs j = s.reqs j) : s'.Indexed := by
  refine ⟨fun i hi hown => ?_, fun i hi => ?_⟩
  · have hcid := hidx i hi
    have hent := hreqs _ (hown ▸ hi)
    rw [hcid] at hi hown hent ⊢
    rw [hent] at hown ⊢
    exact h.leads i hi hown
  · have hcid := hidx i hi
    rw [hcid] at hi ⊢
    exact h.place i hi

theorem HostState.Indexed.blkDone {s : HostState} (h : s.Indexed) (tr : Transport) (env : HookEnv) (rq : U64) :
    (ntpHBlkDone tr s env rq).Indexed := by
  by_cases h0 : s.inflight = 0
  · rw [ntpHBlkDone, if_pos h0]
    exact h
  cases he : s.hostEntry rq with
  | none =>
    rw [ntpHBlkDone, if_neg h0, he]
    exact h
  | some e =>
    obtain ⟨-, rfl⟩ := HostState.hostEntry_eq_some.mp he
    rw [ntpHBlkDone, if_neg h0, he]
    apply h.clear
    · intro i hi
      rcases forgetCid_cidIdx (hostEmit s env (doneRec tr env (s.reqs (ntpSlot rq)).record))
        (s.reqs (ntpSlot rq)).queue (doneRec tr env (s.reqs (ntpSlot rq)).record).id.cid
        (s.reqs (ntpSlot rq)).rq i with hsame | ⟨-, hcleared⟩
      · exact hsame.trans (by rw [hostEmit_cidIdx])
      · exact absurd (congrArg CidSlot.rq hcleared) hi
    · intro j hj
      by_cases hslot : j = ntpSlot rq
      · subst hslot
        simp [HostState.inflightAdd, HostState.setEntry] at hj
      · simp [HostState.inflightAdd, HostState.setEntry, hslot, hostEmit_reqs]

/-! ## Runs -/

/-- The queue of a set-up with source `p`. -/
def SetupArgs.queueOf (a : SetupArgs) (p : Pending) : U64 := if p.queue = 0 then a.driverData else p.queue

/-- A set-up that starts a record for a request to which the index entry of another cid still leads. -/
def HostEvent.reindexes (tr : Transport) (f : Filter) (s : HostState) : HostEvent → Bool
  | .setupCmd env a =>
    setupStores tr f s env a &&
      match setupSource tr f s env a, a.cmd with
      | some p, some c => decide (∃ i, i ≠ cidSlotOf (a.queueOf p) c.commandId ∧ (s.cidIdx i).rq = a.rq)
      | _, _ => false
  | _ => false

/-- The state in which `ntp_h_setup_cmd` starts the record has the index as before. -/
theorem writes_beforeStore (tr : Transport) (f : Filter) (s : HostState) (env : HookEnv) (a : SetupArgs)
    (c : NvmeCmd) : HostWrites SameId AnyCtx s
      (countThroughput (takePending tr f s env a) c.opcode a.dataLen) :=
  (writes_takePending tr s a).trans (writes_countThroughput _ c.opcode a.dataLen)

theorem HostState.Indexed.setup {tr : Transport} {f : Filter} {s : HostState} (h : s.Indexed) {env : HookEnv}
    {a : SetupArgs} (hgood : (HostEvent.setupCmd env a).reindexes tr f s = false) :
    (ntpHSetupCmd tr f s env a).Indexed := by
  by_cases hst : setupStores tr f s env a = true
  · obtain ⟨c, p, hc, hp, heq⟩ := ntpHSetupCmd_stores hst
    have hw := writes_beforeStore tr f s env a c
    rw [heq]
    refine (h.writes hw).store ?_
    intro i hi hrq
    rw [hw.cidIdx] at hrq
    simp only [HostEvent.reindexes, hst, hp, hc, Bool.true_and, decide_eq_false_iff_not, not_exists,
      not_and] at hgood
    exact hgood i hi hrq
  · exact h.writes (writes_ntpHSetupCmd (by simpa using hst))

theorem HostState.Indexed.step {tr : Transport} {k : Layout} {f : Filter} {s : HostState} (h : s.Indexed)
    {e : HostEvent} (hgood : e.reindexes tr f s = false) : (hostStep tr k f s e).Indexed := by
  cases e with
  | arm on => exact h.writes (.of_eq rfl rfl rfl rfl)
  | setupCmd env a => exact h.setup hgood
  | nvmeDone env rq => exact h.writes (writes_ntpHNvmeDone (fun _ _ => rfl) rq)
  | blkDone env rq => exact h.blkDone tr env rq
  | tcp env e =>
    show (if tr = .tcp then e.run k f s env else s).Indexed
    split
    · exact h.writes (sameId_tcp e)
    · exact h
  | rdma env e =>
    show (if tr = .rdma then e.run k f s env else s).Indexed
    split
    · exact h.writes (sameId_rdma e)
    · exact h

/-! ## Lookups -/

/-- A lookup that hits an index entry which `ntp_h_blk_done` cleared, while the slot of key 0 is free. -/
def HostState.hitsCleared (s : HostState) (queue : U64) (cid : U16) : Prop :=
  (s.cidIdx (cidSlotOf queue cid)).rq = 0 ∧ (s.reqs (ntpSlot 0)).rq = 0

/-- Whatever a lookup finds is the entry of that cid of that queue. -/
def HostState.FindsOwn (s : HostState) (queue : U64) (cid : U16) : Prop :=
  ∀ e, s.entryByCid queue cid = some e → e.record.id.cid = cid ∧ e.queue = queue

-- the read of cid 6 is over: its cid leads to the free slot of key 0, whose record is of no command
example : ((hostRun .tcp someLayout {} {} [.arm true, .setupCmd (hookAt 1) (setupRead 6),
    .blkDone (hookAt 2) someRq]).entryByCid 0x500 6).map (fun e => (e.rq, e.record.id.cid)) = some (0, 0) := by
  decide +kernel

theorem HostState.entryByCid_eq_some {s : HostState} {queue : U64} {cid : U16} {e : HostEntry} :
    s.entryByCid queue cid = some e ↔
      ((s.cidIdx (cidSlotOf queue cid)).queue = queue ∧ (s.cidIdx (cidSlotOf queue cid)).cid = cid) ∧
      s.hostEntry (s.cidIdx (cidSlotOf queue cid)).rq = some e := by
  unfold entryByCid rqByCid
  dsimp only
  split
  · rename_i hm
    simp [hm]
  · rename_i hm
    simp [hm]

theorem HostState.Indexed.findsOwn {s : HostState} (h : s.Indexed) {queue : U64} {cid : U16}
    (hc : ¬ s.hitsCleared queue cid) : s.FindsOwn queue cid := by
  intro e he
  obtain ⟨⟨hq, hcid⟩, hent⟩ := entryByCid_eq_some.mp he
  obtain ⟨hown, rfl⟩ := hostEntry_eq_some.mp hent
  by_cases h0 : (s.cidIdx (cidSlotOf queue cid)).rq = 0
  · rw [h0] at hown
    exact absurd ⟨h0, hown⟩ hc
  · obtain ⟨h1, h2⟩ := h.leads _ h0 hown
    exact ⟨h2.trans hcid, h1.trans hq⟩

/-- After a set-up behind the back of an index entry, that entry leads to the record of another cid. -/
theorem not_findsOwn_of_reindexes {tr : Transport} (k : Layout) {f : Filter} {s : HostState} (h : s.Indexed)
    {e : HostEvent} (hbad : e.reindexes tr f s = true) :
    ∃ queue cid, ¬ (hostStep tr k f s e).hitsCleared queue cid ∧ ¬ (hostStep tr k f s e).FindsOwn queue cid := by
  cases e with
  | setupCmd env a =>
    obtain ⟨hst, hre⟩ := Bool.and_eq_true_iff.mp hbad
    obtain ⟨c, p, hc, hp, heq⟩ := ntpHSetupCmd_stores hst
    simp only [hp, hc, decide_eq_true_iff] at hre
    obtain ⟨i, hi, hrq⟩ := hre
    have hw := writes_beforeStore tr f s env a c
    have h0 : (s.cidIdx i).rq ≠ 0 := by
      rw [hrq]
      exact a.rq.property
    have hplace := h.place i h0
    -- the entry in slot `i` is as before, and its request's entry is the new one
    have hidx : (hostStep tr k f s (.setupCmd env a)).cidIdx i = s.cidIdx i := by
      show (ntpHSetupCmd tr f s env a).cidIdx i = _
      rw [heq, storeHostRec_cidIdx, hw.cidIdx]
      exact Function.update_of_ne hi ..
    have hent : (hostStep tr k f s (.setupCmd env a)).hostEntry a.rq =
        some ⟨a.rq, a.queueOf p, newHostRec tr f env a c p⟩ := by
      show (ntpHSetupCmd tr f s env a).hostEntry a.rq = _
      rw [HostState.hostEntry_eq_some, heq, storeHostRec_reqs, Function.update_self]
      exact ⟨rfl, rfl⟩
    refine ⟨(s.cidIdx i).queue, (s.cidIdx i).cid, ?_, ?_⟩
    · rintro ⟨hclear, -⟩
      rw [hplace, hidx] at hclear
      exact h0 hclear
    · intro hown
      have hfind : (hostStep tr k f s (.setupCmd env a)).entryByCid (s.cidIdx i).queue (s.cidIdx i).cid =
          some ⟨a.rq, a.queueOf p, newHostRec tr f env a c p⟩ := by
        rw [HostState.entryByCid_eq_some, hplace, hidx, hrq]
        exact ⟨⟨rfl, rfl⟩, hent⟩
      obtain ⟨hcid, hq⟩ := hown _ hfind
      apply hi
      rw [← hplace, ← hcid, ← hq]
      rfl
  | arm | nvmeDone | blkDone | tcp | rdma => cases hbad

/-- In every state of a run each lookup that does not hit a cleared entry finds the record of its own
command, if any, exactly if no request was set up anew while the index entry of another cid led to it. -/
theorem cid_index_own_iff (tr : Transport) (k : Layout) (f : Filter) (es : List HostEvent) :
    (∀ es', es' <+: es → ∀ queue cid, ¬ (hostRun tr k f {} es').hitsCleared queue cid →
      (hostRun tr k f {} es').FindsOwn queue cid) ↔
    PrefixRun.avoids (hostStep tr k f) (fun s e => e.reindexes tr f s) {} es = true := by
  have hown : ∀ s : HostState, s.Indexed → ∀ queue cid, ¬ s.hitsCleared queue cid → s.FindsOwn queue cid :=
    fun s hs queue cid hc => hs.findsOwn hc
  have hbad : ∀ (s : HostState) (e : HostEvent), s.Indexed → e.reindexes tr f s = true →
      ¬ ∀ queue cid, ¬ (hostStep tr k f s e).hitsCleared queue cid →
        (hostStep tr k f s e).FindsOwn queue cid := by
    intro s e hs hre hall
    obtain ⟨queue, cid, hc, hn⟩ := not_findsOwn_of_reindexes k hs hre
    exact hn (hall queue cid hc)
  exact PrefixRun.forall_prefix_iff hown (fun s e hs hgood => hs.step hgood) hbad HostState.indexed_init es

/-- A request is set up for cid 6 and then again for cid 1: the index entry of cid 6 leads to the record
of cid 1. -/
theorem old_cid_finds_retry :
    ¬ (hostRun .tcp someLayout {} {}
      [.arm true, .setupCmd (hookAt 1) (setupRead 6), .setupCmd (hookAt 2) (setupRead 1)]).FindsOwn 0x500 6 := by
  intro h
  have hfind : ((hostRun .tcp someLayout {} {}
      [.arm true, .setupCmd (hookAt 1) (setupRead 6), .setupCmd (hookAt 2) (setupRead 1)]).entryByCid
        0x500 6).map (fun e => e.record.id.cid) = some 1 := by
    decide +kernel
  obtain ⟨e, he, hcid⟩ := Option.map_eq_some_iff.mp hfind
  rw [(h e he).1] at hcid
  exact absurd hcid (by decide)

end Ntprof.Bpf
