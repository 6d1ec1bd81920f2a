import Ntprof.Bpf.TargetRdma
import Ntprof.Lib.SlotTable

/-!
# What a target hook does to the records

Each hook works on one `nvmet_req`. It touches the open record of that `nvmet_req`, or it ends it, and
leaves every other slot alone; `nvmet_req_init` may end the record and start another one. Everything
else about the records is derived from these effects.
-/

namespace Ntprof.Bpf

open SlotTable

namespace TgtState

/-- The `nvmet_req` that owns a slot; 0 if it is free. -/
def owner (s : TgtState) (i : Slot) : U64 := (s.treqs i).req

/-- The counters of the records. -/
def ledger (s : TgtState) : Ledger U64 :=
  ⟨s.inflight, s.counters .tgtSampled, s.counters .tgtEmitted, s.counters .rbDrops, s.counters .stale⟩

end TgtState

/-! ## Effects -/

/-- The records and their counters are as before. -/
structure Quiet (s s' : TgtState) : Prop where
  treqs : s'.treqs = s.treqs
  ledger : s'.ledger = s.ledger
  events : s'.events = s.events

/-- At most the record of `key` changed, and it is still open and still that of the same command. -/
structure Touched (key : U64) (s s' : TgtState) : Prop where
  req : (s'.treqs (ntpSlot key)).req = (s.treqs (ntpSlot key)).req
  id : (s'.treqs (ntpSlot key)).record.id = (s.treqs (ntpSlot key)).record.id
  notOwn : (s.treqs (ntpSlot key)).req ≠ key → s'.treqs (ntpSlot key) = s.treqs (ntpSlot key)
  other : ∀ i, i ≠ ntpSlot key → s'.treqs i = s.treqs i
  ledger : s'.ledger = s.ledger
  events : s'.events = s.events

/-- The record of `key` was open and is over. It came out as `r`, unless the ring buffer was full. -/
structure Finished (key : U64) (full : Bool) (r : TgtRec) (s s' : TgtState) : Prop where
  isOpen : s.owner (ntpSlot key) = key
  id : r.id = (s.treqs (ntpSlot key)).record.id
  freed : s'.owner (ntpSlot key) = 0
  other : ∀ i, i ≠ ntpSlot key → s'.treqs i = s.treqs i
  ledger : s'.ledger = s.ledger.finish full
  events : s'.events = if full then s.events else s.events ++ [r]

/-- A record `r` of `key` started. -/
structure Stored (key : U64) (r : TgtRec) (s s' : TgtState) : Prop where
  treqs : s'.treqs = Function.update s.treqs (ntpSlot key) { req := key, parts := 0, record := r }
  ledger : s'.ledger = s.ledger.start (s.owner (ntpSlot key) ≠ 0)
  events : s'.events = s.events

/-- What a hook on the `nvmet_req` `key` does, other than that of `nvmet_req_init`. -/
inductive HookEffect (key : U64) (s s' : TgtState) : Prop where
  | touched (h : Touched key s s')
  | finished (full : Bool) (r : TgtRec) (h : Finished key full r s s')

section Effects

variable {key : U64} {s s₁ s₂ s' : TgtState}

theorem Quiet.refl (s : TgtState) : Quiet s s := ⟨rfl, rfl, rfl⟩

theorem Quiet.trans (h : Quiet s s₁) (h' : Quiet s₁ s₂) : Quiet s s₂ :=
  ⟨h'.treqs.trans h.treqs, h'.ledger.trans h.ledger, h'.events.trans h.events⟩

theorem Quiet.owner (h : Quiet s s') : s'.owner = s.owner := by
  funext i
  simp only [TgtState.owner, h.treqs]

theorem Quiet.touched (h : Quiet s s') : Touched key s s' where
  req := by rw [h.treqs]
  id := by rw [h.treqs]
  notOwn _ := by rw [h.treqs]
  other i _ := by rw [h.treqs]
  ledger := h.ledger
  events := h.events

theorem Touched.refl (key : U64) (s : TgtState) : Touched key s s := (Quiet.refl s).touched

theorem Touched.trans (h : Touched key s s₁) (h' : Touched key s₁ s₂) : Touched key s s₂ where
  req := h'.req.trans h.req
  id := h'.id.trans h.id
  notOwn hne := (h'.notOwn (by rwa [h.req])).trans (h.notOwn hne)
  other i hi := (h'.other i hi).trans (h.other i hi)
  ledger := h'.ledger.trans h.ledger
  events := h'.events.trans h.events

theorem Touched.owner (h : Touched key s s') : s'.owner = s.owner := by
  funext i
  by_cases hi : i = ntpSlot key
  · subst hi
    exact h.req
  · simp only [TgtState.owner, h.other i hi]

theorem Touched.finished {full : Bool} {r : TgtRec} (h : Touched key s s₁)
    (h' : Finished key full r s₁ s₂) : Finished key full r s s₂ where
  isOpen := h.owner ▸ h'.isOpen
  id := h'.id.trans h.id
  freed := h'.freed
  other i hi := (h'.other i hi).trans (h.other i hi)
  ledger := by rw [h'.ledger, h.ledger]
  events := by rw [h'.events, h.events]

theorem Finished.quiet {full : Bool} {r : TgtRec} (h : Finished key full r s s₁) (h' : Quiet s₁ s₂) :
    Finished key full r s s₂ where
  isOpen := h.isOpen
  id := h.id
  freed := by rw [h'.owner, h.freed]
  other i hi := by rw [h'.treqs, h.other i hi]
  ledger := h'.ledger.trans h.ledger
  events := h'.events.trans h.events

theorem HookEffect.quiet (h : HookEffect key s s₁) (h' : Quiet s₁ s₂) : HookEffect key s s₂ := by
  cases h with
  | touched h => exact .touched (h.trans h'.touched)
  | finished full r h => exact .finished full r (h.quiet h')

theorem Touched.effect (h : Touched key s s₁) (h' : HookEffect key s₁ s₂) : HookEffect key s s₂ := by
  cases h' with
  | touched h' => exact .touched (h.trans h')
  | finished full r h' => exact .finished full r (h.finished h')

end Effects

/-! ## The pieces that hooks are made of -/

section Pieces

variable {key : U64} {s : TgtState} {r r' : TgtRec} {e e' : TgtEntry}

theorem TgtState.tgtEntry_eq_some :
    s.tgtEntry key = some e ↔ (s.treqs (ntpSlot key)).req = key ∧ s.treqs (ntpSlot key) = e := by
  unfold TgtState.tgtEntry
  split <;> simp_all

theorem TgtState.tgtRec_eq_some :
    s.tgtRec key = some r ↔
      (s.treqs (ntpSlot key)).req = key ∧ (s.treqs (ntpSlot key)).record = r := by
  unfold TgtState.tgtRec TgtState.tgtEntry
  split <;> simp_all

theorem touched_setEntry (he : s.tgtEntry key = some e) (hreq : e'.req = key)
    (hid : e'.record.id = e.record.id) : Touched key s (s.setEntry key e') := by
  obtain ⟨hown, rfl⟩ := TgtState.tgtEntry_eq_some.mp he
  constructor
  · simp [TgtState.setEntry, hreq, hown]
  · simp [TgtState.setEntry, hid]
  · intro hne
    exact absurd hown hne
  · intro i hi
    simp [TgtState.setEntry, hi]
  · rfl
  · rfl

theorem touched_setRec (hr : s.tgtRec key = some r) (hid : r'.id = r.id) :
    Touched key s (s.setRec key r') := by
  obtain ⟨hown, rfl⟩ := TgtState.tgtRec_eq_some.mp hr
  exact touched_setEntry (TgtState.tgtEntry_eq_some.mpr ⟨hown, rfl⟩) hown hid

@[simp]
theorem stamp_id (r : TgtRec) (i : TgtTs) (t : U64) : (r.stamp i t).id = r.id := rfl

@[simp]
theorem stampOnce_id (r : TgtRec) (i : TgtTs) (t : U64) : (r.stampOnce i t).id = r.id := by
  unfold TgtRec.stampOnce
  split <;> simp

@[simp]
theorem orFlags_id (r : TgtRec) (bits : U16) : (r.orFlags bits).id = r.id := rfl

theorem touched_stampRec (s : TgtState) (key : U64) (i : TgtTs) (t : U64) :
    Touched key s (s.stampRec key i t) := by
  unfold TgtState.stampRec
  split
  · exact .refl key s
  · rename_i r hr
    exact touched_setRec hr (by simp)

theorem quiet_uncount (s : TgtState) (req : U64) (bits : U32) (forget : Bool) :
    Quiet s (s.uncount req bits forget) := by
  unfold TgtState.uncount
  split
  · exact .refl s
  · exact ⟨rfl, rfl, rfl⟩

theorem quiet_tgtUncount (s : TgtState) (f : Filter) (req : U64) : Quiet s (s.tgtUncount f req) := by
  unfold TgtState.tgtUncount
  split
  · exact quiet_uncount ..
  · exact .refl s

theorem quiet_countRespQueued (s : TgtState) (req : U64) : Quiet s (s.countRespQueued req) := by
  unfold TgtState.countRespQueued
  split
  · exact .refl s
  · split
    · exact .refl s
    · exact ⟨rfl, rfl, rfl⟩

/-- The record that `tgt_emit` puts on the ring buffer. -/
def emittedRec (env : HookEnv) (r : TgtRec) : TgtRec :=
  { r with hdr := { r.hdr with cpu := BitVec.ofNat 32 env.cpu } }

theorem finished_tgtEmit (env : HookEnv) (hr : s.tgtRec key = some r) :
    Finished key env.rbFull (emittedRec env r) s (s.tgtEmit env key) := by
  obtain ⟨hown, rfl⟩ := TgtState.tgtRec_eq_some.mp hr
  have he := TgtState.tgtEntry_eq_some.mpr ⟨hown, rfl⟩
  constructor
  · exact hown
  · rfl
  · simp [TgtState.tgtEmit, he, TgtState.owner, TgtState.setEntry, TgtState.inflightAdd]
  · intro i hi
    cases hfull : env.rbFull <;>
      simp [TgtState.tgtEmit, he, hfull, TgtState.setEntry, TgtState.inflightAdd, TgtState.count, hi]
  · cases hfull : env.rbFull <;>
      simp [TgtState.tgtEmit, he, hfull, TgtState.ledger, Ledger.finish, TgtState.setEntry,
        TgtState.inflightAdd, TgtState.count, ntpCount, sub_eq_add_neg]
  · cases hfull : env.rbFull <;>
      simp [TgtState.tgtEmit, he, hfull, TgtState.setEntry, TgtState.inflightAdd, TgtState.count,
        emittedRec]

theorem effect_tgtEmit (s : TgtState) (env : HookEnv) (key : U64) :
    HookEffect key s (s.tgtEmit env key) := by
  cases hr : s.tgtRec key with
  | none =>
    have he : s.tgtEntry key = none := by simpa [TgtState.tgtRec] using hr
    simp only [TgtState.tgtEmit, he]
    exact .touched (.refl key s)
  | some r => exact .finished _ _ (finished_tgtEmit env hr)

theorem effect_tgtFinish (s : TgtState) (f : Filter) (env : HookEnv) (key : U64) :
    HookEffect key s (s.tgtFinish f env key) :=
  (quiet_tgtUncount s f key).touched.effect (effect_tgtEmit _ env key)

theorem effect_rspPartDone (s : TgtState) (env : HookEnv) (key : U64) (part : U32) :
    HookEffect key s (rspPartDone s env key part) := by
  unfold rspPartDone
  split
  · exact .touched (.refl key s)
  · rename_i e he
    have hown := (TgtState.tgtEntry_eq_some.mp he).2 ▸ (TgtState.tgtEntry_eq_some.mp he).1
    have ht : Touched key s (s.setEntry key { e with parts := e.parts ||| part }) :=
      touched_setEntry he hown rfl
    split
    · exact ht.effect (effect_tgtEmit _ env key)
    · exact .touched ht

end Pieces

/-! ## The hooks -/

section Hooks

variable {s : TgtState} {f : Filter} {env : HookEnv}

theorem touched_onExec (req : U64) (transferLen : U32) :
    Touched req s (onExec s env req transferLen) := by
  unfold onExec
  split
  · exact .refl req s
  · split
    · exact .refl req s
    · rename_i r hr
      split
      · exact .refl req s
      · exact touched_setRec hr rfl

theorem recOfRq_eq_some {priv : U64} {r : TgtRec} (h : recOfRq s priv = some r) :
    s.tgtRec priv = some r := by
  unfold recOfRq at h
  split at h
  · cases h
  · split at h
    · exact h
    · cases h

theorem touched_ntpTBeIssue (priv : U64) : Touched priv s (ntpTBeIssue s env priv) := by
  unfold ntpTBeIssue
  split
  · exact .refl priv s
  · rename_i r hr
    exact touched_setRec (recOfRq_eq_some hr) (by simp)

theorem touched_ntpTBeDone (priv : U64) : Touched priv s (ntpTBeDone s env priv) := by
  unfold ntpTBeDone
  split
  · exact .refl priv s
  · rename_i r hr
    exact touched_setRec (recOfRq_eq_some hr) (by simp)

theorem touched_ntpTComplete (req : U64) : Touched req s (ntpTComplete s env req) := by
  unfold ntpTComplete
  split
  · exact .refl req s
  · split
    · exact .refl req s
    · rename_i r hr
      exact touched_setRec hr (by simp)

theorem quiet_onCopy (skb sk : U64) (offset : S64) : Quiet s (onCopy s env skb sk offset) :=
  ⟨rfl, rfl, rfl⟩

theorem touched_copyDone (c : TcpRx) {a : CopyDoneArgs} {req : KAddr} (ha : a.cmd = some req) :
    Touched req s (copyDone f s env c a) := by
  unfold copyDone
  rw [ha]
  split
  · exact .refl _ s
  · dsimp only
    split
    · exact .refl _ s
    · rename_i r hr
      split
      · exact .refl _ s
      · split
        · exact .refl _ s
        · exact touched_setRec hr rfl

/-- A copy that moved no data of a command leaves the records alone. -/
theorem quiet_onCopyDone {a : CopyDoneArgs} (ha : a.cmd = none) : Quiet s (onCopyDone f s env a) := by
  unfold onCopyDone
  split
  · exact .refl s
  · split
    · exact .refl s
    · dsimp only
      split
      · exact ⟨rfl, rfl, rfl⟩
      · unfold copyDone
        rw [ha]
        split <;> exact ⟨rfl, rfl, rfl⟩

theorem touched_onCopyDone {a : CopyDoneArgs} {req : KAddr} (ha : a.cmd = some req) :
    Touched req s (onCopyDone f s env a) := by
  unfold onCopyDone
  split
  · exact .refl _ s
  · split
    · exact .refl _ s
    · rename_i c _
      have hq : Touched req s { s with tcpRx := ctxPut s.tcpRx env { c with enter := 0 } } :=
        Quiet.touched ⟨rfl, rfl, rfl⟩
      dsimp only
      split
      · exact hq
      · exact hq.trans (touched_copyDone c ha)

theorem touched_tcpOnQueueResp (a : TcpRespArgs) : Touched a.req s (tcpOnQueueResp f s env a) := by
  unfold tcpOnQueueResp
  split
  · exact .refl _ s
  · split
    · exact touched_stampRec ..
    · dsimp only
      split
      · exact (quiet_countRespQueued s a.req).touched.trans (touched_stampRec ..)
      · exact touched_stampRec ..

theorem touched_onH2c (req : KAddr) (sk : U64) (tstamp : S64) :
    Touched req s (onH2c f s env req sk tstamp) := by
  unfold onH2c
  split
  · exact .refl _ s
  · split
    · exact .refl _ s
    · rename_i r hr
      split
      · exact touched_setRec hr rfl
      · split
        · exact .refl _ s
        · exact touched_setRec hr rfl

/-- A change of the record that keeps its id, where there is a record. -/
theorem touched_mapRec (g : TgtRec → TgtRec) (hg : ∀ r, (g r).id = r.id) (s : TgtState) (req : U64) :
    Touched req s (match s.tgtRec req with
      | none => s
      | some r => s.setRec req (g r)) := by
  split
  · exact .refl _ s
  · rename_i r hr
    exact touched_setRec hr (hg r)

theorem effect_sendPdu (req : U64) (a : SendmsgArgs) : HookEffect req s (sendPdu f s env req a) := by
  unfold sendPdu
  split
  · exact .touched (touched_stampRec ..)
  · have hst := touched_stampRec s req .c2hSent env.now
    dsimp only
    split
    · exact hst.effect ((touched_mapRec (fun r => r.orFlags ntpFDataSuccess) (fun _ => rfl) _ req).effect
        (effect_tgtFinish _ f env req))
    · exact .touched hst
  · exact (touched_mapRec (fun r => r.stamp .rspSent env.now) (fun _ => rfl) s req).effect
      (effect_tgtFinish _ f env req)
  · exact .touched (.refl req s)

theorem onSendmsg_none {a : SendmsgArgs} (ha : a.sndCmd = none) : onSendmsg f s env a = s := by
  unfold onSendmsg
  rw [ha]
  split
  · rfl
  · split <;> rfl

theorem effect_onSendmsg {a : SendmsgArgs} {req : KAddr} (ha : a.sndCmd = some req) :
    HookEffect req s (onSendmsg f s env a) := by
  unfold onSendmsg
  rw [ha]
  split
  · exact .touched (.refl _ s)
  · split
    · exact .touched (.refl _ s)
    · dsimp only
      split
      · exact .touched (.refl _ s)
      · split
        · exact .touched (.refl _ s)
        · exact effect_sendPdu ..

theorem touched_onExecute (req : KAddr) (transferLen : U32) (inlineData : Bool) :
    Touched req s (onExecute s env req transferLen inlineData) := by
  unfold onExecute
  split
  · exact .refl _ s
  · split
    · exact .refl _ s
    · rename_i r hr
      split
      · exact .refl _ s
      · split
        · exact touched_setRec hr rfl
        · exact touched_setRec hr (by simp)

theorem touched_onReadDone (req : KAddr) : Touched req s (onReadDone s env req) := by
  unfold onReadDone
  split
  · exact .refl _ s
  · split
    · exact .refl _ s
    · rename_i r hr
      split
      · exact .refl _ s
      · exact touched_setRec hr rfl

theorem touched_rdmaOnQueueResp (req : KAddr) : Touched req s (rdmaOnQueueResp f s env req) := by
  unfold rdmaOnQueueResp
  split
  · exact .refl _ s
  · dsimp only
    split
    · exact (quiet_countRespQueued s req).touched.trans (touched_stampRec ..)
    · exact touched_stampRec ..

theorem postedRec_id (r : TgtRec) (now : U64) : (postedRec r now).id = r.id := by
  unfold postedRec
  split <;> rfl

theorem effect_respPosted (s : TgtState) (env : HookEnv) (req : U64) :
    HookEffect req s (respPosted s env req) := by
  unfold respPosted
  split
  · exact .touched (.refl req s)
  · rename_i r hr
    have ht := touched_setRec hr (postedRec_id r env.now)
    exact ht.effect (effect_rspPartDone _ env req rspPosted)

theorem effect_onQueueRespExit (req : U64) : HookEffect req s (onQueueRespExit f s env req) := by
  unfold onQueueRespExit
  split
  · exact .touched (.refl req s)
  · exact (effect_respPosted s env req).quiet (quiet_tgtUncount ..)

theorem effect_onSendDone (req : KAddr) : HookEffect req s (onSendDone s env req) := by
  unfold onSendDone
  split
  · exact .touched (.refl _ s)
  · split
    · exact .touched (.refl _ s)
    · rename_i r hr
      have ht := touched_setRec hr (stampOnce_id r .sendDone env.now)
      exact ht.effect (effect_rspPartDone _ env req rspSendDone)

theorem touched_ntpTrQueueRespKp (req : KAddr) : Touched req s (ntpTrQueueRespKp f s env req) := by
  have hq : Touched req s { s with respCtx := ctxPut s.respCtx env { tid := env.tid, req := req } } :=
    Quiet.touched ⟨rfl, rfl, rfl⟩
  exact hq.trans (touched_rdmaOnQueueResp req)

theorem effect_ntpTrQueueRespKr {c : RespCtx} (hc : ntpCtxGet s.respCtx env = some c) :
    HookEffect c.req s (ntpTrQueueRespKr f s env) := by
  unfold ntpTrQueueRespKr
  rw [hc]
  have hq : Touched c.req s { s with respCtx := ctxPut s.respCtx env { c with tid := 0 } } :=
    Quiet.touched ⟨rfl, rfl, rfl⟩
  exact hq.effect (effect_onQueueRespExit c.req)

end Hooks

/-! ## The arrival of a command -/

/-- What `nvmet_req_init` does about the record of `key` that is still open. -/
inductive FlushEffect (env : HookEnv) (key : U64) (s s' : TgtState) : Prop where
  | none (h : Quiet s s') (hnone : s.inflight = 0 ∨ s.owner (ntpSlot key) ≠ key)
  | flushed (r : TgtRec) (hr : s.tgtRec key = some r)
      (h : Finished key env.rbFull (emittedRec env (r.orFlags ntpFReused)) s s')

/-- What `nvmet_req_init` does: the open record is over, and perhaps a new one started. -/
inductive InitEffect (env : HookEnv) (a : ReqInitArgs) (s s' : TgtState) : Prop where
  | unsampled (s₁ : TgtState) (hf : FlushEffect env a.req s s₁) (h : Quiet s₁ s')
  | sampled (s₁ : TgtState) (hf : FlushEffect env a.req s s₁) (c : NvmeCmd) (hc : a.cmd = some c)
      (r : TgtRec) (hid : r.id = a.id c) (h : Stored a.req r s₁ s')

section Init

variable {tr : Transport} {f : Filter} {s s₁ s' : TgtState} {env : HookEnv} {a : ReqInitArgs}

theorem Quiet.flush {key : U64} (h : Quiet s s₁) (h' : FlushEffect env key s₁ s') :
    FlushEffect env key s s' := by
  have hinf : s₁.inflight = s.inflight := congrArg Ledger.inflight h.ledger
  cases h' with
  | none h' hnone => exact .none (h.trans h') (by rwa [h.owner, hinf] at hnone)
  | flushed r hr h' =>
    refine .flushed r ?_ (h.touched.finished h')
    simpa only [TgtState.tgtRec, TgtState.tgtEntry, h.treqs] using hr

theorem quiet_rememberOurs (tr : Transport) (f : Filter) (s : TgtState) (env : HookEnv)
    (a : ReqInitArgs) : Quiet s (rememberOurs tr f s env a) := by
  unfold rememberOurs
  split <;> exact ⟨rfl, rfl, rfl⟩

theorem quiet_rememberSampled : Quiet s (rememberSampled tr s env a) := by
  unfold rememberSampled
  split <;> exact ⟨rfl, rfl, rfl⟩

theorem quiet_countCommand (f : Filter) (s : TgtState) (a : ReqInitArgs) :
    Quiet s (countCommand f s a).1 := by
  unfold countCommand
  split
  · have hq : Quiet s ((s.getTqstat a.sq).uncount a.req (cntOutstanding ||| cntRespQueued) true) :=
      have h : Quiet s (s.getTqstat a.sq) := ⟨rfl, rfl, rfl⟩
      h.trans (quiet_uncount ..)
    dsimp only
    split
    · exact hq
    · exact hq.trans ⟨rfl, rfl, rfl⟩
  · exact .refl s

theorem quiet_count_tgtCmds : Quiet s (s.count .tgtCmds) := by
  refine ⟨rfl, ?_, rfl⟩
  simp [TgtState.ledger, TgtState.count, ntpCount]

theorem effect_flushOpen (env : HookEnv) (s : TgtState) (key : U64) :
    FlushEffect env key s (flushOpen s env key) := by
  unfold flushOpen
  split
  · rename_i h0
    exact .none (.refl s) (.inl h0)
  · split
    · rename_i hr
      refine .none (.refl s) (.inr fun hown => ?_)
      rw [TgtState.tgtRec_eq_some.mpr ⟨hown, rfl⟩] at hr
      cases hr
    · rename_i r hr
      refine .flushed r hr ((touched_setRec hr (orFlags_id r _)).finished (finished_tgtEmit env ?_))
      obtain ⟨hown, rfl⟩ := TgtState.tgtRec_eq_some.mp hr
      refine TgtState.tgtRec_eq_some.mpr ⟨?_, ?_⟩
      · simpa [TgtState.setRec, TgtState.setEntry] using hown
      · simp [TgtState.setRec, TgtState.setEntry]

theorem stored_storeTgtRec (s : TgtState) (key : U64) (r : TgtRec) :
    Stored key r s (storeTgtRec s key r) := by
  by_cases hown : (s.treqs (ntpSlot key)).req = 0
  · simp only [storeTgtRec, ne_eq, hown, not_true_eq_false, if_false]
    refine ⟨rfl, ?_, rfl⟩
    simp [TgtState.owner, hown, TgtState.inflightAdd, TgtState.setEntry, TgtState.count,
      TgtState.ledger, Ledger.start, ntpCount]
  · simp only [storeTgtRec, ne_eq, hown, not_false_eq_true, if_true]
    refine ⟨rfl, ?_, rfl⟩
    simp only [TgtState.owner, ne_eq, hown, not_false_eq_true, decide_true, TgtState.setEntry,
      TgtState.count, TgtState.ledger, Ledger.start, ntpCount, if_true]
    simp

theorem Quiet.stored {key : U64} {r : TgtRec} (h : Quiet s s₁) (h' : Stored key r s₁ s') :
    Stored key r s s' where
  treqs := by rw [h'.treqs, h.treqs]
  ledger := by rw [h'.ledger, h.ledger, h.owner]
  events := h'.events.trans h.events

theorem effect_reqInitOurs : InitEffect env a s (reqInitOurs tr f s env a) := by
  unfold reqInitOurs
  have hq := (quiet_rememberOurs tr f s env a).trans
    ((quiet_countCommand f _ a).trans quiet_count_tgtCmds)
  have hf := hq.flush (effect_flushOpen env _ a.req)
  dsimp only
  split
  · exact .unsampled _ hf (.refl _)
  · rename_i c hc
    split
    · exact .unsampled _ hf (.refl _)
    · split
      · exact .unsampled _ hf (.refl _)
      · split
        · exact .unsampled _ hf (.refl _)
        · exact .sampled _ hf c hc _ rfl (quiet_rememberSampled.stored (stored_storeTgtRec ..))

end Init

/-! ## One event -/

/-- What an event does to the records, given the `nvmet_req` that its hook looks up. -/
def KeyEffect (key : Option U64) (s s' : TgtState) : Prop :=
  match key with
  | none => Quiet s s'
  | some key => HookEffect key s s'

section Step

variable {tr : Transport} {f : Filter} {s : TgtState} {env : HookEnv}

theorem KeyEffect.refl (key : Option U64) (s : TgtState) : KeyEffect key s s := by
  cases key with
  | none => exact Quiet.refl s
  | some key => exact .touched (.refl key s)

theorem recOfRq_zero : recOfRq s 0 = none := by
  unfold recOfRq
  split <;> simp

theorem effect_block {g : TgtState → U64 → TgtState} {priv : U64} (h0 : g s 0 = s)
    (h : Touched priv s (g s priv)) :
    KeyEffect (if priv = 0 then none else some priv) s (g s priv) := by
  split
  · rename_i hp
    rw [hp, h0]
    exact Quiet.refl s
  · exact .touched h

theorem effect_tcp (e : TgtTcpEvent) : KeyEffect e.key s (e.run f s env) := by
  cases e with
  | copy skb sk offset => exact quiet_onCopy skb sk offset
  | copyDone a =>
    cases ha : a.cmd with
    | none =>
      simp only [TgtTcpEvent.key, ha]
      exact quiet_onCopyDone ha
    | some req =>
      simp only [TgtTcpEvent.key, ha]
      exact .touched (touched_onCopyDone ha)
  | queueResp a => exact .touched (touched_tcpOnQueueResp a)
  | h2c req sk tstamp => exact .touched (touched_onH2c req sk tstamp)
  | sendmsg a =>
    cases ha : a.sndCmd with
    | none =>
      simp only [TgtTcpEvent.key, ha, TgtTcpEvent.run, onSendmsg_none ha]
      exact Quiet.refl s
    | some req =>
      simp only [TgtTcpEvent.key, ha]
      exact effect_onSendmsg ha

theorem effect_rdma (e : TgtRdmaEvent) : KeyEffect (e.key s env) s (e.run f s env) := by
  cases e with
  | recvDone qpContext => exact ⟨rfl, rfl, rfl⟩
  | recvDoneExit => exact ⟨rfl, rfl, rfl⟩
  | execute req transferLen inlineData => exact .touched (touched_onExecute ..)
  | readDone req => exact .touched (touched_onReadDone req)
  | queueRespFe req => exact .touched (touched_rdmaOnQueueResp req)
  | queueRespFx req => exact effect_onQueueRespExit req
  | queueRespKp req => exact .touched (touched_ntpTrQueueRespKp req)
  | queueRespKr own =>
    cases hc : ntpCtxGet s.respCtx env with
    | none =>
      simp only [TgtRdmaEvent.key, TgtRdmaEvent.run, ntpTrQueueRespKr, hc]
      exact Quiet.refl s
    | some c =>
      simp only [TgtRdmaEvent.key, hc]
      exact effect_ntpTrQueueRespKr hc
  | sendDone req => exact effect_onSendDone req

/-- Every event but a call of `nvmet_req_init`. -/
theorem effect_tgtStep (tr : Transport) (f : Filter) (s : TgtState) (e : TgtEvent)
    (he : ∀ seen env a, e ≠ .reqInit seen env a) :
    KeyEffect (e.key s) s (tgtStep tr f s e) := by
  cases e with
  | arm on => exact ⟨rfl, rfl, rfl⟩
  | reqInit seen env a => exact absurd rfl (he seen env a)
  | exec env req transferLen => exact .touched (touched_onExec ..)
  | beIssue env priv =>
    refine effect_block (g := fun s priv => ntpTBeIssue s env priv) ?_ (touched_ntpTBeIssue priv)
    rw [ntpTBeIssue, recOfRq_zero]
  | beDone env priv =>
    refine effect_block (g := fun s priv => ntpTBeDone s env priv) ?_ (touched_ntpTBeDone priv)
    rw [ntpTBeDone, recOfRq_zero]
  | complete env req => exact .touched (touched_ntpTComplete _)
  | tcp env e =>
    simp only [tgtStep]
    split
    · exact effect_tcp e
    · exact .refl _ s
  | rdma env e =>
    simp only [tgtStep]
    split
    · exact effect_rdma e
    · exact .refl _ s

/-- A call of `nvmet_req_init` whose hook runs past its early returns. -/
theorem effect_reqInit {a : ReqInitArgs} (h : reqInitRecognised tr s env a = true) :
    InitEffect env a s (tgtStep tr f s (.reqInit true env a)) := by
  simp only [tgtStep, ntpTReqInit, h, if_true]
  exact effect_reqInitOurs

/-- Any other call of `nvmet_req_init` changes nothing. -/
theorem tgtStep_reqInit_missed {seen : Bool} {a : ReqInitArgs}
    (h : (seen && reqInitRecognised tr s env a) = false) :
    tgtStep tr f s (.reqInit seen env a) = s := by
  cases seen with
  | false => rfl
  | true =>
    rw [Bool.true_and] at h
    simp [tgtStep, ntpTReqInit, h]

end Step

end Ntprof.Bpf
