import Ntprof.Bpf.Proofs.HookSlotsProofs

/-!
# A hook that is not interrupted

The accesses of a hook, one after the other with nothing between them, do what the hook does as a whole.
-/

namespace Ntprof.Bpf

/-- What a hook with the key `key` does when no other one comes between its accesses; `cell` is what is in the value of
`ntp_scalar`. -/
inductive Alone (f : Filter) (env : HookEnv) (a : ReqInitArgs) : U64 → U64 → TgtState → Work → TgtState → Prop
  | idle {cell key : U64} {s : TgtState} : Alone f env a cell key s .idle s
  | access {cell key cell₁ key₁ : U64} {s s₁ s' : TgtState} {w w₁ : Work} {note : Note}
    (hcell : (if w.keyPc = some .put then a.req.val else cell) = cell₁)
    (hkey : w.keyAfter cell (s.respCtx env.cpu).req key = key₁)
    (hstep : ∀ mine, w.step f s env mine a key₁ = ⟨s₁, w₁, note⟩)
    (h : Alone f env a cell₁ key₁ s₁ w₁ s') : Alone f env a cell key s w s'
  | count {cell key : U64} {s s' : TgtState} {i : Counter} {here : CountPc → Work} {rest : Work}
    (hkeyPc : ∀ p, (here p).keyPc = none) (hsaving : (here .load).saving = none)
    (hstep : ∀ mine p, (here p).step f s env mine a key = countStep i here rest s mine p)
    (h : Alone f env a cell key (s.count i) rest s') : Alone f env a cell key s (here .load) s'

/-- The hook of a kind, as a whole. -/
def Kind.whole (f : Filter) (s : TgtState) (env : HookEnv) (a : ReqInitArgs) : Kind → TgtState
  | .init => ntpTReqInit .rdma f s env a
  | .touch (.execute transferLen inlineData) _ => onExecute s env a.req (transferLen a.req) inlineData
  | .touch .readDone _ => onReadDone s env a.req
  | .touch (.exec transferLen) _ => onExec s env a.req transferLen
  | .touch .beIssue _ => ntpTBeIssue s env a.req
  | .touch .beDone _ => ntpTBeDone s env a.req
  | .touch .complete _ => ntpTComplete s env a.req
  | .touch .queueResp .fentry => rdmaOnQueueResp f s env a.req
  | .touch .queueResp .kprobe => ntpTrQueueRespKp f s env a.req
  | .rsp .posted .fentry => onQueueRespExit f s env a.req
  | .rsp .posted .kprobe => ntpTrQueueRespKr f s env
  | .rsp .sendDone _ => onSendDone s env a.req

section SetRec

variable (s : TgtState) (req : U64)

theorem setEntry_setEntry (e e' : TgtEntry) : (s.setEntry req e).setEntry req e' = s.setEntry req e' := by
  simp [TgtState.setEntry]

theorem treqs_setEntry (e : TgtEntry) : (s.setEntry req e).treqs (ntpSlot req) = e := Function.update_self ..

theorem setEntry_self : s.setEntry req (s.treqs (ntpSlot req)) = s := by
  simp [TgtState.setEntry]

theorem treqs_setRec (r : TgtRec) :
    (s.setRec req r).treqs (ntpSlot req) = { s.treqs (ntpSlot req) with record := r } := treqs_setEntry ..

theorem setRec_setRec (r r' : TgtRec) : (s.setRec req r).setRec req r' = s.setRec req r' := by
  rw [TgtState.setRec, TgtState.setRec, TgtState.setRec, setEntry_setEntry, treqs_setEntry]

theorem setRec_self : s.setRec req (s.treqs (ntpSlot req)).record = s := setEntry_self s req

end SetRec

section Alone

variable {f : Filter} {env : HookEnv} {a : ReqInitArgs} {cell key : U64} {s s₁ s' : TgtState}

theorem Alone.done (h : s = s') : Alone f env a cell key s .idle s' := h ▸ .idle

/-- An access that is not on the way to the key. -/
theorem Alone.next {w w₁ : Work} {note : Note} (hw : w.keyPc = none)
    (hstep : ∀ mine, w.step f s env mine a key = ⟨s₁, w₁, note⟩)
    (h : Alone f env a cell key s₁ w₁ s') : Alone f env a cell key s w s' := by
  refine .access rfl ?_ hstep ?_
  · rw [Work.keyAfter, hw]
  · rw [hw]
    exact h

/-- `ntp_count`. -/
theorem Alone.tally {i : Counter} {rest : Work} (here : CountPc → Work) (hkeyPc : ∀ p, (here p).keyPc = none)
    (hsaving : (here .load).saving = none)
    (hstep : ∀ mine p, (here p).step f s env mine a key = countStep i here rest s mine p)
    (h : Alone f env a cell key (s.count i) rest s') : Alone f env a cell key s (here .load) s' :=
  .count hkeyPc hsaving hstep h

/-- An access on the way to the key that leaves the value of `ntp_scalar` alone. -/
theorem Alone.onWay {w w₁ : Work} {note : Note} {key₁ : U64} (hput : w.keyPc ≠ some .put)
    (hkey : w.keyAfter cell (s.respCtx env.cpu).req key = key₁)
    (hstep : ∀ mine, w.step f s env mine a key₁ = ⟨s₁, w₁, note⟩)
    (h : Alone f env a cell key₁ s₁ w₁ s') : Alone f env a cell key s w s' :=
  .access (if_neg hput) hkey hstep h

section Front

variable {off : TgtState → Bool} {scalar : Bool} {counted : TgtState → U64 → TgtState}
  {stores : U64 → TgtRec → List Store} {here : FrontPc → Work} {missing past : Work}

/-- `here` is the first part of a hook. -/
structure IsFront (f : Filter) (env : HookEnv) (a : ReqInitArgs) (off : TgtState → Bool) (scalar : Bool)
    (counted : TgtState → U64 → TgtState) (stores : U64 → TgtRec → List Store) (here : FrontPc → Work)
    (missing past : Work) : Prop where
  keyPc : ∀ p, (here p).keyPc = p.keyPc
  step : ∀ s mine key p, (here p).step f s env mine a key =
    frontStep (off s) scalar (counted s key) (stores key) here missing past s env a.req key p

variable (hf : IsFront f env a off scalar counted stores here missing past)

include hf

/-- The stores into a record, one after the other. -/
theorem Alone.storeAll (w : Store) (ws : List Store)
    (h : Alone f env a cell key (s.setRec key ((w :: ws).foldl Store.apply (s.treqs (ntpSlot key)).record)) past s') :
    Alone f env a cell key s (here (.store w ws)) s' := by
  induction ws generalizing s w with
  | nil => exact .next (hf.keyPc _) (fun _ => hf.step _ _ _ _) h
  | cons v vs ih =>
    refine .next (hf.keyPc _) (fun _ => hf.step _ _ _ _) (ih v ?_)
    rw [treqs_setRec, setRec_setRec]
    exact h

/-- The look-up, and what follows. -/
theorem Alone.look (hmissing : s.tgtRec key = none → Alone f env a cell key s missing s')
    (hfound : ∀ r, s.tgtRec key = some r →
      Alone f env a cell key (s.setRec key ((stores key r).foldl Store.apply r)) past s') :
    Alone f env a cell key s (here .look) s' := by
  cases hrec : s.tgtRec key with
  | none =>
    have hentry : (s.tgtEntry key).isSome = false := by
      simpa [TgtState.tgtRec] using hrec
    exact .next (hf.keyPc _) (fun _ => (hf.step _ _ _ _).trans (if_neg (by simp [hentry]))) (hmissing hrec)
  | some r =>
    have hentry : (s.tgtEntry key).isSome := by
      have hmap : ((s.tgtEntry key).map TgtEntry.record).isSome := by
        rw [← TgtState.tgtRec, hrec]
        rfl
      rwa [Option.isSome_map] at hmap
    have hnext := hfound r hrec
    rw [← (TgtState.tgtRec_eq_some.mp hrec).2] at hnext
    refine .next (hf.keyPc _) (fun _ => (hf.step _ _ _ _).trans (if_pos hentry)) ?_
    cases hstores : stores key (s.treqs (ntpSlot key)).record with
    | nil =>
      rw [hstores, List.foldl_nil, setRec_self] at hnext
      exact .next (hf.keyPc _) (fun _ => (hf.step _ _ _ _).trans (by rw [frontStep, hstores])) hnext
    | cons w ws =>
      rw [hstores] at hnext
      exact .next (hf.keyPc _) (fun _ => (hf.step _ _ _ _).trans (by rw [frontStep, hstores])) (.storeAll hf w ws hnext)

/-- `ntp_scalar`. -/
theorem Alone.throughScalar
    (h : Alone f env a a.req a.req (counted s a.req) (here (if scalar then .look else .gate)) s') :
    Alone f env a cell key s (here (.key .put)) s' := by
  have hput : (here (.key .put)).keyPc = some .put := hf.keyPc _
  have hget : (here (.key .get)).keyPc = some .get := hf.keyPc _
  have hkey : (here (.key .put)).keyAfter cell (s.respCtx env.cpu).req key = key := by
    rw [Work.keyAfter, hput]
  refine .access (if_pos hput) hkey (fun _ => hf.step _ _ _ _) (.onWay ?_ ?_ (fun _ => hf.step _ _ _ _) h)
  · rw [hget]
    simp
  · rw [Work.keyAfter, hget]

/-- The first test. -/
theorem Alone.gate (hoff : off s = true → s' = s)
    (hon : off s = false → Alone f env a cell key s (here (if scalar then .key .put else .look)) s') :
    Alone f env a cell key s (here .gate) s' := by
  refine .next (hf.keyPc _) (fun _ => hf.step _ _ _ _) ?_
  cases hidle : off s with
  | true =>
    rw [hoff hidle]
    exact .idle
  | false => exact hon hidle

end Front

/-- `tgt_emit`. -/
theorem Alone.emit {own : Bool} {here : EmitPc → Work} {rest : Work} (hkey : ∀ p, (here p).keyPc = none)
    (hsaving : ∀ i, (here (.count i .load)).saving = none)
    (hstep : ∀ s mine p, (here p).step f s env mine a key = emitStep own here rest s env mine key p)
    (h : Alone f env a cell key (s.tgtEmit env key) rest s') : Alone f env a cell key s (here .look) s' := by
  cases hentry : s.tgtEntry key with
  | none =>
    rw [TgtState.tgtEmit, hentry] at h
    exact .next (hkey _) (fun _ => (hstep _ _ _).trans (if_neg (by simp [hentry]))) h
  | some e =>
    have hslot := (TgtState.tgtEntry_eq_some.mp hentry).2
    rw [TgtState.tgtEmit, hentry] at h
    refine .next (hkey _) (fun _ => (hstep _ _ _).trans (if_pos (by simp [hentry]))) ?_
    refine .next (hkey _) (fun _ => hstep _ _ _) ?_
    cases hfull : env.rbFull with
    | true =>
      refine .next (hkey _) (fun _ => (hstep _ _ _).trans (if_pos hfull)) ?_
      refine .tally (fun p => here (.count .rbDrops p)) (fun _ => hkey _) (hsaving _) (fun _ _ => hstep _ _ _) ?_
      refine .next (hkey _) (fun _ => hstep _ _ _) (.next (hkey _) (fun _ => hstep _ _ _) ?_)
      simpa [TgtState.setRec, TgtState.setEntry, TgtState.count, hslot, hfull] using h
    | false =>
      refine .next (hkey _) (fun _ => (hstep _ _ _).trans (if_neg (by simp [hfull]))) ?_
      refine .tally (fun p => here (.count .tgtEmitted p)) (fun _ => hkey _) (hsaving _) (fun _ _ => hstep _ _ _) ?_
      refine .next (hkey _) (fun _ => hstep _ _ _) (.next (hkey _) (fun _ => hstep _ _ _) ?_)
      simpa [TgtState.setRec, TgtState.setEntry, TgtState.count, hslot, hfull] using h

/-- `rsp_part_done`. -/
theorem Alone.part {e : RspEnd} (h : Alone f env a cell key (rspPartDone s env key e.bit) e.rest s') :
    Alone f env a cell key s (.rsp e .part) s' := by
  cases hentry : s.tgtEntry key with
  | none =>
    rw [rspPartDone, hentry] at h
    exact .next rfl (fun _ => if_neg (by simp [hentry])) h
  | some entry =>
    have hslot := (TgtState.tgtEntry_eq_some.mp hentry).2
    rw [rspPartDone, hentry] at h
    refine .next rfl (fun _ => if_pos (by simp [hentry])) ?_
    by_cases hboth : entry.parts ||| e.bit = rspPosted ||| rspSendDone
    · simp only [hboth, if_true] at h
      have hemit : ∀ s mine p, (Work.rsp e (.emit p)).step f s env mine a key =
          emitStep true (fun p => .rsp e (.emit p)) e.rest s env mine key p := fun _ _ _ => rfl
      exact .next rfl (fun _ => by simp only [Work.step, rspStep, hslot, hboth, if_true]; rfl) (.emit (fun _ => rfl) (fun _ => rfl) hemit h)
    · simp only [hboth, if_false] at h
      exact .next rfl (fun _ => by simp only [Work.step, rspStep, hslot, hboth, if_false]; rfl) h

theorem foldl_storeOnce (r : TgtRec) (i : TgtTs) (t : U64) :
    (storeOnce r i t).foldl Store.apply r = r.stampOnce i t := by
  rw [storeOnce, TgtRec.stampOnce]
  split_ifs
  · rfl
  · rfl

theorem foldl_posted (r : TgtRec) (now : U64) : (RspEnd.posted.stores now r).foldl Store.apply r = postedRec r now := by
  rw [RspEnd.stores, postedRec]
  split_ifs
  · rfl
  · rfl

theorem isFront_rsp (f : Filter) (env : HookEnv) (a : ReqInitArgs) (e : RspEnd) :
    IsFront f env a (e.off f) e.scalar (fun s _ => s) (fun _ r => e.stores env.now r)
    (fun p => .rsp e (.front p)) e.rest (.rsp e .part) :=
  ⟨fun _ => rfl, fun _ _ _ _ => rfl⟩

/-- `on_queue_resp_exit`. -/
theorem alone_posted : Alone f env a cell key s (.rsp .posted (.front .gate)) (onQueueRespExit f s env key) := by
  have hf := isFront_rsp f env a .posted
  refine .gate hf ?_ fun hoff => .look hf ?_ ?_
  · intro hoff
    have hidle : s.idle f = true := hoff
    rw [onQueueRespExit, if_pos hidle]
  · intro hnone
    have hidle : s.idle f = false := hoff
    rw [onQueueRespExit, if_neg (by rw [hidle]; exact Bool.false_ne_true), respPosted, hnone]
    exact .next rfl (fun _ => rfl) .idle
  · intro r hrec
    have hidle : s.idle f = false := hoff
    rw [onQueueRespExit, if_neg (by rw [hidle]; exact Bool.false_ne_true), respPosted, hrec, foldl_posted]
    exact .part (.next rfl (fun _ => rfl) .idle)

/-- `ntp_tr_queue_resp_fx`. -/
theorem alone_queueRespFx : Alone f env a cell key s (.rsp .posted (.front (.key .put)))
    (onQueueRespExit f s env a.req) :=
  .throughScalar (isFront_rsp f env a .posted) alone_posted

/-- `ntp_tr_queue_resp_kr`. -/
theorem alone_queueRespKr : Alone f env a cell key s (.rsp .posted (.front (.key .find))) (ntpTrQueueRespKr f s env) := by
  cases hctx : ntpCtxGet s.respCtx env with
  | none =>
    rw [ntpTrQueueRespKr, hctx]
    exact .onWay (by simp [Work.keyPc, FrontPc.keyPc]) rfl
      (fun _ => by simp only [Work.step, rspStep, frontStep, keyStep, hctx]; rfl) .idle
  | some c =>
    have hc : s.respCtx env.cpu = c := by
      rw [ntpCtxGet] at hctx
      split_ifs at hctx
      exact Option.some.inj hctx
    rw [ntpTrQueueRespKr, hctx]
    refine .onWay (by simp [Work.keyPc, FrontPc.keyPc]) rfl
      (fun _ => by simp only [Work.step, rspStep, frontStep, keyStep, hctx]; rfl) ?_
    refine .onWay (by simp [Work.keyPc, FrontPc.keyPc]) rfl (fun _ => rfl) ?_
    have hreq : (ctxPut s.respCtx env { c with tid := 0 } env.cpu).req = c.req := by
      simp [ctxPut]
    rw [hc]
    exact .onWay (by simp [Work.keyPc, FrontPc.keyPc]) hreq (fun _ => rfl) alone_posted

/-- `on_send_done`. -/
theorem alone_sendDone : Alone f env a cell key s (.rsp .sendDone (.front .gate)) (onSendDone s env a.req) := by
  have hf := isFront_rsp f env a .sendDone
  refine .gate hf ?_ fun hoff => .throughScalar hf (.look hf ?_ ?_)
  · intro hoff
    rw [onSendDone, if_pos (beq_iff_eq.mp hoff)]
  · intro hnone
    rw [onSendDone, if_neg (beq_eq_false_iff_ne.mp hoff), hnone]
    exact .idle
  · intro r hrec
    rw [onSendDone, if_neg (beq_eq_false_iff_ne.mp hoff), hrec, RspEnd.stores, foldl_storeOnce]
    exact .part .idle

theorem isFront_touch (f : Filter) (env : HookEnv) (a : ReqInitArgs) (b : Touch) :
    IsFront f env a (b.off f) b.scalar (fun s key => b.count f s key)
    (fun key r => b.stores env.now key r) (fun p => .touch b p) .idle .idle :=
  ⟨fun _ => rfl, fun _ _ _ _ => rfl⟩

theorem touchCount_of_scalar {b : Touch} (hb : b.scalar = false) : b.count f s key = s := by
  cases b <;> first
    | rfl
    | cases hb

/-- What a hook that only writes into its record does, as a whole. -/
theorem Alone.touch {b : Touch} (hoff : b.off f s = true → s' = s)
    (hmissing : b.off f s = false → (b.count f s a.req).tgtRec a.req = none → s' = b.count f s a.req)
    (hfound : b.off f s = false → ∀ r, (b.count f s a.req).tgtRec a.req = some r →
      s' = (b.count f s a.req).setRec a.req ((b.stores env.now a.req r).foldl Store.apply r)) :
    Alone f env a cell a.req s (.touch b .gate) s' := by
  have hf := isFront_touch f env a b
  have hlook : ∀ cell : U64, b.off f s = false →
      Alone f env a cell a.req (b.count f s a.req) (.touch b .look) s' := by
    intro cell hon
    refine .look hf (fun hnone => ?_) (fun r hrec => ?_)
    · exact .done (hmissing hon hnone).symm
    · exact .done (hfound hon r hrec).symm
  refine .gate hf hoff fun hon => ?_
  cases hb : b.scalar with
  | true =>
    refine .throughScalar hf ?_
    rw [hb]
    exact hlook a.req hon
  | false =>
    have hnext := hlook cell hon
    rw [touchCount_of_scalar hb] at hnext
    exact hnext

theorem setRec_of_tgtRec {req : U64} {r : TgtRec} (hrec : s.tgtRec req = some r) : s.setRec req r = s := by
  rw [← (TgtState.tgtRec_eq_some.mp hrec).2, setRec_self]

/-- The hooks that do nothing unless something is in flight. -/
theorem Alone.gated {b : Touch} (hoff : b.off f s = (s.inflight == 0)) (hcount : b.count f s a.req = s)
    (hidle : s.inflight = 0 → s' = s) (hmissing : s.inflight ≠ 0 → s.tgtRec a.req = none → s' = s)
    (hfound : s.inflight ≠ 0 → ∀ r, s.tgtRec a.req = some r →
      s' = s.setRec a.req ((b.stores env.now a.req r).foldl Store.apply r)) :
    Alone f env a cell a.req s (.touch b .gate) s' := by
  rw [← hcount] at hmissing hfound
  refine .touch ?_ ?_ ?_
  · rw [hoff, beq_iff_eq]
    exact hidle
  · rw [hoff, beq_eq_false_iff_ne]
    rw [hcount] at hmissing ⊢
    exact hmissing
  · rw [hoff, beq_eq_false_iff_ne]
    rw [hcount] at hfound ⊢
    exact hfound

theorem alone_execute (transferLen : U64 → U32) (inlineData : Bool) :
    Alone f env a cell a.req s (.touch (.execute transferLen inlineData) .gate)
      (onExecute s env a.req (transferLen a.req) inlineData) := by
  refine .gated rfl rfl ?_ ?_ ?_
  · intro h
    rw [onExecute, if_pos h]
  · intro h hnone
    simp only [onExecute, if_neg h, hnone]
  · intro h r hrec
    simp only [onExecute, if_neg h, hrec, Touch.stores]
    split_ifs
    · exact (setRec_of_tgtRec hrec).symm
    · rfl
    · rw [List.foldl_cons]
      exact congrArg _ (foldl_storeOnce (r.orFlags ntpFRdmaRead) .r2tSent env.now).symm

theorem alone_readDone : Alone f env a cell a.req s (.touch .readDone .gate) (onReadDone s env a.req) := by
  refine .gated rfl rfl ?_ ?_ ?_
  · intro h
    rw [onReadDone, if_pos h]
  · intro h hnone
    simp only [onReadDone, if_neg h, hnone]
  · intro h r hrec
    simp only [onReadDone, if_neg h, hrec, Touch.stores]
    split_ifs
    · exact (setRec_of_tgtRec hrec).symm
    · rfl

theorem alone_exec (transferLen : U32) :
    Alone f env a cell a.req s (.touch (.exec transferLen) .gate) (onExec s env a.req transferLen) := by
  refine .gated rfl rfl ?_ ?_ ?_
  · intro h
    rw [onExec, if_pos h]
  · intro h hnone
    simp only [onExec, if_neg h, hnone]
  · intro h r hrec
    simp only [onExec, if_neg h, hrec, Touch.stores]
    split_ifs
    · exact (setRec_of_tgtRec hrec).symm
    · rfl

theorem recOfRq_eq (h : s.inflight ≠ 0) : recOfRq s a.req = s.tgtRec a.req := by
  rw [recOfRq, if_neg h, if_pos a.req.property]

theorem alone_beIssue : Alone f env a cell a.req s (.touch .beIssue .gate) (ntpTBeIssue s env a.req) := by
  refine .gated rfl rfl ?_ ?_ ?_
  · intro h
    rw [ntpTBeIssue, recOfRq, if_pos h]
  · intro h hnone
    rw [ntpTBeIssue, recOfRq_eq h, hnone]
  · intro h r hrec
    rw [ntpTBeIssue, recOfRq_eq h, hrec, Touch.stores, foldl_storeOnce]

theorem alone_beDone : Alone f env a cell a.req s (.touch .beDone .gate) (ntpTBeDone s env a.req) := by
  refine .gated rfl rfl ?_ ?_ ?_
  · intro h
    rw [ntpTBeDone, recOfRq, if_pos h]
  · intro h hnone
    rw [ntpTBeDone, recOfRq_eq h, hnone]
  · intro h r hrec
    rw [ntpTBeDone, recOfRq_eq h, hrec]
    rfl

theorem alone_complete : Alone f env a cell a.req s (.touch .complete .gate) (ntpTComplete s env a.req) := by
  refine .gated rfl rfl ?_ ?_ ?_
  · intro h
    rw [ntpTComplete, if_pos h]
  · intro h hnone
    simp only [ntpTComplete, if_neg h, hnone]
  · intro h r hrec
    simp only [ntpTComplete, if_neg h, hrec, Touch.stores, foldl_storeOnce]

/-- `on_queue_resp`. -/
theorem alone_queueResp :
    Alone f env a cell a.req s (.touch .queueResp .gate) (rdmaOnQueueResp f s env a.req) := by
  refine .touch ?_ ?_ ?_
  · intro hoff
    have hidle : s.idle f = true := hoff
    rw [rdmaOnQueueResp, if_pos hidle]
  · intro hon hnone
    have hidle : s.idle f = false := hon
    simp only [Touch.count] at hnone ⊢
    simp only [rdmaOnQueueResp, hidle, Bool.false_eq_true, if_false, TgtState.stampRec, hnone]
  · intro hon r hrec
    have hidle : s.idle f = false := hon
    simp only [Touch.count, Touch.stores, foldl_storeOnce] at hrec ⊢
    simp only [rdmaOnQueueResp, hidle, Bool.false_eq_true, if_false, TgtState.stampRec, hrec]

/-- `ntp_tr_queue_resp_kp`. -/
theorem alone_queueRespKp :
    Alone f env a cell a.req s (.touch .queueResp (.key .saveTid)) (ntpTrQueueRespKp f s env a.req) := by
  refine .onWay (by simp [Work.keyPc, FrontPc.keyPc]) (show _ = a.req.val from rfl) (fun _ => rfl) ?_
  refine .onWay (by simp [Work.keyPc, FrontPc.keyPc]) (show _ = a.req.val from rfl) (fun _ => rfl) ?_
  have hnext : Alone f env a cell a.req { s with respCtx := ctxPut s.respCtx env { tid := env.tid, req := a.req } }
      (.touch .queueResp .gate) _ := alone_queueResp
  simpa [ntpTrQueueRespKp, ctxPut] using hnext

/-- `ntp_t_req_init`: the record that is in the way. -/
theorem Alone.flush {q : U16 × U16}
    (h : Alone f env a cell a.req (flushOpen s env a.req) (.init (.sample q)) s') :
    Alone f env a cell a.req s (.init (.gate q)) s' := by
  by_cases hidle : s.inflight = 0
  · rw [flushOpen, if_pos hidle] at h
    exact .next rfl (fun _ => by simp only [Work.step, initStep, if_pos hidle]; rfl) h
  · rw [flushOpen, if_neg hidle] at h
    refine .next rfl (fun _ => by simp only [Work.step, initStep, if_neg hidle]; rfl) ?_
    cases hrec : s.tgtRec a.req with
    | none =>
      have hentry : (s.tgtEntry a.req).isSome = false := by
        simpa [TgtState.tgtRec] using hrec
      rw [hrec] at h
      exact .next rfl (fun _ => if_neg (by simp [hentry])) h
    | some r =>
      obtain ⟨hreq, hr⟩ := TgtState.tgtRec_eq_some.mp hrec
      have hentry := TgtState.tgtEntry_eq_some.mpr ⟨hreq, rfl⟩
      have hemit : ∀ s mine p, (Work.init (.emit q p)).step f s env mine a a.req =
          emitStep false (fun p => .init (.emit q p)) (.init (.sample q)) s env mine a.req p := fun _ _ _ => rfl
      rw [hrec, ← hr] at h
      exact .next rfl (fun _ => if_pos (by simp [hentry])) (.next rfl (fun _ => rfl) (.next rfl (fun _ => rfl) (.emit (fun _ => rfl) (fun _ => rfl) hemit h)))

/-- `ntp_t_req_init`: the new record. -/
theorem alone_sample {q : U16 × U16} : Alone f env a cell a.req s (.init (.sample q)) ((a.wanted f).elim s fun c =>
    storeTgtRec s a.req (newTgtRec .rdma f env a c q.1 q.2 (tgtSampled .rdma f s env a))) := by
  cases hwanted : a.wanted f with
  | none => exact .next rfl (fun _ => by simp only [Work.step, initStep, hwanted]; rfl) .idle
  | some c =>
    refine .next rfl (fun _ => by simp only [Work.step, initStep, hwanted]; rfl) ?_
    simp only [Option.elim_some, storeTgtRec]
    by_cases hfree : (s.treqs (ntpSlot a.req)).req ≠ 0
    · rw [if_pos hfree]
      refine .next rfl (fun _ => if_pos hfree) ?_
      refine .tally (fun p => .init (.stale q c p)) (fun _ => rfl) rfl (fun _ _ => rfl) ?_
      refine .next rfl (fun _ => rfl) (.next rfl (fun _ => rfl) (.next rfl (fun _ => rfl) ?_))
      refine .next rfl (fun _ => rfl) (.next rfl (fun _ => rfl) ?_)
      refine .tally (fun p => .init (.sampled p)) (fun _ => rfl) rfl (fun _ _ => rfl) (.done ?_)
      simp [TgtState.setRec, TgtState.setEntry, TgtState.count, tgtSampled]
    · rw [if_neg hfree]
      refine .next rfl (fun _ => if_neg hfree) ?_
      refine .next rfl (fun _ => rfl) (.next rfl (fun _ => rfl) (.next rfl (fun _ => rfl) ?_))
      refine .next rfl (fun _ => rfl) (.next rfl (fun _ => rfl) ?_)
      refine .tally (fun p => .init (.sampled p)) (fun _ => rfl) rfl (fun _ _ => rfl) (.done ?_)
      simp [TgtState.setRec, TgtState.setEntry, TgtState.count, TgtState.inflightAdd, tgtSampled]

theorem reqInitOurs_rdma : reqInitOurs .rdma f s env a =
    let s₁ := flushOpen ((countCommand f s a).1.count .tgtCmds) env a.req
    (a.wanted f).elim s₁ fun c => storeTgtRec s₁ a.req
      (newTgtRec .rdma f env a c (countCommand f s a).2.1 (countCommand f s a).2.2 (tgtSampled .rdma f s₁ env a)) := by
  simp only [reqInitOurs, rememberOurs, rememberSampled, reduceCtorEq, false_and, if_false]
  cases hcmd : a.cmd with
  | none => simp [ReqInitArgs.wanted, hcmd]
  | some c =>
    simp only [ReqInitArgs.wanted, hcmd, Option.filter_some]
    by_cases hrw : ntpIsRw c.opcode
    · by_cases htype : ntpTypeMatches f c.opcode
      · by_cases hsampled : ntpSampled f c.commandId c.slba c.length
        · simp [hrw, htype, hsampled]
        · simp [hrw, htype, hsampled]
      · simp [hrw, htype]
    · simp [hrw]

/-- `ntp_t_req_init`. -/
theorem alone_init : Alone f env a cell a.req s (.init .enter) (ntpTReqInit .rdma f s env a) := by
  by_cases hours : reqInitRecognised .rdma s env a
  · rw [ntpTReqInit, if_pos hours, reqInitOurs_rdma]
    refine .next rfl (fun _ => if_pos hours) ?_
    exact .tally (fun p => .init (.cmds _ p)) (fun _ => rfl) rfl (fun _ _ => rfl) (.flush alone_sample)
  · rw [ntpTReqInit, if_neg hours]
    exact .next rfl (fun _ => if_neg hours) .idle

/-- A hook that no other one interrupts does what it does as a whole. -/
theorem alone_whole (kind : Kind) : Alone f env a cell a.req s kind.work (kind.whole f s env a) := by
  cases kind with
  | init => exact alone_init
  | touch b p =>
    cases b with
    | execute transferLen inlineData => exact alone_execute transferLen inlineData
    | readDone => exact alone_readDone
    | exec transferLen => exact alone_exec transferLen
    | beIssue => exact alone_beIssue
    | beDone => exact alone_beDone
    | complete => exact alone_complete
    | queueResp =>
      cases p with
      | fentry => exact alone_queueResp
      | kprobe => exact alone_queueRespKp
  | rsp e p =>
    cases e with
    | posted =>
      cases p with
      | fentry => exact alone_queueRespFx
      | kprobe => exact alone_queueRespKr
    | sendDone => exact alone_sendDone

end Alone

section Machine

variable {cpus : Cpus} (f : Filter) {args : ℕ → ReqInitArgs} {m : Machine cpus} {t : Context cpus}

theorem scalar_access : (m.access f args t).scalar = if (m.hooks t).work.keyPc = some .put then
    Function.update m.scalar (m.hooks t).env.cpu (args (m.hooks t).cmd).req else m.scalar := by
  have hfinish : ∀ next, (m.finish (m.hooks t) next).scalar = m.scalar := by
    intro next
    simp only [Machine.finish]
    split <;> rfl
  simp only [Machine.access, hfinish]

theorem counters_access : (m.access f args t).counters = Function.update m.counters (m.hooks t).env.cpu
    ((m.hooks t).work.tally (m.counters (m.hooks t).env.cpu)) := by
  simp only [Machine.access, Machine.finish]
  split <;> rfl

/-- The hook in `t` is at `w`, with all it works on. -/
structure Machine.At (m : Machine cpus) (args : ℕ → ReqInitArgs) (t : Context cpus) (env : HookEnv) (a : ReqInitArgs)
    (cell key : U64) (s : TgtState) (w : Work) : Prop where
  st : m.st = s
  scalar : m.scalar env.cpu = cell
  work : (m.hooks t).work = w
  key : (m.hooks t).key = key
  env : (m.hooks t).env = env
  args : args (m.hooks t).cmd = a

/-- One access. -/
theorem Machine.At.access {env : HookEnv} {a : ReqInitArgs} {cell key cell₁ key₁ : U64} {s s₁ : TgtState} {w w₁ : Work}
    {note : Note} (h : m.At args t env a cell key s w) (hcell : (if w.keyPc = some .put then a.req.val else cell) = cell₁)
    (hkey : w.keyAfter cell (s.respCtx env.cpu).req key = key₁)
    (hstep : w.step f s env (m.counters env.cpu) a key₁ = ⟨s₁, w₁, note⟩) :
    (m.access f args t).At args t env a cell₁ key₁ s₁ w₁ := by
  obtain ⟨hst, hscalar, hwork, hkeyed, henv, hargs⟩ := h
  have hafter : m.key t = key₁ := by
    rw [Machine.key, hwork, henv, hscalar, hst, hkeyed, hkey]
  have hout : m.out f args t = ⟨s₁, w₁, note⟩ := by
    rw [Machine.out, hafter, hst, hwork, henv, hargs, hstep]
  have hhook : (m.access f args t).hooks t = { m.hooks t with work := w₁, key := key₁ } := by
    rw [hooks_access, if_pos rfl, hout, hafter]
  refine ⟨congrArg Out.st hout, ?_, by rw [hhook], by rw [hhook], by rw [hhook]; exact henv, by rw [hhook]; exact hargs⟩
  rw [scalar_access, hwork, henv, hargs, ← hcell, ← hscalar]
  split_ifs
  · exact Function.update_self ..
  · rfl

/-- A hook makes its accesses, one after the other. -/
theorem Alone.run {env : HookEnv} {a : ReqInitArgs} {cell key : U64} {s s' : TgtState} {w : Work}
    (h : Alone f env a cell key s w s') (hat : m.At args t env a cell key s w) :
    ∃ n, (m.run f args (List.replicate n (.step t))).st = s' ∧
      ((m.run f args (List.replicate n (.step t))).hooks t).work = .idle := by
  induction h generalizing m with
  | idle => exact ⟨0, hat.st, hat.work⟩
  | access hcell hkey hstep _ ih =>
    obtain ⟨n, hn⟩ := ih (hat.access f hcell hkey (hstep _))
    exact ⟨n + 1, hn⟩
  | @count cell key s s' i here rest hkeyPc hsaving hstep _ ih =>
    have hput : ∀ p, ¬ (here p).keyPc = some .put := fun p => by simp [hkeyPc]
    have hsame : ∀ p r, (here p).keyAfter cell r key = key := fun p r => by simp [Work.keyAfter, hkeyPc]
    have hloaded := hat.access f (if_neg (hput _)) (hsame _ _) (hstep _ .load)
    -- no other hook has counted since then
    have hmine : (m.access f args t).counters env.cpu = m.counters env.cpu := by
      rw [counters_access, hat.env, Function.update_self, hat.work, Work.tally, hsaving]
      split <;> simp_all
    have hsaved := hloaded.access f (if_neg (hput _)) (hsame _ _) (hstep _ (.save (m.counters env.cpu i)))
    have hone : m.counters env.cpu i + 1 - m.counters env.cpu i = 1 := by
      rw [BitVec.add_comm, BitVec.add_sub_cancel]
    rw [hmine, hone] at hsaved
    obtain ⟨n, hn⟩ := ih hsaved
    exact ⟨n + 2, hn⟩

/-- A hook that begins and is not interrupted leaves the state in which it leaves it as a whole. -/
theorem hook_alone (m : Machine cpus) (t : Context cpus) (cmd : ℕ) (kind : Kind) (env : HookEnv) :
    ∃ n, (m.run f args (.start t cmd kind env :: List.replicate n (.step t))).st = kind.whole f m.st env (args cmd) ∧
      ((m.run f args (.start t cmd kind env :: List.replicate n (.step t))).hooks t).work = .idle := by
  have hhook : (m.start args t cmd kind env).hooks t = ⟨cmd, env, kind.work, (args cmd).req⟩ := by
    cases kind <;> exact Function.update_self ..
  have hst : (m.start args t cmd kind env).st = m.st := by cases kind <;> rfl
  obtain ⟨n, hn⟩ := (alone_whole kind).run f
    ⟨hst, rfl, by rw [hhook], by rw [hhook], by rw [hhook], by rw [hhook]⟩
  exact ⟨n, hn⟩

end Machine

end Ntprof.Bpf
