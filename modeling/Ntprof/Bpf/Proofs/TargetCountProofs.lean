import Ntprof.Bpf.QueueCounts
import Ntprof.Bpf.Proofs.BalancedProofs

/-!
# The target's queue counts

A command enters `tcounted` and the counts of its queue in `nvmet_req_init`, which first takes off the
command before it on the same `nvmet_req`; its response is counted when it is queued, and both counts are
taken off when it is sent.
-/

namespace Ntprof.Bpf

open BpfMap PrefixRun

/-! ## The target -/

/-- The invariant of the target's counts. -/
structure TgtState.CountInv (s : TgtState) : Prop where
  balanced : Balanced TqStat.outstanding TqStat.respQueue TCounted.sq TCounted.flags s.tqstats s.tcounted
  max : s.tcounted.maxEntries = 65536

/-- The two maps of the counts. -/
def TgtState.counts (s : TgtState) : BpfMap U64 TqStat × BpfMap U64 TCounted := (s.tqstats, s.tcounted)

section Target

variable {s s' : TgtState} {f : Filter} {env : HookEnv} {req : U64}

theorem TgtState.CountInv.congr (h : s.CountInv) (heq : s'.counts = s.counts) : s'.CountInv := by
  obtain ⟨hq, hc⟩ := Prod.mk.inj heq
  constructor
  · rw [hq, hc]
    exact h.balanced
  · rw [hc]
    exact h.max

theorem TgtState.countInv_init : CountInv {} where
  balanced :=
    { ok := ok_empty 65536
      first := fun _ he => absurd he List.not_mem_nil
      second := fun _ he => absurd he List.not_mem_nil
      held := fun _ he => absurd he List.not_mem_nil }
  max := rfl

theorem TgtState.CountInv.exact (h : s.CountInv) : s.Exact where
  outstanding := (inStep_iff h.balanced.ok h.max).mp h.balanced.first
  respQueue := (inStep_iff h.balanced.ok h.max).mp h.balanced.second
  held := h.balanced.held

/-- The flags in `drop` go off the counts of a queue. -/
def TqStat.dropped (drop : U32) (q : TqStat) : TqStat where
  outstanding := if drop &&& cntOutstanding ≠ 0 then q.outstanding - 1 else q.outstanding
  respQueue := if drop &&& cntRespQueued ≠ 0 then q.respQueue - 1 else q.respQueue

theorem TgtState.forget_counts {c : TCounted} (hc : s.tcounted.lookup req = some c) (bits : U32) :
    (s.uncount req bits true).counts =
      (s.tqstats.modify c.sq (TqStat.dropped (c.flags &&& bits)), s.tcounted.delete req) := by
  unfold TgtState.uncount
  rw [hc]
  exact Prod.ext rfl (delete_modify _)

theorem TgtState.uncount_none (hc : s.tcounted.lookup req = none) (bits : U32) (forget : Bool) :
    s.uncount req bits forget = s := by
  unfold TgtState.uncount
  rw [hc]

/-- A command leaves the counts. -/
theorem TgtState.CountInv.forget (h : s.CountInv) (req : U64) :
    (s.uncount req (cntOutstanding ||| cntRespQueued) true).CountInv := by
  cases hc : s.tcounted.lookup req with
  | none =>
    rw [uncount_none hc]
    exact h
  | some c =>
    have hforget := h.balanced.forget (u := TqStat.dropped (c.flags &&& (cntOutstanding ||| cntRespQueued))) hc
      (fun v => by simp only [TqStat.dropped, cntOutstanding, cntRespQueued, and_both_one])
      (fun v => by simp only [TqStat.dropped, cntOutstanding, cntRespQueued, and_both_two])
    obtain ⟨hq, hn⟩ := Prod.mk.inj (forget_counts hc (cntOutstanding ||| cntRespQueued))
    constructor
    · rw [hq, hn]
      exact hforget
    · rw [hn]
      exact h.max

theorem TgtState.CountInv.tgtUncount (h : s.CountInv) (f : Filter) (req : U64) :
    (s.tgtUncount f req).CountInv := by
  unfold TgtState.tgtUncount
  split_ifs
  · exact h.forget req
  · exact h

/-- A response is queued. -/
theorem TgtState.CountInv.countRespQueued (h : s.CountInv) (req : U64) : (s.countRespQueued req).CountInv := by
  unfold TgtState.countRespQueued
  cases hc : s.tcounted.lookup req with
  | none => exact h
  | some c =>
    dsimp only
    by_cases hset : c.flags &&& cntRespQueued ≠ 0
    · rw [if_pos hset]
      exact h
    · rw [if_neg hset]
      constructor
      · exact h.balanced.raise (u := fun q => { q with respQueue := q.respQueue + 1 }) hc hset
          (g := fun c => { c with flags := c.flags ||| cntRespQueued }) (fun _ => rfl) rfl (fun _ => rfl)
          (fun _ => rfl)
      · exact h.max

theorem TgtState.CountInv.getTqstat (h : s.CountInv) (sq : U64) : (s.getTqstat sq).CountInv where
  balanced := h.balanced.newQueue rfl rfl
  max := h.max

/-- What a new command adds to the counts of its queue. -/
def TqStat.arrived (q : TqStat) : TqStat := { q with outstanding := q.outstanding + 1 }

/-- In `ntp_t_req_init`: the previous command on the `nvmet_req` is taken off the counts. -/
def reqReused (s : TgtState) (a : ReqInitArgs) : TgtState :=
  (s.getTqstat a.sq).uncount a.req (cntOutstanding ||| cntRespQueued) true

variable {a : ReqInitArgs}

theorem TgtState.CountInv.reused (h : s.CountInv) (a : ReqInitArgs) : (reqReused s a).CountInv :=
  (h.getTqstat a.sq).forget a.req

/-- Its entry is gone. -/
theorem reqReused_lookup : (reqReused s a).tcounted.lookup a.req = none := by
  unfold reqReused
  cases hc : (s.getTqstat a.sq).tcounted.lookup a.req with
  | none =>
    rw [TgtState.uncount_none hc]
    exact hc
  | some c =>
    rw [(Prod.mk.inj (TgtState.forget_counts hc _)).2, lookup_eq_none, List.mem_map]
    rintro ⟨e, he, hek⟩
    exact absurd hek (by simpa using (List.mem_filter.mp he).2)

/-- There is room in `tcounted` unless it is full of other commands. -/
theorem reqReused_full (h : s.CountInv) :
    (reqReused s a).tcounted.full = ((s.tcounted.lookup a.req).isNone && s.tcounted.full) := by
  unfold reqReused
  cases hc : s.tcounted.lookup a.req with
  | none =>
    have hc' : (s.getTqstat a.sq).tcounted.lookup a.req = none := hc
    rw [TgtState.uncount_none hc']
    rfl
  | some c =>
    have hc' : (s.getTqstat a.sq).tcounted.lookup a.req = some c := hc
    rw [(Prod.mk.inj (TgtState.forget_counts hc' _)).2]
    exact full_delete h.balanced.ok hc

/-- The queue has counts unless `tqstats` is full of other queues. -/
theorem reqReused_queue :
    ((reqReused s a).tqstats.lookup a.sq).isSome = ((s.tqstats.lookup a.sq).isSome || !s.tqstats.full) := by
  rw [← lookup_updateNoExist_isSome s.tqstats a.sq {}]
  unfold reqReused
  cases hc : (s.getTqstat a.sq).tcounted.lookup a.req with
  | none =>
    rw [TgtState.uncount_none hc]
    rfl
  | some c =>
    rw [(Prod.mk.inj (TgtState.forget_counts hc _)).1, Bool.eq_iff_iff, lookup_isSome, keys_modify,
      ← lookup_isSome]
    rfl

/-- The command goes on the counts of its queue, and into `tcounted` if there is room. -/
theorem countCommand_new (hf : f.trackQueues = true) (hq : ((reqReused s a).tqstats.lookup a.sq).isSome) :
    (countCommand f s a).1.counts =
      ((reqReused s a).tqstats.modify a.sq TqStat.arrived,
        (reqReused s a).tcounted.updateAny a.req ⟨a.sq, cntOutstanding⟩) := by
  obtain ⟨q, hq⟩ := Option.isSome_iff_exists.mp hq
  unfold reqReused at hq
  unfold countCommand
  rw [if_pos hf]
  simp only [hq]
  rfl

/-- A queue without counts. -/
theorem countCommand_none (hf : f.trackQueues = true) (hq : (reqReused s a).tqstats.lookup a.sq = none) :
    (countCommand f s a).1.counts = (reqReused s a).counts := by
  unfold reqReused at hq
  unfold countCommand
  rw [if_pos hf]
  simp only [hq]
  rfl

theorem TgtState.CountInv.countCommand (h : s.CountInv)
    (hroom : f.trackQueues = true → ((reqReused s a).tqstats.lookup a.sq).isSome →
      (reqReused s a).tcounted.full = false) : (countCommand f s a).1.CountInv := by
  cases hf : f.trackQueues with
  | false =>
    unfold Ntprof.Bpf.countCommand
    rw [hf]
    exact h
  | true =>
    have hreused := h.reused a
    cases hq : (reqReused s a).tqstats.lookup a.sq with
    | none => exact hreused.congr (countCommand_none hf hq)
    | some q =>
      have hsome : ((reqReused s a).tqstats.lookup a.sq).isSome := by
        rw [hq]
        rfl
      have hone : decide (cntOutstanding &&& 1 ≠ 0) = true := by decide
      have htwo : decide (cntOutstanding &&& 2 ≠ 0) = false := by decide
      have hc := reqReused_lookup (s := s) (a := a)
      have hcount := hreused.balanced.count (u := TqStat.arrived) (c := ⟨a.sq, cntOutstanding⟩) hc
        (hroom hf hsome) hsome (fun _ => by rw [hone]; rfl) (fun _ => by rw [htwo]; simp [TqStat.arrived])
      obtain ⟨hqs, hn⟩ := Prod.mk.inj (countCommand_new hf hsome)
      constructor
      · rw [hqs, hn]
        exact hcount
      · rw [hn, updateAny_of_none hc, updateNoExist_of_room hc (hroom hf hsome)]
        exact hreused.max

/-- A command that is counted while `tcounted` is full is lost. -/
theorem TgtState.CountInv.not_exact (h : s.CountInv) (hf : f.trackQueues = true)
    (hq : ((reqReused s a).tqstats.lookup a.sq).isSome)
    (hfull : (reqReused s a).tcounted.full = true)
    (heq : s'.counts = (Ntprof.Bpf.countCommand f s a).1.counts) : ¬ s'.Exact := by
  intro hex
  have hreused := h.reused a
  rw [countCommand_new hf hq, updateAny_of_none reqReused_lookup, updateNoExist_of_full hfull] at heq
  obtain ⟨hqs, hn⟩ := Prod.mk.inj heq
  refine not_inStep_of_lost (u := TqStat.arrived) hreused.balanced.first hq (fun _ => rfl) ?_
  refine (inStep_iff hreused.balanced.ok hreused.max).mpr ?_
  intro e he
  rw [← hqs] at he
  have hcount := hex.outstanding e he
  rw [hn] at hcount
  exact hcount

/-! The other parts of a hook leave the counts alone. -/

@[simp] theorem TgtState.inflightAdd_counts (d : S64) : (s.inflightAdd d).counts = s.counts := rfl

@[simp] theorem TgtState.setEntry_counts (req : U64) (e : TgtEntry) : (s.setEntry req e).counts = s.counts := rfl

@[simp] theorem TgtState.setRec_counts (req : U64) (r : TgtRec) : (s.setRec req r).counts = s.counts := rfl

@[simp] theorem TgtState.stampRec_counts (req : U64) (i : TgtTs) (t : U64) :
    (s.stampRec req i t).counts = s.counts := by
  unfold TgtState.stampRec
  split <;> rfl

@[simp] theorem TgtState.tgtEmit_counts (env : HookEnv) (req : U64) : (s.tgtEmit env req).counts = s.counts := by
  unfold TgtState.tgtEmit
  split
  · rfl
  · rw [inflightAdd_counts, setEntry_counts]
    split_ifs <;> rfl

theorem TgtState.CountInv.tgtFinish (h : s.CountInv) (req : U64) : (s.tgtFinish f env req).CountInv :=
  (h.tgtUncount f req).congr (tgtEmit_counts ..)

theorem TgtState.CountInv.if_countRespQueued (h : s.CountInv) (b : Bool) (req : U64) :
    (if b then s.countRespQueued req else s).CountInv := by
  cases b with
  | false => exact h
  | true => exact h.countRespQueued req

@[simp] theorem rspPartDone_counts (s : TgtState) (req : U64) (part : U32) :
    (rspPartDone s env req part).counts = s.counts := by
  unfold rspPartDone
  split
  · rfl
  · dsimp only
    split_ifs
    · rw [TgtState.tgtEmit_counts]
      rfl
    · rfl

/-- Past its early returns, `ntp_t_req_init` does to the counts what counting the command does. -/
theorem reqInitOurs_counts (tr : Transport) :
    (reqInitOurs tr f s env a).counts = (countCommand f (rememberOurs tr f s env a) a).1.counts := by
  have hflush : ∀ s : TgtState, (flushOpen s env a.req).counts = s.counts := by
    intro s
    unfold flushOpen
    split_ifs
    · rfl
    · split
      · rfl
      · rw [TgtState.tgtEmit_counts, TgtState.setRec_counts]
  have hremember : ∀ s : TgtState, (rememberSampled tr s env a).counts = s.counts := by
    intro s
    unfold rememberSampled
    split_ifs <;> rfl
  have hstore : ∀ (s : TgtState) (r : TgtRec), (storeTgtRec s a.req r).counts = s.counts := by
    intro s r
    unfold storeTgtRec
    split_ifs <;> rfl
  unfold reqInitOurs
  dsimp only
  split
  · rw [hflush]
    rfl
  · split_ifs
    · rw [hflush]
      rfl
    · rw [hflush]
      rfl
    · rw [hflush]
      rfl
    · rw [hstore, hremember, hflush]
      rfl

theorem TgtState.CountInv.tcpOnQueueResp (h : s.CountInv) (a : TcpRespArgs) :
    (tcpOnQueueResp f s env a).CountInv := by
  have hcount := h.if_countRespQueued f.trackQueues a.req
  unfold Ntprof.Bpf.tcpOnQueueResp
  by_cases hidle : s.idle f = true
  · rw [if_pos hidle]
    exact h
  rw [if_neg hidle]
  by_cases hdata : ((f.trackQueues || (s.tgtRec a.req).isSome) && a.needDataIn) = true
  · rw [if_pos hdata]
    exact h.congr (stampRec_counts ..)
  · rw [if_neg hdata]
    exact hcount.congr (stampRec_counts ..)

theorem TgtState.CountInv.rdmaOnQueueResp (h : s.CountInv) (req : KAddr) :
    (rdmaOnQueueResp f s env req).CountInv := by
  have hcount := h.if_countRespQueued f.trackQueues req
  unfold Ntprof.Bpf.rdmaOnQueueResp
  by_cases hidle : s.idle f = true
  · rw [if_pos hidle]
    exact h
  · rw [if_neg hidle]
    exact hcount.congr (stampRec_counts ..)

theorem TgtState.CountInv.onQueueRespExit (h : s.CountInv) (req : U64) :
    (onQueueRespExit f s env req).CountInv := by
  have hposted : (respPosted s env req).counts = s.counts := by
    unfold respPosted
    split
    · rfl
    · rw [rspPartDone_counts, setRec_counts]
  unfold Ntprof.Bpf.onQueueRespExit
  split_ifs
  · exact h
  · exact (h.congr hposted).tgtUncount f req

theorem TgtState.CountInv.sendPdu (h : s.CountInv) (req : U64) (a : SendmsgArgs) :
    (sendPdu f s env req a).CountInv := by
  have hsent : ∀ i, (s.stampRec req i env.now).CountInv := fun i => h.congr (stampRec_counts ..)
  unfold Ntprof.Bpf.sendPdu
  cases a.state with
  | r2t => exact hsent .r2tSent
  | dataPdu =>
    dsimp only
    cases a.sqhdDisabled with
    | false => exact hsent .c2hSent
    | true =>
      refine TgtState.CountInv.tgtFinish ?_ req
      split
      · exact hsent .c2hSent
      · exact (hsent .c2hSent).congr (setRec_counts ..)
  | response =>
    refine TgtState.CountInv.tgtFinish ?_ req
    split
    · exact h
    · exact h.congr (setRec_counts ..)
  | other => exact h

theorem TgtState.CountInv.onSendmsg (h : s.CountInv) (a : SendmsgArgs) : (onSendmsg f s env a).CountInv := by
  unfold Ntprof.Bpf.onSendmsg
  cases a.sndCmd with
  | none => split_ifs <;> exact h
  | some req =>
    dsimp only
    split_ifs
    · exact h
    · exact h
    · exact h
    · exact h
    · exact h.sendPdu req a

/-! The hooks that only write to a record. -/

theorem onExec_counts (transferLen : U32) : (onExec s env req transferLen).counts = s.counts := by
  unfold onExec
  split_ifs
  · rfl
  split
  · rfl
  · split_ifs <;> rfl

theorem ntpTBeIssue_counts : (ntpTBeIssue s env req).counts = s.counts := by
  unfold ntpTBeIssue
  split <;> rfl

theorem ntpTBeDone_counts : (ntpTBeDone s env req).counts = s.counts := by
  unfold ntpTBeDone
  split <;> rfl

theorem ntpTComplete_counts : (ntpTComplete s env req).counts = s.counts := by
  unfold ntpTComplete
  split_ifs
  · rfl
  · split <;> rfl

theorem onCopyDone_counts (a : CopyDoneArgs) : (onCopyDone f s env a).counts = s.counts := by
  have hcopy : ∀ (s : TgtState) (c : TcpRx), (copyDone f s env c a).counts = s.counts := by
    intro s c
    unfold copyDone
    cases a.cmd with
    | none => split_ifs <;> rfl
    | some req =>
      dsimp only
      cases s.tgtRec req with
      | none => split_ifs <;> rfl
      | some r =>
        dsimp only
        split_ifs <;> rfl
  unfold onCopyDone
  split_ifs
  · rfl
  split
  · rfl
  · dsimp only
    split_ifs
    · rfl
    · rw [hcopy]
      rfl

theorem onH2c_counts (req : KAddr) (sk : U64) (tstamp : S64) : (onH2c f s env req sk tstamp).counts = s.counts := by
  unfold onH2c
  split_ifs
  · rfl
  split
  · rfl
  · split_ifs <;> rfl

theorem onExecute_counts (req : KAddr) (transferLen : U32) (inlineData : Bool) :
    (onExecute s env req transferLen inlineData).counts = s.counts := by
  unfold onExecute
  cases s.tgtRec req with
  | none => split_ifs <;> rfl
  | some r =>
    dsimp only
    split_ifs <;> rfl

theorem onReadDone_counts (req : KAddr) : (onReadDone s env req).counts = s.counts := by
  unfold onReadDone
  split_ifs
  · rfl
  split
  · rfl
  · split_ifs <;> rfl

theorem onSendDone_counts (req : KAddr) : (onSendDone s env req).counts = s.counts := by
  unfold onSendDone
  split_ifs
  · rfl
  split
  · rfl
  · rw [rspPartDone_counts, TgtState.setRec_counts]

theorem rememberOurs_counts (tr : Transport) (f : Filter) (s : TgtState) (env : HookEnv) (a : ReqInitArgs) :
    (rememberOurs tr f s env a).counts = s.counts := by
  unfold rememberOurs
  split_ifs <;> rfl

/-- A hook that does not count a command while `tcounted` is full keeps the invariant. -/
theorem TgtState.CountInv.step (h : s.CountInv) (tr : Transport) (e : TgtEvent)
    (hfits : tgtOverflow tr f s e = false) : (tgtStep tr f s e).CountInv := by
  cases e with
  | arm on => exact h.congr rfl
  | reqInit seen env a =>
    show (if seen then ntpTReqInit tr f s env a else s).CountInv
    unfold ntpTReqInit
    split_ifs with hseen hours
    · have hremember := h.congr (rememberOurs_counts tr f s env a)
      refine TgtState.CountInv.congr (hremember.countCommand ?_) (reqInitOurs_counts tr)
      intro hf hq
      obtain ⟨hqs, hn⟩ := Prod.mk.inj (rememberOurs_counts tr f s env a)
      rw [reqReused_queue, hqs] at hq
      rw [reqReused_full hremember, hn]
      simpa [tgtOverflow, hseen, hours, hf, hq] using hfits
    · exact h
    · exact h
  | exec env req transferLen => exact h.congr (onExec_counts transferLen)
  | beIssue env priv => exact h.congr ntpTBeIssue_counts
  | beDone env priv => exact h.congr ntpTBeDone_counts
  | complete env req => exact h.congr ntpTComplete_counts
  | tcp env e =>
    show (if tr = .tcp then e.run f s env else s).CountInv
    by_cases htr : tr = .tcp
    · rw [if_pos htr]
      cases e with
      | copy skb sk offset => exact h.congr rfl
      | copyDone a => exact h.congr (onCopyDone_counts a)
      | queueResp a => exact h.tcpOnQueueResp a
      | h2c req sk tstamp => exact h.congr (onH2c_counts req sk tstamp)
      | sendmsg a => exact h.onSendmsg a
    · rw [if_neg htr]
      exact h
  | rdma env e =>
    show (if tr = .rdma then e.run f s env else s).CountInv
    by_cases htr : tr = .rdma
    · rw [if_pos htr]
      cases e with
      | recvDone qpContext => exact h.congr rfl
      | recvDoneExit => exact h.congr rfl
      | execute req transferLen inlineData => exact h.congr (onExecute_counts ..)
      | readDone req => exact h.congr (onReadDone_counts req)
      | queueRespFe req => exact h.rdmaOnQueueResp req
      | queueRespFx req => exact h.onQueueRespExit req
      | queueRespKp req =>
        have hctx : TgtState.CountInv
            { s with respCtx := ctxPut s.respCtx env { tid := env.tid, req := req } } := h.congr rfl
        exact hctx.rdmaOnQueueResp req
      | queueRespKr own =>
        show (ntpTrQueueRespKr f s env).CountInv
        unfold ntpTrQueueRespKr
        split
        · exact h
        · rename_i c _
          have hctx : TgtState.CountInv { s with respCtx := ctxPut s.respCtx env { c with tid := 0 } } :=
            h.congr rfl
          exact hctx.onQueueRespExit c.req
      | sendDone req => exact h.congr (onSendDone_counts req)
    · rw [if_neg htr]
      exact h

/-- A hook that does loses the command. -/
theorem TgtState.CountInv.overflow (h : s.CountInv) (tr : Transport) (e : TgtEvent)
    (hover : tgtOverflow tr f s e = true) : ¬ (tgtStep tr f s e).Exact := by
  cases e with
  | reqInit seen env a =>
    simp only [tgtOverflow, Bool.and_eq_true] at hover
    obtain ⟨⟨⟨⟨⟨hseen, hours⟩, hf⟩, hc⟩, hq⟩, hfull⟩ := hover
    obtain ⟨hqs, hn⟩ := Prod.mk.inj (rememberOurs_counts tr f s env a)
    have hremember := h.congr (rememberOurs_counts tr f s env a)
    refine hremember.not_exact (a := a) hf ?_ ?_ ?_
    · rw [reqReused_queue, hqs]
      exact hq
    · rw [reqReused_full hremember, hn, hc, hfull]
      rfl
    · show (if seen then ntpTReqInit tr f s env a else s).counts = _
      unfold ntpTReqInit
      rw [if_pos hseen, if_pos hours]
      exact reqInitOurs_counts tr
  | _ => exact absurd hover (by simp [tgtOverflow])

/-- In every state of a run the counts are exact, if and only if none of its commands is counted while
`tcounted` is full. -/
theorem TgtState.CountInv.run_iff (h : s.CountInv) (tr : Transport) (es : List TgtEvent) :
    (∀ es', es' <+: es → (tgtRun tr f s es').Exact) ↔ tgtFits tr f s es = true :=
  forall_prefix_iff (fun _ hs => hs.exact) (fun _ e hs he => hs.step tr e he)
    (fun _ e hs he => hs.overflow tr e he) h es

end Target

end Ntprof.Bpf
