import Ntprof.Bpf.DataCalls
import Ntprof.Bpf.Proofs.WritesProofs
import Ntprof.Bpf.Proofs.TargetRecordsProofs
import Ntprof.Bpf.Proofs.AttemptsProofs

/-!
# Arrivals in the records of NVMe/TCP

Every hook that stamps an arrival stamps the processing with it, or takes the arrival from the context of
the call it runs in. Either way `ntp_skb_arrival` has bounded it by a time that has passed.
-/

namespace Ntprof.Bpf

open ClockRun

theorem arrivedBefore_zero : ArrivedBefore 0 0 := ⟨BitVec.le_refl _, fun h => h⟩

/-! ## What a host hook does to one record -/

/-- The write keeps the order of arrival and processing. -/
def KeepsOrder (t : U64) (r r' : HostRec) : Prop := r.InOrderBy t → r'.InOrderBy t

instance (t : U64) : IsPreorder HostRec (KeepsOrder t) where
  refl _ h := h
  trans _ _ _ h h' hr := h' (h hr)

section Record

variable {t now : U64} {r : HostRec} {c : HostRx}

theorem inOrderBy_stamp {i : HostTs} (hi : i ∉ [.c2hArr, .c2hProc, .r2tArr, .r2tProc, .rspArr, .rspProc]) (u : U64)
    (hr : r.InOrderBy t) : (r.stamp i u).InOrderBy t := by
  have hts : ∀ j ∈ [HostTs.c2hArr, .c2hProc, .r2tArr, .r2tProc, .rspArr, .rspProc], (r.stamp i u).ts j = r.ts j := by
    intro j hj
    have hne : j ≠ i := by
      rintro rfl
      exact hi hj
    exact Function.update_of_ne hne ..
  constructor
  · constructor
    · rw [hts .c2hArr (by decide), hts .c2hProc (by decide)]
      exact hr.c2h
    · rw [hts .r2tArr (by decide), hts .r2tProc (by decide)]
      exact hr.r2t
    · rw [hts .rspArr (by decide), hts .rspProc (by decide)]
      exact hr.rsp
  · rw [hts .c2hProc (by decide)]
    exact hr.c2hProc
  · rw [hts .r2tProc (by decide)]
    exact hr.r2tProc
  · rw [hts .rspProc (by decide)]
    exact hr.rspProc

theorem inOrderBy_hostDataDone (c : HostRx) (now : U64) (hr : r.InOrderBy t) :
    (hostDataDone r c now).InOrderBy t := by
  unfold hostDataDone
  split
  · have hst : (r.stamp .c2hDone now).InOrderBy t := inOrderBy_stamp (by decide) now hr
    exact ⟨⟨hst.c2h, hst.r2t, hst.rsp⟩, hst.c2hProc, hst.r2tProc, hst.rspProc⟩
  · exact hr

theorem inOrderBy_firstData (hc : ArrivedBefore c.arrival now) (hnow : now ≤ t) (hr : r.InOrderBy t) :
    (firstData r c now).InOrderBy t := by
  unfold firstData
  split
  · exact ⟨⟨hc, hr.r2t, hr.rsp⟩, hnow, hr.r2tProc, hr.rspProc⟩
  · exact hr

theorem inOrderBy_completeRec (hc : ArrivedBefore c.arrival now) (h0 : c.arrival ≠ 0) (hnow : now ≤ t) (rq : U64)
    (hr : r.InOrderBy t) : (completeRec r c rq now).InOrderBy t := by
  have hst : ((r.stamp .rspArr c.arrival).stamp .rspProc now).InOrderBy t :=
    ⟨⟨hr.c2h, hr.r2t, hc⟩, hr.c2hProc, hr.r2tProc, hnow⟩
  unfold completeRec
  rw [if_pos h0]
  dsimp only
  split
  · exact inOrderBy_hostDataDone c now hst
  · exact hst

/-- The receiving hooks, in a call whose skb arrived before. -/
theorem keepsOrder_receiveWrites (hle : c.arrival ≤ now) (h0 : c.arrival ≠ 0) (hnow : now ≤ t) :
    ReceiveWrites (KeepsOrder t) c now where
  done _ hr := inOrderBy_hostDataDone c now hr
  lastArr _ hr := inOrderBy_stamp (by decide) _ hr
  first _ hr := inOrderBy_firstData ⟨hle, fun _ => h0⟩ hnow hr
  r2t _ hr := ⟨⟨hr.c2h, ⟨hle, fun _ => h0⟩, hr.rsp⟩, hr.c2hProc, hnow, hr.rspProc⟩
  rsp _ rq hr := inOrderBy_completeRec ⟨hle, fun _ => h0⟩ h0 hnow rq hr
  flags _ _ hr := ⟨⟨hr.c2h, hr.r2t, hr.rsp⟩, hr.c2hProc, hr.r2tProc, hr.rspProc⟩

theorem inOrderBy_newHostRec (tr : Transport) (f : Filter) (env : HookEnv) (a : SetupArgs) (cmd : NvmeCmd)
    (p : Pending) : (newHostRec tr f env a cmd p).InOrderBy t :=
  have hzero : (0 : U64) ≤ t := BitVec.le_def.mpr (Nat.zero_le _)
  ⟨⟨arrivedBefore_zero, arrivedBefore_zero, arrivedBefore_zero⟩, hzero, hzero, hzero⟩

theorem inOrderBy_doneRec (tr : Transport) (env : HookEnv) (hr : r.InOrderBy t) : (doneRec tr env r).InOrderBy t := by
  have hst : (r.stamp .blkDone env.now).InOrderBy t := inOrderBy_stamp (by decide) _ hr
  unfold doneRec
  dsimp only
  split
  · exact ⟨⟨hst.c2h, hst.r2t, hst.rsp⟩, hst.c2hProc, hst.r2tProc, hst.rspProc⟩
  · exact ⟨⟨hst.c2h, hst.r2t, hst.rsp⟩, hst.c2hProc, hst.r2tProc, hst.rspProc⟩

end Record

/-! ## Host runs -/

/-- Every receive context holds an arrival that is past, and one of a call that is open holds a known one. -/
def ArrivedCtx (now : U64) (slots : Nat → HostRx) : Prop :=
  ∀ cpu, (slots cpu).arrival ≤ now ∧ ((slots cpu).tid ≠ 0 → (slots cpu).arrival ≠ 0)

/-- The contexts still hold past arrivals. -/
def KeepsArrived (now : U64) (a b : Nat → HostRx) : Prop := ArrivedCtx now a → ArrivedCtx now b

instance (now : U64) : IsPreorder (Nat → HostRx) (KeepsArrived now) where
  refl _ h := h
  trans _ _ _ h h' ha := h' (h ha)

/-- The invariant at time `now`: everything processed so far was processed by `t`. -/
structure HostState.Arrived (t : U64) (s : HostState) (now : U64) : Prop where
  table : ∀ i, (s.reqs i).record.InOrderBy t
  events : ∀ r ∈ s.events, r.InOrderBy t
  ctx : ArrivedCtx now s.rxCtx

section HostRuns

variable {t now : U64} {k : Layout} {f : Filter} {s s' : HostState} {env : HookEnv}

theorem ArrivedCtx.put {slots : Nat → HostRx} (h : ArrivedCtx now slots) {c : HostRx} (hle : c.arrival ≤ now)
    (h0 : c.tid ≠ 0 → c.arrival ≠ 0) : ArrivedCtx now (ctxPut slots env c) := by
  intro cpu
  by_cases hcpu : cpu = env.cpu
  · rw [hcpu, ctxPut, Function.update_self]
    exact ⟨hle, h0⟩
  · rw [ctxPut, Function.update_of_ne hcpu]
    exact h cpu

theorem ArrivedCtx.get {slots : Nat → HostRx} (h : ArrivedCtx now slots) {c : HostRx}
    (hc : ntpCtxGet slots env = some c) : c.arrival ≤ now ∧ (c.tid ≠ 0 → c.arrival ≠ 0) ∧ c.tid = env.tid := by
  unfold ntpCtxGet at hc
  split at hc
  · rename_i htid
    obtain rfl := Option.some.inj hc
    exact ⟨(h env.cpu).1, (h env.cpu).2, htid⟩
  · cases hc

theorem HostState.Arrived.writes (h : s.Arrived t now) (hw : HostWrites (KeepsOrder t) (KeepsArrived now) s s') :
    s'.Arrived t now where
  table i := hw.record i (h.table i)
  events := by
    rw [hw.events]
    exact h.events
  ctx := hw.rxCtx h.ctx

theorem HostState.Arrived.store (h : s.Arrived t now) {rq queue : U64} {r : HostRec} (hr : r.InOrderBy t) :
    (storeHostRec s rq queue r).Arrived t now := by
  have hst := hostStored_storeHostRec s rq queue r
  refine ⟨fun i => ?_, ?_, ?_⟩
  · by_cases hi : i = ntpSlot rq
    · rw [hi, hst.record]
      exact hr
    · rw [hst.other i hi]
      exact h.table i
  · rw [hst.events]
    exact h.events
  · rw [storeHostRec_rxCtx]
    exact h.ctx

theorem HostState.Arrived.setup (h : s.Arrived t now) (a : SetupArgs) :
    (ntpHSetupCmd .tcp f s env a).Arrived t now := by
  by_cases hst : setupStores .tcp f s env a = true
  · obtain ⟨c, p, -, -, heq⟩ := ntpHSetupCmd_stores hst
    rw [heq]
    refine (h.writes ?_).store (inOrderBy_newHostRec ..)
    exact (writes_takePending .tcp s a).trans (writes_countThroughput _ c.opcode a.dataLen)
  · exact h.writes (writes_ntpHSetupCmd (by simpa using hst))

theorem HostState.Arrived.blkDone (h : s.Arrived t now) (rq : U64) : (ntpHBlkDone .tcp s env rq).Arrived t now := by
  by_cases h0 : s.inflight = 0
  · rw [ntpHBlkDone, if_pos h0]
    exact h
  cases he : s.hostEntry rq with
  | none =>
    rw [ntpHBlkDone, if_neg h0, he]
    exact h
  | some e =>
    obtain ⟨hreqs, hevents, hctx⟩ := ntpHBlkDone_some .tcp env h0 he
    obtain ⟨-, rfl⟩ := HostState.hostEntry_eq_some.mp he
    have hr : (doneRec .tcp env (s.reqs (ntpSlot rq)).record).InOrderBy t := inOrderBy_doneRec .tcp env (h.table _)
    refine ⟨fun i => ?_, fun r hmem => ?_, ?_⟩
    · rw [hreqs]
      by_cases hi : i = ntpSlot rq
      · rw [hi, Function.update_self]
        exact hr
      · rw [Function.update_of_ne hi]
        exact h.table i
    · rw [hevents, hostEmit_events] at hmem
      split at hmem
      · exact h.events r hmem
      · rcases List.mem_append.mp hmem with hmem | hmem
        · exact h.events r hmem
        · rw [List.mem_singleton.mp hmem]
          exact hr
    · rw [hctx]
      exact h.ctx

/-- The entry of a call. -/
theorem HostState.Arrived.enterCall (h : s.Arrived t env.now) (h0 : env.now ≠ 0) (skb userData : U64) (tstamp : S64) :
    (onRecvSkb f s env skb userData tstamp).Arrived t env.now := by
  unfold onRecvSkb
  split
  · exact h
  · exact ⟨h.table, h.events,
      h.ctx.put (ntpSkbArrival_le f tstamp env.now) fun _ => ntpSkbArrival_ne_zero f tstamp h0⟩

/-- A receiving hook in a thread. -/
theorem HostState.Arrived.receive (h : s.Arrived t env.now) (h0 : env.now ≠ 0) (hnow : env.now ≤ t) (htid : env.tid ≠ 0)
    {e : HostTcpEvent} (he : e.sends = false) : (e.run k f s env).Arrived t env.now := by
  refine h.writes (writes_receives (fun c hc => ?_) (fun c hc rq u hctx => ?_) (fun queue skb tstamp hctx => ?_)
      (fun counted hctx => ?_) he)
  · obtain ⟨hle, hknown, hown⟩ := h.ctx.get hc
    exact keepsOrder_receiveWrites hle (hknown (hown ▸ htid)) hnow
  · obtain ⟨hle, hknown, -⟩ := hctx.get hc
    exact hctx.put hle hknown
  · exact hctx.put (ntpSkbArrival_le f tstamp env.now) fun _ => ntpSkbArrival_ne_zero f tstamp h0
  · unfold recvSkbLeave
    split
    · exact hctx
    · rename_i c hc
      refine hctx.put ?_ fun hne => absurd rfl hne
      obtain ⟨hle, -, -⟩ := hctx.get hc
      split
      · exact hle
      · exact hle

/-- A hook of the transport. -/
theorem HostState.Arrived.tcp (h : s.Arrived t env.now) (h0 : env.now ≠ 0) (hnow : env.now ≤ t) (e : HostTcpEvent)
    (hthread : Threaded s (.tcp env e)) : (e.run k f s env).Arrived t env.now := by
  have hstamp : ∀ i : HostTs, i ∉ [HostTs.c2hArr, .c2hProc, .r2tArr, .r2tProc, .rspArr, .rspProc] →
      ∀ (r : HostRec) u, KeepsOrder t r (r.stamp i u) := fun i hi r u hr => inOrderBy_stamp hi u hr
  by_cases he : e.sends = true
  · exact h.writes (writes_sends (hstamp _ (by decide)) (hstamp _ (by decide)) (hstamp _ (by decide)) he)
  have hreceives := Bool.eq_false_iff.mpr he
  cases e with
  | recvSkb skb userData tstamp => exact h.enterCall h0 skb userData tstamp
  | recvSkbExit => exact h.receive h0 hnow hthread hreceives
  | copy skb pdu => exact h.receive h0 hnow hthread hreceives
  | r2t req => exact h.receive h0 hnow hthread hreceives
  | complete rq c2hData =>
    by_cases hr : s.hostRec rq = none
    · exact h.writes (writes_onComplete_none hr c2hData)
    · exact h.receive h0 hnow (hthread hr) hreceives
  | _ => exact absurd rfl he

theorem HostState.Arrived.step (h : s.Arrived t now) {e : HostEvent} (hnow : ∀ env, e.env = some env → env.now = now)
    (h0 : ∀ env, e.env = some env → env.now ≠ 0) (ht : ∀ env, e.env = some env → env.now ≤ t)
    (hthread : Threaded s e) : (hostStep .tcp k f s e).Arrived t now := by
  cases e with
  | arm on => exact h.writes (.of_eq rfl rfl rfl rfl)
  | setupCmd env a => exact h.setup a
  | nvmeDone env rq =>
    exact h.writes (writes_ntpHNvmeDone (fun r u hr => inOrderBy_stamp (by decide) u hr) rq)
  | blkDone env rq => exact h.blkDone rq
  | tcp env e =>
    obtain rfl := hnow env rfl
    exact h.tcp (h0 env rfl) (ht env rfl) e hthread
  | rdma env e => exact h

theorem HostState.Arrived.later (h : s.Arrived t now) {u : U64} (hu : now ≤ u) : s.Arrived t u :=
  ⟨h.table, h.events, fun cpu => ⟨BitVec.le_trans (h.ctx cpu).1 hu, (h.ctx cpu).2⟩⟩

theorem HostState.arrived_init : ({} : HostState).Arrived t now := by
  have hzero : ∀ u : U64, 0 ≤ u := fun u => BitVec.le_def.mpr (Nat.zero_le _)
  refine ⟨fun _ => ?_, fun r hr => absurd hr List.not_mem_nil, fun _ => ⟨hzero now, fun h => absurd rfl h⟩⟩
  exact ⟨⟨arrivedBefore_zero, arrivedBefore_zero, arrivedBefore_zero⟩, hzero t, hzero t, hzero t⟩

end HostRuns

/-- An event that is no transport hook of the idle task. -/
def HostEvent.threaded : HostEvent → Bool
  | .tcp env _ => env.tid != 0
  | _ => true

theorem threaded_of_all {k : Layout} {f : Filter} {es : List HostEvent} (h : es.all HostEvent.threaded = true) :
    Every (hostStep .tcp k f) Threaded {} es := by
  refine every_of_forall (fun s e he => ?_) _
  have hev := List.all_eq_true.mp h e he
  cases e with
  | tcp env e =>
    have htid : env.tid ≠ 0 := by simpa [HostEvent.threaded] using hev
    cases e with
    | recvSkbExit => exact htid
    | copy skb pdu => exact htid
    | r2t req => exact htid
    | complete rq c2hData => exact fun _ => htid
    | _ => exact trivial
  | _ => exact trivial

/-- The clock has started when the first hook runs. -/
def Started (es : List HostEvent) : Prop := ∀ e ∈ es, ∀ env, e.env = some env → env.now ≠ 0

/-- No hook of the run runs after `t`. -/
def Until {ε : Type} (env : ε → Option HookEnv) (t : U64) (es : List ε) : Prop :=
  ∀ e ∈ es, ∀ v, env e = some v → v.now ≤ t

theorem host_inOrderBy (k : Layout) (f : Filter) {t : U64} {es : List HostEvent} (hclock : Forward HostEvent.now 0 es)
    (hstart : Started es) (huntil : Until HostEvent.env t es) (hthread : Every (hostStep .tcp k f) Threaded {} es) :
    ∀ r ∈ (hostRun .tcp k f {} es).events, r.InOrderBy t := by
  let ok : HostState → HostEvent → Prop := fun s e => e ∈ es ∧ Threaded s e
  have hstep : ∀ (s : HostState) (e : HostEvent) (now : U64), s.Arrived t now → ok s e →
      (∀ v, e.now = some v → v = now) → (hostStep .tcp k f s e).Arrived t now := by
    intro s e now hs he hnow
    exact hs.step (fun env henv => hnow _ (by rw [HostEvent.now, henv]; rfl))
      (hstart e he.1) (huntil e he.1) he.2
  have hmem : Every (hostStep .tcp k f) (fun _ e => e ∈ es) {} es := every_of_forall (fun _ _ he => he) _
  obtain ⟨now, hinv⟩ := inv_run (fun s now u hu h => h.later hu) hstep
    (HostState.arrived_init (t := t)) (hmem.and hthread) hclock
  exact hinv.events

/-! ## Target runs -/

section Target

variable {t now : U64} {r : TgtRec}

theorem tgt_inOrderBy_stamp {i : TgtTs} (hi : i ∉ [.cmdArr, .cmdProc, .dataArr, .dataProc, .dataLastArr, .dataDone])
    (u : U64) (hr : r.InOrderBy t) : (r.stamp i u).InOrderBy t := by
  have hts : ∀ j ∈ [TgtTs.cmdArr, .cmdProc, .dataArr, .dataProc, .dataLastArr, .dataDone],
      (r.stamp i u).ts j = r.ts j := by
    intro j hj
    have hne : j ≠ i := by
      rintro rfl
      exact hi hj
    exact Function.update_of_ne hne ..
  constructor
  · constructor
    · rw [hts .cmdArr (by decide), hts .cmdProc (by decide)]
      exact hr.cmd
    · rw [hts .dataArr (by decide), hts .dataProc (by decide)]
      exact hr.data
    · rw [hts .dataLastArr (by decide), hts .dataDone (by decide)]
      exact hr.dataLast
  · rw [hts .cmdProc (by decide)]
    exact hr.cmdProc
  · rw [hts .dataProc (by decide)]
    exact hr.dataProc

theorem inOrderBy_keptBy (hnow : now ≤ t) : KeptBy (TgtRec.InOrderBy t) now where
  flags _ _ hr := ⟨⟨hr.cmd, hr.data, hr.dataLast⟩, hr.cmdProc, hr.dataProc⟩
  cpu _ _ hr := ⟨⟨hr.cmd, hr.data, hr.dataLast⟩, hr.cmdProc, hr.dataProc⟩
  stamp _ i hi hr := by
    apply tgt_inOrderBy_stamp _ _ hr
    revert i
    decide
  exec r _ _ hr := by
    have hst : (r.stamp .exec now).InOrderBy t := tgt_inOrderBy_stamp (by decide) now hr
    exact ⟨⟨hst.cmd, hst.data, hst.dataLast⟩, hst.cmdProc, hst.dataProc⟩
  start f env a c m n arrival henv harr := by
    subst henv
    exact ⟨⟨harr, arrivedBefore_zero, arrivedBefore_zero⟩, hnow, BitVec.le_def.mpr (Nat.zero_le _)⟩
  h2c _ _ _ harr hr := ⟨⟨hr.cmd, harr, hr.dataLast⟩, hr.cmdProc, hnow⟩

theorem tgt_inOrderBy (f : Filter) {es : List TgtEvent} (huntil : Until TgtEvent.env t es) :
    (tgtRun .tcp f {} es).Records (TgtRec.InOrderBy t) := by
  have hzero : (0 : U64) ≤ t := BitVec.le_def.mpr (Nat.zero_le _)
  have hinit : ({} : TgtState).Records (TgtRec.InOrderBy t) :=
    ⟨fun _ => ⟨⟨arrivedBefore_zero, arrivedBefore_zero, arrivedBefore_zero⟩, hzero, hzero⟩,
      fun r hr => absurd hr List.not_mem_nil⟩
  have hrun : ∀ (es : List TgtEvent) (s : TgtState), Until TgtEvent.env t es → s.Records (TgtRec.InOrderBy t) →
      (tgtRun .tcp f s es).Records (TgtRec.InOrderBy t) := by
    intro es
    induction es with
    | nil => exact fun s _ hs => hs
    | cons e es ih =>
      intro s hes hs
      refine ih _ (fun e he => hes e (List.mem_cons_of_mem _ he)) ?_
      have hat := hes e List.mem_cons_self
      by_cases hcopy : ∃ env a, e = .tcp env (.copyDone a)
      · obtain ⟨env, a, rfl⟩ := hcopy
        refine TgtState.Records.onCopyDone hs fun c _ _ req r _ hreq _ => ?_
        have hr := hs.get hreq
        exact ⟨⟨hr.cmd, hr.data, arrivedBefore_skb f a.tstamp env.now⟩, hr.cmdProc, hr.dataProc⟩
      · refine hs.step (fun env henv => inOrderBy_keptBy (hat env henv)) ?_
        rintro env a rfl
        exact hcopy ⟨env, a, rfl⟩
  exact hrun es {} huntil hinit

end Target

/-- Over TCP no arrival in an emitted record is later than its processing, and none is missing; so neither
receive path of the breakdown is negative. The clock never goes back and `t` is as late as it gets. -/
theorem arrival_before_processing (k : Layout) (f f' : Filter) (t : U64) (es : List HostEvent) (es' : List TgtEvent)
    (hclock : Forward HostEvent.now 0 es) (hstart : Started es) (hthread : Every (hostStep .tcp k f) Threaded {} es)
    (huntil : Until HostEvent.env t es) (huntil' : Until TgtEvent.env t es') :
    (∀ r ∈ (hostRun .tcp k f {} es).events, r.InOrder ∧
      (t < clockLimit → ∀ tgt, 0 ≤ ((ntpBreakdown r tgt).2.comp .hostRx).toInt)) ∧
    (∀ r ∈ (tgtRun .tcp f' {} es').events, r.InOrder ∧
      (t < clockLimit → ∀ h, 0 ≤ ((ntpBreakdown h (some r)).2.comp .tgtRx).toInt)) := by
  refine ⟨fun r hr => ?_, fun r hr => ?_⟩
  · have hord := host_inOrderBy k f hclock hstart huntil hthread r hr
    exact ⟨hord.toInOrder, fun hlim tgt => hostRx_nonneg hord hlim tgt⟩
  · have hord := (tgt_inOrderBy f' huntil').events r hr
    exact ⟨hord.toInOrder, fun hlim h => tgtRx_nonneg hord hlim h⟩

/-! ### A read on both sides -/

/-- A read whose data comes in one skb and is copied once. -/
def receivedRead : List HostEvent :=
  [.arm true, .setupCmd (hookAt 1) (setupRead 6), .tcp (hookAt 10) (.recvSkb 0x700 0x500 8),
    .tcp (hookAt 11) (.copy 0x700 (some 6)), .tcp (hookAt 12) (.complete someRq true),
    .tcp (hookAt 13) .recvSkbExit, .blkDone (hookAt 14) someRq]

/-- An `nvmet_req_init` for a read over NVMe/TCP, in an skb that arrived at time 3. -/
def initTcpRead : ReqInitArgs :=
  { initRead someReq 6 with queue := 0x300, sock := 0x310, sk := 0x320, ownsSocket := true, tstamp := 3 }

/-- The target's side of the read: its header is copied, and its response is sent. -/
def servedRead : List TgtEvent :=
  [.arm true, .tcp (hookAt 4) (.copy 0x900 0x320 0), .reqInit true (hookAt 5) initTcpRead,
    .tcp (hookAt 9) (.sendmsg { sock := 0x310, queue := 0x300, sndCmd := some someReq, offset := 0
                                state := .response, sqhdDisabled := false })]

theorem arrival_before_processing_read :
    ((hostRun .tcp someLayout {} {} receivedRead).events.map fun r => (r.ts .c2hArr, r.ts .c2hProc)) = [(8, 11)] ∧
    ((tgtRun .tcp {} {} servedRead).events.map fun r => (r.ts .cmdArr, r.ts .cmdProc)) = [(3, 5)] ∧
    (∀ r ∈ (hostRun .tcp someLayout {} {} receivedRead).events, r.InOrder) ∧
    ∀ r ∈ (tgtRun .tcp {} {} servedRead).events, r.InOrder := by
  have hclock : Forward HostEvent.now 0 receivedRead := by
    unfold Forward
    decide
  have hstart : Started receivedRead := by simp [Started, receivedRead, HostEvent.env, hookAt]
  have huntil : Until HostEvent.env 14 receivedRead := by simp [Until, receivedRead, HostEvent.env, hookAt]
  have hthread : Every (hostStep .tcp someLayout {}) Threaded {} receivedRead := threaded_of_all (by decide)
  have huntil' : Until TgtEvent.env 14 servedRead := by simp [Until, servedRead, TgtEvent.env, hookAt]
  obtain ⟨hhost, htgt⟩ := arrival_before_processing someLayout {} {} 14 receivedRead servedRead hclock hstart
    hthread huntil huntil'
  exact ⟨by decide +kernel, by decide +kernel, fun r hr => (hhost r hr).1, fun r hr => (htgt r hr).1⟩

end Ntprof.Bpf
