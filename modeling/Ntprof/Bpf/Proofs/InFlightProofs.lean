import Ntprof.Bpf.InFlight
import Ntprof.Bpf.Proofs.AccountingProofs

/-!
# Commands in flight yield their records

A kernel object tests `ntp_armed` only where a record starts. A record then waits in its slot, whatever is done to
`ntp_armed`, until the last hook of its command ends it or another command takes the slot.
-/

namespace Ntprof.Bpf

open SlotTable

instance : NeZero (1 : U64) := ⟨by decide⟩

/-! ## Host -/

section Host

variable {tr : Transport} {k : Layout} {f : Filter} {s s' : HostState} {t : Tickets Slot} {n : ℕ} {rq : U64}
  {env : HookEnv}

theorem HostTouched.waiting (ht : HostTouched s s') (h : Waiting s.owner t n (ntpSlot rq) rq) (i : Slot) :
    Waiting s'.owner (t.next i (s.ledger.change s'.ledger s.events.length s'.events.length)) n (ntpSlot rq) rq := by
  rw [ht.events]
  exact h.touched ht.owner ht.ledger

theorem HostFinished.waiting {key : U64} {full : Bool} {r : HostRec} (hf : HostFinished key full r s s')
    (h : Waiting s.owner t n (ntpSlot rq) rq) (hrq : rq ≠ 0) :
    Waiting s'.owner (t.next (ntpSlot key) (s.ledger.change s'.ledger s.events.length s'.events.length)) n
      (ntpSlot rq) rq := by
  have hlen : s'.events.length = if full then s.events.length else s.events.length + 1 := by
    rw [hf.events]
    cases full <;> simp
  rw [hlen, hf.ledger]
  refine h.changed hrq ?_ (fun _ => Ledger.fates_finish _ full)
  intro i hi
  rw [HostState.owner, hf.other i hi]
  rfl

theorem HostStored.waiting {key : U64} {r : HostRec} (hs : HostStored key r s s')
    (h : Waiting s.owner t n (ntpSlot rq) rq) (hrq : rq ≠ 0) :
    Waiting s'.owner (t.next (ntpSlot key) (s.ledger.change s'.ledger s.events.length s'.events.length)) n
      (ntpSlot rq) rq := by
  rw [hs.events, hs.ledger]
  refine h.changed hrq ?_ ?_
  · intro i hi
    rw [HostState.owner, hs.other i hi]
    rfl
  · intro h0
    rw [decide_eq_true h0]
    exact Ledger.fates_start _

/-- One event: a record that waits keeps waiting, or is settled. -/
theorem waiting_hostTicketStep {st : HostState × Tickets Slot} (h : Waiting st.1.owner st.2 n (ntpSlot rq) rq)
    (hrq : rq ≠ 0) (e : HostEvent) :
    Waiting (hostTicketStep tr k f st e).1.owner (hostTicketStep tr k f st e).2 n (ntpSlot rq) rq := by
  obtain ⟨s, t⟩ := st
  cases e with
  | arm on => exact HostTouched.waiting (s := s) (.of_eq rfl rfl rfl) h _
  | setupCmd env a =>
    cases hst : setupStores tr f s env a with
    | false => exact (effect_ntpHSetupCmd_unsampled hst).waiting h _
    | true =>
      obtain ⟨s₁, c, p, ht, -, hs⟩ := effect_ntpHSetupCmd_sampled hst
      have h₁ : Waiting s₁.owner t n (ntpSlot rq) rq := by
        rw [ht.owner]
        exact h
      have hw := hs.waiting h₁ hrq
      rw [ht.ledger, ht.events] at hw
      exact hw
  | nvmeDone env rq' => exact (hostTouched_ntpHNvmeDone rq').waiting h _
  | blkDone env rq' =>
    rcases effect_ntpHBlkDone tr s env rq' with heq | hf
    · have ht : HostTouched s (hostStep tr k f s (.blkDone env rq')) := by
        rw [hostStep, heq]
        exact HostTouched.refl s
      exact ht.waiting h _
    · exact hf.waiting h hrq
  | tcp env e =>
    have ht : HostTouched s (hostStep tr k f s (.tcp env e)) := by
      simp only [hostStep]
      split
      · exact hostTouched_tcp e
      · exact HostTouched.refl s
    exact ht.waiting h _
  | rdma env e =>
    have ht : HostTouched s (hostStep tr k f s (.rdma env e)) := by
      simp only [hostStep]
      split
      · exact hostTouched_rdma e
      · exact HostTouched.refl s
    exact ht.waiting h _

theorem waiting_hostTickets (tr : Transport) (k : Layout) (f : Filter) (es : List HostEvent) {st : HostState × Tickets Slot}
    (h : Waiting st.1.owner st.2 n (ntpSlot rq) rq) (hrq : rq ≠ 0) :
    Waiting (es.foldl (hostTicketStep tr k f) st).1.owner (es.foldl (hostTicketStep tr k f) st).2 n
      (ntpSlot rq) rq := by
  induction es generalizing st with
  | nil => exact h
  | cons e es ih => exact ih (waiting_hostTicketStep h hrq e)

theorem hostTickets_fst (es : List HostEvent) {st : HostState × Tickets Slot} :
    (es.foldl (hostTicketStep tr k f) st).1 = hostRun tr k f st.1 es := by
  induction es generalizing st with
  | nil => rfl
  | cons e es ih => exact ih

/-- A record that starts holds the ticket that was issued last. -/
theorem waiting_setupCmd {st : HostState × Tickets Slot} {a : SetupArgs}
    (hst : setupStores tr f st.1 env a = true) :
    Waiting (hostTicketStep tr k f st (.setupCmd env a)).1.owner (hostTicketStep tr k f st (.setupCmd env a)).2
      (hostTicketStep tr k f st (.setupCmd env a)).2.issued (ntpSlot a.rq) a.rq := by
  obtain ⟨s₁, c, p, ht, -, hs⟩ := effect_ntpHSetupCmd_sampled hst
  refine Or.inr ⟨?_, hs.own⟩
  have hstart : (st.1.ledger.change (hostStep tr k f st.1 (.setupCmd env a)).ledger st.1.events.length
      (hostStep tr k f st.1 (.setupCmd env a)).events.length).started = true := by
    rw [hostStep, hs.ledger, ht.ledger]
    exact Ledger.started_start _ _
  simp [hostTicketStep, Tickets.next, hstart, HostEvent.about]

/-- `block_rq_complete` ends the record of its request. -/
theorem owner_ntpHBlkDone (h : s.Accounted) (hrq : rq ≠ 0) :
    (ntpHBlkDone tr s env rq).owner (ntpSlot rq) ≠ rq := by
  rcases effect_ntpHBlkDone tr s env rq with heq | hf
  · intro hown
    rw [heq] at hown
    have h0 : s.inflight ≠ 0 := by
      intro h0
      exact hrq (hown.symm.trans (h.free h0 _))
    have he : s.hostEntry rq = some (s.reqs (ntpSlot rq)) := HostState.hostEntry_eq_some.mpr ⟨hown, rfl⟩
    have hfree : (ntpHBlkDone tr s env rq).owner (ntpSlot rq) = 0 := by
      rw [ntpHBlkDone, if_neg h0, he]
      dsimp only
      rw [HostState.owner, HostState.inflightAdd, HostState.setEntry_self]
    rw [heq, hown] at hfree
    exact hrq hfree
  · rw [hf.freed]
    exact hrq.symm

theorem host_settled (es₁ es₂ : List HostEvent) {env' : HookEnv} {a : SetupArgs}
    (hst : setupStores tr f (hostRun tr k f {} es₁) env a = true) :
    (hostTickets tr k f (es₁ ++ .setupCmd env a :: es₂ ++ [.blkDone env' a.rq])).2.Settled
      (hostTickets tr k f (es₁ ++ [.setupCmd env a])).2.issued := by
  have hfst : (hostTickets tr k f es₁).1 = hostRun tr k f {} es₁ := hostTickets_fst es₁
  rw [← hfst] at hst
  have hstart := waiting_setupCmd (k := k) hst
  have hrun := waiting_hostTickets tr k f (es₂ ++ [HostEvent.blkDone env' a.rq]) hstart a.rq.2
  have hes : hostTickets tr k f (es₁ ++ .setupCmd env a :: es₂ ++ [.blkDone env' a.rq]) =
      (es₂ ++ [HostEvent.blkDone env' a.rq]).foldl (hostTicketStep tr k f)
        (hostTicketStep tr k f (hostTickets tr k f es₁) (.setupCmd env a)) := by
    simp [hostTickets, List.foldl_append]
  have hissued : hostTickets tr k f (es₁ ++ [.setupCmd env a]) =
      hostTicketStep tr k f (hostTickets tr k f es₁) (.setupCmd env a) := by
    simp [hostTickets, List.foldl_append]
  rw [hes, hissued]
  rcases hrun with hset | ⟨-, hown⟩
  · exact hset
  · rw [hostTickets_fst, hostRun, List.foldl_append] at hown
    have hacc : (es₂.foldl (hostStep tr k f)
        (hostTicketStep tr k f (hostTickets tr k f es₁) (.setupCmd env a)).1).Accounted := by
      have hacc₁ : (hostTickets tr k f es₁).1.Accounted := by
        rw [hfst]
        exact HostState.accounted_init.run es₁
      have hrun : (hostRun tr k f (hostStep tr k f (hostTickets tr k f es₁).1 (.setupCmd env a)) es₂).Accounted :=
        (hacc₁.step _).run es₂
      exact hrun
    exact absurd hown (owner_ntpHBlkDone hacc a.rq.2)

end Host

/-! ## Target -/

section Target

variable {tr : Transport} {f : Filter} {s s₁ s' : TgtState} {t : Tickets Slot} {n : ℕ} {req key : U64}
  {env : HookEnv} {a : ReqInitArgs}

theorem Touched.waiting (ht : Touched key s s') (h : Waiting s.owner t n (ntpSlot req) req) (i : Slot) :
    Waiting s'.owner (t.next i (s.ledger.change s'.ledger s.events.length s'.events.length)) n (ntpSlot req) req := by
  rw [ht.events]
  exact h.touched ht.owner ht.ledger

theorem Finished.length {full : Bool} {r : TgtRec} (hf : Finished key full r s s') :
    s'.events.length = if full then s.events.length else s.events.length + 1 := by
  rw [hf.events]
  cases full <;> simp

theorem Finished.waiting {full : Bool} {r : TgtRec} (hf : Finished key full r s s')
    (h : Waiting s.owner t n (ntpSlot req) req) (hreq : req ≠ 0) :
    Waiting s'.owner (t.next (ntpSlot key) (s.ledger.change s'.ledger s.events.length s'.events.length)) n
      (ntpSlot req) req := by
  rw [hf.length, hf.ledger]
  refine h.changed hreq ?_ (fun _ => Ledger.fates_finish _ full)
  intro i hi
  rw [TgtState.owner, hf.other i hi]
  rfl

theorem Stored.owner_of_ne {r : TgtRec} (hs : Stored key r s s') {i : Slot} (hi : i ≠ ntpSlot key) :
    s'.owner i = s.owner i := by
  rw [TgtState.owner, hs.treqs, Function.update_of_ne hi]
  rfl

theorem Stored.started {r : TgtRec} (hs : Stored key r s₁ s') (hf : FlushEffect env key s s₁) (out out' : ℕ) :
    (s.ledger.change s'.ledger out out').started = true := by
  rw [hs.ledger]
  cases hf with
  | none hq _ =>
    rw [hq.ledger]
    exact Ledger.started_start _ _
  | flushed r hr hf =>
    rw [hf.ledger]
    exact Ledger.started_finish_start _ _ _

/-- `nvmet_req_init` ends the record of its `nvmet_req`, and replaces another one in the slot when it starts
its own. -/
theorem InitEffect.waiting (hi : InitEffect env a s s') (h : Waiting s.owner t n (ntpSlot req) req)
    (hreq : req ≠ 0) :
    Waiting s'.owner (t.next (ntpSlot a.req) (s.ledger.change s'.ledger s.events.length s'.events.length)) n
      (ntpSlot req) req := by
  cases hi with
  | unsampled s₁ hf hq =>
    rw [hq.owner, hq.ledger, hq.events]
    cases hf with
    | none hq' _ =>
      have ht : Touched a.req s s₁ := hq'.touched
      exact ht.waiting h _
    | flushed r hr hf => exact hf.waiting h hreq
  | sampled s₁ hf c hc r hid hs =>
    rw [hs.events, hs.ledger]
    cases hf with
    | none hq' _ =>
      rw [hq'.ledger, hq'.events, hq'.owner]
      refine h.changed hreq ?_ ?_
      · intro i hi
        rw [hs.owner_of_ne hi, hq'.owner]
      · intro h0
        rw [decide_eq_true h0]
        exact Ledger.fates_start _
    | flushed r' hr hf =>
      rw [hf.length, hf.ledger]
      refine h.changed hreq ?_ (fun _ => Ledger.fates_finish_start _ _ _)
      intro i hi
      rw [hs.owner_of_ne hi, TgtState.owner, hf.other i hi]
      rfl

/-- One event: a record that waits keeps waiting, or is settled. -/
theorem waiting_tgtTicketStep (tr : Transport) (f : Filter) {st : TgtState × Tickets Slot}
    (h : Waiting st.1.owner st.2 n (ntpSlot req) req)
    (hreq : req ≠ 0) (e : TgtEvent) :
    Waiting (tgtTicketStep tr f st e).1.owner (tgtTicketStep tr f st e).2 n (ntpSlot req) req := by
  obtain ⟨s, t⟩ := st
  by_cases he : ∀ seen env a, e ≠ .reqInit seen env a
  · have heff := effect_tgtStep tr f s e he
    simp only [tgtTicketStep]
    cases hkey : e.key s with
    | none =>
      rw [hkey] at heff
      have ht : Touched 0 s (tgtStep tr f s e) := Quiet.touched heff
      exact ht.waiting h _
    | some key =>
      rw [hkey] at heff
      cases heff with
      | touched ht => exact ht.waiting h _
      | finished full r hf => exact hf.waiting h hreq
  · simp only [ne_eq, not_forall, not_not] at he
    obtain ⟨seen, env, a, rfl⟩ := he
    cases hrec : seen && reqInitRecognised tr s env a with
    | false =>
      simp only [tgtTicketStep, tgtStep_reqInit_missed hrec]
      exact (Touched.refl 0 s).waiting h _
    | true =>
      obtain ⟨rfl, hours⟩ := Bool.and_eq_true_iff.mp hrec
      exact (effect_reqInit (f := f) hours).waiting h hreq

theorem tgtTickets_fst (es : List TgtEvent) {st : TgtState × Tickets Slot} :
    (es.foldl (tgtTicketStep tr f) st).1 = tgtRun tr f st.1 es := by
  induction es generalizing st with
  | nil => rfl
  | cons e es ih => exact ih

/-- `nvmet_req_init` past every test starts a record. -/
theorem effect_reqInit_stores (hst : reqInitStores tr f s env a = true) :
    ∃ s₁, FlushEffect env a.req s s₁ ∧ ∃ r, Stored a.req r s₁ (ntpTReqInit tr f s env a) := by
  obtain ⟨hours, hcmd⟩ := Bool.and_eq_true_iff.mp hst
  cases hc : a.cmd with
  | none =>
    rw [hc] at hcmd
    exact absurd hcmd (by simp)
  | some c =>
    rw [hc] at hcmd
    simp only [Option.any_some, Bool.and_eq_true] at hcmd
    have hq := (quiet_rememberOurs tr f s env a).trans
      ((quiet_countCommand f _ a).trans quiet_count_tgtCmds)
    refine ⟨_, hq.flush (effect_flushOpen env _ a.req), ?_⟩
    simp only [ntpTReqInit, hours, if_true, reqInitOurs, hc, hcmd.1.1, hcmd.1.2, hcmd.2, Bool.not_true,
      Bool.false_eq_true, if_false]
    exact ⟨_, quiet_rememberSampled.stored (stored_storeTgtRec ..)⟩

/-- A record that starts holds the ticket that was issued last, and has seen no end of its response. -/
theorem waiting_reqInit {st : TgtState × Tickets Slot} (hst : reqInitStores tr f st.1 env a = true) :
    (tgtTicketStep tr f st (.reqInit true env a)).2.held (ntpSlot a.req) =
        (tgtTicketStep tr f st (.reqInit true env a)).2.issued ∧
      (tgtTicketStep tr f st (.reqInit true env a)).1.treqs (ntpSlot a.req) =
        { req := a.req, parts := 0, record := ((tgtTicketStep tr f st (.reqInit true env a)).1.treqs
          (ntpSlot a.req)).record } := by
  obtain ⟨s₁, hf, r, hs⟩ := effect_reqInit_stores hst
  constructor
  · have hstart := hs.started hf st.1.events.length (tgtStep tr f st.1 (.reqInit true env a)).events.length
    have hstep : tgtStep tr f st.1 (.reqInit true env a) = ntpTReqInit tr f st.1 env a := rfl
    rw [← hstep] at hstart
    simp [tgtTicketStep, Tickets.next, hstart, TgtEvent.key]
  · have htreqs : (tgtTicketStep tr f st (.reqInit true env a)).1.treqs (ntpSlot a.req) =
        { req := a.req, parts := 0, record := r } := by
      show (ntpTReqInit tr f st.1 env a).treqs (ntpSlot a.req) = _
      rw [hs.treqs, Function.update_self]
    rw [htreqs]

theorem onNonZero_of_recognising (es : List TgtEvent) {s : TgtState} (h : RecognisingRun tr f s es) :
    OnNonZero tr f s es := by
  induction es generalizing s with
  | nil => trivial
  | cons e es ih =>
    refine ⟨?_, ih h.2⟩
    have hne : ∀ r : KAddr, some r.val ≠ some (0 : U64) := fun r hr => r.2 (Option.some.inj hr)
    have hopt : ∀ r : Option KAddr, r.map Subtype.val ≠ some (0 : U64) := by
      rintro (_ | r)
      · simp
      · exact hne r
    cases e with
    | arm on => simp [TgtEvent.key]
    | reqInit seen env a => exact hne a.req
    | exec env req len => exact hne req
    | beIssue env priv => simp +contextual [TgtEvent.key]
    | beDone env priv => simp +contextual [TgtEvent.key]
    | complete env req => exact hne req
    | tcp env e =>
      cases e with
      | copy skb sk offset => simp [TgtEvent.key, TgtTcpEvent.key]
      | copyDone a => exact hopt a.cmd
      | queueResp a => exact hne a.req
      | h2c req sk tstamp => exact hne req
      | sendmsg a => exact hopt a.sndCmd
    | rdma env e =>
      cases e with
      | recvDone qpContext => simp [TgtEvent.key, TgtRdmaEvent.key]
      | recvDoneExit => simp [TgtEvent.key, TgtRdmaEvent.key]
      | execute req len inlineData => exact hne req
      | readDone req => exact hne req
      | queueRespFe req => exact hne req
      | queueRespFx req => exact hne req
      | queueRespKp req => exact hne req
      | queueRespKr own =>
        have hown : (ntpCtxGet s.respCtx env).map RespCtx.req = some own.val := h.1
        show (ntpCtxGet s.respCtx env).map RespCtx.req ≠ some 0
        rw [hown]
        exact hne own
      | sendDone req => exact hne req

theorem recognisingRun_append (es es' : List TgtEvent) {s : TgtState} :
    RecognisingRun tr f s (es ++ es') ↔ RecognisingRun tr f s es ∧ RecognisingRun tr f (tgtRun tr f s es) es' := by
  induction es generalizing s with
  | nil => simp [RecognisingRun, tgtRun]
  | cons e es ih =>
    simp only [List.cons_append, RecognisingRun, ih, and_assoc]
    rfl

theorem owner_tgtEmit (hreq : req ≠ 0) : (s.tgtEmit env req).owner (ntpSlot req) ≠ req := by
  cases hr : s.tgtRec req with
  | none =>
    have he : s.tgtEntry req = none := by simpa [TgtState.tgtRec] using hr
    intro hown
    rw [TgtState.tgtEmit, he] at hown
    rw [TgtState.tgtRec_eq_some.mpr ⟨hown, rfl⟩] at hr
    exact absurd hr (by simp)
  | some r =>
    rw [(finished_tgtEmit env hr).freed]
    exact hreq.symm

/-- A hook that leaves a record in the slot found it there. -/
theorem HookEffect.owner_before (he : HookEffect key s s') {i : Slot} (hreq : req ≠ 0) (h : s'.owner i = req) :
    s.owner i = req := by
  cases he with
  | touched ht => rwa [ht.owner] at h
  | finished full r hf =>
    rw [hf.owner_eq] at h
    by_cases hi : i = ntpSlot key
    · rw [hi, Function.update_self] at h
      exact absurd h.symm hreq
    · rwa [Function.update_of_ne hi] at h

theorem TgtState.Accounted.inflight_ne_zero (h : s.Accounted) (hreq : req ≠ 0) (hown : s.owner (ntpSlot req) = req) :
    s.inflight ≠ 0 := by
  intro h0
  exact hreq (hown.symm.trans (h.free h0 _))

theorem idle_eq_false (h0 : s.inflight ≠ 0) : s.idle f = false := by
  rw [TgtState.idle, beq_eq_false_iff_ne.mpr h0, Bool.false_and]

/-- The send of the last PDU ends the record, if the queue is still known. -/
theorem owner_sendsLast {e : TgtEvent} {req : KAddr} (h : s.Accounted) (hrec : e.Recognises s)
    (hlast : e.sendsLast req) : (tgtStep .tcp f s e).owner (ntpSlot req) ≠ req := by
  cases e with
  | tcp env e =>
    cases e with
    | sendmsg a =>
      obtain ⟨hcmd, hoff, hstate⟩ := hlast
      intro hafter
      have hown : s.owner (ntpSlot req) = req := (effect_onSendmsg (f := f) hcmd).owner_before req.2 hafter
      have h0 := h.inflight_ne_zero req.2 hown
      have hrec' : s.tgtRec req = some (s.treqs (ntpSlot req)).record := TgtState.tgtRec_eq_some.mpr ⟨hown, rfl⟩
      have hsend : onSendmsg f s env a = sendPdu f s env req a := by
        rw [onSendmsg, if_neg (by simp [idle_eq_false h0]), if_neg (by simp [hrec req hcmd hown]), hcmd]
        dsimp only
        rw [if_neg (by simp [hoff]), if_neg (by simp [hrec'])]
      have hpdu : (sendPdu f s env req a).owner (ntpSlot req) ≠ req := by
        rcases hstate with hs | ⟨hs, hd⟩
        · simp only [sendPdu, hs]
          exact owner_tgtEmit req.2
        · simp only [sendPdu, hs, hd, if_true]
          exact owner_tgtEmit req.2
      rw [← hsend] at hpdu
      exact hpdu hafter
    | _ => exact absurd hlast (by simp [TgtEvent.sendsLast])
  | _ => exact absurd hlast (by simp [TgtEvent.sendsLast])

/-! ### The two ends of a response over RDMA -/

/-- What `parts` can be. -/
def partBits : List U32 := [0, rspPosted, rspSendDone, rspPosted ||| rspSendDone]

theorem zero_mem_partBits : 0 ∈ partBits := by simp [partBits]

theorem rspPosted_mem_partBits : rspPosted ∈ partBits := by simp [partBits]

theorem rspSendDone_mem_partBits : rspSendDone ∈ partBits := by simp [partBits]

theorem or_mem_partBits : ∀ p ∈ partBits, ∀ q ∈ partBits, p ||| q ∈ partBits := by
  simp [partBits, rspPosted, rspSendDone]

/-- Hooks only add to the ends that were seen. -/
structure PartsGrow (s s' : TgtState) : Prop where
  grow : ∀ i, ∃ q ∈ partBits, (s'.treqs i).parts = (s.treqs i).parts ||| q

theorem PartsGrow.of_parts (h : ∀ i, (s'.treqs i).parts = (s.treqs i).parts) : PartsGrow s s' := by
  refine ⟨fun i => ⟨0, zero_mem_partBits, ?_⟩⟩
  rw [h i]
  exact BitVec.or_zero.symm

theorem PartsGrow.refl (s : TgtState) : PartsGrow s s := .of_parts fun _ => rfl

theorem Quiet.partsGrow (h : Quiet s s') : PartsGrow s s' := .of_parts fun i => by rw [h.treqs]

theorem PartsGrow.trans (h : PartsGrow s s₁) (h' : PartsGrow s₁ s') : PartsGrow s s' := by
  refine ⟨fun i => ?_⟩
  obtain ⟨q, hq, heq⟩ := h.grow i
  obtain ⟨q', hq', heq'⟩ := h'.grow i
  refine ⟨q ||| q', or_mem_partBits q hq q' hq', ?_⟩
  rw [heq', heq, BitVec.or_assoc]

theorem partsGrow_setRec (s : TgtState) (req : U64) (r : TgtRec) : PartsGrow s (s.setRec req r) := by
  refine .of_parts fun i => ?_
  by_cases hi : i = ntpSlot req
  · simp [TgtState.setRec, TgtState.setEntry, hi]
  · simp [TgtState.setRec, TgtState.setEntry, hi]

theorem partsGrow_stampRec (s : TgtState) (req : U64) (i : TgtTs) (now : U64) :
    PartsGrow s (s.stampRec req i now) := by
  unfold TgtState.stampRec
  split
  · exact .refl s
  · exact partsGrow_setRec ..

theorem partsGrow_tgtEmit (s : TgtState) (env : HookEnv) (req : U64) : PartsGrow s (s.tgtEmit env req) := by
  unfold TgtState.tgtEmit
  cases he : s.tgtEntry req with
  | none => exact .refl s
  | some e =>
    obtain ⟨-, rfl⟩ := TgtState.tgtEntry_eq_some.mp he
    refine .of_parts fun i => ?_
    by_cases hi : i = ntpSlot req
    · simp [TgtState.inflightAdd, TgtState.setEntry, hi]
    · cases env.rbFull <;> simp [TgtState.inflightAdd, TgtState.setEntry, TgtState.count, hi]

theorem partsGrow_rspPartDone {part : U32} (hpart : part ∈ partBits) (s : TgtState) (env : HookEnv) (req : U64) :
    PartsGrow s (rspPartDone s env req part) := by
  unfold rspPartDone
  cases he : s.tgtEntry req with
  | none => exact .refl s
  | some e =>
    obtain ⟨-, rfl⟩ := TgtState.tgtEntry_eq_some.mp he
    have hset : PartsGrow s
        (s.setEntry req { s.treqs (ntpSlot req) with parts := (s.treqs (ntpSlot req)).parts ||| part }) := by
      refine ⟨fun i => ?_⟩
      by_cases hi : i = ntpSlot req
      · exact ⟨part, hpart, by simp [TgtState.setEntry, hi]⟩
      · exact ⟨0, zero_mem_partBits, by simp [TgtState.setEntry, hi]⟩
    dsimp only
    split
    · exact hset.trans (partsGrow_tgtEmit ..)
    · exact hset

theorem partsGrow_onQueueRespExit (s : TgtState) (env : HookEnv) (req : U64) :
    PartsGrow s (onQueueRespExit f s env req) := by
  unfold onQueueRespExit
  split
  · exact .refl s
  · refine PartsGrow.trans ?_ (quiet_tgtUncount _ f req).partsGrow
    unfold respPosted
    split
    · exact .refl s
    · exact (partsGrow_setRec ..).trans (partsGrow_rspPartDone rspPosted_mem_partBits ..)

theorem partsGrow_rdmaOnQueueResp (s : TgtState) (env : HookEnv) (req : KAddr) :
    PartsGrow s (rdmaOnQueueResp f s env req) := by
  unfold rdmaOnQueueResp
  split
  · exact .refl s
  · dsimp only
    split
    · exact (quiet_countRespQueued s req).partsGrow.trans (partsGrow_stampRec ..)
    · exact partsGrow_stampRec ..

theorem partsGrow_rdma (e : TgtRdmaEvent) : PartsGrow s (e.run f s env) := by
  cases e with
  | recvDone qpContext => exact .of_parts fun _ => rfl
  | recvDoneExit => exact .of_parts fun _ => rfl
  | execute req len inlineData =>
    simp only [TgtRdmaEvent.run, onExecute]
    repeat' split
    all_goals first | exact .refl s | exact partsGrow_setRec ..
  | readDone req =>
    simp only [TgtRdmaEvent.run, onReadDone]
    repeat' split
    all_goals first | exact .refl s | exact partsGrow_setRec ..
  | queueRespFe req => exact partsGrow_rdmaOnQueueResp s env req
  | queueRespFx req => exact partsGrow_onQueueRespExit s env req
  | queueRespKp req =>
    have hq : Quiet s { s with respCtx := ctxPut s.respCtx env { tid := env.tid, req := req } } := ⟨rfl, rfl, rfl⟩
    exact hq.partsGrow.trans (partsGrow_rdmaOnQueueResp _ env req)
  | queueRespKr own =>
    simp only [TgtRdmaEvent.run, ntpTrQueueRespKr]
    split
    · exact .refl s
    · rename_i c hc
      have hq : Quiet s { s with respCtx := ctxPut s.respCtx env { c with tid := 0 } } := ⟨rfl, rfl, rfl⟩
      exact hq.partsGrow.trans (partsGrow_onQueueRespExit _ env c.req)
  | sendDone req =>
    simp only [TgtRdmaEvent.run, onSendDone]
    repeat' split
    all_goals first
      | exact .refl s
      | exact (partsGrow_setRec ..).trans (partsGrow_rspPartDone rspSendDone_mem_partBits ..)

theorem partsGrow_tgtStep (e : TgtEvent) (he : ∀ seen env a, e ≠ .reqInit seen env a) :
    PartsGrow s (tgtStep .rdma f s e) := by
  cases e with
  | arm on => exact .of_parts fun _ => rfl
  | reqInit seen env a => exact absurd rfl (he seen env a)
  | exec env req len =>
    simp only [tgtStep, onExec]
    repeat' split
    all_goals first | exact .refl s | exact partsGrow_setRec ..
  | beIssue env priv =>
    simp only [tgtStep, ntpTBeIssue]
    split
    · exact .refl s
    · exact partsGrow_setRec ..
  | beDone env priv =>
    simp only [tgtStep, ntpTBeDone]
    split
    · exact .refl s
    · exact partsGrow_setRec ..
  | complete env req =>
    simp only [tgtStep, ntpTComplete]
    repeat' split
    all_goals first | exact .refl s | exact partsGrow_setRec ..
  | tcp env e => exact .of_parts fun _ => rfl
  | rdma env e => exact partsGrow_rdma e

theorem partsGrow_flushOpen (s : TgtState) (env : HookEnv) (req : U64) : PartsGrow s (flushOpen s env req) := by
  unfold flushOpen
  repeat' split
  all_goals first
    | exact .refl s
    | exact (partsGrow_setRec ..).trans (partsGrow_tgtEmit ..)

/-- `nvmet_req_init` starts a record with no end seen, or leaves the ends as they are. -/
theorem parts_ntpTReqInit (tr : Transport) (s : TgtState) (env : HookEnv) (a : ReqInitArgs) (i : Slot) :
    ((ntpTReqInit tr f s env a).treqs i).parts = 0 ∨
      ∃ q ∈ partBits, ((ntpTReqInit tr f s env a).treqs i).parts = (s.treqs i).parts ||| q := by
  unfold ntpTReqInit
  split
  · have hq := (quiet_rememberOurs tr f s env a).trans
      ((quiet_countCommand f _ a).trans quiet_count_tgtCmds)
    have hgrow := (hq.partsGrow.trans (partsGrow_flushOpen _ env a.req)).grow i
    unfold reqInitOurs
    dsimp only
    split
    · exact Or.inr hgrow
    · split
      · exact Or.inr hgrow
      · split
        · exact Or.inr hgrow
        · split
          · exact Or.inr hgrow
          · rw [(stored_storeTgtRec _ _ _).treqs, quiet_rememberSampled.treqs]
            by_cases hi : i = ntpSlot a.req
            · exact Or.inl (by rw [hi, Function.update_self])
            · rw [Function.update_of_ne hi]
              exact Or.inr hgrow
  · exact Or.inr ((PartsGrow.refl s).grow i)

theorem parts_mem_step (h : ∀ i, (s.treqs i).parts ∈ partBits) (e : TgtEvent) (i : Slot) :
    ((tgtStep .rdma f s e).treqs i).parts ∈ partBits := by
  by_cases he : ∀ seen env a, e ≠ .reqInit seen env a
  · obtain ⟨q, hq, heq⟩ := (partsGrow_tgtStep (f := f) e he).grow i
    rw [heq]
    exact or_mem_partBits _ (h i) q hq
  · simp only [ne_eq, not_forall, not_not] at he
    obtain ⟨_ | _, env, a, rfl⟩ := he
    · exact h i
    · rcases parts_ntpTReqInit (f := f) .rdma s env a i with h0 | ⟨q, hq, heq⟩
      · show ((ntpTReqInit .rdma f s env a).treqs i).parts ∈ partBits
        rw [h0]
        exact zero_mem_partBits
      · show ((ntpTReqInit .rdma f s env a).treqs i).parts ∈ partBits
        rw [heq]
        exact or_mem_partBits _ (h i) q hq

theorem parts_mem_run (es : List TgtEvent) {s : TgtState} (h : ∀ i, (s.treqs i).parts ∈ partBits) (i : Slot) :
    ((tgtRun .rdma f s es).treqs i).parts ∈ partBits := by
  induction es generalizing s with
  | nil => exact h i
  | cons e es ih => exact ih fun i => parts_mem_step h e i

/-- An end of a response is noted, unless it was the second. -/
theorem parts_rspPartDone {part : U32} (hreq : req ≠ 0)
    (hafter : (rspPartDone s env req part).owner (ntpSlot req) = req) :
    ((rspPartDone s env req part).treqs (ntpSlot req)).parts = (s.treqs (ntpSlot req)).parts ||| part ∧
      (s.treqs (ntpSlot req)).parts ||| part ≠ rspPosted ||| rspSendDone := by
  have hown := (effect_rspPartDone s env req part).owner_before hreq hafter
  have he : s.tgtEntry req = some (s.treqs (ntpSlot req)) := TgtState.tgtEntry_eq_some.mpr ⟨hown, rfl⟩
  simp only [rspPartDone, he] at hafter ⊢
  split at hafter
  · exact absurd hafter (owner_tgtEmit hreq)
  · rename_i hne
    rw [if_neg hne]
    exact ⟨by simp [TgtState.setEntry], hne⟩

theorem setRec_parts (s : TgtState) (req : U64) (r : TgtRec) (i : Slot) :
    ((s.setRec req r).treqs i).parts = (s.treqs i).parts := by
  by_cases hi : i = ntpSlot req
  · simp [TgtState.setRec, TgtState.setEntry, hi]
  · simp [TgtState.setRec, TgtState.setEntry, hi]

theorem parts_onQueueRespExit (h : s.Accounted) (hreq : req ≠ 0)
    (hafter : (onQueueRespExit f s env req).owner (ntpSlot req) = req) :
    ((onQueueRespExit f s env req).treqs (ntpSlot req)).parts = (s.treqs (ntpSlot req)).parts ||| rspPosted ∧
      (s.treqs (ntpSlot req)).parts ||| rspPosted ≠ rspPosted ||| rspSendDone := by
  have hown := (effect_onQueueRespExit (f := f) (s := s) req).owner_before hreq hafter
  have h0 := h.inflight_ne_zero hreq hown
  have hrec : s.tgtRec req = some (s.treqs (ntpSlot req)).record := TgtState.tgtRec_eq_some.mpr ⟨hown, rfl⟩
  rw [onQueueRespExit, if_neg (by simp [idle_eq_false h0])] at hafter ⊢
  rw [(quiet_tgtUncount _ f req).owner] at hafter
  rw [(quiet_tgtUncount _ f req).treqs]
  simp only [respPosted, hrec] at hafter ⊢
  rw [← setRec_parts s req (postedRec (s.treqs (ntpSlot req)).record env.now)]
  exact parts_rspPartDone hreq hafter

theorem parts_onSendDone {req : KAddr} (h : s.Accounted)
    (hafter : (onSendDone s env req).owner (ntpSlot req) = req) :
    ((onSendDone s env req).treqs (ntpSlot req)).parts = (s.treqs (ntpSlot req)).parts ||| rspSendDone ∧
      (s.treqs (ntpSlot req)).parts ||| rspSendDone ≠ rspPosted ||| rspSendDone := by
  have hown := (effect_onSendDone (s := s) req).owner_before req.2 hafter
  have h0 := h.inflight_ne_zero req.2 hown
  have hrec : s.tgtRec req = some (s.treqs (ntpSlot req)).record := TgtState.tgtRec_eq_some.mpr ⟨hown, rfl⟩
  rw [onSendDone, if_neg h0, hrec] at hafter ⊢
  dsimp only at hafter ⊢
  rw [← setRec_parts s req ((s.treqs (ntpSlot req)).record.stampOnce .sendDone env.now)]
  exact parts_rspPartDone req.2 hafter

/-- An end of the response of `req`: its return from `nvmet_rdma_queue_response`, or its send completion. -/
def TgtEvent.endsPart (req : KAddr) (part : U32) (e : TgtEvent) : Prop :=
  (part = rspPosted ∧ e.posts req) ∨ (part = rspSendDone ∧ e.sent req)

theorem parts_endsPart {e : TgtEvent} {req : KAddr} {part : U32} (h : s.Accounted) (hrec : e.Recognises s)
    (he : e.endsPart req part) (hafter : (tgtStep .rdma f s e).owner (ntpSlot req) = req) :
    ((tgtStep .rdma f s e).treqs (ntpSlot req)).parts = (s.treqs (ntpSlot req)).parts ||| part ∧
      (s.treqs (ntpSlot req)).parts ||| part ≠ rspPosted ||| rspSendDone := by
  rcases he with ⟨rfl, hposts⟩ | ⟨rfl, hsent⟩
  · cases e with
    | rdma env e =>
      cases e with
      | queueRespFx r =>
        obtain rfl : r = req := hposts
        exact parts_onQueueRespExit (f := f) h r.2 hafter
      | queueRespKr own =>
        obtain rfl : own = req := hposts
        have hctx : (ntpCtxGet s.respCtx env).map RespCtx.req = some own.val := hrec
        obtain ⟨c, hc, hown⟩ := Option.map_eq_some_iff.mp hctx
        have hstep : tgtStep .rdma f s (.rdma env (.queueRespKr own)) =
            onQueueRespExit f { s with respCtx := ctxPut s.respCtx env { c with tid := 0 } } env own := by
          simp only [tgtStep, if_true, TgtRdmaEvent.run, ntpTrQueueRespKr, hc, hown]
        rw [hstep] at hafter ⊢
        have hq : Quiet s { s with respCtx := ctxPut s.respCtx env { c with tid := 0 } } := ⟨rfl, rfl, rfl⟩
        exact parts_onQueueRespExit (f := f) (h.quiet hq) own.2 hafter
      | _ => exact absurd hposts (by simp [TgtEvent.posts])
    | _ => exact absurd hposts (by simp [TgtEvent.posts])
  · cases e with
    | rdma env e =>
      cases e with
      | sendDone r =>
        obtain rfl : r = req := hsent
        exact parts_onSendDone h hafter
      | _ => exact absurd hsent (by simp [TgtEvent.sent])
    | _ => exact absurd hsent (by simp [TgtEvent.sent])

theorem and_or_eq {p q part : U32} (h : p &&& part = part) : (p ||| q) &&& part = part := by
  apply BitVec.eq_of_getLsbD_eq
  intro i hi
  have hbit := congrArg (fun x => x.getLsbD i) h
  simp only [BitVec.getLsbD_and, BitVec.getLsbD_or] at hbit ⊢
  cases hp : part.getLsbD i with
  | false => simp
  | true =>
    rw [hp, Bool.and_true] at hbit
    simp [hbit]

/-- The record with ticket `n` is settled, or waits in its slot and an end of its response was noted. -/
def Noted (st : TgtState × Tickets Slot) (n : ℕ) (req : U64) (part : U32) : Prop :=
  st.2.Settled n ∨ (st.2.held (ntpSlot req) = n ∧ st.1.owner (ntpSlot req) = req ∧ n ≤ st.2.issued ∧
    (st.1.treqs (ntpSlot req)).parts &&& part = part)

theorem Tickets.issued_le (i : Slot) (c : Change) : t.issued ≤ (t.next i c).issued := by
  simp only [Tickets.next]
  split
  · exact Nat.le_succ _
  · exact Nat.le_refl _

theorem noted_tgtTicketStep {st : TgtState × Tickets Slot} {part : U32} (h : Noted st n req part) (hreq : req ≠ 0)
    (e : TgtEvent) : Noted (tgtTicketStep .rdma f st e) n req part := by
  obtain ⟨s, t⟩ := st
  rcases h with h | ⟨hn, hown, hle, hpart⟩
  · exact Or.inl (h.next _ _)
  · have hw : Waiting (s, t).1.owner (s, t).2 n (ntpSlot req) req := Or.inr ⟨hn, hown⟩
    rcases waiting_tgtTicketStep .rdma f hw hreq e with hset | ⟨hn', hown'⟩
    · exact Or.inl hset
    · refine Or.inr ⟨hn', hown', le_trans hle (Tickets.issued_le _ _), ?_⟩
      have hgrow : PartsGrow s (tgtStep .rdma f s e) ∨
          (tgtStep .rdma f s e).treqs (ntpSlot req) = s.treqs (ntpSlot req) := by
        by_cases he : ∀ seen env a, e ≠ .reqInit seen env a
        · exact Or.inl (partsGrow_tgtStep e he)
        · simp only [ne_eq, not_forall, not_not] at he
          obtain ⟨seen, env, a, rfl⟩ := he
          cases hrec : seen && reqInitRecognised .rdma s env a with
          | false =>
            rw [tgtStep_reqInit_missed hrec]
            exact Or.inl (.refl s)
          | true =>
            obtain ⟨rfl, hours⟩ := Bool.and_eq_true_iff.mp hrec
            refine Or.inr ?_
            have hinit := effect_reqInit (f := f) hours
            -- in its own slot `nvmet_req_init` would free the slot or give it another ticket
            cases hinit with
            | unsampled s₁ hf hq =>
              rw [hq.treqs]
              cases hf with
              | none hq' _ => rw [hq'.treqs]
              | flushed r hr hf =>
                refine hf.other _ ?_
                intro hslot
                have hfree : (tgtStep .rdma f s (.reqInit true env a)).owner (ntpSlot req) = 0 := by
                  rw [hq.owner, hslot]
                  exact hf.freed
                exact hreq (hown'.symm.trans hfree)
            | sampled s₁ hf c hc r hid hs =>
              have hslot : ntpSlot req ≠ ntpSlot a.req := by
                intro hslot
                have hstart := hs.started hf s.events.length (tgtStep .rdma f s (.reqInit true env a)).events.length
                have hheld : (tgtTicketStep .rdma f (s, t) (.reqInit true env a)).2.held (ntpSlot req) =
                    t.issued + 1 := by
                  simp [tgtTicketStep, Tickets.next, hstart, TgtEvent.key, hslot]
                have hlt : n < t.issued + 1 := Nat.lt_succ_of_le hle
                rw [← hheld, hn'] at hlt
                exact absurd hlt (Nat.lt_irrefl n)
              rw [hs.treqs, Function.update_of_ne hslot]
              cases hf with
              | none hq' _ => rw [hq'.treqs]
              | flushed r hr hf => exact hf.other _ hslot
      rcases hgrow with hgrow | heq
      · obtain ⟨q, -, hq⟩ := hgrow.grow (ntpSlot req)
        show ((tgtStep .rdma f s e).treqs (ntpSlot req)).parts &&& part = part
        rw [hq]
        exact and_or_eq hpart
      · show ((tgtStep .rdma f s e).treqs (ntpSlot req)).parts &&& part = part
        rw [heq]
        exact hpart

theorem noted_tgtTickets {part : U32} (hreq : req ≠ 0) (es : List TgtEvent) {st : TgtState × Tickets Slot}
    (h : Noted st n req part) : Noted (es.foldl (tgtTicketStep .rdma f) st) n req part := by
  induction es generalizing st with
  | nil => exact h
  | cons e es ih => exact ih (noted_tgtTicketStep h hreq e)

/-! ### The last hook -/

theorem accounted_of_recognising {es : List TgtEvent} (h : RecognisingRun tr f {} es) :
    (tgtRun tr f {} es).Accounted :=
  TgtState.accounted_init.run (onNonZero_of_recognising es h)

theorem waiting_tgtTickets (tr : Transport) (f : Filter) (hreq : req ≠ 0) (es : List TgtEvent)
    {st : TgtState × Tickets Slot} (h : Waiting st.1.owner st.2 n (ntpSlot req) req) :
    Waiting (es.foldl (tgtTicketStep tr f) st).1.owner (es.foldl (tgtTicketStep tr f) st).2 n (ntpSlot req) req := by
  induction es generalizing st with
  | nil => exact h
  | cons e es ih => exact ih (waiting_tgtTicketStep tr f h hreq e)

theorem tgtTickets_append (es es' : List TgtEvent) :
    tgtTickets tr f (es ++ es') = es'.foldl (tgtTicketStep tr f) (tgtTickets tr f es) :=
  List.foldl_append

theorem tgtTickets_concat (es : List TgtEvent) (e : TgtEvent) :
    tgtTickets tr f (es ++ [e]) = tgtTicketStep tr f (tgtTickets tr f es) e :=
  tgtTickets_append es [e]

theorem tgtTickets_state (es : List TgtEvent) : (tgtTickets tr f es).1 = tgtRun tr f {} es := tgtTickets_fst es

theorem tcp_settled {es₁ es₂ : List TgtEvent} {e : TgtEvent}
    (hrec : RecognisingRun .tcp f {} (es₁ ++ .reqInit true env a :: es₂ ++ [e]))
    (hst : reqInitStores .tcp f (tgtRun .tcp f {} es₁) env a = true) (hlast : e.sendsLast a.req) :
    (tgtTickets .tcp f (es₁ ++ .reqInit true env a :: es₂ ++ [e])).2.Settled
      (tgtTickets .tcp f (es₁ ++ [.reqInit true env a])).2.issued := by
  obtain ⟨hbefore, hrece, -⟩ := (recognisingRun_append _ _).mp hrec
  rw [← tgtTickets_state] at hst
  obtain ⟨hheld, hentry⟩ := waiting_reqInit hst
  rw [← tgtTickets_concat] at hheld hentry
  have hwait := waiting_tgtTickets .tcp f a.req.2 (es₂ ++ [e]) (Or.inr ⟨hheld, congrArg TgtEntry.req hentry⟩)
  rw [← tgtTickets_append, List.append_assoc, List.singleton_append, ← List.cons_append, ← List.append_assoc] at hwait
  rcases hwait with hset | ⟨-, hown⟩
  · exact hset
  · rw [tgtTickets_concat] at hown
    refine absurd hown ?_
    show (tgtStep .tcp f (tgtTickets .tcp f _).1 e).owner _ ≠ _
    rw [tgtTickets_state]
    exact owner_sendsLast (accounted_of_recognising hbefore) hrece hlast

/-- The second end of a response, noted by a record that has the first, completes it. -/
theorem second_part {parts part other : U32} (hp : parts ∈ partBits) (hpart : parts &&& part = part)
    (h : (part = rspPosted ∧ other = rspSendDone) ∨ (part = rspSendDone ∧ other = rspPosted)) :
    parts ||| other = rspPosted ||| rspSendDone := by
  rcases h with ⟨rfl, rfl⟩ | ⟨rfl, rfl⟩
  · have hall : ∀ p ∈ partBits, p &&& rspPosted = rspPosted → p ||| rspSendDone = rspPosted ||| rspSendDone := by
      simp [partBits, rspPosted, rspSendDone]
    exact hall parts hp hpart
  · have hall : ∀ p ∈ partBits, p &&& rspSendDone = rspSendDone → p ||| rspPosted = rspPosted ||| rspSendDone := by
      simp [partBits, rspPosted, rspSendDone]
    exact hall parts hp hpart

theorem rdma_settled {es₁ es₂ : List TgtEvent} {e : TgtEvent}
    (hrec : RecognisingRun .rdma f {} (es₁ ++ .reqInit true env a :: es₂ ++ [e]))
    (hst : reqInitStores .rdma f (tgtRun .rdma f {} es₁) env a = true) (hlast : LastHook .rdma a.req es₂ e) :
    (tgtTickets .rdma f (es₁ ++ .reqInit true env a :: es₂ ++ [e])).2.Settled
      (tgtTickets .rdma f (es₁ ++ [.reqInit true env a])).2.issued := by
  -- the two ends, in the order in which they are seen
  obtain ⟨part, other, hpo, x, hx, hxpart, heother⟩ : ∃ part other,
      ((part = rspPosted ∧ other = rspSendDone) ∨ (part = rspSendDone ∧ other = rspPosted)) ∧
        ∃ x ∈ es₂, x.endsPart a.req part ∧ e.endsPart a.req other := by
    rcases hlast with ⟨he, x, hx, hsent⟩ | ⟨he, x, hx, hposts⟩
    · exact ⟨rspSendDone, rspPosted, Or.inr ⟨rfl, rfl⟩, x, hx, Or.inr ⟨rfl, hsent⟩, Or.inl ⟨rfl, he⟩⟩
    · exact ⟨rspPosted, rspSendDone, Or.inl ⟨rfl, rfl⟩, x, hx, Or.inl ⟨rfl, hposts⟩, Or.inr ⟨rfl, he⟩⟩
  obtain ⟨l, r, rfl⟩ := List.append_of_mem hx
  obtain ⟨hbefore, hrece, -⟩ := (recognisingRun_append _ _).mp hrec
  have hsplit : es₁ ++ TgtEvent.reqInit true env a :: (l ++ x :: r) =
      (es₁ ++ [.reqInit true env a] ++ l) ++ x :: r := by simp
  have hbefore' := hbefore
  rw [hsplit] at hbefore'
  obtain ⟨hbeforex, hrecx, -⟩ := (recognisingRun_append _ _).mp hbefore'
  rw [← tgtTickets_state] at hst
  obtain ⟨hheld, hentry⟩ := waiting_reqInit hst
  rw [← tgtTickets_concat] at hheld hentry
  have h0 : Noted (tgtTickets .rdma f (es₁ ++ [.reqInit true env a]))
      (tgtTickets .rdma f (es₁ ++ [.reqInit true env a])).2.issued a.req 0 :=
    Or.inr ⟨hheld, congrArg TgtEntry.req hentry, le_refl _, BitVec.and_zero⟩
  have hl := noted_tgtTickets (f := f) a.req.2 l h0
  rw [← tgtTickets_append] at hl
  -- the first end
  have hnoted : Noted (tgtTickets .rdma f (es₁ ++ [.reqInit true env a] ++ l ++ [x]))
      (tgtTickets .rdma f (es₁ ++ [.reqInit true env a])).2.issued a.req part := by
    have hstep := noted_tgtTicketStep (f := f) hl a.req.2 x
    rw [tgtTickets_concat _ x]
    rcases hstep with hset | ⟨hn, hown, hle, -⟩
    · exact Or.inl hset
    · refine Or.inr ⟨hn, hown, hle, ?_⟩
      have hacc := accounted_of_recognising hbeforex
      rw [← tgtTickets_state] at hacc hrecx
      have hparts := (parts_endsPart hacc hrecx hxpart hown).1
      show ((tgtStep .rdma f (tgtTickets .rdma f _).1 x).treqs _).parts &&& part = part
      rw [hparts, BitVec.or_comm]
      exact and_or_eq BitVec.and_self
  have hr := noted_tgtTickets (f := f) a.req.2 r hnoted
  rw [← tgtTickets_append] at hr
  have hsplit' : es₁ ++ [TgtEvent.reqInit true env a] ++ l ++ [x] ++ r =
      es₁ ++ .reqInit true env a :: (l ++ x :: r) := by simp
  rw [hsplit'] at hr
  -- the second end
  rcases hr with hset | ⟨hn, hown, hle, hpart⟩
  · rw [tgtTickets_concat]
    exact hset.next _ _
  · rw [tgtTickets_concat]
    rcases noted_tgtTicketStep (f := f) (Or.inr ⟨hn, hown, hle, hpart⟩) a.req.2 e with hset | ⟨-, hown', -, -⟩
    · exact hset
    · have hacc := accounted_of_recognising hbefore
      have hbits := parts_mem_run (f := f) (es₁ ++ .reqInit true env a :: (l ++ x :: r)) (s := {})
        (fun _ => zero_mem_partBits) (ntpSlot a.req)
      rw [← tgtTickets_state] at hacc hrece hbits
      exact absurd (second_part hbits hpart hpo) (parts_endsPart hacc hrece heother hown').2

end Target

/-! ## SPDK -/

section Spdk

variable {o : SpdkObject} {f : SpdkFilter} {s s' : SpdkState} {env : HookEnv} {d : DoneArgs} {c : SpdkCmd}
  {st : SpdkTimes}

/-- A record that is emitted is on the ring buffer or counted, whatever else was counted before. -/
theorem accounts_spdkEmit (i : Counter) (r : Rec) (hev : s'.events = s.events)
    (hdrops : s'.counters .rbDrops = s.counters .rbDrops) : s.Accounts (spdkEmit s' env i r) := by
  unfold spdkEmit
  split
  · refine Or.inr (Or.inl ?_)
    rw [← hdrops]
    simp [SpdkState.count, ntpCount]
  · refine Or.inl ⟨r, ?_⟩
    rw [← hev]

theorem count_rbDrops (s : SpdkState) {i : Counter} (hi : i ≠ .rbDrops) (delta : U64) :
    (s.count i delta).counters .rbDrops = s.counters .rbDrops := by
  simp [SpdkState.count, ntpCount, hi.symm]

theorem spdkThroughput_rbDrops (bytes : U32) :
    (spdkThroughput f s c bytes).counters .rbDrops = s.counters .rbDrops := by
  unfold spdkThroughput
  split
  · rw [count_rbDrops _ (by decide), count_rbDrops _ (by decide)]
  · rw [count_rbDrops _ (by decide), count_rbDrops _ (by decide)]

theorem spdkThroughput_events (bytes : U32) : (spdkThroughput f s c bytes).events = s.events := by
  unfold spdkThroughput
  split <;> rfl

theorem accounts_spdkHostDone (tr : Transport)
    (record : SpdkState → HookEnv → DoneArgs → SpdkCmd → SpdkTimes → HostRec) (ha : s.armed = true)
    (hread : d.read = some (c, st)) (hsel : spdkSelected f c (spdkBytes tr c st) = true)
    (hns : f.nsid = 0 ∨ c.nsid = f.nsid) : s.Accounts (spdkHostDone tr record f s env d) := by
  have hns' : ¬(f.nsid ≠ 0 ∧ c.nsid ≠ f.nsid) := by
    rintro ⟨h0, hne⟩
    rcases hns with h | h
    · exact h0 h
    · exact hne h
  simp only [spdkHostDone, ha, Bool.not_true, Bool.false_eq_true, if_false, hread, hsel]
  rw [if_neg hns']
  refine accounts_spdkEmit _ _ (spdkThroughput_events _) ?_
  rw [count_rbDrops _ (by decide), spdkThroughput_rbDrops]

theorem accounts_spdkTgtDone (tr : Transport)
    (record : SpdkState → HookEnv → DoneArgs → SpdkCmd → SpdkTimes → TgtRec) (ha : s.armed = true)
    (hread : d.read = some (c, st)) (hsel : spdkSelected f c (spdkBytes tr c st) = true) :
    s.Accounts (spdkTgtDone tr record f s env d) := by
  simp only [spdkTgtDone, ha, Bool.not_true, Bool.false_eq_true, if_false, hread, hsel]
  refine accounts_spdkEmit _ _ rfl ?_
  rw [count_rbDrops _ (by decide), count_rbDrops _ (by decide)]

theorem done_unarmed (ha : s.armed = false) : o.done f s env d = s := by
  cases o <;> simp [SpdkObject.done, ntpUNvmeTcpDone, ntpUNvmeRdmaDone, ntpUNvmfTcpDone, ntpUNvmfRdmaDone,
    spdkHostDone, spdkTgtDone, ha]

theorem not_accounts_self (s : SpdkState) : ¬ s.Accounts s := by
  rintro (⟨r, hr⟩ | h | h)
  · exact absurd (congrArg List.length hr) (by simp)
  · exact absurd h (by simp)
  · exact absurd h (by simp)

/-- A done probe accounts for its command exactly while `ntp_armed` is set. -/
theorem done_accounts_iff (hsel : o.selects f d) : s.Accounts (o.done f s env d) ↔ s.armed = true := by
  cases ha : s.armed with
  | false =>
    rw [done_unarmed ha]
    simp [not_accounts_self s]
  | true =>
    obtain ⟨c, st, hread, hsel⟩ := hsel
    simp only [iff_true]
    cases o with
    | tcpHost => exact accounts_spdkHostDone .tcp _ ha hread hsel.1 hsel.2
    | rdmaHost => exact accounts_spdkHostDone .rdma _ ha hread hsel.1 hsel.2
    | tcpTarget => exact accounts_spdkTgtDone .tcp _ ha hread hsel
    | rdmaTarget => exact accounts_spdkTgtDone .rdma _ ha hread hsel

end Spdk

/-! ## All objects -/

/-- A kernel object accounts for every command whose record started: when its last hook has run, with `ntp_armed`
set or not, its record is on the ring buffer or was counted, provided that at a target the hooks at the end of a
response recognise its command. An SPDK object accounts for a command exactly if its done probe runs while
`ntp_armed` is set. -/
theorem in_flight_accounted (tr : Transport) (k : Layout) (f : Filter) (o : SpdkObject) (g : SpdkFilter) :
    (∀ (es₁ es₂ : List HostEvent) (env env' : HookEnv) (a : SetupArgs),
      setupStores tr f (hostRun tr k f {} es₁) env a = true →
      (hostTickets tr k f (es₁ ++ .setupCmd env a :: es₂ ++ [.blkDone env' a.rq])).2.Settled
        (hostTickets tr k f (es₁ ++ [.setupCmd env a])).2.issued) ∧
    (∀ (es₁ es₂ : List TgtEvent) (env : HookEnv) (a : ReqInitArgs) (e : TgtEvent),
      RecognisingRun tr f {} (es₁ ++ .reqInit true env a :: es₂ ++ [e]) →
      reqInitStores tr f (tgtRun tr f {} es₁) env a = true → LastHook tr a.req es₂ e →
      (tgtTickets tr f (es₁ ++ .reqInit true env a :: es₂ ++ [e])).2.Settled
        (tgtTickets tr f (es₁ ++ [.reqInit true env a])).2.issued) ∧
    (∀ (es : List SpdkEvent) (env : HookEnv) (d : DoneArgs), o.selects g d →
      ((spdkRun o g {} es).Accounts (spdkRun o g {} (es ++ [.done env d])) ↔ (spdkRun o g {} es).armed = true)) := by
  refine ⟨?_, ?_, ?_⟩
  · intro es₁ es₂ env env' a hst
    exact host_settled es₁ es₂ hst
  · intro es₁ es₂ env a e hrec hst hlast
    cases tr with
    | tcp => exact tcp_settled hrec hst hlast
    | rdma => exact rdma_settled hrec hst hlast
  · intro es env d hsel
    have hrun : spdkRun o g {} (es ++ [.done env d]) = o.done g (spdkRun o g {} es) env d := by
      simp [spdkRun, List.foldl_append, spdkStep]
    rw [hrun]
    exact done_accounts_iff hsel

/-- The end of a recording over TCP: the response to a read is sent after `ntp_loader_disarm`. -/
def stoppedTcp : List TgtEvent :=
  [.arm true, .tcp (hookAt 4) (.copy 0x900 0x320 0),
    .reqInit true (hookAt 5)
      { initRead someReq 6 with queue := 0x300, sock := 0x310, sk := 0x320, ownsSocket := true, tstamp := 3 },
    .arm false,
    .tcp (hookAt 9) (.sendmsg { sock := 0x310, queue := 0x300, sndCmd := some someReq, offset := 0
                                state := .response, sqhdDisabled := false })]

/-- And over RDMA: both ends of the response come after it. -/
def stoppedRdma : List TgtEvent :=
  [.arm true, .rdma (hookAt 1) (.recvDone 0x100), .reqInit true (hookAt 2) (initRead someReq 3), .arm false,
    .rdma (hookAt 3) (.queueRespKp someReq), .rdma (hookAt 4) (.queueRespKr someReq),
    .rdma (hookAt 5) (.sendDone someReq)]

theorem recognisingRun_stoppedTcp : RecognisingRun .tcp {} {} stoppedTcp := by
  refine ⟨trivial, trivial, trivial, trivial, ?_, trivial⟩
  intro req hreq _
  decide +kernel

theorem recognisingRun_stoppedRdma : RecognisingRun .rdma {} {} stoppedRdma := by
  refine ⟨trivial, trivial, trivial, trivial, trivial, ?_, trivial, trivial⟩
  show Option.map _ _ = _
  decide +kernel

theorem in_flight_accounted_after_disarm :
    ((tgtTickets .tcp {} stoppedTcp).2.Settled 1 ∧ (tgtRun .tcp {} {} stoppedTcp).events.length = 1) ∧
      (tgtTickets .rdma {} stoppedRdma).2.Settled 1 ∧ (tgtRun .rdma {} {} stoppedRdma).events.length = 1 := by
  have htcp := (in_flight_accounted .tcp ⟨0, 0⟩ {} .tcpHost {}).2.1 (stoppedTcp.take 2) [.arm false] _ _ _
    recognisingRun_stoppedTcp (by decide +kernel) ⟨rfl, rfl, Or.inl rfl⟩
  have hrdma := (in_flight_accounted .rdma ⟨0, 0⟩ {} .tcpHost {}).2.1 (stoppedRdma.take 2)
    ((stoppedRdma.drop 3).take 3) _ _ _ recognisingRun_stoppedRdma (by decide +kernel)
    (Or.inr ⟨rfl, _, List.mem_cons_of_mem _ (List.mem_cons_of_mem _ List.mem_cons_self), rfl⟩)
  exact ⟨⟨htcp, by decide +kernel⟩, hrdma, by decide +kernel⟩

/-- A done probe with a read of block 8. -/
def doneRead : DoneArgs :=
  { cmd := some { toNvmeCmd := readCmd 3, dptr1 := 4096 }, qid := 1, cntlid := 1, times := some {} }

/-- A command that an SPDK target sampled before `ntp_loader_disarm` and that is done after it leaves neither a
record nor a count. -/
theorem disarmed_done_is_silent :
    SpdkObject.tcpTarget.selects {} doneRead ∧
      ¬ (spdkRun .tcpTarget {} {} [.arm true, .arm false]).Accounts
        (spdkRun .tcpTarget {} {} ([.arm true, .arm false] ++ [.done (hookAt 9) doneRead])) := by
  constructor
  · exact ⟨_, _, rfl, by decide⟩
  · exact not_accounts_self _

end Ntprof.Bpf
