import Ntprof.Bpf.DataCalls
import Ntprof.Bpf.Proofs.WritesProofs
import Ntprof.Bpf.Proofs.AttemptsProofs
import Ntprof.Bpf.Proofs.ArrivalProofs
import Ntprof.Lib.MeasuredSpan

/-!
# The data phase of a read

The context of a call says for which read its time counts and since when. That time starts at the call's
entry, at a copy or at a switch between two reads; it ends at a switch, at the read's completion or at the
call's exit. The counted periods of a read do not overlap, unless a read that the call worked on before is
counted from the call's entry again.
-/

namespace Ntprof.Bpf

open ClockRun MeasuredSpan

/-! ## One record -/

/-- The invariant of a record at time `now`. -/
structure ReadPhase (now : U64) (r : HostRec) : Prop where
  proc : r.ts .c2hProc ≤ now
  done : r.ts .c2hDone ≤ now
  none : r.ts .c2hDone = 0 → r.c2hBusyNs = 0
  parsed : r.ts .c2hDone ≠ 0 → r.ts .c2hProc ≠ 0
  fits : r.ts .c2hDone ≠ 0 → Fits (r.ts .c2hProc) (r.ts .c2hDone) r.c2hBusyNs
  rsp : r.ts .rspProc ≠ 0 → r.ts .c2hDone ≤ r.ts .rspProc

/-- The context `c` counts for the record since `c.busyFrom`. -/
structure Counting (c : HostRx) (now : U64) (r : HostRec) : Prop where
  running : r.ts .rspProc = 0
  le : c.busyFrom ≤ now
  parsed : c.busyFrom ≠ 0 → r.ts .c2hProc ≠ 0
  proc : c.busyFrom ≠ 0 → r.ts .c2hProc ≤ c.busyFrom
  done : c.busyFrom ≠ 0 → r.ts .c2hDone ≤ c.busyFrom

/-- The two records have the same data phase. -/
structure SamePhase (r r' : HostRec) : Prop where
  proc : r'.ts .c2hProc = r.ts .c2hProc
  done : r'.ts .c2hDone = r.ts .c2hDone
  rsp : r'.ts .rspProc = r.ts .rspProc
  busy : r'.c2hBusyNs = r.c2hBusyNs

instance : IsPreorder HostRec SamePhase where
  refl _ := ⟨rfl, rfl, rfl, rfl⟩
  trans _ _ _ h h' := ⟨h'.proc.trans h.proc, h'.done.trans h.done, h'.rsp.trans h.rsp, h'.busy.trans h.busy⟩

section Record

variable {now t : U64} {r r' : HostRec} {c : HostRx}

theorem ReadPhase.same (h : ReadPhase now r) (hs : SamePhase r r') : ReadPhase now r' := by
  obtain ⟨hproc, hdone, hrsp, hbusy⟩ := hs
  constructor
  · rw [hproc]
    exact h.proc
  · rw [hdone]
    exact h.done
  · rw [hdone, hbusy]
    exact h.none
  · rw [hdone, hproc]
    exact h.parsed
  · rw [hdone, hproc, hbusy]
    exact h.fits
  · rw [hrsp, hdone]
    exact h.rsp

theorem Counting.same (h : Counting c now r) (hs : SamePhase r r') : Counting c now r' := by
  obtain ⟨hproc, hdone, hrsp, -⟩ := hs
  exact ⟨hrsp.trans h.running, h.le, fun h0 => hproc ▸ h.parsed h0, fun h0 => hproc ▸ h.proc h0,
    fun h0 => hdone ▸ h.done h0⟩

theorem ReadPhase.later (h : ReadPhase t r) (hle : t ≤ now) : ReadPhase now r :=
  ⟨BitVec.le_trans h.proc hle, BitVec.le_trans h.done hle, h.none, h.parsed, h.fits, h.rsp⟩

theorem Counting.later (h : Counting c t r) (hle : t ≤ now) : Counting c now r :=
  ⟨h.running, BitVec.le_trans h.le hle, h.parsed, h.proc, h.done⟩

/-- Nothing was received for the record. -/
theorem readPhase_blank (hproc : r.ts .c2hProc = 0) (hdone : r.ts .c2hDone = 0) (hbusy : r.c2hBusyNs = 0) :
    ReadPhase now r := by
  have hzero : ∀ u : U64, 0 ≤ u := fun u => BitVec.le_def.mpr (Nat.zero_le _)
  refine ⟨?_, ?_, fun _ => hbusy, fun h => absurd hdone h, fun h => absurd hdone h, fun _ => ?_⟩
  · rw [hproc]
    exact hzero now
  · rw [hdone]
    exact hzero now
  · rw [hdone]
    exact hzero _

/-- The period that the context counts is added. -/
theorem readPhase_hostDataDone (h : ReadPhase now r) (hparsed : c.busyFrom ≠ 0 → r.ts .c2hProc ≠ 0)
    (hproc : c.busyFrom ≠ 0 → r.ts .c2hProc ≤ c.busyFrom) (hdone : c.busyFrom ≠ 0 → r.ts .c2hDone ≤ c.busyFrom)
    (hrsp : r.ts .rspProc ≠ 0 → now ≤ r.ts .rspProc) : ReadPhase now (hostDataDone r c now) := by
  unfold hostDataDone
  split
  · rename_i hb
    obtain ⟨h0, hle⟩ := hb
    have hfits : Fits (r.ts .c2hProc) now (r.c2hBusyNs + (now - c.busyFrom)) := by
      by_cases hd : r.ts .c2hDone = 0
      · rw [h.none hd, zero_add]
        exact fits_first (hproc h0) hle
      · exact (h.fits hd).add (hdone h0) hle
    have hnow : now ≠ 0 := by
      rintro rfl
      exact h0 (BitVec.le_zero_iff.mp hle)
    exact ⟨h.proc, BitVec.le_refl now, fun hz => absurd hz hnow, fun _ => hparsed h0, fun _ => hfits, hrsp⟩
  · exact h

theorem ReadPhase.counted (h : ReadPhase now r) (hc : Counting c now r) : ReadPhase now (hostDataDone r c now) :=
  readPhase_hostDataDone h hc.parsed hc.proc hc.done fun hne => absurd hc.running hne

theorem readPhase_firstData (h : ReadPhase now r) : ReadPhase now (firstData r c now) := by
  unfold firstData
  split
  · rename_i h0
    have hdone : r.ts .c2hDone = 0 := by
      by_contra hd
      exact h.parsed hd h0
    exact ⟨BitVec.le_refl now, h.done, h.none, fun hd => absurd hdone hd, fun hd => absurd hdone hd, h.rsp⟩
  · exact h

/-- The context counts for the read of this copy now. -/
theorem counting_firstData (h : ReadPhase now r) (henter : c.enter ≤ now) (hrun : r.ts .rspProc = 0)
    (hfresh : c.dataRq = 0 → r.ts .c2hProc ≠ 0 → r.ts .c2hProc ≤ c.enter ∧ r.ts .c2hDone ≤ c.enter) (rq : U64) :
    Counting { c with dataRq := rq, busyFrom := busyFrom r c now } now (firstData r c now) := by
  by_cases h0 : r.ts .c2hProc = 0
  · have hfrom : busyFrom r c now = now := if_pos h0
    have hfirst : firstData r c now = (r.stamp .c2hArr c.arrival).stamp .c2hProc now := if_pos h0
    rw [hfrom, hfirst]
    exact ⟨hrun, BitVec.le_refl now, fun hne => hne, fun _ => BitVec.le_refl now, fun _ => h.done⟩
  · have hfirst : firstData r c now = r := if_neg h0
    rw [hfirst]
    by_cases hsw : c.dataRq = 0
    · have hfrom : busyFrom r c now = c.enter := by rw [busyFrom, if_neg h0, if_neg (not_not.mpr hsw)]
      obtain ⟨hproc, hdone⟩ := hfresh hsw h0
      rw [hfrom]
      exact ⟨hrun, henter, fun _ => h0, fun _ => hproc, fun _ => hdone⟩
    · have hfrom : busyFrom r c now = now := by rw [busyFrom, if_neg h0, if_pos hsw]
      rw [hfrom]
      exact ⟨hrun, BitVec.le_refl now, fun _ => h0, fun _ => h.proc, fun _ => h.done⟩

/-- The completion of a read for which the context counts, or of any other one. -/
theorem readPhase_completeRec (h : ReadPhase now r) (rq : U64) (hc : c.dataRq = rq → Counting c now r) :
    ReadPhase now (completeRec r c rq now) := by
  have harr : SamePhase r (if c.arrival ≠ 0 then r.stamp .rspArr c.arrival else r) := by
    split
    · exact ⟨rfl, rfl, rfl, rfl⟩
    · exact refl_of SamePhase r
  unfold completeRec
  generalize (if c.arrival ≠ 0 then r.stamp .rspArr c.arrival else r) = r₁ at harr
  have h₁ := h.same harr
  have hst : ReadPhase now (r₁.stamp .rspProc now) := ⟨h₁.proc, h₁.done, h₁.none, h₁.parsed, h₁.fits, fun _ => h₁.done⟩
  dsimp only
  split
  · rename_i hrq
    have hc₁ := (hc hrq).same harr
    exact readPhase_hostDataDone hst hc₁.parsed hc₁.proc hc₁.done fun _ => BitVec.le_refl now
  · exact hst

end Record

/-! ## The state -/

/-- Every record in the table meets the invariant. -/
def HostState.Phases (s : HostState) (now : U64) : Prop := ∀ i, ReadPhase now (s.reqs i).record

/-- The time that a record counts fits between its first copy and the end of its last one, which is before its completion. -/
def PhaseFits (r : HostRec) : Prop :=
  r.c2hBusyNs ≠ 0 → Fits (r.ts .c2hProc) (r.ts .c2hDone) r.c2hBusyNs ∧ r.ts .c2hDone ≤ r.ts .rspProc

/-- The invariant at time `now`, with the call that is open: only that call has a context. -/
structure HostState.Reads (s : HostState) (open? : Option HookEnv) (now : U64) : Prop where
  phases : s.Phases now
  events : ∀ r ∈ s.events, PhaseFits r
  call : ∀ cpu, (s.rxCtx cpu).tid ≠ 0 → ∃ env, open? = some env ∧ env.cpu = cpu ∧ env.tid = (s.rxCtx cpu).tid
  enter : ∀ cpu, (s.rxCtx cpu).tid ≠ 0 → (s.rxCtx cpu).enter ≤ now
  counting : ∀ cpu, (s.rxCtx cpu).tid ≠ 0 → (s.rxCtx cpu).dataRq ≠ 0 →
    ∀ r, s.hostRec (s.rxCtx cpu).dataRq = some r → Counting (s.rxCtx cpu) now r

section State

variable {f : Filter} {k : Layout} {s s' : HostState} {env : HookEnv} {open? : Option HookEnv} {now t : U64}
variable {c : HostRx} {rq : U64} {r r' : HostRec}

theorem HostState.Phases.get (h : s.Phases now) (hr : s.hostRec rq = some r) : ReadPhase now r := by
  obtain ⟨-, rfl⟩ := HostState.hostRec_eq_some.mp hr
  exact h _

theorem HostState.Phases.setRec (h : s.Phases now) (hr : ReadPhase now r) : (s.setRec rq r).Phases now := by
  intro i
  by_cases hi : i = ntpSlot rq
  · subst hi
    simpa [HostState.setRec, HostState.setEntry] using hr
  · simpa [HostState.setRec, HostState.setEntry, hi] using h i

theorem HostState.Phases.withCtx (h : s.Phases now) (slots : Nat → HostRx) :
    ({ s with rxCtx := slots } : HostState).Phases now := h

theorem hostRec_setRec_self (hr : s.hostRec rq = some r) : (s.setRec rq r').hostRec rq = some r' := by
  obtain ⟨hown, -⟩ := HostState.hostRec_eq_some.mp hr
  refine HostState.hostRec_eq_some.mpr ⟨?_, ?_⟩
  · simpa [HostState.setRec, HostState.setEntry] using hown
  · simp [HostState.setRec, HostState.setEntry]

theorem hostRec_withCtx (s : HostState) (slots : Nat → HostRx) (rq : U64) :
    ({ s with rxCtx := slots } : HostState).hostRec rq = s.hostRec rq := rfl

/-- Two requests with a record are in different slots. -/
theorem hostRec_setRec_of_ne {rq' : U64} {x : HostRec} (hne : rq' ≠ rq) (hr : s.hostRec rq = some r) :
    (s.setRec rq x).hostRec rq' = s.hostRec rq' := by
  obtain ⟨hown, -⟩ := HostState.hostRec_eq_some.mp hr
  by_cases hslot : ntpSlot rq' = ntpSlot rq
  · have hno : ∀ s' : HostState, (s'.reqs (ntpSlot rq)).rq = rq → s'.hostRec rq' = none := by
      intro s' hs'
      have hmiss : ¬ (s'.reqs (ntpSlot rq')).rq = rq' := by
        rw [hslot, hs']
        exact fun h => hne h.symm
      rw [HostState.hostRec, HostState.hostEntry, if_neg hmiss]
      rfl
    rw [hno s hown, hno (s.setRec rq x) (by simpa [HostState.setRec, HostState.setEntry] using hown)]
  · simp [HostState.hostRec, HostState.hostEntry, HostState.setRec, HostState.setEntry, hslot]

theorem HostState.Reads.later (h : s.Reads open? t) (hle : t ≤ now) : s.Reads open? now where
  phases i := (h.phases i).later hle
  events := h.events
  call := h.call
  enter cpu hc := BitVec.le_trans (h.enter cpu hc) hle
  counting cpu hc h0 r hr := (h.counting cpu hc h0 r hr).later hle

theorem HostWrites.hostRec (hw : HostWrites SamePhase Eq s s') (hr : s'.hostRec rq = some r') :
    ∃ r, s.hostRec rq = some r ∧ SamePhase r r' := by
  obtain ⟨hown, rfl⟩ := HostState.hostRec_eq_some.mp hr
  rw [hw.rq] at hown
  exact ⟨_, HostState.hostRec_eq_some.mpr ⟨hown, rfl⟩, hw.record _⟩

/-- No data phase changed, and no context. -/
theorem HostState.Reads.writes (h : s.Reads open? now) (hw : HostWrites SamePhase Eq s s') : s'.Reads open? now := by
  have hctx : s'.rxCtx = s.rxCtx := hw.rxCtx.symm
  refine ⟨fun i => (h.phases i).same (hw.record i), ?_, ?_, ?_, ?_⟩
  · rw [hw.events]
    exact h.events
  · rw [hctx]
    exact h.call
  · rw [hctx]
    exact h.enter
  · rw [hctx]
    intro cpu hc h0 r' hr'
    obtain ⟨r, hr, hsame⟩ := hw.hostRec hr'
    exact (h.counting cpu hc h0 r hr).same hsame

theorem ntpCtxGet_eq {slots : Nat → HostRx} (hc : ntpCtxGet slots env = some c) :
    slots env.cpu = c ∧ c.tid = env.tid := by
  unfold ntpCtxGet at hc
  split at hc
  · rename_i htid
    obtain rfl := Option.some.inj hc
    exact ⟨rfl, htid⟩
  · cases hc

/-- The context that a hook finds is that of the open call, and there is no other. -/
theorem HostState.Reads.only (h : s.Reads open? now) (hc : ntpCtxGet s.rxCtx env = some c) (htid : env.tid ≠ 0)
    {cpu : ℕ} (hcpu : (s.rxCtx cpu).tid ≠ 0) : cpu = env.cpu := by
  obtain ⟨hctx, hown⟩ := ntpCtxGet_eq hc
  obtain ⟨env₁, h₁, hcpu₁, -⟩ := h.call cpu hcpu
  obtain ⟨env₂, h₂, hcpu₂, -⟩ := h.call env.cpu (by rw [hctx, hown]; exact htid)
  rw [h₁] at h₂
  rw [← hcpu₁, ← hcpu₂, Option.some.inj h₂]

/-- A hook in the open call: it leaves the context `c'` behind. -/
theorem HostState.Reads.inCall (h : s.Reads open? now) (hc : ntpCtxGet s.rxCtx env = some c) (htid : env.tid ≠ 0)
    (c' : HostRx) (hphases : s'.Phases now) (hevents : s'.events = s.events) (hctx : s'.rxCtx = ctxPut s.rxCtx env c')
    (hsame : c'.tid = c.tid) (henter : c'.enter = c.enter)
    (hcount : c'.dataRq ≠ 0 → ∀ r, s'.hostRec c'.dataRq = some r → Counting c' now r) : s'.Reads open? now := by
  obtain ⟨hget, hown⟩ := ntpCtxGet_eq hc
  have hopen : (s.rxCtx env.cpu).tid ≠ 0 := by
    rw [hget, hown]
    exact htid
  have hself : s'.rxCtx env.cpu = c' := by rw [hctx, ctxPut, Function.update_self]
  have honly : ∀ cpu, (s'.rxCtx cpu).tid ≠ 0 → cpu = env.cpu := by
    intro cpu hcpu
    by_contra hne
    rw [hctx, ctxPut, Function.update_of_ne hne] at hcpu
    exact hne (h.only hc htid hcpu)
  refine ⟨hphases, by rw [hevents]; exact h.events, fun cpu hcpu => ?_, fun cpu hcpu => ?_, fun cpu hcpu => ?_⟩
  · obtain rfl := honly cpu hcpu
    obtain ⟨env₁, h₁, hcpu₁, htid₁⟩ := h.call env.cpu hopen
    refine ⟨env₁, h₁, hcpu₁, ?_⟩
    rw [hself, hsame, htid₁, hget]
  · obtain rfl := honly cpu hcpu
    rw [hself, henter, ← hget]
    exact h.enter env.cpu hopen
  · obtain rfl := honly cpu hcpu
    rw [hself]
    exact hcount

/-! ## Copies -/

theorem copyTarget_eq_some {skb : U64} {pdu : Option U16} {e : HostEntry} (h : copyTarget f s env skb pdu = some (c, e)) :
    ntpCtxGet s.rxCtx env = some c ∧ s.hostEntry e.rq = some e := by
  unfold copyTarget at h
  split at h
  · cases h
  · split at h
    · rename_i c₁ cid hc₁
      split at h
      · cases h
      · obtain ⟨e₁, he₁, hpair⟩ := Option.map_eq_some_iff.mp h
        obtain ⟨rfl, rfl⟩ := Prod.mk.inj hpair
        obtain ⟨rq, -, he⟩ := Option.bind_eq_some_iff.mp he₁
        obtain ⟨hown, hent⟩ := HostState.hostEntry_eq_some.mp he
        have hrq : e₁.rq = rq := hent ▸ hown
        rw [hrq]
        exact ⟨hc₁, he⟩
    · cases h

theorem hostOnCopy_eq (skb : U64) (pdu : Option U16) : hostOnCopy f s env skb pdu =
    match copyTarget f s env skb pdu with
    | none => s
    | some (c, e) => copyData s env c e.rq e := by
  unfold hostOnCopy copyTarget
  split
  · rfl
  · cases hc : ntpCtxGet s.rxCtx env with
    | none => rfl
    | some c =>
      by_cases hskb : c.skb = skb
      · cases pdu with
        | none => simp [hskb]
        | some cid =>
          cases hq : s.rqByCid c.queue cid with
          | none => simp [hskb, hq]
          | some rq =>
            cases he : s.hostEntry rq with
            | none => simp [hskb, hq, he]
            | some e =>
              obtain ⟨hown, hent⟩ := HostState.hostEntry_eq_some.mp he
              have hrq : e.rq = rq := hent ▸ hown
              simp [hskb, hq, he, hrq]
      · cases pdu <;> simp [hskb]

/-- What `on_copy` does about the read before. -/
theorem switchRead_cases (s : HostState) (env : HookEnv) (c : HostRx) : switchRead s env c = s ∨
    ∃ prev, c.dataRq ≠ 0 ∧ s.hostRec c.dataRq = some prev ∧
      switchRead s env c = s.setRec c.dataRq (hostDataDone prev c env.now) := by
  unfold switchRead
  split
  · rename_i h0
    split
    · exact Or.inl rfl
    · rename_i prev hprev
      exact Or.inr ⟨prev, h0, hprev, rfl⟩
  · exact Or.inl rfl

/-- The period of the read before is over. The read of this copy is in another slot. -/
theorem HostState.Reads.switchRead (h : s.Reads open? env.now) (hc : ntpCtxGet s.rxCtx env = some c) (htid : env.tid ≠ 0)
    (hne : c.dataRq ≠ rq) (hr : s.hostRec rq = some r) : (switchRead s env c).Phases env.now ∧
      (switchRead s env c).hostRec rq = some r ∧ (switchRead s env c).events = s.events := by
  obtain ⟨hget, hown⟩ := ntpCtxGet_eq hc
  rcases switchRead_cases s env c with heq | ⟨prev, h0, hprev, heq⟩
  · rw [heq]
    exact ⟨h.phases, hr, rfl⟩
  · have hcount := h.counting env.cpu (by rw [hget, hown]; exact htid)
    rw [hget] at hcount
    rw [heq]
    refine ⟨h.phases.setRec ((h.phases.get hprev).counted (hcount h0 prev hprev)), ?_, rfl⟩
    rw [hostRec_setRec_of_ne hne.symm hprev]
    exact hr

/-- The call counts for the read of this copy from now on. -/
theorem HostState.Reads.countFor (h : s.Reads open? env.now) (hc : ntpCtxGet s.rxCtx env = some c) (htid : env.tid ≠ 0)
    (hphases : s'.Phases env.now) (hr : s'.hostRec rq = some r) (hevents : s'.events = s.events)
    (hctx : s'.rxCtx = s.rxCtx) (hrun : rq ≠ 0 → r.ts .rspProc = 0)
    (hfresh : rq ≠ 0 → c.dataRq = 0 → r.ts .c2hProc ≠ 0 → r.ts .c2hProc ≤ c.enter ∧ r.ts .c2hDone ≤ c.enter) :
    ({ s'.setRec rq (firstData r c env.now) with
        rxCtx := ctxPut s'.rxCtx env { c with dataRq := rq, busyFrom := busyFrom r c env.now } } :
      HostState).Reads open? env.now := by
  obtain ⟨hget, hown⟩ := ntpCtxGet_eq hc
  refine h.inCall hc htid { c with dataRq := rq, busyFrom := busyFrom r c env.now }
    ((hphases.setRec (readPhase_firstData (hphases.get hr))).withCtx _) hevents (by rw [hctx]) rfl rfl ?_
  intro h0 r' hr'
  rw [hostRec_withCtx, hostRec_setRec_self hr] at hr'
  rw [← Option.some.inj hr']
  refine counting_firstData (hphases.get hr) ?_ (hrun h0) (hfresh h0) rq
  rw [← hget]
  exact h.enter env.cpu (by rw [hget, hown]; exact htid)

theorem HostState.Reads.copyData (h : s.Reads open? env.now) (hc : ntpCtxGet s.rxCtx env = some c) (htid : env.tid ≠ 0)
    {e : HostEntry} (he : s.hostEntry e.rq = some e) (honce : e.rq ≠ 0 → CountsOnce c e) :
    (copyData s env c e.rq e).Reads open? env.now := by
  obtain ⟨hown, hent⟩ := HostState.hostEntry_eq_some.mp he
  have hrec : s.hostRec e.rq = some e.record := HostState.hostRec_eq_some.mpr ⟨hown, by rw [hent]⟩
  have hsame : SamePhase e.record (e.record.stamp .c2hLastArr c.arrival) := ⟨rfl, rfl, rfl, rfl⟩
  have h₁ : (s.setRec e.rq (e.record.stamp .c2hLastArr c.arrival)).Reads open? env.now :=
    h.writes (writes_of_hostRec hrec hsame)
  have hrec₁ : (s.setRec e.rq (e.record.stamp .c2hLastArr c.arrival)).hostRec e.rq =
      some (e.record.stamp .c2hLastArr c.arrival) := hostRec_setRec_self hrec
  have hc₁ : ntpCtxGet (s.setRec e.rq (e.record.stamp .c2hLastArr c.arrival)).rxCtx env = some c := hc
  unfold Bpf.copyData
  generalize s.setRec e.rq (e.record.stamp .c2hLastArr c.arrival) = s₁ at h₁ hrec₁ hc₁
  generalize e.record.stamp .c2hLastArr c.arrival = r₁ at hsame hrec₁
  dsimp only
  split
  · exact h₁
  · rename_i hne
    obtain ⟨hphases, hrec₂, hevents⟩ := h₁.switchRead hc₁ htid hne hrec₁
    rw [hrec₂]
    refine h₁.countFor hc₁ htid hphases hrec₂ hevents (switchRead_rxCtx s₁ env c) ?_ ?_
    · intro h0
      rw [hsame.rsp]
      exact (honce h0).running
    · intro h0 hd hp
      rw [hsame.proc] at hp ⊢
      rw [hsame.done]
      exact (honce h0).fresh hd hp

/-! ## Completions -/

theorem HostState.Reads.hostComplete (h : s.Reads open? env.now) (htid : env.tid ≠ 0) (h0 : rq ≠ 0) :
    (hostComplete f s env rq).1.Reads open? env.now := by
  unfold Bpf.hostComplete
  split
  · exact h
  · cases hc : ntpCtxGet s.rxCtx env with
    | none => exact h
    | some c =>
      dsimp only
      generalize hs₁ : (if f.trackQueues then s.uncount rq (cntUnsent ||| cntInflight) true else s) = s₁
      have hw : HostWrites SamePhase Eq s s₁ := by
        rw [← hs₁]
        exact writes_uncount s rq f.trackQueues _ true
      have h₁ := h.writes hw
      have hc₁ : ntpCtxGet s₁.rxCtx env = some c := by
        rw [← hw.rxCtx]
        exact hc
      obtain ⟨hget, hown⟩ := ntpCtxGet_eq hc₁
      have hopen : (s₁.rxCtx env.cpu).tid ≠ 0 := by
        rw [hget, hown]
        exact htid
      have hcount := h₁.counting env.cpu hopen
      rw [hget] at hcount
      cases hr : s₁.hostRec rq with
      | none => exact h₁
      | some r =>
        dsimp only
        have hphase : ReadPhase env.now (completeRec r c rq env.now) := by
          refine readPhase_completeRec (h₁.phases.get hr) rq fun hrq => ?_
          exact hcount (by rw [hrq]; exact h0) r (by rw [hrq]; exact hr)
        split
        · exact h₁.inCall hc₁ htid c.dataDone ((h₁.phases.setRec hphase).withCtx _) rfl rfl rfl rfl fun h0 => absurd rfl h0
        · rename_i hne
          have hself : s₁.rxCtx = ctxPut s₁.rxCtx env c := by
            rw [ctxPut, ← hget]
            exact (Function.update_eq_self ..).symm
          refine h₁.inCall hc₁ htid c (h₁.phases.setRec hphase) rfl hself rfl rfl fun hd r' hr' => ?_
          rw [hostRec_setRec_of_ne hne hr] at hr'
          exact hcount hd r' hr'

theorem HostState.Reads.onComplete (h : s.Reads open? env.now) (rq : KAddr) (c2hData : Bool)
    (hthread : Threaded s (.tcp env (.complete rq c2hData))) :
    (onComplete f s env rq c2hData).Reads open? env.now := by
  by_cases hr : s.hostRec rq = none
  · exact h.writes (writes_onComplete_none hr c2hData)
  have htid := hthread hr
  have hc := h.hostComplete (f := f) htid rq.property
  unfold Bpf.onComplete
  split
  · rename_i s₁ hs₁
    rw [hs₁] at hc
    exact hc
  · rename_i s₁ hs₁
    rw [hs₁] at hc
    split
    · exact hc
    · rename_i r hr
      split
      · exact hc
      · split
        · exact hc.writes (writes_of_hostRec hr ⟨rfl, rfl, rfl, rfl⟩)
        · exact hc

/-! ## Entries and exits -/

theorem HostState.Reads.enterCall (h : s.Reads none now) (hnow : env.now = now) (skb userData : U64) (tstamp : S64) :
    (onRecvSkb f s env skb userData tstamp).Reads (some env) now := by
  have hfree : ∀ cpu, (s.rxCtx cpu).tid = 0 := by
    intro cpu
    by_contra hne
    obtain ⟨_, hnone, -⟩ := h.call cpu hne
    cases hnone
  unfold onRecvSkb
  split
  · exact ⟨h.phases, h.events, fun cpu hne => absurd (hfree cpu) hne, h.enter, h.counting⟩
  · have hctx : ∀ cpu, cpu ≠ env.cpu → ((hostRxEnter s.rxCtx env userData skb (ntpSkbArrival f tstamp env.now)
        env.now) cpu).tid = 0 := by
      intro cpu hne
      rw [hostRxEnter, ctxPut, Function.update_of_ne hne]
      exact hfree cpu
    have hself : hostRxEnter s.rxCtx env userData skb (ntpSkbArrival f tstamp env.now) env.now env.cpu =
        { tid := env.tid, queue := userData, skb := skb, arrival := ntpSkbArrival f tstamp env.now
          enter := env.now, dataRq := 0, busyFrom := 0 } := Function.update_self ..
    refine ⟨h.phases, h.events, fun cpu hne => ?_, fun cpu hne => ?_, fun cpu hne h0 => ?_⟩
    · by_cases hcpu : cpu = env.cpu
      · subst hcpu
        refine ⟨env, rfl, rfl, ?_⟩
        dsimp only
        rw [hself]
      · exact absurd (hctx cpu hcpu) hne
    · by_cases hcpu : cpu = env.cpu
      · subst hcpu
        dsimp only
        rw [hself, hnow]
        exact BitVec.le_refl now
      · exact absurd (hctx cpu hcpu) hne
    · by_cases hcpu : cpu = env.cpu
      · subst hcpu
        dsimp only at h0
        rw [hself] at h0
        exact absurd rfl h0
      · exact absurd (hctx cpu hcpu) hne

theorem HostState.Reads.recvSkbData (h : s.Reads open? env.now) (hc : ntpCtxGet s.rxCtx env = some c)
    (htid : env.tid ≠ 0) : (recvSkbData s env c).Phases env.now ∧ (recvSkbData s env c).events = s.events := by
  obtain ⟨hget, hown⟩ := ntpCtxGet_eq hc
  have hcount := h.counting env.cpu (by rw [hget, hown]; exact htid)
  rw [hget] at hcount
  unfold Bpf.recvSkbData
  split
  · exact ⟨h.phases, rfl⟩
  · rename_i h0
    split
    · exact ⟨h.phases, rfl⟩
    · rename_i r hr
      exact ⟨h.phases.setRec ((h.phases.get hr).counted (hcount h0 r hr)), rfl⟩

/-- After the exit no context is left. -/
theorem HostState.Reads.exitCall {env₀ : HookEnv} (h : s.Reads (some env₀) env.now) (htid : env.tid ≠ 0)
    (hcpu : env.cpu = env₀.cpu) (hown : env.tid = env₀.tid) : (onRecvSkbExit s env).Reads none env.now := by
  have hfree : ∀ s' : HostState, (∀ cpu, (s'.rxCtx cpu).tid = 0) → s'.Phases env.now → s'.events = s.events →
      s'.Reads none env.now := by
    intro s' htags hphases hevents
    refine ⟨hphases, ?_, fun cpu hne => absurd (htags cpu) hne, fun cpu hne => absurd (htags cpu) hne,
      fun cpu hne => absurd (htags cpu) hne⟩
    rw [hevents]
    exact h.events
  have hother : ∀ cpu, cpu ≠ env.cpu → (s.rxCtx cpu).tid = 0 := by
    intro cpu hne
    by_contra hopen
    obtain ⟨env₁, h₁, hcpu₁, -⟩ := h.call cpu hopen
    obtain rfl := Option.some.inj h₁
    exact hne (hcpu₁.symm.trans hcpu.symm)
  unfold onRecvSkbExit
  cases hc : ntpCtxGet s.rxCtx env with
  | none =>
    refine hfree s (fun cpu => ?_) h.phases rfl
    by_cases hself : cpu = env.cpu
    · subst hself
      by_contra hopen
      obtain ⟨env₁, h₁, -, htid₁⟩ := h.call env.cpu hopen
      obtain rfl := Option.some.inj h₁
      -- the entry's context would have been found
      have hfound : ntpCtxGet s.rxCtx env = some (s.rxCtx env.cpu) := if_pos (htid₁.symm.trans hown.symm)
      rw [hfound] at hc
      cases hc
    · exact hother cpu hself
  | some c =>
    obtain ⟨hphases, hevents⟩ := h.recvSkbData hc htid
    dsimp only
    refine hfree _ (fun cpu => ?_) (hphases.withCtx _) hevents
    dsimp only
    rw [recvSkbLeave, hc]
    dsimp only
    by_cases hself : cpu = env.cpu
    · rw [hself, ctxPut, Function.update_self]
    · rw [ctxPut, Function.update_of_ne hself]
      exact hother cpu hself

/-! ## Records that start and end -/

/-- An entry is replaced by one that no open call counts for. -/
theorem HostState.Reads.replace (h : s.Reads open? now) {e : HostEntry}
    (hreqs : s'.reqs = Function.update s.reqs (ntpSlot rq) e) (hphase : ReadPhase now e.record)
    (hevents : ∀ r ∈ s'.events, PhaseFits r) (hctx : s'.rxCtx = s.rxCtx)
    (hother : ∀ cpu, (s.rxCtx cpu).tid ≠ 0 → (s.rxCtx cpu).dataRq ≠ 0 → e.rq ≠ (s.rxCtx cpu).dataRq) :
    s'.Reads open? now := by
  refine ⟨fun i => ?_, hevents, by rw [hctx]; exact h.call, by rw [hctx]; exact h.enter, ?_⟩
  · rw [hreqs]
    by_cases hi : i = ntpSlot rq
    · rw [hi, Function.update_self]
      exact hphase
    · rw [Function.update_of_ne hi]
      exact h.phases i
  · rw [hctx]
    intro cpu hopen h0 r hr
    obtain ⟨hown, hrec⟩ := HostState.hostRec_eq_some.mp hr
    rw [hreqs] at hown hrec
    by_cases hi : ntpSlot (s.rxCtx cpu).dataRq = ntpSlot rq
    · rw [hi, Function.update_self] at hown
      exact absurd hown (hother cpu hopen h0)
    · rw [Function.update_of_ne hi] at hown hrec
      exact h.counting cpu hopen h0 r (HostState.hostRec_eq_some.mpr ⟨hown, hrec⟩)

theorem HostState.Reads.setup (h : s.Reads open? now) {a : SetupArgs} (honce : ReadOnce f s (.setupCmd env a)) :
    (ntpHSetupCmd .tcp f s env a).Reads open? now := by
  by_cases hst : setupStores .tcp f s env a = true
  · obtain ⟨c, p, -, -, heq⟩ := ntpHSetupCmd_stores hst
    have hw : HostWrites SamePhase Eq s (countThroughput (takePending .tcp f s env a) c.opcode a.dataLen) :=
      (writes_takePending .tcp s a).trans (writes_countThroughput _ c.opcode a.dataLen)
    have h₁ := h.writes hw
    rw [heq]
    refine h₁.replace (storeHostRec_reqs ..) (readPhase_blank rfl rfl rfl) ?_ (storeHostRec_rxCtx ..) ?_
    · rw [(hostStored_storeHostRec ..).events]
      exact h₁.events
    · rw [← hw.rxCtx]
      exact fun cpu hopen _ => (honce hst cpu hopen).symm
  · exact h.writes (writes_ntpHSetupCmd (by simpa using hst))

theorem samePhase_doneRec (tr : Transport) (env : HookEnv) (r : HostRec) : SamePhase r (doneRec tr env r) := by
  unfold doneRec
  dsimp only
  split <;> exact ⟨rfl, rfl, rfl, rfl⟩

theorem HostState.Reads.blkDone (h : s.Reads open? now) {rq : KAddr} (honce : ReadOnce f s (.blkDone env rq)) :
    (ntpHBlkDone .tcp s env rq).Reads open? now := by
  by_cases h0 : s.inflight = 0
  · rw [ntpHBlkDone, if_pos h0]
    exact h
  cases he : s.hostEntry rq with
  | none =>
    rw [ntpHBlkDone, if_neg h0, he]
    exact h
  | some e =>
    obtain ⟨hreqs, hevents, hctx⟩ := ntpHBlkDone_some .tcp env h0 he
    obtain ⟨hown, rfl⟩ := HostState.hostEntry_eq_some.mp he
    have hrsp := honce _ (HostState.hostRec_eq_some.mpr ⟨hown, rfl⟩)
    have hphase := h.phases (ntpSlot rq)
    have hsame := samePhase_doneRec .tcp env (s.reqs (ntpSlot rq)).record
    generalize (s.reqs (ntpSlot rq)).record = r at hrsp hphase hsame hreqs hevents
    have hfits : PhaseFits (doneRec .tcp env r) := by
      rw [PhaseFits, hsame.busy, hsame.proc, hsame.done, hsame.rsp]
      intro hbusy
      have hdone : r.ts .c2hDone ≠ 0 := fun hz => hbusy (hphase.none hz)
      exact ⟨hphase.fits hdone, hphase.rsp (hrsp (hphase.parsed hdone))⟩
    refine h.replace hreqs (hphase.same hsame) (fun r' hmem => ?_) hctx fun cpu _ hd hz => hd hz.symm
    rw [hevents, hostEmit_events] at hmem
    split at hmem
    · exact h.events r' hmem
    · rcases List.mem_append.mp hmem with hmem | hmem
      · exact h.events r' hmem
      · rw [List.mem_singleton.mp hmem]
        exact hfits

/-! ## Runs -/

theorem HostState.Reads.onR2t (h : s.Reads open? now) (req : U64) : (onR2t k s env req).Reads open? now := by
  unfold Bpf.onR2t
  split
  · exact h
  · split
    · exact h
    · rename_i r hr
      split
      · exact h.writes (writes_of_hostRec hr ⟨rfl, rfl, rfl, rfl⟩)
      · exact h.writes (writes_of_hostRec hr ⟨rfl, rfl, rfl, rfl⟩)

theorem HostState.Reads.hostOnCopy (h : s.Reads open? env.now) (htid : env.tid ≠ 0) {skb : U64} {pdu : Option U16}
    (honce : ReadOnce f s (.tcp env (.copy skb pdu))) : (hostOnCopy f s env skb pdu).Reads open? env.now := by
  rw [hostOnCopy_eq]
  cases ht : copyTarget f s env skb pdu with
  | none => exact h
  | some p =>
    obtain ⟨c, e⟩ := p
    obtain ⟨hc, he⟩ := copyTarget_eq_some ht
    exact h.copyData hc htid he (honce c e ht)

/-- A hook of the transport that is no entry or exit of a call. -/
theorem HostState.Reads.tcp (h : s.Reads open? env.now) {e : HostTcpEvent} (hthread : Threaded s (.tcp env e))
    (honce : ReadOnce f s (.tcp env e)) (henter : ∀ skb userData tstamp, e ≠ .recvSkb skb userData tstamp)
    (hexit : e ≠ .recvSkbExit) : (e.run k f s env).Reads open? env.now := by
  by_cases he : e.sends = true
  · exact h.writes (writes_sends (fun _ _ => ⟨rfl, rfl, rfl, rfl⟩) (fun _ _ => ⟨rfl, rfl, rfl, rfl⟩)
      (fun _ _ => ⟨rfl, rfl, rfl, rfl⟩) he)
  · cases e with
    | recvSkb skb userData tstamp => exact absurd rfl (henter skb userData tstamp)
    | recvSkbExit => exact absurd rfl hexit
    | copy skb pdu => exact h.hostOnCopy hthread honce
    | r2t req => exact h.onR2t req
    | complete rq c2hData => exact h.onComplete rq c2hData hthread
    | _ => exact absurd rfl he

/-- One event of a run in which the calls follow each other. -/
theorem HostState.Reads.step (h : s.Reads open? now) {e : HostEvent} {es : List HostEvent}
    (hcalls : RecvCalls open? (e :: es)) (hnow : ∀ v, e.now = some v → v = now)
    (hthread : Threaded s e) (honce : ReadOnce f s e) :
    ∃ next, RecvCalls next es ∧ (hostStep .tcp k f s e).Reads next now := by
  have hother : (∀ env skb userData tstamp, e ≠ .tcp env (.recvSkb skb userData tstamp)) →
      (∀ env, e ≠ .tcp env .recvSkbExit) → (hostStep .tcp k f s e).Reads open? now := by
    intro henter hexit
    cases e with
    | arm on => exact h.writes (.of_eq rfl rfl rfl rfl)
    | setupCmd env a => exact h.setup honce
    | nvmeDone env rq => exact h.writes (writes_ntpHNvmeDone (fun _ _ => ⟨rfl, rfl, rfl, rfl⟩) rq)
    | blkDone env rq => exact h.blkDone honce
    | tcp env e =>
      obtain rfl := hnow env.now rfl
      exact h.tcp hthread honce (fun skb userData tstamp heq => henter env skb userData tstamp (by rw [heq]))
        (fun heq => hexit env (by rw [heq]))
    | rdma env e => exact h
  unfold RecvCalls at hcalls
  split at hcalls
  · rename_i env skb userData tstamp
    exact ⟨some env, hcalls, h.enterCall (hnow env.now rfl) skb userData tstamp⟩
  · exact hcalls.elim
  · exact hcalls.elim
  · rename_i env₀ env
    obtain rfl := hnow env.now rfl
    exact ⟨none, hcalls.2.2, h.exitCall hthread hcalls.1 hcalls.2.1⟩
  · rename_i h1 h2 h3 h4
    refine ⟨open?, hcalls, hother (fun env skb userData tstamp heq => ?_) (fun env heq => ?_)⟩
    · cases ho : open? with
      | none => exact h1 env skb userData tstamp ho heq
      | some env₀ => exact h2 env₀ env skb userData tstamp ho heq
    · cases ho : open? with
      | none => exact h3 env ho heq
      | some env₀ => exact h4 env₀ env ho heq

theorem HostState.Reads.run {es : List HostEvent} (h : s.Reads open? t) (hcalls : RecvCalls open? es)
    (hclock : Forward HostEvent.now t es) (hthread : Every (hostStep .tcp k f) Threaded s es)
    (honce : Every (hostStep .tcp k f) (ReadOnce f) s es) :
    ∃ next u, (hostRun .tcp k f s es).Reads next u := by
  induction es generalizing s open? t with
  | nil => exact ⟨open?, t, h⟩
  | cons e es ih =>
    obtain ⟨u, hle, hnow, hclock'⟩ := hclock.step
    obtain ⟨next, hcalls', h'⟩ := (h.later hle).step (k := k) hcalls hnow hthread.1 honce.1
    exact ih h' hcalls' hclock' hthread.2 honce.2

end State

theorem HostState.reads_init : ({} : HostState).Reads none 0 :=
  ⟨fun _ => readPhase_blank rfl rfl rfl, fun _ hr => absurd hr List.not_mem_nil, fun _ h => absurd rfl h,
    fun _ h => absurd rfl h, fun _ h => absurd rfl h⟩

/-- The cap in `data_phase` takes no effect on a time that fits. -/
theorem dataPhase_of_fits {first done next busy : U64} (hbusy : busy ≠ 0) (hfits : Fits first done busy)
    (hnext : done ≤ next) (busyC waitC : Comp) (b : Breakdown) : dataPhase first done next busy busyC waitC b =
      (true, (b.set busyC busy).set waitC (d done first - busy)) := by
  have hdone : done ≠ 0 := by
    rintro rfl
    have hfirst : first = 0 := BitVec.le_zero_iff.mp hfits.le
    have hzero := hfits.busy
    rw [hfirst, sub_zero] at hzero
    exact hbusy (BitVec.le_zero_iff.mp hzero)
  have hcap : ¬ d done first < busy := BitVec.not_lt.mpr hfits.busy
  have hphase : ¬ (busy = 0 ∨ done = 0 ∨ done < first ∨ next < done) := by
    rintro (h | h | h | h)
    · exact hbusy h
    · exact hdone h
    · exact BitVec.not_lt.mpr hfits.le h
    · exact BitVec.not_lt.mpr hnext h
  rw [dataPhase, if_neg hphase]
  simp only [if_neg hcap]

/-- In every run of calls that follow each other and in which no copy counts twice, the counted time of an
emitted read lies between its first copy and the end of its last one, which is before its completion. -/
theorem read_phase_fits (k : Layout) (f : Filter) (es : List HostEvent) (hcalls : RecvCalls none es)
    (hthread : Every (hostStep .tcp k f) Threaded {} es) (hclock : Forward HostEvent.now 0 es)
    (honce : Every (hostStep .tcp k f) (ReadOnce f) {} es) :
    ∀ r ∈ (hostRun .tcp k f {} es).events, r.c2hBusyNs ≠ 0 →
      Fits (r.ts .c2hProc) (r.ts .c2hDone) r.c2hBusyNs ∧ r.ts .c2hDone ≤ r.ts .rspProc ∧
      ∀ b, dataPhase (r.ts .c2hProc) (r.ts .c2hDone) (r.ts .rspProc) r.c2hBusyNs .hostData .hostWait b =
        (true, (b.set .hostData r.c2hBusyNs).set .hostWait (d (r.ts .c2hDone) (r.ts .c2hProc) - r.c2hBusyNs)) := by
  obtain ⟨next, u, hrun⟩ := HostState.reads_init.run hcalls hclock hthread honce
  intro r hr hbusy
  obtain ⟨hfits, hrsp⟩ := hrun.events r hr hbusy
  exact ⟨hfits, hrsp, dataPhase_of_fits hbusy hfits hrsp .hostData .hostWait⟩

/-! ### Two reads in one call -/

/-- The other request of the examples. -/
def otherRq : KAddr := ⟨0x2000#64, by decide⟩

/-- Two reads are set up, with cids 6 and 1. -/
def twoReads : List HostEvent :=
  [.arm true, .setupCmd (hookAt 1) (setupRead 6), .setupCmd (hookAt 2) { setupRead 1 with rq := otherRq }]

/-- A copy of the data of `cid`. -/
def copyOf (now : U64) (cid : U16) : HostEvent := .tcp (hookAt now) (.copy 0x700 (some cid))

/-- Both reads get data in a call from 100 to 200: cid 1, cid 6 and cid 1 again. They complete in another
call. -/
def switchedReads : List HostEvent :=
  twoReads ++ [.tcp (hookAt 100) (.recvSkb 0x700 0x500 0), copyOf 110 1, copyOf 120 6, copyOf 130 1,
    .tcp (hookAt 200) .recvSkbExit, .tcp (hookAt 210) (.recvSkb 0x700 0x500 0),
    .tcp (hookAt 220) (.complete someRq false), .tcp (hookAt 221) (.complete otherRq false),
    .tcp (hookAt 230) .recvSkbExit, .blkDone (hookAt 240) someRq, .blkDone (hookAt 241) otherRq]

theorem readOnce_switched : Every (hostStep .tcp someLayout {}) (ReadOnce {}) {} switchedReads := by
  have hcopy : ∀ (s : HostState) env skb pdu, (∀ p ∈ copyTarget {} s env skb pdu, p.2.record.ts .rspProc = 0 ∧
      (p.1.dataRq = 0 → p.2.record.ts .c2hProc ≠ 0 →
        p.2.record.ts .c2hProc ≤ p.1.enter ∧ p.2.record.ts .c2hDone ≤ p.1.enter)) →
      ReadOnce {} s (.tcp env (.copy skb pdu)) :=
    fun s env skb pdu h c e ht _ => ⟨(h (c, e) ht).1, (h (c, e) ht).2⟩
  have hdone : ∀ (s : HostState) env (rq : KAddr), (∀ r ∈ s.hostRec rq, r.ts .rspProc ≠ 0) →
      ReadOnce {} s (.blkDone env rq) := fun s env rq h r hr _ => h r hr
  refine ⟨trivial, fun _ _ hne => absurd rfl hne, fun _ _ hne => absurd rfl hne, trivial, hcopy _ _ _ _ ?_,
    hcopy _ _ _ _ ?_, hcopy _ _ _ _ ?_, trivial, trivial, trivial, trivial, trivial, hdone _ _ _ ?_, hdone _ _ _ ?_,
    trivial⟩
  all_goals decide +kernel

theorem read_phase_fits_switched :
    ((hostRun .tcp someLayout {} {} switchedReads).events.map fun r =>
      (r.ts .c2hProc, r.ts .c2hDone, r.ts .rspProc, r.c2hBusyNs)) = [(120, 130, 220, 10), (110, 200, 221, 80)] ∧
    ∀ r ∈ (hostRun .tcp someLayout {} {} switchedReads).events, r.c2hBusyNs ≠ 0 →
      Fits (r.ts .c2hProc) (r.ts .c2hDone) r.c2hBusyNs := by
  refine ⟨by decide +kernel, fun r hr hbusy => ?_⟩
  exact (read_phase_fits someLayout {} switchedReads ⟨rfl, rfl, rfl, rfl, trivial⟩ (threaded_of_all (by decide))
    (by unfold Forward; decide) readOnce_switched r hr hbusy).1

/-- As before, but cid 6 completes at 150, before the second copy of cid 1: then the call counts for no
read, and the time of cid 1 starts anew at the call's entry. -/
def completedBetween : List HostEvent :=
  twoReads ++ [.tcp (hookAt 100) (.recvSkb 0x700 0x500 0), copyOf 110 1, copyOf 120 6,
    .tcp (hookAt 150) (.complete someRq true), copyOf 160 1,
    .tcp (hookAt 200) .recvSkbExit, .tcp (hookAt 210) (.recvSkb 0x700 0x500 0),
    .tcp (hookAt 220) (.complete otherRq false), .tcp (hookAt 230) .recvSkbExit,
    .blkDone (hookAt 240) someRq, .blkDone (hookAt 241) otherRq]

/-- The read of cid 1 has a span of 90 and counts 110 of it. -/
theorem completion_between_counts_twice :
    RecvCalls none completedBetween ∧ Every (hostStep .tcp someLayout {}) Threaded {} completedBetween ∧
    Forward HostEvent.now 0 completedBetween ∧
    ¬ ∀ r ∈ (hostRun .tcp someLayout {} {} completedBetween).events, PhaseFits r := by
  have hevents : ((hostRun .tcp someLayout {} {} completedBetween).events.map fun r =>
      (r.ts .c2hProc, r.ts .c2hDone, r.c2hBusyNs)) = [(120, 150, 30), (110, 200, 110)] := by
    decide +kernel
  refine ⟨⟨rfl, rfl, rfl, rfl, trivial⟩, threaded_of_all (by decide), by unfold Forward; decide, fun h => ?_⟩
  have hmem : ((110, 200, 110) : U64 × U64 × U64) ∈ (hostRun .tcp someLayout {} {} completedBetween).events.map fun r =>
      (r.ts .c2hProc, r.ts .c2hDone, r.c2hBusyNs) := by
    rw [hevents]
    decide
  obtain ⟨r, hr, hts⟩ := List.mem_map.mp hmem
  simp only [Prod.mk.injEq] at hts
  have hfits := h r hr (by rw [hts.2.2]; decide)
  have hbusy := hfits.1.busy
  rw [hts.1, hts.2.1, hts.2.2] at hbusy
  revert hbusy
  decide

end Ntprof.Bpf
