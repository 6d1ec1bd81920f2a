import Ntprof.Bpf.DataCalls
import Ntprof.Bpf.Proofs.TargetRecordsProofs
import Ntprof.Bpf.Proofs.ArrivalProofs
import Ntprof.Lib.MeasuredSpan

/-!
# The data phase of a write

`on_copy_done` counts the first copy from the parsing of the PDU header, if the copy starts inside the
skb that carried it, and every other copy from its own start. A copy starts after everything that was
counted before it, so the counted time fits into the span from the header to the last copy.
-/

namespace Ntprof.Bpf

open ClockRun MeasuredSpan

/-- The invariant of a record at time `now`. -/
structure WritePhase (now : U64) (r : TgtRec) : Prop where
  proc : r.ts .dataProc ≤ now
  none : r.h2cSkbs = 0 → r.h2cBusyNs = 0
  parsed : r.h2cSkbs ≠ 0 → r.ts .dataProc ≠ 0
  fits : r.h2cSkbs ≠ 0 → Fits (r.ts .dataProc) (r.ts .dataDone) r.h2cBusyNs
  done : r.h2cSkbs ≠ 0 → r.ts .dataDone ≤ now
  exec : r.h2cSkbs ≠ 0 → r.ts .exec ≠ 0 → r.ts .dataDone ≤ r.ts .exec

section Record

variable {now t : U64} {r : TgtRec}

theorem writePhase_later (h : WritePhase t r) (hle : t ≤ now) : WritePhase now r :=
  ⟨BitVec.le_trans h.proc hle, h.none, h.parsed, h.fits, fun hs => BitVec.le_trans (h.done hs) hle, h.exec⟩

theorem writePhase_stamp {i : TgtTs} (hi : i ∉ [.dataProc, .dataDone, .exec]) (u : U64) (h : WritePhase now r) :
    WritePhase now (r.stamp i u) := by
  have hts : ∀ j ∈ [TgtTs.dataProc, .dataDone, .exec], (r.stamp i u).ts j = r.ts j := by
    intro j hj
    have hne : j ≠ i := by
      rintro rfl
      exact hi hj
    exact Function.update_of_ne hne ..
  have hproc := hts .dataProc (by decide)
  have hdone := hts .dataDone (by decide)
  have hexec := hts .exec (by decide)
  refine ⟨by rw [hproc]; exact h.proc, h.none, by rw [hproc]; exact h.parsed, ?_, ?_, ?_⟩
  · rw [hproc, hdone]
    exact h.fits
  · rw [hdone]
    exact h.done
  · rw [hdone, hexec]
    exact h.exec

theorem writePhase_new (f : Filter) (env : HookEnv) (a : ReqInitArgs) (c : NvmeCmd) (m n : U16) (arrival : U64) :
    WritePhase now (newTgtRec .tcp f env a c m n arrival) :=
  ⟨BitVec.le_def.mpr (Nat.zero_le _), fun _ => rfl, fun h => absurd rfl h, fun h => absurd rfl h,
    fun h => absurd rfl h, fun h => absurd rfl h⟩

theorem writePhase_keptBy (now : U64) : KeptBy (WritePhase now) now where
  flags _ _ h := ⟨h.proc, h.none, h.parsed, h.fits, h.done, h.exec⟩
  cpu _ _ h := ⟨h.proc, h.none, h.parsed, h.fits, h.done, h.exec⟩
  stamp _ i hi h := by
    apply writePhase_stamp _ _ h
    revert i
    decide
  -- the copies that were counted are over
  exec r _ _ h := ⟨h.proc, h.none, h.parsed, h.fits, h.done, fun hs _ => h.done hs⟩
  start f env a c m n arrival _ _ := writePhase_new f env a c m n arrival
  -- a header is stamped only once, so nothing is counted yet
  h2c r arrival h0 _ h := by
    have hskbs : r.h2cSkbs = 0 := by
      by_contra hs
      exact h.parsed hs h0
    exact ⟨BitVec.le_refl now, h.none, fun hs => absurd hskbs hs, fun hs => absurd hskbs hs,
      fun hs => absurd hskbs hs, fun hs => absurd hskbs hs⟩

/-- A copy that started at `c.enter` is added to a record that was as the invariant says then. -/
theorem writePhase_addCopy (f : Filter) {c : TcpRx} (tstamp : S64) (h : WritePhase c.enter r) (henter : c.enter ≤ now)
    (hawaits : awaitsData r = true) (hcount : r.h2cSkbs ≠ -1) : WritePhase now (addCopy f r c tstamp now) := by
  simp only [awaitsData, Bool.and_eq_true, bne_iff_ne, beq_iff_eq] at hawaits
  obtain ⟨⟨-, hproc⟩, hexec⟩ := hawaits
  have hfits : Fits (r.ts .dataProc) now (r.h2cBusyNs + (now - copyFrom r c)) := by
    by_cases hs : r.h2cSkbs = 0
    · have hfrom : r.ts .dataProc ≤ copyFrom r c ∧ copyFrom r c ≤ now := by
        unfold copyFrom
        split
        · exact ⟨BitVec.le_refl _, BitVec.le_trans h.proc henter⟩
        · exact ⟨h.proc, henter⟩
      rw [h.none hs, zero_add]
      exact fits_first hfrom.1 hfrom.2
    · have hfrom : copyFrom r c = c.enter := if_neg fun hc => hs hc.1
      rw [hfrom]
      exact (h.fits hs).add (h.done hs) henter
  have hskbs : (addCopy f r c tstamp now).h2cSkbs ≠ 0 := by
    show r.h2cSkbs + 1 ≠ 0
    intro h0
    exact hcount (eq_neg_of_add_eq_zero_left h0)
  exact ⟨BitVec.le_trans h.proc henter, fun h0 => absurd h0 hskbs, fun _ => hproc, fun _ => hfits,
    fun _ => BitVec.le_refl now, fun _ hne => absurd hexec hne⟩

end Record

/-! ## Runs -/

/-- Whatever is counted ended before the copy that `env` entered. -/
structure CopyOpen (s : TgtState) (env : HookEnv) (now : U64) : Prop where
  le : (s.tcpRx env.cpu).enter ≤ now
  before : (s.tcpRx env.cpu).enter ≠ 0 → s.Records (WritePhase (s.tcpRx env.cpu).enter)

/-- The invariant at time `now`, with the copy whose exit is due. -/
structure Measured (s : TgtState) (open? : Option HookEnv) (now : U64) : Prop where
  records : s.Records (WritePhase now)
  copy : ∀ env, open? = some env → CopyOpen s env now

/-- A command's data is at most 2^32 - 1 bytes and a copy moves at least one of them, so `h2c_skbs` does
not wrap. -/
def CopyCounts (s : TgtState) (e : TgtEvent) : Prop :=
  ∀ env a, e = .tcp env (.copyDone a) → ∀ req r, a.cmd = some req → s.tgtRec req = some r → r.h2cSkbs ≠ -1

section Runs

variable {f : Filter} {s : TgtState} {now t : U64}

theorem Measured.later {open? : Option HookEnv} (h : Measured s open? t) (hle : t ≤ now) : Measured s open? now :=
  ⟨h.records.mono fun _ hr => writePhase_later hr hle,
    fun env he => ⟨BitVec.le_trans (h.copy env he).le hle, (h.copy env he).before⟩⟩

theorem Measured.enter (h : Measured s none now) {env : HookEnv} (hnow : env.now = now) (skb sk : U64) (offset : S64) :
    Measured (onCopy s env skb sk offset) (some env) now := by
  refine ⟨⟨h.records.table, h.records.events⟩, ?_⟩
  rintro env' ⟨⟩
  have henter : ((onCopy s env skb sk offset).tcpRx env.cpu).enter = if s.inflight ≠ 0 then env.now else 0 := by
    simp only [onCopy, ctxPut, Function.update_self]
  refine ⟨?_, ?_⟩
  · rw [henter]
    split
    · rw [hnow]
      exact BitVec.le_refl now
    · exact BitVec.le_def.mpr (Nat.zero_le _)
  · rw [henter]
    split
    · intro _
      rw [hnow]
      exact ⟨h.records.table, h.records.events⟩
    · exact fun h0 => absurd rfl h0

theorem Measured.exit {env env' : HookEnv} (h : Measured s (some env) now) (hnow : env'.now = now)
    (hcpu : env'.cpu = env.cpu) {a : CopyDoneArgs} (hcount : CopyCounts s (.tcp env' (.copyDone a))) :
    Measured (onCopyDone f s env' a) none now := by
  obtain ⟨hle, hbefore⟩ := h.copy env rfl
  refine ⟨h.records.onCopyDone fun c hc henter req r ha hr hawaits => ?_, fun _ he => nomatch he⟩
  have hctx : c = s.tcpRx env.cpu := by
    unfold ntpCtxGet at hc
    split at hc
    · rw [← Option.some.inj hc, hcpu]
    · cases hc
  subst hctx
  rw [hnow]
  exact writePhase_addCopy f a.tstamp ((hbefore henter).get hr) hle hawaits (hcount env' a rfl req r ha hr)

/-- One event of a run of whole copies. -/
theorem Measured.step {open? : Option HookEnv} (h : Measured s open? now) {e : TgtEvent} {es : List TgtEvent}
    (hw : WholeCopies open? (e :: es)) (hnow : ∀ v, e.now = some v → v = now) (hcount : CopyCounts s e) :
    ∃ next, WholeCopies next es ∧ Measured (tgtStep .tcp f s e) next now := by
  have hkept : ∀ env, e.env = some env → KeptBy (WritePhase now) env.now := by
    intro env henv
    rw [hnow env.now (by rw [TgtEvent.now, henv]; rfl)]
    exact writePhase_keptBy now
  unfold WholeCopies at hw
  split at hw
  · rename_i on
    refine ⟨open?, hw, ⟨h.records.table, h.records.events⟩, fun env he => ?_⟩
    obtain ⟨hle, hbefore⟩ := h.copy env he
    exact ⟨hle, fun h0 => ⟨(hbefore h0).table, (hbefore h0).events⟩⟩
  · rename_i env skb sk offset
    exact ⟨some env, hw, h.enter (hnow env.now rfl) skb sk offset⟩
  · exact hw.elim
  · rename_i hdone
    refine ⟨none, hw, h.records.step hkept fun env a he => hdone env a he, fun _ he => nomatch he⟩
  · rename_i env env' a
    exact ⟨none, hw.2.2, h.exit (hnow env'.now rfl) hw.1 hcount⟩
  · exact hw.elim

theorem Measured.run {open? : Option HookEnv} {es : List TgtEvent} (h : Measured s open? t)
    (hw : WholeCopies open? es) (hclock : Forward TgtEvent.now t es) (hcount : Every (tgtStep .tcp f) CopyCounts s es) :
    ∃ next u, Measured (tgtRun .tcp f s es) next u := by
  induction es generalizing s open? t with
  | nil => exact ⟨open?, t, h⟩
  | cons e es ih =>
    obtain ⟨u, hle, hnow, hclock'⟩ := hclock.step
    obtain ⟨next, hw', h'⟩ := (h.later hle).step (f := f) hw hnow hcount.1
    exact ih h' hw' hclock' hcount.2

end Runs

/-- In every run of whole copies, each emitted record with counted time has all of it between the header of
its first data and the end of the last copy, which was before the execution. -/
theorem write_phase_fits (f : Filter) (es : List TgtEvent) (hw : WholeCopies none es)
    (hclock : Forward TgtEvent.now 0 es) (hcount : Every (tgtStep .tcp f) CopyCounts {} es) :
    ∀ r ∈ (tgtRun .tcp f {} es).events, r.h2cBusyNs ≠ 0 →
      Fits (r.ts .dataProc) (r.ts .dataDone) r.h2cBusyNs ∧ (r.ts .exec ≠ 0 → r.ts .dataDone ≤ r.ts .exec) := by
  have hinit : Measured {} none 0 := by
    have hblank : WritePhase 0 {} := ⟨BitVec.le_refl _, fun _ => rfl, fun h => absurd rfl h, fun h => absurd rfl h,
      fun h => absurd rfl h, fun h => absurd rfl h⟩
    exact ⟨⟨fun _ => hblank, fun r hr => absurd hr List.not_mem_nil⟩, fun _ he => nomatch he⟩
  obtain ⟨next, u, hrun⟩ := hinit.run hw hclock hcount
  intro r hr hbusy
  have hphase := hrun.records.events r hr
  have hskbs : r.h2cSkbs ≠ 0 := fun h0 => hbusy (hphase.none h0)
  exact ⟨hphase.fits hskbs, hphase.exec hskbs⟩

/-! ### A write whose data comes in two copies -/

/-- What `on_sendmsg` reads of the command of the examples. -/
def sendOf (state : SendState) : SendmsgArgs :=
  { sock := 0x310, queue := 0x300, sndCmd := some someReq, offset := 0, state := state, sqhdDisabled := false }

/-- A copy of the data of the command of the examples. -/
def dataCopied : CopyDoneArgs :=
  { ret := 0, ownsSocket := true, recvData := true, cmd := some someReq, own := some someReq }

/-- The first copy starts inside the skb with the PDU header and counts from the header's parsing at 6 to 9,
the second one counts from 12 to 15. -/
def twoCopies : List TgtEvent :=
  [.arm true,
    .reqInit true (hookAt 1) { initTcpRead with cmd := some { readCmd 6 with opcode := ntpNvmeCmdWrite } },
    .tcp (hookAt 2) (.queueResp { req := someReq, opcode := ntpNvmeCmdWrite, rbytesDone := 0, transferLen := 4096 }),
    .tcp (hookAt 3) (.sendmsg (sendOf .r2t)),
    .tcp (hookAt 4) (.copy 0x900 0x320 0), .tcp (hookAt 5) (.copyDone { dataCopied with recvData := false }),
    .tcp (hookAt 6) (.h2c someReq 0x320 4),
    .tcp (hookAt 7) (.copy 0x900 0x320 24), .tcp (hookAt 9) (.copyDone dataCopied),
    .tcp (hookAt 12) (.copy 0xa00 0x320 0), .tcp (hookAt 15) (.copyDone dataCopied),
    .exec (hookAt 16) someReq 4096, .complete (hookAt 18) someReq, .tcp (hookAt 20) (.sendmsg (sendOf .response))]

theorem write_phase_fits_two_copies :
    ((tgtRun .tcp {} {} twoCopies).events.map fun r =>
      (r.ts .dataProc, r.ts .dataDone, r.ts .exec, r.h2cBusyNs)) = [(6, 15, 16, 6)] ∧
    ∀ r ∈ (tgtRun .tcp {} {} twoCopies).events, r.h2cBusyNs ≠ 0 →
      Fits (r.ts .dataProc) (r.ts .dataDone) r.h2cBusyNs ∧ (r.ts .exec ≠ 0 → r.ts .dataDone ≤ r.ts .exec) := by
  have hw : WholeCopies none twoCopies := ⟨rfl, rfl, rfl, rfl, rfl, rfl, trivial⟩
  have hclock : Forward TgtEvent.now 0 twoCopies := by
    unfold Forward
    decide
  have hother : ∀ (s : TgtState) (e : TgtEvent), (∀ env a, e ≠ .tcp env (.copyDone a)) → CopyCounts s e :=
    fun s e hne env a he => absurd he (hne env a)
  have hdone : ∀ (s : TgtState) env (a : CopyDoneArgs),
      (a.cmd.bind fun req => s.tgtRec req).all (fun r => r.h2cSkbs != -1) = true →
      CopyCounts s (.tcp env (.copyDone a)) := by
    rintro s env a hr env' a' ⟨⟩ req r hreq hrec
    simpa [hreq, hrec] using hr
  have hcount : Every (tgtStep .tcp {}) CopyCounts {} twoCopies := by
    refine ⟨?_, ?_, ?_, ?_, ?_, ?_, ?_, ?_, ?_, ?_, ?_, ?_, ?_, ?_, trivial⟩
    all_goals first
      | exact hdone _ _ _ (by decide +kernel)
      | exact hother _ _ (by rintro env a ⟨⟩)
  exact ⟨by decide +kernel, write_phase_fits {} twoCopies hw hclock hcount⟩

end Ntprof.Bpf
