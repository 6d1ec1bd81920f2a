import Ntprof.Bpf.HookSteps
import Ntprof.Bpf.Proofs.AccountingProofs

/-!
# What an access of an NVMe/RDMA target hook does

Each access has a note. The note tells what the access does to the slot of the hook and to the counters, and which
access of the hook comes next; from here on the steps of the hooks are not unfolded again.
-/

namespace Ntprof.Bpf

/-! ## One access -/

/-- The key in the slot after an access of a hook of `key`. -/
def Note.reqAfter (key old : U64) : Note → U64
  | .free => 0
  | .unlink => 0
  | .publish => key
  | _ => old

/-- The parts in the slot after an access. -/
def Note.partsAfter (old : U32) : Note → U32
  | .see e => old ||| e.bit
  | .clear => 0
  | _ => old

/-- `ntp_inflight` after an access, where `req` was the key in the slot. -/
def Note.inflightAfter (req : U64) (old : S64) : Note → S64
  | .take => if req ≠ 0 then old else old + 1
  | .leave => old + -1
  | _ => old

/-- The ring buffer after an access. -/
def Note.eventsAfter (old : List TgtRec) : Note → List TgtRec
  | .output _ (.emitted r) => old ++ [r]
  | _ => old

/-- A counter after an access. -/
def Note.countAfter (i : Counter) (old : U64) : Note → U64
  | .count j => if j = i then old + 1 else old
  | _ => old

/-- What an access does to the slots and the counters, told by its note. -/
structure StepEffect (key : U64) (s s' : TgtState) (note : Note) : Prop where
  other : ∀ i, i ≠ ntpSlot key → s'.treqs i = s.treqs i
  req : (s'.treqs (ntpSlot key)).req = note.reqAfter key (s.treqs (ntpSlot key)).req
  parts : (s'.treqs (ntpSlot key)).parts = note.partsAfter (s.treqs (ntpSlot key)).parts
  inflight : s'.inflight = note.inflightAfter (s.treqs (ntpSlot key)).req s.inflight
  events : s'.events = note.eventsAfter s.events
  counters : ∀ i ∈ lossCounters, s'.counters i = note.countAfter i (s.counters i)

/-- A note of an access that only reads, or writes what no other hook reads. -/
def Note.isQuiet : Note → Bool
  | .nothing => true
  | .find => true
  | .letGo => true
  | .grab => true
  | .lose => true
  | .flush => true
  | _ => false

section Effects

variable {s s' : TgtState} {req : U64} {note : Note}

theorem quiet_after (hnote : note.isQuiet) :
    (∀ key old, note.reqAfter key old = old) ∧ (∀ old, note.partsAfter old = old) ∧
      (∀ r old, note.inflightAfter r old = old) ∧ (∀ old, note.eventsAfter old = old) ∧
      ∀ i old, note.countAfter i old = old := by
  cases note <;> simp_all [Note.isQuiet, Note.reqAfter, Note.partsAfter, Note.inflightAfter, Note.eventsAfter,
    Note.countAfter]

/-- An access with such a note leaves the keys, the parts and the counters alone. -/
theorem effect_of_quiet (hnote : note.isQuiet) (hother : ∀ i, i ≠ ntpSlot req → s'.treqs i = s.treqs i)
    (hreq : (s'.treqs (ntpSlot req)).req = (s.treqs (ntpSlot req)).req)
    (hparts : (s'.treqs (ntpSlot req)).parts = (s.treqs (ntpSlot req)).parts) (hinflight : s'.inflight = s.inflight)
    (hevents : s'.events = s.events) (hcounters : ∀ i ∈ lossCounters, s'.counters i = s.counters i) :
    StepEffect req s s' note := by
  obtain ⟨h1, h2, h3, h4, h5⟩ := quiet_after hnote
  exact ⟨hother, hreq.trans (h1 _ _).symm, hparts.trans (h2 _).symm, hinflight.trans (h3 _ _).symm,
    hevents.trans (h4 _).symm, fun i hi => (hcounters i hi).trans (h5 _ _).symm⟩

theorem Quiet.step (h : Quiet s s') (hnote : note.isQuiet) : StepEffect req s s' note := by
  have hledger := h.ledger
  rw [TgtState.ledger, TgtState.ledger, SlotTable.Ledger.mk.injEq] at hledger
  obtain ⟨hinflight, -, -, hdrops, hstale⟩ := hledger
  have hcounters : ∀ i ∈ lossCounters, s'.counters i = s.counters i := by
    simp [lossCounters, hdrops, hstale]
  refine effect_of_quiet hnote ?_ ?_ ?_ hinflight h.events hcounters
  · intro i _
    rw [h.treqs]
  · rw [h.treqs]
  · rw [h.treqs]

/-- A store into the record. -/
theorem effect_setRec (r : TgtRec) (hnote : note.isQuiet) : StepEffect req s (s.setRec req r) note := by
  have hself : (s.setRec req r).treqs (ntpSlot req) = { s.treqs (ntpSlot req) with record := r } :=
    Function.update_self ..
  refine effect_of_quiet hnote ?_ ?_ ?_ rfl rfl fun _ _ => rfl
  · intro i hi
    exact Function.update_of_ne hi _ _
  · rw [hself]
  · rw [hself]

/-- A store of the key, or of the parts. -/
theorem effect_setEntry {e : TgtEntry} (hreq : e.req = note.reqAfter req (s.treqs (ntpSlot req)).req)
    (hparts : e.parts = note.partsAfter (s.treqs (ntpSlot req)).parts)
    (hinflight : s.inflight = note.inflightAfter (s.treqs (ntpSlot req)).req s.inflight)
    (hevents : s.events = note.eventsAfter s.events) (hcounters : ∀ i old, note.countAfter i old = old) :
    StepEffect req s (s.setEntry req e) note := by
  have hself : (s.setEntry req e).treqs (ntpSlot req) = e := Function.update_self ..
  refine ⟨?_, ?_, ?_, hinflight, hevents, fun i _ => (hcounters i _).symm⟩
  · intro i hi
    exact Function.update_of_ne hi _ _
  · rw [hself, hreq]
  · rw [hself, hparts]

theorem quiet_respCtx (s : TgtState) (ctx : Nat → RespCtx) : Quiet s { s with respCtx := ctx } := ⟨rfl, rfl, rfl⟩

/-- On the way to its key, a hook does nothing to the records. -/
theorem quiet_keyStep (scalar : Bool) {counted : TgtState} (here : FrontPc → Work) (env : HookEnv) (own : U64)
    (h : Quiet s counted) (p : KeyPc) :
    Quiet s (keyStep scalar counted here s env own p).st ∧ (keyStep scalar counted here s env own p).note = .nothing := by
  cases p with
  | get => exact ⟨h, rfl⟩
  | saveTid => exact ⟨quiet_respCtx s _, rfl⟩
  | saveReq => exact ⟨quiet_respCtx s _, rfl⟩
  | untag => exact ⟨quiet_respCtx s _, rfl⟩
  | _ => exact ⟨.refl s, rfl⟩

theorem effect_frontStep {off scalar : Bool} {counted : TgtState} {stores : TgtRec → List Store}
    {here : FrontPc → Work} {missing past : Work} {env : HookEnv} {own : U64} (h : Quiet s counted) (p : FrontPc) :
    StepEffect req s (frontStep off scalar counted stores here missing past s env own req p).st
      (frontStep off scalar counted stores here missing past s env own req p).note := by
  cases p with
  | gate => exact (Quiet.refl s).step rfl
  | key p =>
    obtain ⟨hquiet, hnote⟩ := quiet_keyStep scalar here env own h p
    exact hquiet.step (by rw [frontStep, hnote]; rfl)
  | look =>
    simp only [frontStep]
    split_ifs
    · exact (Quiet.refl s).step rfl
    · exact (Quiet.refl s).step rfl
  | load =>
    simp only [frontStep]
    split
    · exact (Quiet.refl s).step rfl
    · exact (Quiet.refl s).step rfl
  | store w ws =>
    simp only [frontStep]
    split
    · exact effect_setRec _ rfl
    · exact effect_setRec _ rfl

/-- `ntp_count`, when nobody else has counted in between. -/
theorem effect_countStep {i : Counter} {here : CountPc → Work} {rest : Work} {mine : Counters} {p : CountPc}
    (hcounted : i ∈ lossCounters → ∀ old, p = .save old → mine i = old) :
    StepEffect req s (countStep i here rest s mine p).st (countStep i here rest s mine p).note := by
  cases p with
  | load => exact (Quiet.refl s).step rfl
  | save old =>
    refine ⟨fun _ _ => rfl, rfl, rfl, rfl, rfl, fun j hloss => ?_⟩
    by_cases hj : j = i
    · subst hj
      have hone : old + 1 - mine j = 1 := by
        rw [hcounted hloss old rfl, BitVec.add_comm, BitVec.add_sub_cancel]
      simp only [countStep, ntpCount, hone, Note.countAfter, Function.update_self, if_true]
    · simp only [countStep, ntpCount, Note.countAfter, Function.update_of_ne hj, if_neg (Ne.symm hj)]

theorem effect_emitStep (own : Bool) (here : EmitPc → Work) (rest : Work) (env : HookEnv) {mine : Counters} {p : EmitPc}
    (hcounted : ∀ i ∈ lossCounters, ∀ old, p = .count i (.save old) → mine i = old) :
    StepEffect req s (emitStep own here rest s env mine req p).st (emitStep own here rest s env mine req p).note := by
  cases p with
  | look =>
    simp only [emitStep]
    split_ifs
    · exact (Quiet.refl s).step rfl
    · exact (Quiet.refl s).step rfl
    · exact (Quiet.refl s).step rfl
  | cpu => exact effect_setRec _ rfl
  | output =>
    simp only [emitStep]
    split_ifs
    · exact ⟨fun _ _ => rfl, rfl, rfl, rfl, rfl, fun _ _ => rfl⟩
    · exact ⟨fun _ _ => rfl, rfl, rfl, rfl, rfl, fun _ _ => rfl⟩
  | count i p => exact effect_countStep fun hi old hp => hcounted i hi old (by rw [hp])
  | free => exact effect_setEntry rfl rfl rfl rfl fun _ _ => rfl
  | leave =>
    simp only [emitStep, TgtState.inflightAdd]
    exact ⟨fun _ _ => rfl, rfl, rfl, rfl, rfl, fun _ _ => rfl⟩

theorem quiet_touchCount (b : Touch) (f : Filter) (s : TgtState) (req : U64) : Quiet s (b.count f s req) := by
  cases b with
  | queueResp =>
    simp only [Touch.count]
    split_ifs
    · exact quiet_countRespQueued s req
    · exact .refl s
  | _ => exact .refl s

theorem effect_rspStep (f : Filter) (env : HookEnv) {mine : Counters} (own : U64) (e : RspEnd) {p : RspPc}
    (hcounted : ∀ i ∈ lossCounters, ∀ old, p = .emit (.count i (.save old)) → mine i = old) :
    StepEffect req s (rspStep f s env mine own req e p).st (rspStep f s env mine own req e p).note := by
  cases p with
  | front p => exact effect_frontStep (.refl s) p
  | part =>
    simp only [rspStep]
    split_ifs
    · exact (Quiet.refl s).step rfl
    · exact (Quiet.refl s).step rfl
  | fetchOr => exact effect_setEntry rfl rfl rfl rfl fun _ _ => rfl
  | emit p => exact effect_emitStep true _ _ env fun i hi old hp => hcounted i hi old (by rw [hp])
  | uncount => exact (quiet_tgtUncount s f req).step rfl

theorem effect_initStep (f : Filter) (env : HookEnv) {mine : Counters} (a : ReqInitArgs) {p : InitPc}
    (hcounted : (Work.init p).Fresh mine) :
    StepEffect a.req s (initStep f s env mine a p).st (initStep f s env mine a p).note := by
  cases p with
  | enter =>
    simp only [initStep]
    split_ifs
    · exact (quiet_countCommand f s a).step rfl
    · exact (Quiet.refl s).step rfl
  | cmds q p =>
    refine effect_countStep ?_
    rintro hi old rfl
    exact hcounted _ hi rfl old rfl
  | gate q => exact (Quiet.refl s).step rfl
  | look q =>
    simp only [initStep]
    split_ifs
    · exact (Quiet.refl s).step rfl
    · exact (Quiet.refl s).step rfl
  | load q => exact (Quiet.refl s).step rfl
  | flag q v => exact effect_setRec _ rfl
  | emit q p =>
    refine effect_emitStep false _ _ env ?_
    rintro i hi old rfl
    exact hcounted i hi rfl old rfl
  | sample q =>
    simp only [initStep]
    split
    · exact (Quiet.refl s).step rfl
    · exact (Quiet.refl s).step rfl
  | take q c =>
    simp only [initStep]
    by_cases hreq : (s.treqs (ntpSlot a.req)).req ≠ 0
    · rw [if_pos hreq]
      exact ⟨fun _ _ => rfl, rfl, rfl, (if_pos hreq).symm, rfl, fun _ _ => rfl⟩
    · rw [if_neg hreq]
      exact ⟨fun _ _ => rfl, rfl, rfl, (if_neg hreq).symm, rfl, fun _ _ => rfl⟩
  | stale q c p =>
    refine effect_countStep ?_
    rintro hi old rfl
    exact hcounted _ hi rfl old rfl
  | claim q c => exact effect_setEntry rfl rfl rfl rfl fun _ _ => rfl
  | parts q c => exact effect_setEntry rfl rfl rfl rfl fun _ _ => rfl
  | wipe q c => exact effect_setRec _ rfl
  | fill q c => exact effect_setRec _ rfl
  | publish => exact effect_setEntry rfl rfl rfl rfl fun _ _ => rfl
  | sampled p =>
    refine effect_countStep ?_
    rintro hi old rfl
    exact hcounted _ hi rfl old rfl

theorem effect_step (f : Filter) (env : HookEnv) {mine : Counters} (a : ReqInitArgs) {w : Work}
    (hinit : w.isInit → req = a.req) (hcounted : w.Fresh mine) :
    StepEffect req s (w.step f s env mine a req).st (w.step f s env mine a req).note := by
  cases w with
  | idle => exact (Quiet.refl s).step rfl
  | touch b p => exact effect_frontStep (quiet_touchCount b f s req) p
  | rsp e p =>
    refine effect_rspStep f env a.req e ?_
    rintro i hi old rfl
    exact hcounted i hi rfl old rfl
  | init p =>
    rw [hinit rfl]
    exact effect_initStep f env a hcounted

end Effects

/-! ## Where a hook is -/

/-- Which hook it is. -/
inductive Role where
  | init
  | touch
  | rsp (e : RspEnd)
  deriving DecidableEq

/-- Which hook is running. -/
def Work.role : Work → Option Role
  | .idle => none
  | .touch _ _ => some .touch
  | .rsp e _ => some (.rsp e)
  | .init _ => some .init

theorem isInit_iff (w : Work) : w.isInit = true ↔ w.role = some .init := by
  cases w <;> simp [Work.isInit, Work.role]

theorem isIdle_iff (w : Work) : w.isIdle = true ↔ w.role = none := by
  cases w <;> simp [Work.isIdle, Work.role]

/-- In `ntp_t_req_init`, the record that was in the way is gone. -/
def Work.clean : Work → Bool
  | .init (.emit _ .leave) => true
  | .init (.sample _) => true
  | _ => false

/-- The slot is free already, and `ntp_inflight` is to be counted down. -/
def Work.leaves : Work → Bool
  | .rsp _ (.emit p) => p.leaves
  | .init (.emit _ p) => p.leaves
  | _ => false

/-- In `ntp_t_req_init`, the parts of the new record are cleared. -/
def Work.cleared : Work → Bool
  | .init (.wipe _ _) => true
  | .init (.fill _ _) => true
  | .init .publish => true
  | _ => false

/-- In `ntp_t_req_init`, the new record is on its way. -/
def Work.makes : Work → Bool
  | .init (.take _ _) => true
  | .init (.stale _ _ _) => true
  | .init (.claim _ _) => true
  | .init (.parts _ _) => true
  | .init (.wipe _ _) => true
  | .init (.fill _ _) => true
  | .init .publish => true
  | _ => false

/-- In `ntp_t_req_init`, the slot is claimed for the new record. -/
def Work.claims : Work → Bool
  | .init (.stale _ _ _) => true
  | .init (.claim _ _) => true
  | .init (.parts _ _) => true
  | .init (.wipe _ _) => true
  | .init (.fill _ _) => true
  | .init .publish => true
  | _ => false

/-- In `ntp_t_req_init`, the new record is not known yet. -/
def Work.unmade : Work → Bool
  | .init (.sampled _) => false
  | .init _ => true
  | _ => false

/-- In the hook of an end, the accesses go by the key to a slot. -/
def RspPc.keyed : RspPc → Bool
  | .front p => p.inSlot
  | .part => true
  | .fetchOr => true
  | .emit _ => true
  | .uncount => false

/-- The accesses of the hook go by the key to a slot. -/
def Work.keyed : Work → Bool
  | .idle => false
  | .touch _ p => p.inSlot
  | .rsp _ p => p.keyed
  | .init _ => true

/-- In the hook of an end, before that end is noted. -/
def RspPc.early : RspPc → Bool
  | .front _ => true
  | .part => true
  | .fetchOr => true
  | .emit _ => false
  | .uncount => false

/-- A hook of an end that has not noted it. -/
def Work.early (e : RspEnd) : Work → Bool
  | .rsp e' p => decide (e' = e) && p.early
  | _ => false

/-- A hook of an end that has noted it, or has found no record. -/
def Work.late (e : RspEnd) : Work → Bool
  | .rsp e' p => decide (e' = e) && !p.early
  | _ => false

/-- The hook is about to write the whole record. -/
def Work.fillsRecord : Work → Bool
  | .init (.wipe _ _) => true
  | .init (.fill _ _) => true
  | _ => false

/-- The command that `ntp_t_req_init` is making a record for. -/
def Work.carries : Work → Option NvmeCmd
  | .init (.take _ c) => some c
  | .init (.stale _ c _) => some c
  | .init (.claim _ c) => some c
  | .init (.parts _ c) => some c
  | .init (.wipe _ c) => some c
  | .init (.fill _ c) => some c
  | _ => none

/-! ## What an access can do to a hook -/

section Moves

variable (s : TgtState) (env : HookEnv) (a : ReqInitArgs) (key : U64)

/-- The counter in which a record that was handed over is counted. -/
def Fate.counter : Fate → Counter
  | .emitted _ => .tgtEmitted
  | .dropped => .rbDrops

/-- An access of a hook, with its note. -/
inductive Moves : Work → Note → Work → Prop
  | idle : Moves .idle .nothing .idle
  | touch {b p n p'} (hn : n.isQuiet) : Moves (.touch b p) n (.touch b p')
  | touched {b p n} (hn : n.isQuiet) : Moves (.touch b p) n .idle
  | front {e p n p'} (hn : n.isQuiet) : Moves (.rsp e (.front p)) n (.rsp e (.front p'))
  | off {e} (h : s.inflight = 0) : Moves (.rsp e (.front .gate)) .nothing .idle
  | lost {e} (h : (ntpCtxGet s.respCtx env).isSome = false) : Moves (.rsp e (.front (.key .find))) .nothing .idle
  | missing {e} (h : (s.tgtEntry key).isSome = false) : Moves (.rsp e (.front .look)) .nothing e.rest
  | past {e p n} (hn : n.isQuiet) : Moves (.rsp e (.front p)) n (.rsp e .part)
  | part {e} : Moves (.rsp e .part) .find (.rsp e .fetchOr)
  | gone {e} (h : (s.tgtEntry key).isSome = false) : Moves (.rsp e .part) .nothing e.rest
  | last {e} : Moves (.rsp e .fetchOr) (.see e) (.rsp e (.emit .look))
  | first {e} : Moves (.rsp e .fetchOr) (.see e) e.rest
  | grab {e} : Moves (.rsp e (.emit .look)) .grab (.rsp e (.emit .cpu))
  | lose {e} : Moves (.rsp e (.emit .look)) .lose e.rest
  | cpu {e} : Moves (.rsp e (.emit .cpu)) .nothing (.rsp e (.emit .output))
  | output {e x} : Moves (.rsp e (.emit .output)) (.output true x) (.rsp e (.emit (.count x.counter .load)))
  | tally {e i old} : Moves (.rsp e (.emit (.count i .load))) .nothing (.rsp e (.emit (.count i (.save old))))
  | tallied {e i old} : Moves (.rsp e (.emit (.count i (.save old)))) (.count i) (.rsp e (.emit .free))
  | free {e} : Moves (.rsp e (.emit .free)) .free (.rsp e (.emit .leave))
  | leave {e} : Moves (.rsp e (.emit .leave)) .leave e.rest
  | uncount {e} : Moves (.rsp e .uncount) .nothing .idle
  | refused : Moves (.init .enter) .nothing .idle
  | enter {q} : Moves (.init .enter) .nothing (.init (.cmds q .load))
  | cmds {q old} : Moves (.init (.cmds q .load)) .nothing (.init (.cmds q (.save old)))
  | cmdsDone {q old} : Moves (.init (.cmds q (.save old))) (.count .tgtCmds) (.init (.gate q))
  | unused {q} (h : s.inflight = 0) : Moves (.init (.gate q)) .nothing (.init (.sample q))
  | gate {q} : Moves (.init (.gate q)) .nothing (.init (.look q))
  | flush {q} : Moves (.init (.look q)) .flush (.init (.load q))
  | clear {q} (h : (s.tgtEntry a.req).isSome = false) : Moves (.init (.look q)) .nothing (.init (.sample q))
  | load {q v} : Moves (.init (.load q)) .nothing (.init (.flag q v))
  | flag {q v} : Moves (.init (.flag q v)) .nothing (.init (.emit q .look))
  | backLook {q} : Moves (.init (.emit q .look)) .nothing (.init (.emit q .cpu))
  | backLose {q} (h : (s.tgtEntry a.req).isSome = false) : Moves (.init (.emit q .look)) .lose (.init (.sample q))
  | backCpu {q} : Moves (.init (.emit q .cpu)) .nothing (.init (.emit q .output))
  | backOutput {q x} : Moves (.init (.emit q .output)) (.output false x) (.init (.emit q (.count x.counter .load)))
  | backTally {q i old} : Moves (.init (.emit q (.count i .load))) .nothing (.init (.emit q (.count i (.save old))))
  | backTallied {q i old} : Moves (.init (.emit q (.count i (.save old)))) (.count i) (.init (.emit q .free))
  | backFree {q} : Moves (.init (.emit q .free)) .free (.init (.emit q .leave))
  | backLeave {q} : Moves (.init (.emit q .leave)) .leave (.init (.sample q))
  | passed {q} : Moves (.init (.sample q)) .nothing .idle
  | sample {q c} (h : a.cmd = some c) : Moves (.init (.sample q)) .nothing (.init (.take q c))
  | replace {q c} (h : (s.treqs (ntpSlot a.req)).req ≠ 0) :
    Moves (.init (.take q c)) .take (.init (.stale q c .load))
  | stale {q c old} : Moves (.init (.stale q c .load)) .nothing (.init (.stale q c (.save old)))
  | staleDone {q c old} : Moves (.init (.stale q c (.save old))) (.count .stale) (.init (.claim q c))
  | take {q c} (h : (s.treqs (ntpSlot a.req)).req = 0) : Moves (.init (.take q c)) .take (.init (.claim q c))
  | claim {q c} : Moves (.init (.claim q c)) .unlink (.init (.parts q c))
  | parts {q c} : Moves (.init (.parts q c)) .clear (.init (.wipe q c))
  | wipe {q c} : Moves (.init (.wipe q c)) .nothing (.init (.fill q c))
  | fill {q c} : Moves (.init (.fill q c)) .nothing (.init .publish)
  | publish : Moves (.init .publish) .publish (.init (.sampled .load))
  | sampled {old} : Moves (.init (.sampled .load)) .nothing (.init (.sampled (.save old)))
  | sampledDone {old} : Moves (.init (.sampled (.save old))) (.count .tgtSampled) .idle

variable (f : Filter) (mine : Counters)

theorem moves_touch (b : Touch) (p : FrontPc) :
    Moves s env a key (.touch b p) ((Work.touch b p).step f s env mine a key).note
      ((Work.touch b p).step f s env mine a key).work := by
  cases p with
  | gate =>
    simp only [Work.step, frontStep]
    split_ifs
    · exact .touched rfl
    · exact .touch rfl
    · exact .touch rfl
  | key p =>
    cases p with
    | find =>
      simp only [Work.step, frontStep, keyStep]
      split_ifs
      · exact .touch rfl
      · exact .touched rfl
    | _ => exact .touch rfl
  | look =>
    simp only [Work.step, frontStep]
    split_ifs
    · exact .touch rfl
    · exact .touched rfl
  | load =>
    simp only [Work.step, frontStep]
    split
    · exact .touched rfl
    · exact .touch rfl
  | store v ws =>
    simp only [Work.step, frontStep]
    split
    · exact .touched rfl
    · exact .touch rfl

theorem off_inflight {e : RspEnd} (h : e.off f s = true) : s.inflight = 0 := by
  cases e with
  | posted =>
    rw [RspEnd.off, TgtState.idle, Bool.and_eq_true] at h
    simpa using h.1
  | sendDone => simpa [RspEnd.off] using h

theorem moves_front (e : RspEnd) (p : FrontPc) :
    Moves s env a key (.rsp e (.front p)) ((Work.rsp e (.front p)).step f s env mine a key).note
      ((Work.rsp e (.front p)).step f s env mine a key).work := by
  cases p with
  | gate =>
    simp only [Work.step, rspStep, frontStep]
    split_ifs with hoff
    · exact .off (off_inflight s f hoff)
    · exact .front rfl
    · exact .front rfl
  | key p =>
    cases p with
    | find =>
      simp only [Work.step, rspStep, frontStep, keyStep]
      split_ifs with hfound
      · exact .front rfl
      · exact .lost (Bool.eq_false_iff.mpr hfound)
    | _ => exact .front rfl
  | look =>
    simp only [Work.step, rspStep, frontStep]
    split_ifs with hfound
    · exact .front rfl
    · exact .missing (Bool.eq_false_iff.mpr hfound)
  | load =>
    simp only [Work.step, rspStep, frontStep]
    split
    · exact .past rfl
    · exact .front rfl
  | store v ws =>
    simp only [Work.step, rspStep, frontStep]
    split
    · exact .past rfl
    · exact .front rfl

theorem moves_rsp (e : RspEnd) (p : RspPc) :
    Moves s env a key (.rsp e p) ((Work.rsp e p).step f s env mine a key).note
      ((Work.rsp e p).step f s env mine a key).work := by
  cases p with
  | front p => exact moves_front s env a key f mine e p
  | part =>
    simp only [Work.step, rspStep]
    split_ifs with hfound
    · exact .part
    · exact .gone (Bool.eq_false_iff.mpr hfound)
  | fetchOr =>
    simp only [Work.step, rspStep]
    split_ifs
    · exact .last
    · exact .first
  | emit p =>
    cases p with
    | look =>
      simp only [Work.step, rspStep, emitStep]
      split_ifs
      · exact .grab
      · exact .lose
    | cpu => exact .cpu
    | output =>
      simp only [Work.step, rspStep, emitStep]
      split_ifs
      · exact .output
      · exact .output
    | count i p =>
      cases p with
      | load => exact .tally
      | save old => exact .tallied
    | free => exact .free
    | leave => exact .leave
  | uncount => exact .uncount

theorem moves_init (p : InitPc) :
    Moves s env a key (.init p) ((Work.init p).step f s env mine a key).note ((Work.init p).step f s env mine a key).work := by
  cases p with
  | enter =>
    simp only [Work.step, initStep]
    split_ifs
    · exact .enter
    · exact .refused
  | cmds q p =>
    cases p with
    | load => exact .cmds
    | save old => exact .cmdsDone
  | gate q =>
    simp only [Work.step, initStep]
    split_ifs with hunused
    · exact .unused hunused
    · exact .gate
  | look q =>
    simp only [Work.step, initStep]
    split_ifs with hfound
    · exact .flush
    · exact .clear (Bool.eq_false_iff.mpr hfound)
  | load q => exact .load
  | flag q v => exact .flag
  | emit q p =>
    cases p with
    | look =>
      simp only [Work.step, initStep, emitStep, Bool.false_eq_true, if_false]
      split_ifs with hfound
      · exact .backLook
      · exact .backLose (Bool.eq_false_iff.mpr hfound)
    | cpu => exact .backCpu
    | output =>
      simp only [Work.step, initStep, emitStep]
      split_ifs
      · exact .backOutput
      · exact .backOutput
    | count i p =>
      cases p with
      | load => exact .backTally
      | save old => exact .backTallied
    | free => exact .backFree
    | leave => exact .backLeave
  | sample q =>
    simp only [Work.step, initStep]
    split
    · exact .passed
    · rename_i hwanted
      exact .sample (Option.eq_some_of_filter_eq_some hwanted)
  | take q c =>
    simp only [Work.step, initStep]
    split_ifs with hreq
    · exact .replace hreq
    · exact .take (not_not.mp hreq)
  | stale q c p =>
    cases p with
    | load => exact .stale
    | save old => exact .staleDone
  | claim q c => exact .claim
  | parts q c => exact .parts
  | wipe q c => exact .wipe
  | fill q c => exact .fill
  | publish => exact .publish
  | sampled p =>
    cases p with
    | load => exact .sampled
    | save old => exact .sampledDone

/-- Every access is one of these. -/
theorem step_moves (w : Work) : Moves s env a key w (w.step f s env mine a key).note (w.step f s env mine a key).work := by
  cases w with
  | idle => exact .idle
  | touch b p => exact moves_touch s env a key f mine b p
  | rsp e p => exact moves_rsp s env a key f mine e p
  | init p => exact moves_init s env a key f mine p

end Moves

/-! ## What follows for a hook -/

section Hooks

variable {s : TgtState} {env : HookEnv} {a : ReqInitArgs} {key : U64} {w next : Work} {note : Note}

theorem rest_role (e : RspEnd) : e.rest.role = some (.rsp e) ∨ e.rest.role = none := by
  cases e with
  | posted => exact .inl rfl
  | sendDone => exact .inr rfl

/-- A hook stays the same hook until it is over. -/
theorem Moves.role (h : Moves s env a key w note next) : next.role = w.role ∨ next.role = none := by
  cases h <;> first
    | exact .inl rfl
    | exact .inr rfl
    | exact rest_role _

theorem rest_clean (e : RspEnd) : e.rest.clean = false := by cases e <;> rfl

theorem rest_cleared (e : RspEnd) : e.rest.cleared = false := by cases e <;> rfl

theorem rest_makes (e : RspEnd) : e.rest.makes = false := by cases e <;> rfl

theorem rest_unmade (e : RspEnd) : e.rest.unmade = false := by cases e <;> rfl

theorem rest_leaves (e : RspEnd) : e.rest.leaves = false := by cases e <;> rfl

theorem rest_early (e e' : RspEnd) : e.rest.early e' = false := by cases e <;> cases e' <;> rfl

/-- The slot of the record that is in the way is found free, or has been freed. -/
theorem Moves.clean (h : Moves s env a key w note next) (hnext : next.clean) :
    w.role = some .init ∧
      (note = .free ∨ w.clean ∨ s.inflight = 0 ∨ (s.tgtEntry a.req).isSome = false) := by
  cases h <;> first
    | (rw [rest_clean] at hnext; cases hnext)
    | simp_all [Work.clean, Work.role]

theorem Moves.cleared (h : Moves s env a key w note next) (hnext : next.cleared) : note = .clear ∨ w.cleared := by
  cases h <;> first
    | (rw [rest_cleared] at hnext; cases hnext)
    | simp_all [Work.cleared]

theorem Moves.makes (h : Moves s env a key w note next) (hnext : next.makes) : w.samples ∨ w.makes := by
  cases h <;> first
    | (rw [rest_makes] at hnext; cases hnext)
    | simp_all [Work.makes, Work.samples]

theorem Moves.makesOn (h : Moves s env a key w note next) (hw : w.makes) : note = .publish ∨ next.makes := by
  cases h <;> simp_all [Work.makes]

theorem Moves.makesFrom (h : Moves s env a key w note next) (hw : w.samples) (hnext : next.isIdle = false) : next.makes := by
  cases h <;> simp_all [Work.makes, Work.samples, Work.isIdle]

theorem Moves.unmade (h : Moves s env a key w note next) (hnext : next.unmade) : w.unmade ∧ note ≠ .publish := by
  cases h <;> first
    | (rw [rest_unmade] at hnext; cases hnext)
    | simp_all [Work.unmade]

/-- A hook that has not noted its end had not done so before. -/
theorem Moves.early {e : RspEnd} (h : Moves s env a key w note next) (hnext : next.early e) :
    w.early e ∧ ∀ e', note ≠ .see e' := by
  cases h <;> first
    | (rw [rest_early] at hnext; cases hnext)
    | simp_all [Work.early, RspPc.early]
  all_goals (rename_i hn; intro e' he'; rw [he'] at hn; exact Bool.noConfusion hn)

/-- A hook of an end does not stop before it has noted the end, unless there is no record for its key, or no record at
all, or nothing was saved for it. -/
theorem Moves.stops {e : RspEnd} (h : Moves s env a key w note next) (hw : w.role = some (.rsp e))
    (hnext : next.late e ∨ next.role = none) :
    w.late e ∨ note = .see e ∨ s.inflight = 0 ∨ ((w.seeks ∨ w.keyed) ∧ (s.tgtEntry key).isSome = false) ∨
      (w.keyPc = some .find ∧ (ntpCtxGet s.respCtx env).isSome = false) := by
  cases h <;> simp_all [Work.late, Work.keyed, Work.seeks, Work.keyPc, FrontPc.keyPc, RspPc.early, RspPc.keyed, Work.role]

/-- A hook that has claimed its slot does nothing but fill it. -/
theorem Moves.claims (h : Moves s env a key w note next)
    (hw : w.claims) :
    note = .nothing ∨ note = .unlink ∨ note = .clear ∨ note = .publish ∨ ∃ i, note = .count i := by
  cases h <;> first
    | (simp; done)
    | cases hw

theorem rest_carries (e : RspEnd) : e.rest.carries = none := by cases e <;> rfl

theorem Moves.carries {c : NvmeCmd} (h : Moves s env a key w note next)
    (hnext : next.carries = some c) : w.carries = some c ∨ a.cmd = some c := by
  cases h <;> first
    | (rw [rest_carries] at hnext; cases hnext)
    | simp_all [Work.carries]

theorem Moves.filled (h : Moves s env a key w note next) (hnext : next = .init .publish) :
    ∃ q c, w = .init (.fill q c) := by
  cases h <;> first
    | exact ⟨_, _, rfl⟩
    | cases hnext
    | (rename_i e; cases e <;> cases hnext)
    | (rename_i e _; cases e <;> cases hnext)

/-- The access that a note comes from. -/
def Note.From (w : Work) : Note → Prop
  | .see e => w = .rsp e .fetchOr
  | .output own _ => (own = true ∧ ∃ e, w = .rsp e (.emit .output)) ∨ (own = false ∧ ∃ q, w = .init (.emit q .output))
  | .free => (∃ e, w = .rsp e (.emit .free)) ∨ ∃ q, w = .init (.emit q .free)
  | .leave => (∃ e, w = .rsp e (.emit .leave)) ∨ ∃ q, w = .init (.emit q .leave)
  | .take => ∃ q c, w = .init (.take q c)
  | .unlink => ∃ q c, w = .init (.claim q c)
  | .clear => ∃ q c, w = .init (.parts q c)
  | .publish => w = .init .publish
  | _ => True

theorem from_of_quiet (hn : note.isQuiet) : note.From w := by
  cases note <;> trivial

theorem Moves.noteFrom (h : Moves s env a key w note next) : note.From w := by
  cases h with
  | touch hn => exact from_of_quiet hn
  | touched hn => exact from_of_quiet hn
  | front hn => exact from_of_quiet hn
  | past hn => exact from_of_quiet hn
  | _ => simp [Note.From]

theorem quiet_ne (hn : note.isQuiet) : note ≠ .free ∧ note ≠ .leave := by
  cases note <;> simp_all [Note.isQuiet]

/-- A hook is to count down `ntp_inflight` from when it frees a slot until it does so. -/
theorem Moves.leaves (h : Moves s env a key w note next) :
    (next.leaves = true ↔ note = .free) ∧ (w.leaves = true ↔ note = .leave) := by
  cases h with
  | touch hn => simp [Work.leaves, quiet_ne hn]
  | touched hn => simp [Work.leaves, quiet_ne hn]
  | front hn => simp [Work.leaves, quiet_ne hn]
  | past hn => simp [Work.leaves, quiet_ne hn]
  | missing _ => rw [rest_leaves]; simp [Work.leaves]
  | gone _ => rw [rest_leaves]; simp [Work.leaves]
  | first => rw [rest_leaves]; simp [Work.leaves]
  | lose => rw [rest_leaves]; simp [Work.leaves, EmitPc.leaves]
  | leave => rw [rest_leaves]; simp [Work.leaves, EmitPc.leaves]
  | _ => simp [Work.leaves, EmitPc.leaves]

/-- The hooks that come to count `i` with an access, where `req` was the key in the slot. -/
def Note.owes (i : Counter) (req : U64) : Note → ℕ
  | .output _ x => if x.counter = i then 1 else 0
  | .take => if i = .stale ∧ req ≠ 0 then 1 else 0
  | _ => 0

/-- The hooks that have counted `i` with an access. -/
def Note.counts (i : Counter) : Note → ℕ
  | .count j => if j = i then 1 else 0
  | _ => 0

theorem quiet_owes (hn : note.isQuiet) (i : Counter) (req : U64) : note.owes i req = 0 ∧ note.counts i = 0 := by
  cases note <;> simp_all [Note.isQuiet, Note.owes, Note.counts]

theorem rest_counting (e : RspEnd) : e.rest.counting = none := by cases e <;> rfl

/-- A hook is to count a drop, or a replacement, from when there is one until it does so. -/
theorem Moves.counting (h : Moves s env a key w note next) {i : Counter} (hi : i ∈ lossCounters) :
    (if next.counting = some i then 1 else 0) + note.counts i =
      (if w.counting = some i then 1 else 0) + note.owes i (s.treqs (ntpSlot a.req)).req := by
  have hquiet : note.isQuiet → note.owes i (s.treqs (ntpSlot a.req)).req = 0 ∧ note.counts i = 0 := fun hn =>
    quiet_owes hn i _
  have hcmds : Counter.tgtCmds ≠ i := by
    rintro rfl
    simp [lossCounters] at hi
  have hsampled : Counter.tgtSampled ≠ i := by
    rintro rfl
    simp [lossCounters] at hi
  cases h with
  | touch hn => simp [Work.counting, hquiet hn]
  | touched hn => simp [Work.counting, hquiet hn]
  | front hn => simp [Work.counting, hquiet hn]
  | past hn => simp [Work.counting, hquiet hn]
  | missing _ | gone _ | first | lose | leave =>
    rw [rest_counting]
    simp [Work.counting, Note.counts, Note.owes]
  | replace hreq =>
    by_cases hstale : i = .stale
    · simp only [Work.counting, Note.counts, Note.owes, hstale, hreq, ne_eq, not_false_eq_true, and_self, if_true]
      rfl
    · simp [Work.counting, Note.counts, Note.owes, hstale, Ne.symm hstale]
  | take hreq => simp [Work.counting, Note.counts, Note.owes, hreq]
  | _ => simp [Work.counting, Note.counts, Note.owes, hcmds, hsampled]

theorem Moves.samples (h : Moves s env a key w note next) (hw : w.samples) : note = .nothing ∧ w.clean := by
  cases h <;> simp_all [Work.samples, Work.clean]

end Hooks

/-! ## By which key it goes -/

section Keys

variable {s : TgtState} {env : HookEnv} {mine : Counters} {a : ReqInitArgs} {key : U64} {w : Work}

theorem inSlot_frontStep {off scalar : Bool} {counted : TgtState} {stores : TgtRec → List Store}
    {here : FrontPc → Work} {missing past : Work} {own : U64} {p : FrontPc} (hhere : ∀ p, (here p).keyed = p.inSlot)
    (hmissing : missing.keyed = false)
    (hnext : (frontStep off scalar counted stores here missing past s env own key p).work.keyed) :
    p.inSlot ∨ (p = .look ∧ (s.tgtEntry key).isSome) := by
  cases p with
  | gate =>
    simp only [frontStep] at hnext
    split_ifs at hnext
    · cases hnext
    · rw [hhere] at hnext
      cases hnext
    · rw [hhere] at hnext
      cases hnext
  | key p =>
    cases p <;> simp only [frontStep, keyStep] at hnext <;> first
      | (rw [hhere] at hnext; cases hnext)
      | (split_ifs at hnext <;> first | (rw [hhere] at hnext; cases hnext) | cases hnext)
  | look =>
    simp only [frontStep] at hnext
    split_ifs at hnext with hfound
    · exact .inr ⟨rfl, hfound⟩
    · rw [hmissing] at hnext
      cases hnext
  | load => exact .inl rfl
  | store v ws => exact .inl rfl

theorem rest_keyed (e : RspEnd) : e.rest.keyed = false := by cases e <;> rfl

/-- A hook goes by its key to a slot once it has found a record for it. -/
theorem keyed_step (f : Filter) (hnext : (w.step f s env mine a key).work.keyed) :
    w.keyed ∨ (w.seeks ∧ (s.tgtEntry key).isSome) := by
  cases w with
  | idle => cases hnext
  | touch b p =>
    refine (inSlot_frontStep (fun _ => rfl) rfl hnext).imp id ?_
    rintro ⟨rfl, hfound⟩
    exact ⟨rfl, hfound⟩
  | rsp e p =>
    cases p with
    | front p =>
      refine (inSlot_frontStep (fun _ => rfl) (rest_keyed e) hnext).imp id ?_
      rintro ⟨rfl, hfound⟩
      exact ⟨rfl, hfound⟩
    | uncount => cases hnext
    | _ => exact .inl rfl
  | init p => exact .inl rfl

/-- A hook that does not go by its key to a slot does nothing to the records. -/
theorem quiet_step (f : Filter) (hkeyed : w.keyed = false) (hseeks : w.seeks → (s.tgtEntry key).isSome = false) :
    Quiet s (w.step f s env mine a key).st ∧ (w.step f s env mine a key).note = .nothing := by
  have hfront : ∀ {off scalar : Bool} {counted : TgtState} {stores : TgtRec → List Store} {here : FrontPc → Work}
      {missing past : Work} {p : FrontPc}, Quiet s counted → p.inSlot = false →
      (p = .look → (s.tgtEntry key).isSome = false) →
      Quiet s (frontStep off scalar counted stores here missing past s env a.req key p).st ∧
        (frontStep off scalar counted stores here missing past s env a.req key p).note = .nothing := by
    intro off scalar counted stores here missing past p hcounted hp hlook
    cases p with
    | gate => exact ⟨.refl s, rfl⟩
    | key p => exact quiet_keyStep _ _ _ _ hcounted p
    | look =>
      simp only [frontStep, hlook rfl]
      exact ⟨.refl s, rfl⟩
    | load => cases hp
    | store v ws => cases hp
  cases w with
  | idle => exact ⟨.refl s, rfl⟩
  | touch b p =>
    refine hfront (quiet_touchCount b f s key) hkeyed ?_
    rintro rfl
    exact hseeks rfl
  | rsp e p =>
    cases p with
    | front p =>
      refine hfront (.refl s) hkeyed ?_
      rintro rfl
      exact hseeks rfl
    | uncount => exact ⟨quiet_tgtUncount s f key, rfl⟩
    | _ => cases hkeyed
  | init p => cases hkeyed

/-- The key of a hook when it has made its next access; `cell` is what is in the value of `ntp_scalar`, and `saved` what
is in `resp_ctx`. -/
def Work.keyAfter (cell saved key : U64) (w : Work) : U64 :=
  match w.keyPc with
  | some .get => cell
  | some .reload => saved
  | _ => key

/-- The key of a hook that looks it up, or goes by it, does not change any more. -/
theorem keyAfter_eq (cell saved : U64) (hw : w.seeks ∨ w.keyed) : w.keyAfter cell saved key = key := by
  cases w with
  | idle => rfl
  | touch b p =>
    cases p with
    | key p => simp [Work.seeks, Work.keyed, FrontPc.inSlot] at hw
    | _ => rfl
  | rsp e p =>
    cases p with
    | front p =>
      cases p with
      | key p => simp [Work.seeks, Work.keyed, RspPc.keyed, FrontPc.inSlot] at hw
      | _ => rfl
    | _ => rfl
  | init p => rfl

end Keys

/-! ## What it writes -/

section Writes

variable (f : Filter) (s : TgtState) (env : HookEnv) (mine : Counters) (a : ReqInitArgs) (key : U64)

theorem treqs_frontStep {off scalar : Bool} {counted : TgtState} {stores : TgtRec → List Store}
    {here : FrontPc → Work} {missing past : Work} {own : U64} (h : Quiet s counted) {p : FrontPc}
    (hp : p.inSlot = false) :
    (frontStep off scalar counted stores here missing past s env own key p).st.treqs = s.treqs := by
  cases p with
  | gate => rfl
  | key p => exact (quiet_keyStep _ _ _ _ h p).1.treqs
  | look =>
    simp only [frontStep]
    split_ifs <;> rfl
  | load => cases hp
  | store w ws => cases hp

theorem treqs_countStep {i : Counter} {here : CountPc → Work} {rest : Work} (p : CountPc) :
    (countStep i here rest s mine p).st.treqs = s.treqs := by
  cases p <;> rfl

theorem inflightAdd_treqs (d : S64) : (s.inflightAdd d).treqs = s.treqs := rfl

/-- A hook without a pointer to a slot changes none. -/
theorem treqs_step {w : Work} (hw : w.inSlot = false) : (w.step f s env mine a key).st.treqs = s.treqs := by
  cases w with
  | idle => rfl
  | touch b p => exact treqs_frontStep s env key (quiet_touchCount b f s key) hw
  | rsp e p =>
    cases p with
    | front p => exact treqs_frontStep s env key (.refl s) hw
    | part =>
      simp only [Work.step, rspStep]
      split_ifs <;> rfl
    | fetchOr => cases hw
    | emit p =>
      cases p with
      | look =>
        simp only [Work.step, rspStep, emitStep]
        split_ifs <;> rfl
      | leave => exact inflightAdd_treqs s _
      | _ => cases hw
    | uncount => exact (quiet_tgtUncount s f key).treqs
  | init p =>
    cases p with
    | enter =>
      simp only [Work.step, initStep]
      split_ifs
      · exact (quiet_countCommand f s a).treqs
      · rfl
    | cmds q p => exact treqs_countStep s mine p
    | gate q => rfl
    | look q =>
      simp only [Work.step, initStep]
      split_ifs <;> rfl
    | emit q p =>
      cases p with
      | leave => exact inflightAdd_treqs s _
      | _ => cases hw
    | sample q =>
      simp only [Work.step, initStep]
      split <;> rfl
    | take q c =>
      simp only [Work.step, initStep]
      split_ifs
      · rfl
      · exact inflightAdd_treqs s 1
    | sampled p => exact treqs_countStep s mine p
    | _ => cases hw

/-- What a hook has counted leaves the slots alone. -/
theorem treqs_saving {w : Work} {old : U64} (hw : w.saving = some old) :
    (w.step f s env mine a key).st.treqs = s.treqs := by
  unfold Work.saving at hw
  split at hw
  all_goals first
    | rfl
    | cases hw

/-- An access by a key leaves the slots of other keys alone. -/
theorem treqs_step_ne {w : Work} {k : Slot} (hinit : w.isInit → key = a.req) (hk : k ≠ ntpSlot key) :
    (w.step f s env mine a key).st.treqs k = s.treqs k := by
  cases hsaving : w.saving with
  | none =>
    have hfresh : w.Fresh mine := by
      intro i _ _ old hold
      rw [hsaving] at hold
      cases hold
    exact (effect_step f env a hinit hfresh).other k hk
  | some old => rw [treqs_saving f s env mine a key hsaving]

theorem Store.apply_id (r : TgtRec) (w : Store) : (w.apply r).id = r.id := by cases w <;> rfl

theorem id_setEntry {req : U64} {e : TgtEntry} (he : e.record.id = (s.treqs (ntpSlot req)).record.id) (k : Slot) :
    ((s.setEntry req e).treqs k).record.id = (s.treqs k).record.id := by
  simp only [TgtState.setEntry, Function.update_apply]
  split_ifs with hk
  · rw [hk, he]
  · rfl

theorem id_setRec {req : U64} {r : TgtRec} (hr : r.id = (s.treqs (ntpSlot req)).record.id) (k : Slot) :
    ((s.setRec req r).treqs k).record.id = (s.treqs k).record.id :=
  id_setEntry s hr k

theorem id_frontStep {off scalar : Bool} {counted : TgtState} {stores : TgtRec → List Store}
    {here : FrontPc → Work} {missing past : Work} {own : U64} (h : Quiet s counted) (p : FrontPc) (k : Slot) :
    ((frontStep off scalar counted stores here missing past s env own key p).st.treqs k).record.id =
      (s.treqs k).record.id := by
  cases p with
  | load =>
    simp only [frontStep]
    split <;> rfl
  | store w ws =>
    simp only [frontStep]
    split <;> exact id_setRec s (Store.apply_id _ w) k
  | _ => rw [treqs_frontStep s env key h rfl]

theorem id_emitStep {own : Bool} {here : EmitPc → Work} {rest : Work} (p : EmitPc) (k : Slot) :
    ((emitStep own here rest s env mine key p).st.treqs k).record.id = (s.treqs k).record.id := by
  cases p with
  | look =>
    simp only [emitStep]
    split_ifs <;> rfl
  | cpu => exact id_setRec s (by rfl) k
  | output =>
    simp only [emitStep]
    split_ifs <;> rfl
  | count i p => exact congrArg (fun g => (g k).record.id) (treqs_countStep s mine p)
  | free => exact id_setEntry s (by rfl) k
  | leave => exact congrArg (fun g => (g k).record.id) (inflightAdd_treqs s _)

/-- Only `ntp_t_req_init` writes what identifies the command. -/
theorem id_step {w : Work} (hw : w.fillsRecord = false) (k : Slot) :
    ((w.step f s env mine a key).st.treqs k).record.id = (s.treqs k).record.id := by
  cases w with
  | idle => rfl
  | touch b p => exact id_frontStep s env key (quiet_touchCount b f s key) p k
  | rsp e p =>
    cases p with
    | front p => exact id_frontStep s env key (.refl s) p k
    | fetchOr => exact id_setEntry s (by rfl) k
    | emit p => exact id_emitStep s env mine key p k
    | _ => rw [treqs_step f s env mine a key rfl]
  | init p =>
    cases p with
    | load q => rfl
    | flag q v => exact id_setRec s (by rfl) k
    | emit q p => exact id_emitStep s env mine a.req p k
    | stale q c p => exact congrArg (fun g => (g k).record.id) (treqs_countStep s mine p)
    | claim q c => exact id_setEntry s (by rfl) k
    | parts q c => exact id_setEntry s (by rfl) k
    | wipe q c => cases hw
    | fill q c => cases hw
    | publish => exact id_setEntry s (by rfl) k
    | _ => rw [treqs_step f s env mine a key rfl]

variable {s mine a key}

/-- What is emitted is the record in the slot. -/
theorem output_record {w : Work} {own : Bool} {r : TgtRec} (hinit : w.isInit → key = a.req)
    (h : (w.step f s env mine a key).note = .output own (.emitted r)) : r = (s.treqs (ntpSlot key)).record := by
  have hfrom : Note.From w (.output own (.emitted r)) := h ▸ (step_moves s env a key f mine w).noteFrom
  rcases hfrom with ⟨-, e, rfl⟩ | ⟨-, q, rfl⟩
  · simp only [Work.step, rspStep, emitStep] at h
    split_ifs at h
    · cases h
    · cases h
      rfl
  · rw [hinit rfl]
    simp only [Work.step, initStep, emitStep] at h
    split_ifs at h
    · cases h
    · cases h
      rfl

end Writes

/-! ## What a note does to the book -/

/-- The record in the slot after an access of a hook of `cmd`. -/
def Note.liveAfter (cmd : ℕ) (old : Option ℕ) : Note → Option ℕ
  | .free => none
  | .unlink => none
  | .publish => some cmd
  | _ => old

/-- The ends of the hook's command that were seen, after an access. -/
def Note.seenAfter (old : Finset RspEnd) : Note → Finset RspEnd
  | .see e => insert e old
  | _ => old

/-- The records that were made, after an access of a hook of `cmd`. -/
def Note.madeAfter (cmd : ℕ) (old : List ℕ) : Note → List ℕ
  | .publish => old ++ [cmd]
  | _ => old

/-- How records end with an access of a hook of `cmd`, where `live` was the record in the slot. -/
def Note.closes (cmd : ℕ) (live : Option ℕ) : Note → List (ℕ × SharedSlots.Cause Fate)
  | .output own x => [(live.getD cmd, if own then .own x else .back x)]
  | .take => live.toList.map fun c => (c, .stale)
  | _ => []

section Book

variable {cpus : Cpus} (t : Context cpus) (cmd : ℕ) (k : Slot) (b : Book cpus) (note : Note)

theorem phase_book_ne {t' : Context cpus} (ht : t' ≠ t) : (note.book t cmd k b).phase t' = b.phase t' := by
  cases note <;> simp [Note.book, ht]

theorem live_book : (note.book t cmd k b).live k = note.liveAfter cmd (b.live k) := by
  cases note <;> simp [Note.book, Note.liveAfter]

theorem live_book_ne {j : Slot} (hj : j ≠ k) : (note.book t cmd k b).live j = b.live j := by
  cases note <;> simp [Note.book, hj]

theorem seen_book : (note.book t cmd k b).seen cmd = note.seenAfter (b.seen cmd) := by
  cases note <;> simp [Note.book, Note.seenAfter]

theorem seen_book_ne {c : ℕ} (hc : c ≠ cmd) : (note.book t cmd k b).seen c = b.seen c := by
  cases note <;> simp [Note.book, hc]

theorem made_book : (note.book t cmd k b).made = note.madeAfter cmd b.made := by
  cases note <;> rfl

theorem closed_book : (note.book t cmd k b).closed = b.closed ++ note.closes cmd (b.live k) := by
  cases note with
  | output own x => rfl
  | take => rfl
  | _ => exact (List.append_nil _).symm

end Book

end Ntprof.Bpf
