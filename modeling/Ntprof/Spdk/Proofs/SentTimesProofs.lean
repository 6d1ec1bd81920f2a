import Ntprof.Spdk.Times

/-!
# The times at which `sendmsg()` took a PDU

The socket layer keeps 32 bits of such a time, and they are widened against the time at which the first PDU of the
same kind was queued. Here is what really happens to the PDUs of a command, with whole times, and that the times which
SPDK files are these as long as no PDU waits for 2^32 ns or more after the first one of its kind.
-/

namespace Ntprof.Spdk

open Bpf

/-! ## What really happens -/

/-- PDUs that are widened against the same time. -/
inductive PduKind where
  | command
  | h2cData
  | r2t
  | response
  deriving DecidableEq, Repr

/-- The kind of a PDU; data to the host is of the kind of the response. -/
def PduType.kind : PduType → Option PduKind
  | .capsuleCmd => some .command
  | .h2cData => some .h2cData
  | .r2t => some .r2t
  | .c2hData => some .response
  | .capsuleResp => some .response
  | .other => none

/-- Where a PDU is: with the transport, written to the socket, or taken by `sendmsg()` at a time. -/
inductive PduLife where
  | idle
  | written (type : PduType) (flags : U8)
  | taken (type : PduType) (flags : U8) (time : U64)
  deriving DecidableEq

/-- A PDU whose callback ran, with the time at which `sendmsg()` took it. -/
structure Filed where
  type : PduType
  flags : U8
  time : U64
  deriving DecidableEq

/-- The PDUs of a command, when the first one of each kind was queued, and those that are over, in order. -/
structure Sending (ι : Type) where
  life : ι → PduLife
  queued : PduKind → Option U64
  filed : List Filed

/-- The time is at or after `queued`, and less than 2^32 ns after it. -/
def WithinReach (queued time : U64) : Prop := queued.toNat ≤ time.toNat ∧ time.toNat < queued.toNat + 2 ^ 32

instance (queued time : U64) : Decidable (WithinReach queued time) := inferInstanceAs (Decidable (_ ∧ _))

variable {ι : Type} [DecidableEq ι]

/-- The first queueing of a kind is noted. -/
def noteQueued (queued : PduKind → Option U64) (kind : Option PduKind) (now : U64) : PduKind → Option U64 :=
  fun k => if kind = some k ∧ queued k = none then some now else queued k

/-- One step, if it is one that can come next: a PDU is written, then taken within reach of the first queueing of its
kind, and then its callback runs. The clock does not read 0. -/
def sendStep (s : Sending ι) : PduOp ι → Option (Sending ι)
  | .write p type flags now =>
    if s.life p = .idle ∧ now ≠ 0 then
      some { s with life := Function.update s.life p (.written type flags)
                    queued := noteQueued s.queued type.kind now }
    else none
  | .pend p now =>
    match s.life p with
    | .written type flags =>
      if ((type.kind.bind s.queued).all fun q => decide (WithinReach q now)) then
        some { s with life := Function.update s.life p (.taken type flags now) }
      else none
    | _ => none
  | .written p =>
    match s.life p with
    | .taken type flags time =>
      some { s with life := Function.update s.life p .idle, filed := s.filed ++ [⟨type, flags, time⟩] }
    | _ => none

/-- A whole run. -/
def sendRun (s : Sending ι) (ops : List (PduOp ι)) : Option (Sending ι) := ops.foldlM sendStep s

/-- The time of the first of the PDUs `p` that is over; 0 if there is none. -/
def firstTime (filed : List Filed) (p : Filed → Bool) : U64 := ((filed.find? p).map Filed.time).getD 0

/-- The time of the last of the PDUs `p` that is over; 0 if there is none. -/
def lastTime (filed : List Filed) (p : Filed → Bool) : U64 := (((filed.filter p).getLast?).map Filed.time).getD 0

/-- A command of a target begins. -/
def nvmfSending : Sending ι where
  life := fun _ => .idle
  queued := fun _ => none
  filed := []

/-- A command of a host begins: its capsule counts as queued at its submission. -/
def nvmeSending (submit : U64) : Sending ι where
  life := fun _ => .idle
  queued := fun k => if k = .command then some submit else none
  filed := []

/-! ## Widening -/

/-- The low 32 bits of a time within reach are enough. -/
theorem ntprofWiden_eq {queued time : U64} (hq : queued ≠ 0) (h : WithinReach queued time) :
    ntprofWiden (time.setWidth 32) queued = time := by
  obtain ⟨hle, hlt⟩ := h
  have ht := time.isLt
  rw [ntprofWiden, if_pos hq]
  apply BitVec.eq_of_toNat_eq
  simp only [BitVec.toNat_add, BitVec.toNat_setWidth, BitVec.toNat_sub]
  omega

theorem WithinReach.ne_zero {queued time : U64} (hq : queued ≠ 0) (h : WithinReach queued time) : time ≠ 0 := by
  rintro rfl
  apply hq
  apply BitVec.eq_of_toNat_eq
  exact Nat.le_zero.mp h.1

/-! ## Filing -/

/-- A step of either side: `queue` is what writing a PDU does to the times, `file` what its callback does. -/
def pduStep (queue : NtprofTimes → PduType → U64 → NtprofTimes)
    (file : NtprofTimes → PduType → U8 → U32 → NtprofTimes) (req : TcpReq ι) : PduOp ι → TcpReq ι
  | .write p type flags now =>
    { times := queue req.times type now
      pdu := Function.update req.pdu p ⟨type, flags, { (req.pdu p).sockReq with ntprof := req.times.on }⟩ }
  | .pend p now =>
    { req with pdu := Function.update req.pdu p
                 { req.pdu p with sockReq := spdkSockRequestPend (req.pdu p).sockReq now } }
  | .written p =>
    { times := file req.times (req.pdu p).type (req.pdu p).flags (req.pdu p).sockReq.ntprofSent
      pdu := Function.update req.pdu p
        { req.pdu p with sockReq := spdkSockRequestComplete (req.pdu p).sockReq } }

/-- Where the times of some PDUs go: which of them, what they are widened against, and whether the first one of them
stays or the last one. -/
structure FilingRule where
  slot : Event
  base : Event
  kind : PduKind
  takes : Filed → Bool
  keepsFirst : Bool

/-- The time that the rule files. -/
def FilingRule.time (r : FilingRule) (filed : List Filed) : U64 :=
  if r.keepsFirst then firstTime filed r.takes else lastTime filed r.takes

/-- The functions of a side follow a rule. -/
structure Follows (queue : NtprofTimes → PduType → U64 → NtprofTimes)
    (file : NtprofTimes → PduType → U8 → U32 → NtprofTimes) (r : FilingRule) : Prop where
  takes_kind : ∀ f, r.takes f → f.type.kind = some r.kind
  takes_time : ∀ type flags time time', r.takes ⟨type, flags, time⟩ = r.takes ⟨type, flags, time'⟩
  queue_on : ∀ t type now, (queue t type now).on = t.on
  queue_slot : ∀ t type now, (queue t type now).t r.slot = t.t r.slot
  queue_base : ∀ t type now, t.t r.base ≠ 0 → (queue t type now).t r.base = t.t r.base
  file_on : ∀ t type flags sent, (file t type flags sent).on = t.on
  file_base : ∀ t type flags sent, (file t type flags sent).t r.base = t.t r.base
  file_slot : ∀ t type flags sent, t.on → (file t type flags sent).t r.slot =
    if r.takes ⟨type, flags, 0⟩ ∧ (r.keepsFirst → t.t r.slot = 0) then ntprofWiden sent (t.t r.base) else t.t r.slot

/-- Writing a PDU of the rule's kind stamps its base. -/
def Stamps (queue : NtprofTimes → PduType → U64 → NtprofTimes) (r : FilingRule) : Prop :=
  ∀ t type now, t.on → t.t r.base = 0 → (queue t type now).t r.base = if type.kind = some r.kind then now else 0

/-- What SPDK holds of a PDU. -/
def HoldsPdu (r : FilingRule) (queued : PduKind → Option U64) (pdu : TcpPdu) : PduLife → Prop
  | .idle => True
  | .written type flags =>
    pdu.type = type ∧ pdu.flags = flags ∧ pdu.sockReq.ntprof = true ∧
      (type.kind = some r.kind → ∃ q, queued r.kind = some q)
  | .taken type flags time =>
    pdu.type = type ∧ pdu.flags = flags ∧ pdu.sockReq.ntprofSent = time.setWidth 32 ∧
      (type.kind = some r.kind → ∃ q, queued r.kind = some q ∧ WithinReach q time)

/-- What SPDK holds agrees with what really happened, as far as the rule goes. -/
structure Agrees (queue : NtprofTimes → PduType → U64 → NtprofTimes) (r : FilingRule) (req : TcpReq ι)
    (s : Sending ι) : Prop where
  on : req.times.on = true
  based : ∀ q, s.queued r.kind = some q → req.times.t r.base = q ∧ q ≠ 0
  unbased : s.queued r.kind = none → req.times.t r.base = 0 ∧ Stamps queue r
  slot : req.times.t r.slot = r.time s.filed
  nonzero : ∀ f ∈ s.filed, r.takes f → f.time ≠ 0
  pdu : ∀ p, HoldsPdu r s.queued (req.pdu p) (s.life p)

theorem firstTime_append (filed : List Filed) (p : Filed → Bool) (f : Filed) (hne : ∀ g ∈ filed, p g → g.time ≠ 0) :
    firstTime (filed ++ [f]) p = if p f ∧ firstTime filed p = 0 then f.time else firstTime filed p := by
  unfold firstTime
  rw [List.find?_append]
  cases hfind : filed.find? p with
  | none =>
    cases hp : p f with
    | false => simp [hp]
    | true => simp [hp]
  | some g =>
    have hg : g.time ≠ 0 := hne g (List.mem_of_find?_eq_some hfind) (List.find?_some hfind)
    rw [Option.some_or, Option.map_some, Option.getD_some, if_neg fun h => hg h.2]

theorem lastTime_append (filed : List Filed) (p : Filed → Bool) (f : Filed) :
    lastTime (filed ++ [f]) p = if p f then f.time else lastTime filed p := by
  unfold lastTime
  rw [List.filter_append]
  cases hp : p f with
  | false => simp [hp]
  | true => simp [hp]

/-- One more PDU is over. -/
theorem FilingRule.time_append (r : FilingRule) (filed : List Filed) (f : Filed)
    (hne : ∀ g ∈ filed, r.takes g → g.time ≠ 0) :
    r.time (filed ++ [f]) = if r.takes f ∧ (r.keepsFirst → r.time filed = 0) then f.time else r.time filed := by
  unfold FilingRule.time
  cases hk : r.keepsFirst with
  | true => simpa using firstTime_append filed r.takes f hne
  | false => simpa using lastTime_append filed r.takes f

/-! ## One step -/

theorem noteQueued_some {queued : PduKind → Option U64} {k : PduKind} {q : U64} (h : queued k = some q)
    (kind : Option PduKind) (now : U64) : noteQueued queued kind now k = some q := by
  rw [noteQueued, if_neg, h]
  rintro ⟨-, hnone⟩
  rw [h] at hnone
  cases hnone

/-- A PDU that is held stays so when more is queued. -/
theorem HoldsPdu.noteQueued {r : FilingRule} {queued : PduKind → Option U64} {pdu : TcpPdu} {life : PduLife}
    (h : HoldsPdu r queued pdu life) (kind : Option PduKind) (now : U64) :
    HoldsPdu r (noteQueued queued kind now) pdu life := by
  cases life with
  | idle => trivial
  | written type flags =>
    obtain ⟨htype, hflags, hsock, hq⟩ := h
    refine ⟨htype, hflags, hsock, fun hk => ?_⟩
    obtain ⟨q, hq⟩ := hq hk
    exact ⟨q, noteQueued_some hq kind now⟩
  | taken type flags time =>
    obtain ⟨htype, hflags, hsent, hq⟩ := h
    refine ⟨htype, hflags, hsent, fun hk => ?_⟩
    obtain ⟨q, hq, hreach⟩ := hq hk
    exact ⟨q, noteQueued_some hq kind now, hreach⟩

/-- The PDUs after one of them changed. -/
theorem holdsPdu_update {r : FilingRule} {queued : PduKind → Option U64} {pdu : ι → TcpPdu} {life : ι → PduLife}
    (h : ∀ p, HoldsPdu r queued (pdu p) (life p)) {p : ι} {pdu' : TcpPdu} {life' : PduLife}
    (hp : HoldsPdu r queued pdu' life') (x : ι) :
    HoldsPdu r queued (Function.update pdu p pdu' x) (Function.update life p life' x) := by
  by_cases hx : x = p
  · rw [hx, Function.update_self, Function.update_self]
    exact hp
  · rw [Function.update_of_ne hx, Function.update_of_ne hx]
    exact h x

variable {queue : NtprofTimes → PduType → U64 → NtprofTimes} {file : NtprofTimes → PduType → U8 → U32 → NtprofTimes}
  {r : FilingRule} {req : TcpReq ι} {s : Sending ι}

theorem Agrees.write (h : Agrees queue r req s) (hr : Follows queue file r) (p : ι) (type : PduType) (flags : U8)
    {now : U64} (hnow : now ≠ 0) :
    Agrees queue r (pduStep queue file req (.write p type flags now))
      { s with life := Function.update s.life p (.written type flags)
               queued := noteQueued s.queued type.kind now } := by
  refine ⟨(hr.queue_on ..).trans h.on, ?_, ?_, (hr.queue_slot ..).trans h.slot, h.nonzero, ?_⟩
  · intro q (hq : noteQueued s.queued type.kind now r.kind = some q)
    cases hold : s.queued r.kind with
    | some q' =>
      obtain ⟨hbase, hne⟩ := h.based q' hold
      rw [noteQueued_some hold] at hq
      obtain rfl : q' = q := Option.some.inj hq
      refine ⟨(hr.queue_base _ _ _ ?_).trans hbase, hne⟩
      rw [hbase]
      exact hne
    | none =>
      obtain ⟨hbase, hstamps⟩ := h.unbased hold
      rw [noteQueued, hold] at hq
      split_ifs at hq with hk
      · obtain rfl : now = q := Option.some.inj hq
        refine ⟨?_, hnow⟩
        exact (hstamps _ _ _ h.on hbase).trans (if_pos hk.1)
  · intro (hnone : noteQueued s.queued type.kind now r.kind = none)
    rw [noteQueued] at hnone
    split_ifs at hnone with hk
    obtain ⟨hbase, hstamps⟩ := h.unbased hnone
    refine ⟨(hstamps _ _ _ h.on hbase).trans (if_neg fun hkind => hk ⟨hkind, hnone⟩), hstamps⟩
  · refine holdsPdu_update (fun x => (h.pdu x).noteQueued _ _) ⟨rfl, rfl, h.on, fun hk => ?_⟩
    cases hold : s.queued r.kind with
    | some q => exact ⟨q, noteQueued_some hold _ _⟩
    | none => exact ⟨now, if_pos ⟨hk, hold⟩⟩

theorem Agrees.pend (h : Agrees queue r req s) {p : ι} {type : PduType} {flags : U8} {now : U64}
    (hlife : s.life p = .written type flags)
    (hreach : (type.kind.bind s.queued).all fun q => decide (WithinReach q now)) :
    Agrees queue r (pduStep queue file req (.pend p now))
      { s with life := Function.update s.life p (.taken type flags now) } := by
  refine ⟨h.on, h.based, h.unbased, h.slot, h.nonzero, holdsPdu_update h.pdu ?_⟩
  have hp := h.pdu p
  rw [hlife] at hp
  obtain ⟨htype, hflags, hsock, hq⟩ := hp
  refine ⟨htype, hflags, ?_, fun hk => ?_⟩
  · show (spdkSockRequestPend (req.pdu p).sockReq now).ntprofSent = now.setWidth 32
    rw [spdkSockRequestPend, if_pos hsock]
  · obtain ⟨q, hq⟩ := hq hk
    rw [hk, Option.bind_some, hq, Option.all_some, decide_eq_true_eq] at hreach
    exact ⟨q, hq, hreach⟩

theorem Agrees.written (h : Agrees queue r req s) (hr : Follows queue file r) {p : ι} {type : PduType} {flags : U8}
    {time : U64} (hlife : s.life p = .taken type flags time) :
    Agrees queue r (pduStep queue file req (.written p))
      { s with life := Function.update s.life p .idle, filed := s.filed ++ [⟨type, flags, time⟩] } := by
  have hp := h.pdu p
  rw [hlife] at hp
  obtain ⟨htype, hflags, hsent, hq⟩ := hp
  -- A PDU of the rule is widened to its own time.
  have hwiden : r.takes ⟨type, flags, time⟩ →
      ntprofWiden (time.setWidth 32) (req.times.t r.base) = time ∧ time ≠ 0 := by
    intro htakes
    obtain ⟨q, hq, hreach⟩ := hq (hr.takes_kind _ htakes)
    obtain ⟨hbase, hne⟩ := h.based q hq
    rw [hbase]
    exact ⟨ntprofWiden_eq hne hreach, hreach.ne_zero hne⟩
  refine ⟨(hr.file_on ..).trans h.on, fun q hq => ?_, fun hnone => ?_, ?_, ?_, holdsPdu_update h.pdu trivial⟩
  · obtain ⟨hbase, hne⟩ := h.based q hq
    exact ⟨(hr.file_base ..).trans hbase, hne⟩
  · obtain ⟨hbase, hstamps⟩ := h.unbased hnone
    exact ⟨(hr.file_base ..).trans hbase, hstamps⟩
  · rw [r.time_append _ _ h.nonzero]
    show (file req.times (req.pdu p).type (req.pdu p).flags (req.pdu p).sockReq.ntprofSent).t r.slot = _
    rw [hr.file_slot _ _ _ _ h.on, htype, hflags, hsent, hr.takes_time type flags 0 time, h.slot]
    by_cases htakes : r.takes ⟨type, flags, time⟩ ∧ (r.keepsFirst → r.time s.filed = 0)
    · rw [if_pos htakes, if_pos htakes, (hwiden htakes.1).1]
    · rw [if_neg htakes, if_neg htakes]
  · intro f hf htakes
    rcases List.mem_append.mp hf with hf | hf
    · exact h.nonzero f hf htakes
    · rw [List.mem_singleton.mp hf] at htakes ⊢
      exact (hwiden htakes).2

/-- What one step of the PDUs does, SPDK does with them. -/
theorem Agrees.step (h : Agrees queue r req s) (hr : Follows queue file r) {op : PduOp ι} {s' : Sending ι}
    (hop : sendStep s op = some s') : Agrees queue r (pduStep queue file req op) s' := by
  cases op with
  | write p type flags now =>
    simp only [sendStep] at hop
    split_ifs at hop with hidle
    obtain rfl := Option.some.inj hop
    exact h.write hr p type flags hidle.2
  | pend p now =>
    cases hlife : s.life p with
    | idle => simp [sendStep, hlife] at hop
    | taken type flags time => simp [sendStep, hlife] at hop
    | written type flags =>
      simp only [sendStep, hlife] at hop
      split_ifs at hop with hreach
      obtain rfl := Option.some.inj hop
      exact h.pend hlife hreach
  | written p =>
    cases hlife : s.life p with
    | idle => simp [sendStep, hlife] at hop
    | written type flags => simp [sendStep, hlife] at hop
    | taken type flags time =>
      simp only [sendStep, hlife] at hop
      obtain rfl := Option.some.inj hop
      exact h.written hr hlife

/-- The same for a whole run. -/
theorem Agrees.run (h : Agrees queue r req s) (hr : Follows queue file r) {ops : List (PduOp ι)} {s' : Sending ι}
    (hops : sendRun s ops = some s') : Agrees queue r (ops.foldl (pduStep queue file) req) s' := by
  induction ops generalizing req s with
  | nil =>
    obtain rfl : s = s' := Option.some.inj hops
    exact h
  | cons op ops ih =>
    rw [sendRun, List.foldlM_cons] at hops
    obtain ⟨s₁, hs₁, hrest⟩ := Option.bind_eq_some_iff.mp hops
    exact ih (h.step hr hs₁) hrest

/-! ## The two sides -/

/-- What writing a PDU does to the times of a target. -/
def nvmfQueue (t : NtprofTimes) (type : PduType) (now : U64) : NtprofTimes :=
  if t.on then ntprofNvmfPduQueued t type now else t

/-- What the callback of a PDU does to the times of a target. -/
def nvmfFile (t : NtprofTimes) (type : PduType) (flags : U8) (sent : U32) : NtprofTimes :=
  if t.on then ntprofNvmfPduSent t type flags sent else t

/-- What writing a PDU does to the times of a host. -/
def nvmeQueue (t : NtprofTimes) (type : PduType) (now : U64) : NtprofTimes :=
  if t.on ∧ type = .h2cData then ntprofStamp t (hostEvent .h2cStart) now else t

/-- What the callback of a PDU does to the times of a host. -/
def nvmeFile (t : NtprofTimes) (type : PduType) (_flags : U8) (sent : U32) : NtprofTimes :=
  if (type = .capsuleCmd ∨ type = .h2cData) ∧ t.on then ntprofNvmePduSent t type sent else t

theorem nvmfStep_eq : (nvmfStep : TcpReq ι → PduOp ι → TcpReq ι) = pduStep nvmfQueue nvmfFile := by
  funext req op
  cases op <;> rfl

theorem nvmeStep_eq : (nvmeStep : TcpReq ι → PduOp ι → TcpReq ι) = pduStep nvmeQueue nvmeFile := by
  funext req op
  cases op <;> rfl

/-- The first R2T. -/
def r2tRule : FilingRule := ⟨tgtEvent .r2tSent, tgtEvent .r2tQueued, .r2t, fun f => f.type == .r2t, true⟩

/-- The first data to the host. -/
def c2hRule : FilingRule := ⟨tgtEvent .c2hSent, tgtEvent .rspQueued, .response, fun f => f.type == .c2hData, true⟩

/-- A PDU that is the response, or data that stands for it. -/
def isResponse (f : Filed) : Bool :=
  f.type == .capsuleResp || (f.type == .c2hData && f.flags &&& c2hDataFlagsSuccess != 0)

/-- The last response. -/
def rspRule : FilingRule := ⟨tgtEvent .rspSent, tgtEvent .rspQueued, .response, isResponse, false⟩

/-- The first command capsule. -/
def cmdRule : FilingRule := ⟨hostEvent .cmdSent, hostEvent .submit, .command, fun f => f.type == .capsuleCmd, true⟩

/-- The last data to the target. -/
def h2cRule : FilingRule := ⟨hostEvent .h2cSent, hostEvent .h2cStart, .h2cData, fun f => f.type == .h2cData, false⟩

/-! ### What the functions of a target do -/

theorem nvmfQueue_on (t : NtprofTimes) (type : PduType) (now : U64) : (nvmfQueue t type now).on = t.on := by
  unfold nvmfQueue
  split_ifs
  · cases type <;> simp [ntprofNvmfPduQueued]
  · rfl

/-- Only the two times of queueing are written, and only once. -/
theorem nvmfQueue_t (t : NtprofTimes) (type : PduType) (now : U64) (x : Event)
    (hx : t.t x ≠ 0 ∨ (x ≠ tgtEvent .r2tQueued ∧ x ≠ tgtEvent .rspQueued)) : (nvmfQueue t type now).t x = t.t x := by
  have hstamp : ∀ ev, (x = ev → t.t x ≠ 0) → (ntprofStamp t ev now).t x = t.t x := by
    intro ev hev
    by_cases h : x = ev
    · subst h
      rw [ntprofStamp_self, if_neg (hev rfl)]
    · exact ntprofStamp_of_ne t h now
  have hr2t : x = tgtEvent .r2tQueued → t.t x ≠ 0 := fun h => hx.resolve_right fun h' => h'.1 h
  have hrsp : x = tgtEvent .rspQueued → t.t x ≠ 0 := fun h => hx.resolve_right fun h' => h'.2 h
  unfold nvmfQueue
  split_ifs
  · cases type with
    | r2t => exact hstamp _ hr2t
    | c2hData => exact hstamp _ hrsp
    | capsuleResp => exact hstamp _ hrsp
    | _ => rfl
  · rfl

theorem nvmfFile_on (t : NtprofTimes) (type : PduType) (flags : U8) (sent : U32) :
    (nvmfFile t type flags sent).on = t.on := by
  unfold nvmfFile
  split_ifs
  · cases type with
    | r2t =>
      simp only [ntprofNvmfPduSent]
      split_ifs <;> rfl
    | c2hData =>
      simp only [ntprofNvmfPduSent]
      split_ifs <;> rfl
    | _ => rfl
  · rfl

/-- Only the three times of sending are written. -/
theorem nvmfFile_t (t : NtprofTimes) (type : PduType) (flags : U8) (sent : U32) (x : Event)
    (hr2t : x ≠ tgtEvent .r2tSent) (hc2h : x ≠ tgtEvent .c2hSent) (hrsp : x ≠ tgtEvent .rspSent) :
    (nvmfFile t type flags sent).t x = t.t x := by
  unfold nvmfFile
  split_ifs
  · cases type with
    | r2t =>
      simp only [ntprofNvmfPduSent]
      split_ifs
      · exact t.set_of_ne hr2t _
      · rfl
    | c2hData =>
      simp only [ntprofNvmfPduSent]
      split_ifs
      · exact (NtprofTimes.set_of_ne _ hrsp _).trans (t.set_of_ne hc2h _)
      · exact t.set_of_ne hrsp _
      · exact t.set_of_ne hc2h _
      · rfl
    | capsuleResp => exact t.set_of_ne hrsp _
    | _ => rfl
  · rfl

theorem setIf_self (c : Prop) [Decidable c] (t : NtprofTimes) (ev : Event) (time : U64) :
    (if c then t.set ev time else t).t ev = if c then time else t.t ev := by
  split_ifs
  · exact t.set_self ev time
  · rfl

theorem setIf_of_ne (c : Prop) [Decidable c] (t : NtprofTimes) {ev x : Event} (h : x ≠ ev) (time : U64) :
    (if c then t.set ev time else t).t x = t.t x := by
  split_ifs
  · exact t.set_of_ne h time
  · rfl

/-- Data to the host, but for the time of the response. -/
theorem ntprofNvmfPduSent_c2hData (t : NtprofTimes) (flags : U8) (sent : U32) {x : Event}
    (hx : x ≠ tgtEvent .rspSent) :
    (ntprofNvmfPduSent t .c2hData flags sent).t x =
      (if t.t (tgtEvent .c2hSent) = 0 then t.set (tgtEvent .c2hSent) (ntprofWiden sent (t.t (tgtEvent .rspQueued)))
        else t).t x := by
  simp only [ntprofNvmfPduSent]
  by_cases hflag : flags &&& c2hDataFlagsSuccess ≠ 0
  · rw [if_pos hflag]
    exact NtprofTimes.set_of_ne _ hx _
  · rw [if_neg hflag]

theorem ntprofNvmfPduSent_r2tSent (t : NtprofTimes) (type : PduType) (flags : U8) (sent : U32) :
    (ntprofNvmfPduSent t type flags sent).t (tgtEvent .r2tSent) =
      if type = .r2t ∧ t.t (tgtEvent .r2tSent) = 0 then ntprofWiden sent (t.t (tgtEvent .r2tQueued))
      else t.t (tgtEvent .r2tSent) := by
  cases type with
  | r2t =>
    simp only [true_and]
    exact setIf_self ..
  | c2hData =>
    rw [if_neg (by simp), ntprofNvmfPduSent_c2hData _ _ _ (by decide)]
    exact setIf_of_ne _ _ (by decide) _
  | capsuleResp =>
    rw [if_neg (by simp)]
    exact t.set_of_ne (by decide) _
  | _ => rw [if_neg (by simp)]; rfl

theorem ntprofNvmfPduSent_c2hSent (t : NtprofTimes) (type : PduType) (flags : U8) (sent : U32) :
    (ntprofNvmfPduSent t type flags sent).t (tgtEvent .c2hSent) =
      if type = .c2hData ∧ t.t (tgtEvent .c2hSent) = 0 then ntprofWiden sent (t.t (tgtEvent .rspQueued))
      else t.t (tgtEvent .c2hSent) := by
  cases type with
  | r2t =>
    rw [if_neg (by simp)]
    exact setIf_of_ne _ _ (by decide) _
  | c2hData =>
    rw [ntprofNvmfPduSent_c2hData _ _ _ (by decide)]
    simp only [true_and]
    exact setIf_self ..
  | capsuleResp =>
    rw [if_neg (by simp)]
    exact t.set_of_ne (by decide) _
  | _ => rw [if_neg (by simp)]; rfl

theorem ntprofNvmfPduSent_rspSent (t : NtprofTimes) (type : PduType) (flags : U8) (sent : U32) :
    (ntprofNvmfPduSent t type flags sent).t (tgtEvent .rspSent) =
      if isResponse ⟨type, flags, 0⟩ then ntprofWiden sent (t.t (tgtEvent .rspQueued))
      else t.t (tgtEvent .rspSent) := by
  cases type with
  | r2t => exact setIf_of_ne _ _ (by decide) _
  | c2hData =>
    have hresp : isResponse ⟨.c2hData, flags, 0⟩ = true ↔ flags &&& c2hDataFlagsSuccess ≠ 0 := by simp [isResponse]
    simp only [ntprofNvmfPduSent, hresp]
    by_cases hflag : flags &&& c2hDataFlagsSuccess ≠ 0
    · rw [if_pos hflag, if_pos hflag]
      -- The time of the data is filed first, and leaves the base as it is.
      have hbase : tgtEvent .rspQueued ≠ tgtEvent .c2hSent := by decide
      rw [setIf_of_ne _ _ hbase]
      dsimp only
      rw [NtprofTimes.set_self]
    · rw [if_neg hflag, if_neg hflag]
      exact setIf_of_ne _ _ (by decide) _
  | capsuleResp => exact t.set_self _ _
  | _ => rfl

/-- The functions of a target follow a rule that files a time of sending against a time of queueing. -/
theorem follows_nvmf {r : FilingRule} (takes_kind : ∀ f, r.takes f → f.type.kind = some r.kind)
    (takes_time : ∀ type flags time time', r.takes ⟨type, flags, time⟩ = r.takes ⟨type, flags, time'⟩)
    (slot : r.slot ≠ tgtEvent .r2tQueued ∧ r.slot ≠ tgtEvent .rspQueued)
    (base : r.base ≠ tgtEvent .r2tSent ∧ r.base ≠ tgtEvent .c2hSent ∧ r.base ≠ tgtEvent .rspSent)
    (filed : ∀ t type flags sent, (ntprofNvmfPduSent t type flags sent).t r.slot =
      if r.takes ⟨type, flags, 0⟩ ∧ (r.keepsFirst → t.t r.slot = 0) then ntprofWiden sent (t.t r.base)
      else t.t r.slot) : Follows nvmfQueue nvmfFile r where
  takes_kind := takes_kind
  takes_time := takes_time
  queue_on := nvmfQueue_on
  queue_slot := fun t type now => nvmfQueue_t t type now _ (.inr slot)
  queue_base := fun t type now h => nvmfQueue_t t type now _ (.inl h)
  file_on := nvmfFile_on
  file_base := fun t type flags sent => nvmfFile_t t type flags sent _ base.1 base.2.1 base.2.2
  file_slot := by
    intro t type flags sent hon
    rw [nvmfFile, if_pos hon]
    exact filed t type flags sent

theorem follows_r2t : Follows nvmfQueue nvmfFile r2tRule :=
  follows_nvmf (fun f hf => by rw [eq_of_beq hf]; rfl) (fun _ _ _ _ => rfl) (by decide) (by decide)
    fun t type flags sent => (ntprofNvmfPduSent_r2tSent t type flags sent).trans (if_congr (by simp [r2tRule]) rfl rfl)

theorem follows_c2h : Follows nvmfQueue nvmfFile c2hRule :=
  follows_nvmf (fun f hf => by rw [eq_of_beq hf]; rfl) (fun _ _ _ _ => rfl) (by decide) (by decide)
    fun t type flags sent => (ntprofNvmfPduSent_c2hSent t type flags sent).trans (if_congr (by simp [c2hRule]) rfl rfl)

theorem isResponse_kind {f : Filed} (h : isResponse f) : f.type.kind = some .response := by
  obtain ⟨type, flags, time⟩ := f
  cases type <;> first | rfl | simp [isResponse] at h

theorem follows_rsp : Follows nvmfQueue nvmfFile rspRule :=
  follows_nvmf (fun f hf => isResponse_kind hf) (fun _ _ _ _ => rfl) (by decide) (by decide)
    fun t type flags sent => (ntprofNvmfPduSent_rspSent t type flags sent).trans (if_congr (by simp [rspRule]) rfl rfl)

theorem stamps_r2t : Stamps nvmfQueue r2tRule := by
  intro t type now hon h
  rw [nvmfQueue, if_pos hon]
  cases type with
  | r2t => exact ntprofStamp_zero h now
  | c2hData => exact (ntprofStamp_of_ne t (by decide) now).trans h
  | capsuleResp => exact (ntprofStamp_of_ne t (by decide) now).trans h
  | _ => exact h

theorem stamps_response {r : FilingRule} (hbase : r.base = tgtEvent .rspQueued) (hkind : r.kind = .response) :
    Stamps nvmfQueue r := by
  intro t type now hon h
  rw [nvmfQueue, if_pos hon, hkind]
  rw [hbase] at h ⊢
  cases type with
  | r2t => exact (ntprofStamp_of_ne t (by decide) now).trans h
  | c2hData => exact ntprofStamp_zero h now
  | capsuleResp => exact ntprofStamp_zero h now
  | _ => exact h

/-! ### What the functions of a host do -/

theorem nvmeQueue_on (t : NtprofTimes) (type : PduType) (now : U64) : (nvmeQueue t type now).on = t.on := by
  unfold nvmeQueue
  split_ifs
  · exact ntprofStamp_on ..
  · rfl

theorem nvmeQueue_t (t : NtprofTimes) (type : PduType) (now : U64) (x : Event)
    (hx : t.t x ≠ 0 ∨ x ≠ hostEvent .h2cStart) : (nvmeQueue t type now).t x = t.t x := by
  unfold nvmeQueue
  split_ifs
  · by_cases h : x = hostEvent .h2cStart
    · subst h
      rw [ntprofStamp_self, if_neg (hx.resolve_right (not_not_intro rfl))]
    · exact ntprofStamp_of_ne t h now
  · rfl

theorem ntprofNvmePduSent_cmdSent (t : NtprofTimes) (type : PduType) (sent : U32) :
    (ntprofNvmePduSent t type sent).t (hostEvent .cmdSent) =
      if type = .capsuleCmd ∧ t.t (hostEvent .cmdSent) = 0 then ntprofWiden sent (t.t (hostEvent .submit))
      else t.t (hostEvent .cmdSent) := by
  unfold ntprofNvmePduSent
  split_ifs
  · exact t.set_self _ _
  · exact t.set_of_ne (by decide) _
  · rfl

theorem ntprofNvmePduSent_h2cSent (t : NtprofTimes) (type : PduType) (sent : U32) :
    (ntprofNvmePduSent t type sent).t (hostEvent .h2cSent) =
      if type = .h2cData then ntprofWiden sent (t.t (hostEvent .h2cStart)) else t.t (hostEvent .h2cSent) := by
  unfold ntprofNvmePduSent
  split_ifs with hcmd hh2c hh2c
  · rw [hcmd.1] at hh2c
    cases hh2c
  · exact t.set_of_ne (by decide) _
  · exact t.set_self _ _
  · rfl

theorem nvmeFile_on (t : NtprofTimes) (type : PduType) (flags : U8) (sent : U32) :
    (nvmeFile t type flags sent).on = t.on := by
  unfold nvmeFile ntprofNvmePduSent
  split_ifs <;> rfl

theorem nvmeFile_t (t : NtprofTimes) (type : PduType) (flags : U8) (sent : U32) {x : Event}
    (hcmd : x ≠ hostEvent .cmdSent) (hh2c : x ≠ hostEvent .h2cSent) : (nvmeFile t type flags sent).t x = t.t x := by
  unfold nvmeFile ntprofNvmePduSent
  split_ifs
  · exact t.set_of_ne hcmd _
  · exact t.set_of_ne hh2c _
  · rfl
  · rfl

/-- The callback files only what `ntprof_nvme_pdu_sent` takes. -/
theorem nvmeFile_eq {t : NtprofTimes} (hon : t.on) (type : PduType) (flags : U8) (sent : U32) :
    nvmeFile t type flags sent = ntprofNvmePduSent t type sent := by
  unfold nvmeFile
  cases type with
  | capsuleCmd => exact if_pos ⟨.inl rfl, hon⟩
  | h2cData => exact if_pos ⟨.inr rfl, hon⟩
  | _ =>
    rw [if_neg (by simp)]
    rfl

/-- The functions of a host follow a rule that files a time of sending against one of the two stamps. -/
theorem follows_nvme {r : FilingRule} (takes_kind : ∀ f, r.takes f → f.type.kind = some r.kind)
    (takes_time : ∀ type flags time time', r.takes ⟨type, flags, time⟩ = r.takes ⟨type, flags, time'⟩)
    (slot : r.slot ≠ hostEvent .h2cStart) (base : r.base ≠ hostEvent .cmdSent ∧ r.base ≠ hostEvent .h2cSent)
    (filed : ∀ t type (flags : U8) sent, (ntprofNvmePduSent t type sent).t r.slot =
      if r.takes ⟨type, flags, 0⟩ ∧ (r.keepsFirst → t.t r.slot = 0) then ntprofWiden sent (t.t r.base)
      else t.t r.slot) : Follows nvmeQueue nvmeFile r where
  takes_kind := takes_kind
  takes_time := takes_time
  queue_on := nvmeQueue_on
  queue_slot := fun t type now => nvmeQueue_t t type now _ (.inr slot)
  queue_base := fun t type now h => nvmeQueue_t t type now _ (.inl h)
  file_on := nvmeFile_on
  file_base := fun t type flags sent => nvmeFile_t t type flags sent base.1 base.2
  file_slot := by
    intro t type flags sent hon
    rw [nvmeFile_eq hon]
    exact filed t type flags sent

theorem follows_cmd : Follows nvmeQueue nvmeFile cmdRule :=
  follows_nvme (fun f hf => by rw [eq_of_beq hf]; rfl) (fun _ _ _ _ => rfl) (by decide) (by decide)
    fun t type _ sent => (ntprofNvmePduSent_cmdSent t type sent).trans (if_congr (by simp [cmdRule]) rfl rfl)

theorem follows_h2c : Follows nvmeQueue nvmeFile h2cRule :=
  follows_nvme (fun f hf => by rw [eq_of_beq hf]; rfl) (fun _ _ _ _ => rfl) (by decide) (by decide)
    fun t type _ sent => (ntprofNvmePduSent_h2cSent t type sent).trans (if_congr (by simp [h2cRule]) rfl rfl)

theorem stamps_h2c : Stamps nvmeQueue h2cRule := by
  intro t type now hon h
  unfold nvmeQueue
  cases type with
  | h2cData =>
    rw [if_pos ⟨hon, rfl⟩]
    exact ntprofStamp_zero h now
  | _ =>
    rw [if_neg (by simp)]
    exact h

/-! ## Whole commands -/

theorem FilingRule.time_nil (r : FilingRule) : r.time [] = 0 := by
  unfold FilingRule.time
  split_ifs <;> rfl

omit [DecidableEq ι] in
/-- A command begins: nothing is queued, but what its first event stands for. -/
theorem agrees_begin {every : U32} {cmd : NvmeCmd} (hsampled : ntprofSampled every cmd) (t₀ : NtprofTimes)
    (pdu₀ : ι → TcpPdu) {ev : Event} {now : U64} {queued : PduKind → Option U64} (hslot : r.slot ≠ ev)
    (hqueued : (queued r.kind = none ∧ r.base ≠ ev ∧ Stamps queue r) ∨
      (queued r.kind = some now ∧ r.base = ev ∧ now ≠ 0)) :
    Agrees queue r ⟨ntprofBegin t₀ every cmd ev now, pdu₀⟩ ⟨fun _ => .idle, queued, []⟩ := by
  refine ⟨?_, ?_, ?_, ?_, fun f hf => absurd hf List.not_mem_nil, fun _ => trivial⟩
  · rw [ntprofBegin_sampled _ hsampled]
    rfl
  · intro q (hq : queued r.kind = some q)
    rcases hqueued with ⟨hnone, -, -⟩ | ⟨hsome, hbase, hnow⟩
    · rw [hnone] at hq
      cases hq
    · rw [hsome] at hq
      obtain rfl : now = q := Option.some.inj hq
      rw [ntprofBegin_sampled _ hsampled, hbase]
      exact ⟨NtprofTimes.set_self .., hnow⟩
  · intro (hq : queued r.kind = none)
    rcases hqueued with ⟨-, hbase, hstamps⟩ | ⟨hsome, -, -⟩
    · rw [ntprofBegin_sampled _ hsampled]
      exact ⟨NtprofTimes.set_of_ne _ hbase _, hstamps⟩
    · rw [hsome] at hq
      cases hq
  · rw [ntprofBegin_sampled _ hsampled]
    exact (NtprofTimes.set_of_ne _ hslot _).trans r.time_nil.symm

/-- The times of a command of a target, whose times began as `t`, after a run of its PDUs. -/
def nvmfTimes (t : NtprofTimes) (pdu₀ : ι → TcpPdu) (ops : List (PduOp ι)) : NtprofTimes :=
  (ops.foldl nvmfStep ⟨t, pdu₀⟩).times

/-- The times of a command of a host, whose times began as `t`, after a run of its PDUs. -/
def nvmeTimes (t : NtprofTimes) (pdu₀ : ι → TcpPdu) (ops : List (PduOp ι)) : NtprofTimes :=
  (ops.foldl nvmeStep ⟨t, pdu₀⟩).times

/-- The times of sending that SPDK files for a sampled command are the true ones, on the target and on the host, for
every run of its PDUs in which each one is taken within reach of the first queueing of its kind. -/
theorem sent_times_survive {every : U32} {cmd : NvmeCmd} (hsampled : ntprofSampled every cmd) {now : U64}
    (hnow : now ≠ 0) (t₀ : NtprofTimes) (pdu₀ : ι → TcpPdu) (ops : List (PduOp ι)) (s : Sending ι) :
    (sendRun nvmfSending ops = some s →
      (nvmfTimes (ntprofBegin t₀ every cmd (tgtEvent .cmd) now) pdu₀ ops).tgt .r2tSent
          = firstTime s.filed (fun f => f.type == .r2t) ∧
        (nvmfTimes (ntprofBegin t₀ every cmd (tgtEvent .cmd) now) pdu₀ ops).tgt .c2hSent
          = firstTime s.filed (fun f => f.type == .c2hData) ∧
        (nvmfTimes (ntprofBegin t₀ every cmd (tgtEvent .cmd) now) pdu₀ ops).tgt .rspSent
          = lastTime s.filed isResponse) ∧
    (sendRun (nvmeSending now) ops = some s →
      (nvmeTimes (ntprofBegin t₀ every cmd (hostEvent .submit) now) pdu₀ ops).host .cmdSent
          = firstTime s.filed (fun f => f.type == .capsuleCmd) ∧
        (nvmeTimes (ntprofBegin t₀ every cmd (hostEvent .submit) now) pdu₀ ops).host .h2cSent
          = lastTime s.filed (fun f => f.type == .h2cData)) := by
  refine ⟨fun hops => ?_, fun hops => ?_⟩
  · rw [nvmfTimes, nvmfStep_eq]
    have hr2t : Agrees nvmfQueue r2tRule ⟨ntprofBegin t₀ every cmd (tgtEvent .cmd) now, pdu₀⟩ nvmfSending :=
      agrees_begin hsampled t₀ pdu₀ (by decide) (.inl ⟨rfl, by decide, stamps_r2t⟩)
    have hc2h : Agrees nvmfQueue c2hRule ⟨ntprofBegin t₀ every cmd (tgtEvent .cmd) now, pdu₀⟩ nvmfSending :=
      agrees_begin hsampled t₀ pdu₀ (by decide) (.inl ⟨rfl, by decide, stamps_response rfl rfl⟩)
    have hrsp : Agrees nvmfQueue rspRule ⟨ntprofBegin t₀ every cmd (tgtEvent .cmd) now, pdu₀⟩ nvmfSending :=
      agrees_begin hsampled t₀ pdu₀ (by decide) (.inl ⟨rfl, by decide, stamps_response rfl rfl⟩)
    exact ⟨(hr2t.run follows_r2t hops).slot, (hc2h.run follows_c2h hops).slot, (hrsp.run follows_rsp hops).slot⟩
  · rw [nvmeTimes, nvmeStep_eq]
    have hcmd : Agrees nvmeQueue cmdRule ⟨ntprofBegin t₀ every cmd (hostEvent .submit) now, pdu₀⟩ (nvmeSending now) :=
      agrees_begin hsampled t₀ pdu₀ (by decide) (.inr ⟨rfl, rfl, hnow⟩)
    have hh2c : Agrees nvmeQueue h2cRule ⟨ntprofBegin t₀ every cmd (hostEvent .submit) now, pdu₀⟩ (nvmeSending now) :=
      agrees_begin hsampled t₀ pdu₀ (by decide) (.inl ⟨rfl, by decide, stamps_h2c⟩)
    exact ⟨(hcmd.run follows_cmd hops).slot, (hh2c.run follows_h2c hops).slot⟩

/-- Two data PDUs of a read: queued before the low 32 bits of the clock wrap, and taken after that. -/
def wrappingReadPdus : List (PduOp ℕ) :=
  [.write 0 .c2hData 0 0xfffffff0, .write 1 .c2hData 8 0xfffffff8, .pend 0 0x100000005, .written 0,
    .pend 1 0x100000009, .written 1]

/-- The capsule of a write and two data PDUs after it. -/
def wrappingWritePdus : List (PduOp ℕ) :=
  [.write 0 .capsuleCmd 0 0xfffffff0, .pend 0 0xfffffff1, .written 0, .write 0 .h2cData 0 0xfffffff8,
    .pend 0 0x100000005, .written 0, .write 0 .h2cData 4 0x100000007, .pend 0 0x100000009, .written 0]

/-- The second PDU of the read stands for its response; the second one of the write is the last. -/
theorem sent_times_survive_wrap :
    (∃ s, sendRun nvmfSending wrappingReadPdus = some s ∧ lastTime s.filed isResponse = 0x100000009 ∧
      (nvmfTimes (ntprofBegin {} 1 ⟨2, 0, 1, 0, 0⟩ (tgtEvent .cmd) 0xff000000) (fun _ => ⟨.other, 0, {}⟩)
        wrappingReadPdus).tgt .rspSent = lastTime s.filed isResponse) ∧
    ∃ s, sendRun (nvmeSending 0xff000000) wrappingWritePdus = some s ∧
      lastTime s.filed (fun f => f.type == .h2cData) = 0x100000009 ∧
      (nvmeTimes (ntprofBegin {} 1 ⟨1, 0, 1, 0, 0⟩ (hostEvent .submit) 0xff000000) (fun _ => ⟨.other, 0, {}⟩)
        wrappingWritePdus).host .h2cSent = lastTime s.filed (fun f => f.type == .h2cData) :=
  ⟨⟨_, rfl, by decide +kernel, ((sent_times_survive (by decide +kernel) (by decide) _ _ _ _).1 rfl).2.2⟩,
    ⟨_, rfl, by decide +kernel, ((sent_times_survive (by decide +kernel) (by decide) _ _ _ _).2 rfl).2⟩⟩

end Ntprof.Spdk
