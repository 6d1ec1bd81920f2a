import Ntprof.Bpf.Proofs.HookAccessProofs
import Mathlib.Data.Fintype.Powerset

/-!
# The slots, while hooks interleave

As long as no hook comes into the way of another one, what the hooks do to the slots is a run of the rules of
`SharedSlots`.
-/

namespace Ntprof.Bpf

open SharedSlots (Phase)

/-! ## The calls -/

section Calls

variable {cpus : Cpus} (f : Filter) (args : ℕ → ReqInitArgs) {m : Machine cpus} {t : Context cpus}

/-- What the promises of the kernel say about the hooks that run. -/
structure CallsInv (m : Machine cpus) : Prop where
  arrived : ∀ t, (m.hooks t).work.role = some .init → m.came (args (m.hooks t).cmd).req = some (m.hooks t).cmd ∧
    (m.hooks t).cmd ∈ m.inits ∧ (m.hooks t).cmd ∉ m.begun
  alone : ∀ t t', (m.hooks t).work.role = some .init → (m.hooks t').work.role = some .init →
    (args (m.hooks t).cmd).req = (args (m.hooks t').cmd).req → t = t'
  begunInits : ∀ c ∈ m.begun, c ∈ m.inits
  after : ∀ t, (m.hooks t).work.role ≠ none → (m.hooks t).work.role ≠ some .init → (m.hooks t).cmd ∈ m.begun
  ends : ∀ t e, (m.hooks t).work.role = some (.rsp e) →
    ((m.hooks t).cmd, e) ∈ m.started ∧ ((m.hooks t).cmd, e) ∉ m.finished
  single : ∀ t t' e, (m.hooks t).work.role = some (.rsp e) → (m.hooks t').work.role = some (.rsp e) →
    (m.hooks t).cmd = (m.hooks t').cmd → t = t'
  overs : ∀ c e, (c, e) ∈ m.finished → (c, e) ∈ m.started
  startedBegun : ∀ c e, (c, e) ∈ m.started → c ∈ m.begun

/-- The key of the hook in `t`, when it has made its next access. -/
def Machine.key (m : Machine cpus) (t : Context cpus) : U64 :=
  (m.hooks t).work.keyAfter (m.scalar (m.hooks t).env.cpu) (m.st.respCtx (m.hooks t).env.cpu).req (m.hooks t).key

/-- The next access of the hook in `t`. -/
def Machine.out (m : Machine cpus) (t : Context cpus) : Out :=
  (m.hooks t).work.step f m.st (m.hooks t).env (m.counters (m.hooks t).env.cpu) (args (m.hooks t).cmd) (m.key t)

theorem out_moves (m : Machine cpus) (t : Context cpus) :
    Moves m.st (m.hooks t).env (args (m.hooks t).cmd) (m.key t) (m.hooks t).work (m.out f args t).note
      (m.out f args t).work :=
  step_moves ..

/-- The hooks after an access. -/
theorem hooks_access (t' : Context cpus) : (m.access f args t).hooks t' =
    if t' = t then { m.hooks t with work := (m.out f args t).work, key := m.key t } else m.hooks t' := by
  simp only [Machine.access, Machine.finish]
  split <;> exact Function.update_apply ..

theorem inits_access : (m.access f args t).inits = m.inits := by
  simp only [Machine.access, Machine.finish]
  split <;> rfl

theorem came_access : (m.access f args t).came = m.came := by
  simp only [Machine.access, Machine.finish]
  split <;> rfl

theorem started_access : (m.access f args t).started = m.started := by
  simp only [Machine.access, Machine.finish]
  split <;> rfl

theorem begun_finish (h : Thread) (next : Work) (c : ℕ) : c ∈ (m.finish h next).begun ↔
    c ∈ m.begun ∨ (c = h.cmd ∧ h.work.role = some .init ∧ next.role = none) := by
  cases hw : h.work <;> cases next <;> simp [Machine.finish, hw, Work.role]

theorem finished_finish (h : Thread) (next : Work) (c : ℕ) (e : RspEnd) : (c, e) ∈ (m.finish h next).finished ↔
    (c, e) ∈ m.finished ∨ (c = h.cmd ∧ h.work.role = some (.rsp e) ∧ next.role = none) := by
  cases hw : h.work <;> cases next <;> simp [Machine.finish, hw, Work.role, eq_comm]

theorem begun_access (c : ℕ) : c ∈ (m.access f args t).begun ↔ c ∈ m.begun ∨
    (c = (m.hooks t).cmd ∧ (m.hooks t).work.role = some .init ∧ (m.out f args t).work.role = none) :=
  begun_finish (m.hooks t) _ c

theorem finished_access (c : ℕ) (e : RspEnd) : (c, e) ∈ (m.access f args t).finished ↔ (c, e) ∈ m.finished ∨
    (c = (m.hooks t).cmd ∧ (m.hooks t).work.role = some (.rsp e) ∧ (m.out f args t).work.role = none) :=
  finished_finish (m.hooks t) _ c e

variable {args}

theorem CallsInv.access (h : CallsInv args m) : CallsInv args (m.access f args t) := by
  have hrole := (out_moves f args m t).role
  constructor
  · intro t' hinit
    rw [hooks_access] at hinit ⊢
    rw [came_access, inits_access, begun_access]
    have hold := h.arrived t
    have halone := h.alone t t'
    have hother := h.arrived t'
    grind
  · intro t' t'' h' h''
    rw [hooks_access] at h' h'' ⊢
    rw [hooks_access]
    have halone := h.alone
    grind
  · intro c hc
    rw [begun_access] at hc
    rw [inits_access]
    have hold := h.begunInits c
    have hinit := h.arrived t
    grind
  · intro t' hne hinit
    rw [hooks_access] at hne hinit ⊢
    rw [begun_access]
    have hold := h.after t'
    grind
  · intro t' e hrsp
    rw [hooks_access] at hrsp ⊢
    rw [started_access, finished_access]
    have hold := h.ends t' e
    have hsingle := h.single t t' e
    grind
  · intro t' t'' e h' h''
    rw [hooks_access] at h' h'' ⊢
    rw [hooks_access]
    have hsingle := fun t t' => h.single t t' e
    grind
  · intro c e hc
    rw [finished_access] at hc
    rw [started_access]
    have hold := h.overs c e
    have hends := h.ends t e
    grind
  · intro c e hc
    rw [started_access] at hc
    rw [begun_access]
    exact .inl (h.startedBegun c e hc)

theorem CallsInv.start {cmd : ℕ} {kind : Kind} {env : HookEnv} (h : CallsInv args m)
    (hallow : m.Allows args (.start t cmd kind env)) : CallsInv args (m.start args t cmd kind env) := by
  obtain ⟨⟨hidle, -⟩, hkind⟩ := hallow
  rw [isIdle_iff] at hidle
  obtain ⟨harrived, halone, hbegun, hafter, hends, hsingle, hovers, hstarted⟩ := h
  cases kind with
  | init =>
    obtain ⟨hnew, hfree⟩ := hkind
    simp only [isInit_iff] at hfree
    constructor <;> simp only [Machine.start, Function.update_apply, Kind.work]
    · grind [Work.role]
    · grind [Work.role]
    · grind
    · grind [Work.role]
    · grind [Work.role]
    · grind [Work.role]
    · exact hovers
    · exact hstarted
  | touch b p =>
    have hcmd : cmd ∈ m.begun := hkind
    constructor <;> simp only [Machine.start, Function.update_apply, Kind.work]
    · grind [Work.role]
    · grind [Work.role]
    · grind
    · grind [Work.role]
    · grind [Work.role]
    · grind [Work.role]
    · exact hovers
    · exact hstarted
  | rsp e p =>
    obtain ⟨hcmd, hnew⟩ := hkind
    constructor <;> simp only [Machine.start, Function.update_apply, Kind.work]
    · grind [Work.role]
    · grind [Work.role]
    · grind
    · grind [Work.role]
    · grind [Work.role]
    · grind [Work.role]
    · grind
    · grind

end Calls

/-! ## The parts of a response -/

/-- `parts`, when the ends `S` of the response were seen. -/
def seenBits (S : Finset RspEnd) : U32 :=
  (if .posted ∈ S then rspPosted else 0) ||| (if .sendDone ∈ S then rspSendDone else 0)

theorem seenBits_insert : ∀ (e : RspEnd) (S : Finset RspEnd), seenBits (insert e S) = seenBits S ||| e.bit := by decide

theorem seenBits_eq_iff : ∀ S : Finset RspEnd, seenBits S = rspPosted ||| rspSendDone ↔ S = Finset.univ := by decide

/-! ## Where the hooks are in the slots -/

section Slots

variable {cpus : Cpus} (f : Filter) (args : ℕ → ReqInitArgs) {m : Machine cpus} {t : Context cpus}

/-- The slot of a command. -/
def slotOf (c : ℕ) : Slot := ntpSlot (args c).req

/-- In its first part, a hook of `cmd` uses the record it has found. -/
def FrontPc.phase (cmd : ℕ) (p : FrontPc) : Phase Slot ℕ := if p.inSlot then .uses cmd else .away

/-- How far a hook of `cmd` is with the record in its slot. -/
def Work.Linked (cmd : ℕ) (p : Phase Slot ℕ) : Work → Prop
  | .idle => p = .away
  | .touch _ q => p = q.phase cmd
  | .rsp _ (.front q) => p = q.phase cmd
  | .rsp _ .part => p = .away
  | .rsp _ .fetchOr => p = .uses cmd
  | .rsp _ (.emit .look) => p = .wins cmd
  | .rsp _ (.emit .cpu) => p = .emits true cmd
  | .rsp _ (.emit .output) => p = .emits true cmd
  | .rsp _ (.emit (.count _ _)) => p = .frees true cmd
  | .rsp _ (.emit .free) => p = .frees true cmd
  | .rsp _ (.emit .leave) => p = .away
  | .rsp _ .uncount => p = .away
  | .init .enter => p = .away
  | .init (.cmds _ _) => p = .away
  | .init (.gate _) => p = .away
  | .init (.look _) => p = .away
  | .init (.load _) => ∃ c, (args c).req = (args cmd).req ∧ p = .emits false c
  | .init (.flag _ _) => ∃ c, (args c).req = (args cmd).req ∧ p = .emits false c
  | .init (.emit _ .look) => ∃ c, (args c).req = (args cmd).req ∧ p = .emits false c
  | .init (.emit _ .cpu) => ∃ c, (args c).req = (args cmd).req ∧ p = .emits false c
  | .init (.emit _ .output) => ∃ c, (args c).req = (args cmd).req ∧ p = .emits false c
  | .init (.emit _ (.count _ _)) => ∃ c, (args c).req = (args cmd).req ∧ p = .frees false c
  | .init (.emit _ .free) => ∃ c, (args c).req = (args cmd).req ∧ p = .frees false c
  | .init (.emit _ .leave) => p = .away
  | .init (.sample _) => p = .away
  | .init (.take _ _) => p = .away
  | .init (.stale _ _ _) => p = .takes (slotOf args cmd)
  | .init (.claim _ _) => p = .takes (slotOf args cmd)
  | .init (.parts _ _) => p = .fills (slotOf args cmd)
  | .init (.wipe _ _) => p = .fills (slotOf args cmd)
  | .init (.fill _ _) => p = .fills (slotOf args cmd)
  | .init .publish => p = .fills (slotOf args cmd)
  | .init (.sampled _) => p = .away

/-- What the slots hold, and how far the hooks are with it. -/
structure SlotsInv (m : Machine cpus) : Prop where
  inv : SharedSlots.Inv (slotOf args) m.book
  key : ∀ k, (m.st.treqs k).req = (m.book.live k).elim 0 fun c => (args c).req.val
  parts : ∀ k c, m.book.live k = some c → (m.st.treqs k).parts = seenBits (m.book.seen c)
  linked : ∀ t, (m.hooks t).work.Linked args (m.hooks t).cmd (m.book.phase t)
  cleared : ∀ t, (m.hooks t).work.cleared → (m.st.treqs (slotOf args (m.hooks t).cmd)).parts = 0
  current : ∀ k c, m.book.live k = some c → m.cur (args c).req = some c
  flushed : ∀ t, (m.hooks t).work.clean →
    (m.st.treqs (slotOf args (m.hooks t).cmd)).req ≠ (args (m.hooks t).cmd).req
  mine : ∀ t, (m.hooks t).work.makes → m.cur (args (m.hooks t).cmd).req = some (m.hooks t).cmd
  unmade : ∀ t, (m.hooks t).work.unmade → (m.hooks t).cmd ∉ m.book.made
  madeInits : ∀ c ∈ m.book.made, c ∈ m.inits
  keyed : ∀ t, (m.hooks t).work.keyed → (m.hooks t).key = (args (m.hooks t).cmd).req
  unseen : ∀ t e, (m.hooks t).work.early e → e ∉ m.book.seen (m.hooks t).cmd
  unstarted : ∀ c e, (c, e) ∉ m.started → e ∉ m.book.seen c

variable {args}

/-- How a hook `w` of `cmd` stands to the slot of `cmd`. -/
inductive Stands (args : ℕ → ReqInitArgs) (cmd : ℕ) (w : Work) : Phase Slot ℕ → Prop
  | away (hout : w.inSlot = false) : Stands args cmd w .away
  | wins (hout : w.inSlot = false) {e : RspEnd} (hend : w.role = some (.rsp e)) : Stands args cmd w (.wins cmd)
  | uses (hin : w.inSlot) : Stands args cmd w (.uses cmd)
  | emits (hin : w.inSlot) {e : RspEnd} (hend : w.role = some (.rsp e)) : Stands args cmd w (.emits true cmd)
  | frees (hin : w.inSlot) : Stands args cmd w (.frees true cmd)
  | flushes (hin : w.inSlot) (hinit : w.isInit) {c : ℕ} (hc : (args c).req = (args cmd).req) :
    Stands args cmd w (.emits false c)
  | clears (hin : w.inSlot) (hinit : w.isInit) {c : ℕ} (hc : (args c).req = (args cmd).req) :
    Stands args cmd w (.frees false c)
  | takes (hin : w.inSlot) (hinit : w.isInit) (hclaims : w.claims) : Stands args cmd w (.takes (slotOf args cmd))
  | fills (hin : w.inSlot) (hinit : w.isInit) (hclaims : w.claims) : Stands args cmd w (.fills (slotOf args cmd))

theorem stands_front {cmd : ℕ} {p : Phase Slot ℕ} {w : Work} {q : FrontPc} (hw : w.inSlot = q.inSlot)
    (h : p = q.phase cmd) : Stands args cmd w p := by
  rw [h, FrontPc.phase]
  split_ifs with hin
  · exact .uses (hw.trans hin)
  · exact .away (hw.trans (Bool.eq_false_iff.mpr hin))

theorem stands_emit {cmd : ℕ} {p : Phase Slot ℕ} {e : RspEnd} {q : EmitPc}
    (h : (Work.rsp e (.emit q)).Linked args cmd p) : Stands args cmd (.rsp e (.emit q)) p := by
  cases q <;> cases h
  · exact .wins rfl rfl
  · exact .emits rfl rfl
  · exact .emits rfl rfl
  · exact .frees rfl
  · exact .frees rfl
  · exact .away rfl

theorem stands_flush {cmd : ℕ} {p : Phase Slot ℕ} {q : U16 × U16} {pc : EmitPc}
    (h : (Work.init (.emit q pc)).Linked args cmd p) : Stands args cmd (.init (.emit q pc)) p := by
  cases pc with
  | leave =>
    cases h
    exact .away rfl
  | count _ _ | free =>
    obtain ⟨c, hc, rfl⟩ := h
    exact .clears rfl rfl hc
  | _ =>
    obtain ⟨c, hc, rfl⟩ := h
    exact .flushes rfl rfl hc

theorem Work.Linked.stands {cmd : ℕ} {p : Phase Slot ℕ} {w : Work} (h : w.Linked args cmd p) :
    Stands args cmd w p := by
  cases w with
  | idle =>
    cases h
    exact .away rfl
  | touch b q => exact stands_front rfl h
  | rsp e pc =>
    cases pc with
    | front q => exact stands_front rfl h
    | fetchOr =>
      cases h
      exact .uses rfl
    | emit q => exact stands_emit h
    | _ =>
      cases h
      exact .away rfl
  | init pc =>
    cases pc with
    | load q =>
      obtain ⟨c, hc, rfl⟩ := h
      exact .flushes rfl rfl hc
    | flag q v =>
      obtain ⟨c, hc, rfl⟩ := h
      exact .flushes rfl rfl hc
    | emit q pc => exact stands_flush h
    | stale _ _ _ | claim _ _ =>
      cases h
      exact .takes rfl rfl rfl
    | parts q c =>
      cases h
      exact .fills rfl rfl rfl
    | wipe q c =>
      cases h
      exact .fills rfl rfl rfl
    | fill q c =>
      cases h
      exact .fills rfl rfl rfl
    | publish =>
      cases h
      exact .fills rfl rfl rfl
    | _ =>
      cases h
      exact .away rfl

section Stands

variable {cmd d : ℕ} {p : Phase Slot ℕ} {k : Slot} {w : Work}

theorem slotOf_congr {c : ℕ} (hc : (args c).req = (args cmd).req) : slotOf args c = slotOf args cmd := by
  rw [slotOf, slotOf, hc]

/-- A hook that is in a slot has a pointer to it, and it is its own. -/
theorem Stands.inside (h : Stands args cmd w p) (hp : p.In (slotOf args) k) : w.inSlot ∧ slotOf args cmd = k := by
  cases h with
  | away _ => exact hp.elim
  | wins _ _ => exact hp.elim
  | uses hin => exact ⟨hin, hp⟩
  | emits hin _ => exact ⟨hin, hp⟩
  | frees hin => exact ⟨hin, hp⟩
  | flushes hin _ hc => exact ⟨hin, (slotOf_congr hc).symm.trans hp⟩
  | clears hin _ hc => exact ⟨hin, (slotOf_congr hc).symm.trans hp⟩
  | takes hin _ _ => exact ⟨hin, hp⟩
  | fills hin _ _ => exact ⟨hin, hp⟩

/-- A hook with a pointer to its slot is in the slot. -/
theorem Stands.isIn (h : Stands args cmd w p) (hw : w.inSlot) : p.In (slotOf args) (slotOf args cmd) := by
  cases h with
  | away hout => exact absurd (hw.symm.trans hout) (by simp)
  | wins hout _ => exact absurd (hw.symm.trans hout) (by simp)
  | flushes _ _ hc => exact slotOf_congr hc
  | clears _ _ hc => exact slotOf_congr hc
  | _ => exact rfl

/-- Only `ntp_t_req_init` wants a slot for itself. -/
theorem Stands.wants (h : Stands args cmd w p) (hp : p.Takes (slotOf args) k) : w.isInit := by
  cases h with
  | away _ => exact hp.elim
  | wins _ _ => exact hp.elim
  | uses _ => exact hp.elim
  | emits _ _ => cases hp.1
  | frees _ => cases hp.1
  | flushes _ hinit _ => exact hinit
  | clears _ hinit _ => exact hinit
  | takes _ hinit _ => exact hinit
  | fills _ hinit _ => exact hinit

/-- A hook works on its own record, or, in `nvmet_req_init`, on an older one of its `nvmet_req`. -/
theorem Stands.whose (h : Stands args cmd w p) (hp : p = .uses d ∨ ∃ own, p = .emits own d) :
    d = cmd ∨ (w.isInit ∧ (args d).req = (args cmd).req) := by
  rcases hp with rfl | ⟨own, rfl⟩
  · cases h
    exact .inl rfl
  · cases h with
    | emits _ _ => exact .inl rfl
    | flushes _ hinit hc => exact .inr ⟨hinit, hc⟩

/-- A hook that has seen the last end of a record is that of an end of the command. -/
theorem Stands.ending (h : Stands args cmd w p) (hp : p = .wins d ∨ p = .emits true d) :
    d = cmd ∧ ∃ e, w.role = some (.rsp e) := by
  rcases hp with rfl | rfl
  · cases h with
    | wins _ hend => exact ⟨rfl, _, hend⟩
  · cases h with
    | emits _ hend => exact ⟨rfl, _, hend⟩

theorem Stands.claims (h : Stands args cmd w p) (hp : p.Claims k) : w.claims := by
  cases h with
  | takes _ _ hclaims => exact hclaims
  | fills _ _ hclaims => exact hclaims
  | _ => exact hp.elim

end Stands

/-- A look-up that finds a record finds that of the command in the slot. -/
theorem SlotsInv.found (h : SlotsInv args m) {req : KAddr} (hfound : (m.st.tgtEntry req).isSome) :
    ∃ c, m.book.live (ntpSlot req) = some c ∧ (args c).req = req := by
  have hreq : (m.st.treqs (ntpSlot req)).req = req := by
    rw [TgtState.tgtEntry] at hfound
    by_contra hne
    rw [if_neg hne] at hfound
    exact Bool.false_ne_true hfound
  rw [h.key] at hreq
  cases hlive : m.book.live (ntpSlot req) with
  | none =>
    rw [hlive] at hreq
    exact absurd hreq.symm req.property
  | some c =>
    rw [hlive] at hreq
    exact ⟨c, rfl, Subtype.ext hreq⟩

/-- A look-up finds every record that is in its slot. -/
theorem SlotsInv.not_live (h : SlotsInv args m) {c : ℕ} (hmissing : (m.st.tgtEntry (args c).req).isSome = false) :
    m.book.live (slotOf args c) ≠ some c := by
  intro hlive
  have hkey : (m.st.treqs (ntpSlot (args c).req)).req = (args c).req := by
    have hkey := h.key (slotOf args c)
    rw [hlive] at hkey
    exact hkey
  rw [TgtState.tgtEntry, if_pos hkey] at hmissing
  exact Bool.false_ne_true hmissing.symm

/-- A hook that is not in the way of others finds its own record. -/
theorem SlotsInv.own (h : SlotsInv args m) (hord : m.Orderly args (.step t))
    (hinit : (m.hooks t).work.isInit = false) (hfound : (m.st.tgtEntry (args (m.hooks t).cmd).req).isSome)
    (henters : (m.hooks t).work.enters true) :
    m.book.live (slotOf args (m.hooks t).cmd) = some (m.hooks t).cmd ∧
      ∀ t', ¬ (m.book.phase t').Takes (slotOf args) (slotOf args (m.hooks t).cmd) := by
  obtain ⟨c, hlive, hreq⟩ := h.found hfound
  have hcur := hord.last (by rw [hfound]; exact henters)
  have hfree := hord.apart (by rw [hfound]; exact henters)
  have hc : c = (m.hooks t).cmd := by
    have hcurrent := h.current _ c hlive
    rw [hreq, hcur hinit] at hcurrent
    exact (Option.some.inj hcurrent).symm
  refine ⟨by rw [← hc] at hlive ⊢; exact hlive, fun t' htakes => ?_⟩
  have hin := (h.linked t').stands.inside (SharedSlots.inside htakes)
  have hwants := (h.linked t').stands.wants htakes
  have hnone := (hfree t' hin.1 hin.2).2
  rw [hwants] at hnone
  exact Bool.noConfusion hnone

/-- A hook that goes by its key to a slot goes to that of its command. -/
theorem SlotsInv.key_of_keyed (h : SlotsInv args m) (hw : (m.hooks t).work.keyed) :
    m.key t = (args (m.hooks t).cmd).req := by
  rw [Machine.key, keyAfter_eq _ _ (.inr hw)]
  exact h.keyed t hw

/-- A hook that looks its key up, and finds a record or misses its own, has that of its command. -/
theorem key_of_look (hord : m.Orderly args (.step t)) (hw : (m.hooks t).work.seeks)
    (hfound : (m.st.tgtEntry (m.key t)).isSome ∨ (m.st.tgtEntry (args (m.hooks t).cmd).req).isSome) :
    m.key t = (args (m.hooks t).cmd).req := by
  rw [Machine.key, keyAfter_eq _ _ (.inl hw)] at hfound ⊢
  exact hord.key hw hfound

theorem phase_go_self (b : Book cpus) (p : Phase Slot ℕ) : (b.go t p).phase t = p := by
  rw [SharedSlots.State.phase_go, if_pos rfl]

/-- An access on the way to the key. -/
theorem book_key {b : Book cpus} {cmd : ℕ} {p : KeyPc} {here : FrontPc → Work} (scalar : Bool) (counted s : TgtState)
    (env : HookEnv) (own : U64) (h : SharedSlots.Inv (slotOf args) b) (hp : b.phase t = .away)
    (hhere : ∀ p q, q = p.phase cmd → (here p).Linked args cmd q) :
    let o := keyStep scalar counted here s env own p
    SharedSlots.Inv (slotOf args) (o.note.book t cmd (slotOf args cmd) b) ∧
      o.work.Linked args cmd ((o.note.book t cmd (slotOf args cmd) b).phase t) := by
  cases p with
  | get => exact ⟨h, by cases scalar <;> exact hhere _ _ hp⟩
  | find =>
    simp only [keyStep]
    split_ifs
    · exact ⟨h, hhere _ _ hp⟩
    · exact ⟨h, hp⟩
  | _ => exact ⟨h, hhere _ _ hp⟩

/-- An access in the first part of a hook. -/
theorem book_front {b : Book cpus} {cmd : ℕ} {p : FrontPc} {here : FrontPc → Work} {missing past : Work}
    (off scalar : Bool) (counted s : TgtState) (stores : TgtRec → List Store) (env : HookEnv) (own key : U64)
    (h : SharedSlots.Inv (slotOf args) b) (hp : b.phase t = p.phase cmd)
    (hhere : ∀ p q, q = p.phase cmd → (here p).Linked args cmd q)
    (hmissing : missing.Linked args cmd .away) (hpast : past.Linked args cmd .away)
    (hfind : p = .look → (s.tgtEntry key).isSome → b.live (slotOf args cmd) = some cmd ∧
      ∀ t', ¬ (b.phase t').Takes (slotOf args) (slotOf args cmd)) :
    let o := frontStep off scalar counted stores here missing past s env own key p
    SharedSlots.Inv (slotOf args) (o.note.book t cmd (slotOf args cmd) b) ∧
      o.work.Linked args cmd ((o.note.book t cmd (slotOf args cmd) b).phase t) := by
  cases p with
  | gate =>
    simp only [frontStep]
    split_ifs
    · exact ⟨h, hp⟩
    · exact ⟨h, hhere _ _ hp⟩
    · exact ⟨h, hhere _ _ hp⟩
  | key p => exact book_key scalar counted s env own h hp hhere
  | look =>
    simp only [frontStep]
    split_ifs with hfound
    · obtain ⟨hlive, hno⟩ := hfind rfl hfound
      simp only [Note.book, hlive, Option.getD_some]
      exact ⟨h.find hp hlive hno, hhere _ _ (phase_go_self b _)⟩
    · refine ⟨h, ?_⟩
      rw [Note.book, hp]
      exact hmissing
  | load =>
    simp only [frontStep]
    split
    · refine ⟨h.letGo hp, ?_⟩
      rw [Note.book, phase_go_self]
      exact hpast
    · exact ⟨h, hhere _ _ hp⟩
  | store w ws =>
    simp only [frontStep]
    split
    · refine ⟨h.letGo hp, ?_⟩
      rw [Note.book, phase_go_self]
      exact hpast
    · exact ⟨h, hhere _ _ hp⟩

theorem rest_linked {e : RspEnd} {cmd : ℕ} {p : Phase Slot ℕ} (h : p = .away) : e.rest.Linked args cmd p := by
  cases e with
  | posted => exact h
  | sendDone => exact h

/-- An access in `tgt_emit`, called by one of the command's own hooks. -/
theorem book_emit_own {b : Book cpus} {cmd : ℕ} {s : TgtState} {e : RspEnd} {p : EmitPc} (env : HookEnv)
    (mine : Counters) (h : SharedSlots.Inv (slotOf args) b) (hp : (Work.rsp e (.emit p)).Linked args cmd (b.phase t))
    (hfind : p = .look → (s.tgtEntry (args cmd).req).isSome → b.live (slotOf args cmd) = some cmd ∧
      ∀ t', ¬ (b.phase t').Takes (slotOf args) (slotOf args cmd))
    (hmissing : (s.tgtEntry (args cmd).req).isSome = false → b.live (slotOf args cmd) ≠ some cmd) :
    let o := emitStep true (fun p => .rsp e (.emit p)) e.rest s env mine (args cmd).req p
    SharedSlots.Inv (slotOf args) (o.note.book t cmd (slotOf args cmd) b) ∧
      o.work.Linked args cmd ((o.note.book t cmd (slotOf args cmd) b).phase t) := by
  cases p with
  | look =>
    simp only [emitStep]
    split_ifs with hfound
    · obtain ⟨hlive, hno⟩ := hfind rfl hfound
      simp only [Note.book, hlive, Option.getD_some]
      exact ⟨h.grab hp hlive hno, phase_go_self b _⟩
    · exact ⟨h.lose hp (hmissing (Bool.eq_false_iff.mpr hfound)), rest_linked (phase_go_self b _)⟩
  | cpu => exact ⟨h, hp⟩
  | output =>
    have hlive := (h.emits t true cmd hp).1
    simp only [emitStep]
    split_ifs
    · simp only [Note.book, hlive, Option.getD_some]
      exact ⟨h.output hp, phase_go_self b _⟩
    · simp only [Note.book, hlive, Option.getD_some]
      exact ⟨h.output hp, phase_go_self b _⟩
  | count i p =>
    cases p with
    | load => exact ⟨h, hp⟩
    | save old => exact ⟨h, hp⟩
  | free => exact ⟨h.free hp, phase_go_self b _⟩
  | leave => exact ⟨h, rest_linked hp⟩

/-- An access in `tgt_emit`, called by `ntp_t_req_init`. -/
theorem book_emit_flush {b : Book cpus} {cmd : ℕ} {s : TgtState} {q : U16 × U16} {p : EmitPc} (env : HookEnv)
    (mine : Counters) (h : SharedSlots.Inv (slotOf args) b) (hp : (Work.init (.emit q p)).Linked args cmd (b.phase t))
    (hkey : ∀ c, b.live (slotOf args cmd) = some c → (args c).req = (args cmd).req →
      (s.tgtEntry (args cmd).req).isSome) :
    let o := emitStep false (fun p => .init (.emit q p)) (.init (.sample q)) s env mine (args cmd).req p
    SharedSlots.Inv (slotOf args) (o.note.book t cmd (slotOf args cmd) b) ∧
      o.work.Linked args cmd ((o.note.book t cmd (slotOf args cmd) b).phase t) := by
  cases p with
  | look =>
    obtain ⟨c, hc, hphase⟩ := hp
    have hlive := (h.emits t false c hphase).1
    rw [slotOf_congr hc] at hlive
    simp only [emitStep, if_pos (hkey c hlive hc)]
    exact ⟨h, c, hc, hphase⟩
  | cpu => exact ⟨h, hp⟩
  | output =>
    obtain ⟨c, hc, hphase⟩ := hp
    have hlive := (h.emits t false c hphase).1
    rw [slotOf_congr hc] at hlive
    simp only [emitStep]
    split_ifs
    · simp only [Note.book, hlive, Option.getD_some]
      exact ⟨h.output hphase, c, hc, phase_go_self b _⟩
    · simp only [Note.book, hlive, Option.getD_some]
      exact ⟨h.output hphase, c, hc, phase_go_self b _⟩
  | count i p =>
    cases p with
    | load => exact ⟨h, hp⟩
    | save old => exact ⟨h, hp⟩
  | free =>
    obtain ⟨c, hc, hphase⟩ := hp
    have hfree := h.free hphase
    rw [slotOf_congr hc] at hfree
    exact ⟨hfree, phase_go_self b _⟩
  | leave => exact ⟨h, hp⟩

/-- An access in the hook of an end. -/
theorem SlotsInv.book_rsp (h : SlotsInv args m) (hord : m.Orderly args (.step t)) {e : RspEnd} {p : RspPc}
    (hw : (m.hooks t).work = .rsp e p) :
    let o := rspStep f m.st (m.hooks t).env (m.counters (m.hooks t).env.cpu) (args (m.hooks t).cmd).req (m.key t) e p
    SharedSlots.Inv (slotOf args) (o.note.book t (m.hooks t).cmd (slotOf args (m.hooks t).cmd) m.book) ∧
      o.work.Linked args (m.hooks t).cmd
        ((o.note.book t (m.hooks t).cmd (slotOf args (m.hooks t).cmd) m.book).phase t) := by
  have hlink := h.linked t
  have hown := h.own hord
  have hlook := key_of_look hord
  have hkeyed := h.key_of_keyed (t := t)
  rw [hw] at hlink hown hlook hkeyed
  cases p with
  | front p =>
    refine book_front _ _ _ _ _ _ _ _ h.inv hlink (fun _ _ hq => hq) (rest_linked rfl) rfl ?_
    rintro rfl hfound
    rw [hlook rfl (.inl hfound)] at hfound
    exact hown rfl hfound rfl
  | part =>
    rw [hkeyed rfl]
    simp only [rspStep]
    split_ifs with hfound
    · obtain ⟨hlive, hno⟩ := hown rfl hfound rfl
      simp only [Note.book, hlive, Option.getD_some]
      exact ⟨h.inv.find hlink hlive hno, phase_go_self _ _⟩
    · exact ⟨h.inv, rest_linked hlink⟩
  | fetchOr =>
    have hunseen : e ∉ m.book.seen (m.hooks t).cmd := by
      refine h.unseen t e ?_
      rw [hw]
      simp [Work.early, RspPc.early]
    have hlive : m.book.live (slotOf args (m.hooks t).cmd) = some (m.hooks t).cmd := by
      rcases h.inv.uses t _ hlink with hlive | ⟨-, hfull⟩
      · exact hlive
      · rw [hfull] at hunseen
        exact absurd (Finset.mem_univ e) hunseen
    have hparts := h.parts _ _ hlive
    rw [hkeyed rfl]
    rw [slotOf] at hparts
    simp only [rspStep, Note.book, hparts, ← seenBits_insert, seenBits_eq_iff]
    refine ⟨h.inv.see hlink hunseen, ?_⟩
    rw [SharedSlots.State.phase_see, if_pos rfl]
    split_ifs
    · exact rfl
    · exact rest_linked rfl
  | emit p =>
    rw [hkeyed rfl]
    exact book_emit_own (m.hooks t).env _ h.inv hlink (by rintro rfl hfound; exact hown rfl hfound rfl) h.not_live
  | uncount => exact ⟨h.inv, hlink⟩

/-- `ntp_t_req_init` enters a slot in which no hook is. -/
theorem SlotsInv.nobody (h : SlotsInv args m) (hord : m.Orderly args (.step t)) (hinit : (m.hooks t).work.isInit)
    (henters : (m.hooks t).work.enters (m.st.tgtEntry (args (m.hooks t).cmd).req).isSome) (t' : Context cpus) :
    ¬ (m.book.phase t').In (slotOf args) (slotOf args (m.hooks t).cmd) := by
  intro hin
  obtain ⟨hslot, hsame⟩ := (h.linked t').stands.inside hin
  have hnone := (hord.apart henters t' hslot hsame).1
  rw [hinit] at hnone
  exact Bool.noConfusion hnone

/-- An access in `ntp_t_req_init`. -/
theorem SlotsInv.book_init (h : SlotsInv args m) (hord : m.Orderly args (.step t)) {p : InitPc}
    (hw : (m.hooks t).work = .init p) :
    let o := initStep f m.st (m.hooks t).env (m.counters (m.hooks t).env.cpu) (args (m.hooks t).cmd) p
    SharedSlots.Inv (slotOf args) (o.note.book t (m.hooks t).cmd (slotOf args (m.hooks t).cmd) m.book) ∧
      o.work.Linked args (m.hooks t).cmd
        ((o.note.book t (m.hooks t).cmd (slotOf args (m.hooks t).cmd) m.book).phase t) := by
  have hlink := h.linked t
  have hno := h.nobody hord
  rw [hw] at hlink hno
  cases p with
  | enter =>
    simp only [initStep]
    split_ifs
    · exact ⟨h.inv, hlink⟩
    · exact ⟨h.inv, hlink⟩
  | cmds q p =>
    cases p with
    | load => exact ⟨h.inv, hlink⟩
    | save old => exact ⟨h.inv, hlink⟩
  | gate q =>
    simp only [initStep]
    split_ifs
    · exact ⟨h.inv, hlink⟩
    · exact ⟨h.inv, hlink⟩
  | look q =>
    simp only [initStep]
    split_ifs with hfound
    · obtain ⟨c, hlive, hreq⟩ := h.found hfound
      have hslot : slotOf args c = slotOf args (m.hooks t).cmd := slotOf_congr hreq
      have hflush := h.inv.flush (c := c) hlink (by rw [hslot]; exact hlive) (by rw [hslot]; exact hno rfl hfound)
      have hget : (m.book.live (slotOf args (m.hooks t).cmd)).getD (m.hooks t).cmd = c := by
        rw [slotOf, hlive]
        rfl
      simp only [Note.book, hget]
      exact ⟨hflush, c, hreq, phase_go_self _ _⟩
    · exact ⟨h.inv, hlink⟩
  | load q => exact ⟨h.inv, hlink⟩
  | flag q v => exact ⟨h.inv, hlink⟩
  | emit q p =>
    refine book_emit_flush (m.hooks t).env _ h.inv hlink ?_
    intro c hlive hreq
    have hkey := h.key (slotOf args (m.hooks t).cmd)
    rw [hlive] at hkey
    have hentry : (m.st.treqs (ntpSlot (args (m.hooks t).cmd).req)).req = (args (m.hooks t).cmd).req :=
      hkey.trans (congrArg Subtype.val hreq)
    rw [TgtState.tgtEntry, if_pos hentry]
    rfl
  | sample q =>
    simp only [initStep]
    split
    · exact ⟨h.inv, hlink⟩
    · exact ⟨h.inv, hlink⟩
  | take q c =>
    simp only [initStep]
    split_ifs
    · exact ⟨h.inv.take hlink (hno rfl rfl), phase_go_self _ _⟩
    · exact ⟨h.inv.take hlink (hno rfl rfl), phase_go_self _ _⟩
  | stale q c p =>
    cases p with
    | load => exact ⟨h.inv, hlink⟩
    | save old => exact ⟨h.inv, hlink⟩
  | claim q c => exact ⟨h.inv.unlink hlink, phase_go_self _ _⟩
  | parts q c => exact ⟨h.inv, hlink⟩
  | wipe q c => exact ⟨h.inv, hlink⟩
  | fill q c => exact ⟨h.inv, hlink⟩
  | publish =>
    have hunmade := h.unmade t (by rw [hw]; rfl)
    exact ⟨h.inv.publish hlink hunmade, phase_go_self _ _⟩
  | sampled p =>
    cases p with
    | load => exact ⟨h.inv, hlink⟩
    | save old => exact ⟨h.inv, hlink⟩

/-- An access of a hook follows the rules. -/
theorem SlotsInv.book_step (h : SlotsInv args m) (hord : m.Orderly args (.step t)) :
    let o := m.out f args t
    SharedSlots.Inv (slotOf args) (o.note.book t (m.hooks t).cmd (slotOf args (m.hooks t).cmd) m.book) ∧
      o.work.Linked args (m.hooks t).cmd
        ((o.note.book t (m.hooks t).cmd (slotOf args (m.hooks t).cmd) m.book).phase t) := by
  simp only [Machine.out]
  cases hw : (m.hooks t).work with
  | idle =>
    have hlink := h.linked t
    rw [hw] at hlink
    exact ⟨h.inv, hlink⟩
  | touch b p =>
    have hlink := h.linked t
    have hown := h.own hord
    have hlook := key_of_look hord
    rw [hw] at hlink hown hlook
    refine book_front _ _ _ _ _ _ _ _ h.inv hlink (fun _ _ hq => hq) rfl rfl ?_
    rintro rfl hfound
    rw [hlook rfl (.inl hfound)] at hfound
    exact hown rfl hfound rfl
  | rsp e p => exact h.book_rsp f hord hw
  | init p => exact h.book_init f hord hw

end Slots

end Ntprof.Bpf
