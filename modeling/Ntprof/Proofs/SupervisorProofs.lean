import Ntprof.Supervisor
import Mathlib.Data.List.Basic
import Mathlib.Tactic

/-!
# Proofs: parent and children of `record`

What a child has told its parent is told by its phase, and how far the parent has read by where it is. Both together
say what the status that `cmd_record` returns has to do with the child's report.
-/

namespace Ntprof.Supervisor

variable {c : RunConfig} {s s' : Sys} {ch ch' : Child} {old : List Child}

/-! ## A child -/

/-- What a child has written, by its phase and its report. -/
structure ChildOk (ch : Child) : Prop where
  written : ch.written = [] ∨ ch.written = [msgAttached] ∨
    ∃ r, ch.finished = some r ∧ ch.written = [msgAttached, msgDone, r]
  status : ∀ r, ch.finished = some r → r = exitSuccess ∨ r = exitFailure
  told : ∀ r, ch.finished = some r → ch.doneFd = .open → ch.written = [msgAttached, msgDone, r]
  starting : ch.phase = .starting → ch.written = [] ∧ ch.finished = none
  attaching : ch.phase = .attaching → ch.written = [] ∧ ch.finished = none
  recording : ch.phase = .recording → ch.finished = none ∧ (ch.doneFd ≠ .absent → ch.written = [msgAttached])
  absent : ch.doneFd = .absent → ch.written = []
  reported : ∀ r, ch.phase = .reported r → ch.finished = some r
  exited : ∀ r, ch.phase = .exited r → ch.finished = some r ∨ (ch.finished = none ∧ r = exitFailure)

/-- How a child goes on: it only adds to what it has written, and a report stands. -/
structure ChildLe (ch ch' : Child) : Prop where
  doneFd : ch'.doneFd = ch.doneFd
  nread : ch'.nread = ch.nread
  sigkill : ch'.sigkill = ch.sigkill
  forceKprobes : ch'.forceKprobes = ch.forceKprobes
  checkers : ch.phase.ended → ch'.checkers ≤ ch.checkers
  written : ch.written <+: ch'.written
  finished : ∀ r, ch.finished = some r → ch'.finished = some r
  ended : ch.phase.ended → ch'.phase = ch.phase
  stays : ch.phase.ended ∨ ch.sigkill → ch'.finished = ch.finished ∧ ch'.written = ch.written

theorem ChildLe.rfl : ChildLe ch ch :=
  ⟨by rfl, by rfl, by rfl, by rfl, fun _ => le_rfl, List.prefix_rfl, fun _ h => h, fun _ => by rfl,
    fun _ => ⟨by rfl, by rfl⟩⟩

/-- A child that makes steps of its own goes on. -/
theorem ChildLe.running {ch' : Child} (hnot : ¬(ch.phase.ended ∨ ch.sigkill)) (hdoneFd : ch'.doneFd = ch.doneFd)
    (hnread : ch'.nread = ch.nread) (hsigkill : ch'.sigkill = ch.sigkill)
    (hforce : ch'.forceKprobes = ch.forceKprobes) (hwritten : ch.written <+: ch'.written)
    (hfinished : ∀ r, ch.finished = some r → ch'.finished = some r) : ChildLe ch ch' where
  doneFd := hdoneFd
  nread := hnread
  sigkill := hsigkill
  forceKprobes := hforce
  checkers hended := absurd (Or.inl hended) hnot
  written := hwritten
  finished := hfinished
  ended hended := absurd (Or.inl hended) hnot
  stays hstays := absurd hstays hnot

theorem recordRet_status (why : LoopEnd) (saved : Bool) :
    recordRet why saved = exitSuccess ∨ recordRet why saved = exitFailure := by
  unfold recordRet
  split_ifs
  · exact Or.inr rfl
  · exact Or.inl rfl

theorem not_ended_of_runs (h : ch.runs) : ch.phase.ended = false ∧ ch.sigkill = false := by
  simpa [Child.runs] using h

theorem runs_not_stays (h : ch.runs) : ¬(ch.phase.ended ∨ ch.sigkill) := by
  obtain ⟨hended, hkill⟩ := not_ended_of_runs h
  simp [hended, hkill]

theorem signalChild_ok (h : ChildOk ch) : ChildOk (signalChild ch) ∧ ChildLe ch (signalChild ch) := by
  unfold signalChild
  split_ifs with hended hstart hinherits
  · exact ⟨h, ChildLe.rfl⟩
  · exact ⟨h, ChildLe.rfl⟩
  · refine ⟨⟨h.written, h.status, h.told, by simp, by simp, by simp, h.absent, by simp, by simp⟩, ?_⟩
    exact ⟨rfl, rfl, rfl, rfl, fun _ => le_rfl, List.prefix_rfl, fun _ h => h, fun h => absurd h hended,
      fun _ => ⟨rfl, rfl⟩⟩
  · refine ⟨⟨h.written, h.status, h.told, h.starting, h.attaching, h.recording, h.absent, h.reported, h.exited⟩, ?_⟩
    exact ⟨rfl, rfl, rfl, rfl, fun _ => le_rfl, List.prefix_rfl, fun _ h => h, fun _ => rfl, fun _ => ⟨rfl, rfl⟩⟩

/-- A process that ends keeps what it has said. -/
theorem killed_ok (h : ChildOk ch) (hended : ch.phase.ended = false) :
    ChildOk { ch with phase := .killed } ∧ ChildLe ch { ch with phase := .killed } := by
  refine ⟨⟨h.written, h.status, h.told, by simp, by simp, by simp, h.absent, by simp, by simp⟩, ?_⟩
  exact ⟨rfl, rfl, rfl, rfl, fun _ => le_rfl, List.prefix_rfl, fun _ h => h, fun h => by simp [hended] at h,
    fun _ => ⟨rfl, rfl⟩⟩

theorem doneFd_cases (d : DoneFd) : d = .absent ∨ d = .open ∨ d = .broken := by
  cases d <;> simp

theorem tellParent_absent {msg : List U8} {next : ChildPhase} (h : ch.doneFd = .absent) :
    tellParent ch msg next = { ch with phase := next } := by
  simp only [tellParent, h]

theorem tellParent_open {msg : List U8} {next : ChildPhase} (h : ch.doneFd = .open) :
    tellParent ch msg next = { ch with phase := next, written := ch.written ++ msg } := by
  simp only [tellParent, h]

theorem tellParent_broken {msg : List U8} {next : ChildPhase} (h : ch.doneFd = .broken) :
    tellParent ch msg next = { ch with phase := .killed } := by
  simp only [tellParent, h]

/-- One step of a child keeps what is known of it. -/
theorem childStep_ok {e : ChildStep} (h : ChildOk ch) (hstep : childStep c ch e = some ch') :
    ChildOk ch' ∧ ChildLe ch ch' := by
  cases e with
  | setHandlers =>
    simp only [childStep] at hstep
    split_ifs at hstep with hcond
    obtain ⟨hruns, hphase⟩ := hcond
    obtain rfl := Option.some.inj hstep
    obtain ⟨hwritten, hfin⟩ := h.starting hphase
    have hnot := runs_not_stays hruns
    refine ⟨⟨h.written, h.status, h.told, by simp, fun _ => ⟨hwritten, hfin⟩, by simp, h.absent, by simp, by simp⟩, ?_⟩
    exact .running hnot rfl rfl rfl rfl List.prefix_rfl (fun _ h => h)
  | forksCheck =>
    simp only [childStep] at hstep
    split_ifs at hstep with hcond
    have hnot := runs_not_stays hcond.1
    obtain rfl := Option.some.inj hstep
    refine ⟨⟨h.written, h.status, h.told, h.starting, h.attaching, h.recording, h.absent, h.reported, h.exited⟩, ?_⟩
    exact ⟨rfl, rfl, rfl, rfl, fun hended => absurd (Or.inl hended) hnot, List.prefix_rfl, fun _ h => h, fun _ => rfl,
      fun _ => ⟨rfl, rfl⟩⟩
  | checkEnds =>
    simp only [childStep] at hstep
    split_ifs at hstep
    obtain rfl := Option.some.inj hstep
    refine ⟨⟨h.written, h.status, h.told, h.starting, h.attaching, h.recording, h.absent, h.reported, h.exited⟩, ?_⟩
    exact ⟨rfl, rfl, rfl, rfl, fun _ => Nat.sub_le _ _, List.prefix_rfl, fun _ h => h, fun _ => rfl, fun _ => ⟨rfl, rfl⟩⟩
  | openFails =>
    simp only [childStep] at hstep
    split_ifs at hstep with hcond
    obtain ⟨hruns, hphase⟩ := hcond
    obtain rfl := Option.some.inj hstep
    obtain ⟨hwritten, hfin⟩ := h.attaching hphase
    have hnot := runs_not_stays hruns
    refine ⟨⟨h.written, h.status, h.told, by simp, by simp, by simp, h.absent, by simp, ?_⟩, ?_⟩
    · intro r hr
      exact Or.inr ⟨hfin, by simpa using hr.symm⟩
    · exact .running hnot rfl rfl rfl rfl List.prefix_rfl (fun _ h => h)
  | attached =>
    simp only [childStep] at hstep
    split_ifs at hstep with hcond
    obtain ⟨hruns, hphase⟩ := hcond
    obtain rfl := Option.some.inj hstep
    obtain ⟨hwritten, hfin⟩ := h.attaching hphase
    have hnot := runs_not_stays hruns
    rcases doneFd_cases ch.doneFd with hfd | hfd | hfd
    · rw [tellParent_absent hfd]
      refine ⟨⟨h.written, h.status, h.told, by simp, by simp, ?_, h.absent, by simp, by simp⟩, ?_⟩
      · exact fun _ => ⟨hfin, fun hne => absurd hfd hne⟩
      · exact .running hnot rfl rfl rfl rfl List.prefix_rfl (fun _ h => h)
    · rw [tellParent_open hfd]
      have hnone : ∀ r, ch.finished ≠ some r := by simp [hfin]
      refine ⟨⟨?_, h.status, fun r hr => absurd hr (hnone r), by simp, by simp, ?_, ?_, by simp, by simp⟩, ?_⟩
      · exact Or.inr (Or.inl (by simp [hwritten]))
      · exact fun _ => ⟨hfin, fun _ => by simp [hwritten]⟩
      · intro habs
        simp [hfd] at habs
      · exact .running hnot rfl rfl rfl rfl (List.prefix_append _ _) (fun _ h => h)
    · rw [tellParent_broken hfd]
      exact killed_ok h (not_ended_of_runs hruns).1
  | finishes why saved =>
    simp only [childStep] at hstep
    split_ifs at hstep with hcond
    obtain ⟨hruns, hphase, -⟩ := hcond
    obtain rfl := Option.some.inj hstep
    obtain ⟨hfin, hwritten⟩ := h.recording hphase
    have hnot := runs_not_stays hruns
    have hstatus : ∀ r, some (recordRet why saved) = some r → r = exitSuccess ∨ r = exitFailure := by
      intro r hr
      obtain rfl := Option.some.inj hr
      exact recordRet_status why saved
    have hkeeps : ∀ r, ch.finished = some r → some (recordRet why saved) = some r := by
      intro r hr
      simp [hfin] at hr
    rcases doneFd_cases ch.doneFd with hfd | hfd | hfd
    · rw [tellParent_absent (by exact hfd)]
      have hempty := h.absent hfd
      refine ⟨⟨Or.inl hempty, hstatus, ?_, by simp, by simp, by simp, fun _ => hempty, by simp, by simp⟩, ?_⟩
      · intro r _ hopen
        simp [hfd] at hopen
      · exact .running hnot rfl rfl rfl rfl List.prefix_rfl hkeeps
    · rw [tellParent_open (by exact hfd)]
      have hw : ch.written = [msgAttached] := hwritten (by simp [hfd])
      refine ⟨⟨Or.inr (Or.inr ⟨_, rfl, by simp [hw]⟩), hstatus, ?_, by simp, by simp, by simp, ?_, by simp, by simp⟩, ?_⟩
      · intro r hr _
        obtain rfl := Option.some.inj hr
        simp [hw]
      · intro habs
        simp [hfd] at habs
      · exact .running hnot rfl rfl rfl rfl (List.prefix_append _ _) hkeeps
    · rw [tellParent_broken (by exact hfd)]
      have hw : ch.written = [msgAttached] := hwritten (by simp [hfd])
      refine ⟨⟨Or.inr (Or.inl hw), hstatus, ?_, by simp, by simp, by simp, ?_, by simp, by simp⟩, ?_⟩
      · intro r _ hopen
        simp [hfd] at hopen
      · intro habs
        simp [hfd] at habs
      · exact .running hnot rfl rfl rfl rfl List.prefix_rfl hkeeps
  | detached =>
    simp only [childStep] at hstep
    split at hstep
    · rename_i ret hphase
      split_ifs at hstep with hruns
      obtain rfl := Option.some.inj hstep
      have hnot := runs_not_stays hruns
      refine ⟨⟨h.written, h.status, h.told, by simp, by simp, by simp, h.absent, by simp, ?_⟩, ?_⟩
      · intro r hr
        obtain rfl : ret = r := by simpa using hr
        exact Or.inl (h.reported _ hphase)
      · exact .running hnot rfl rfl rfl rfl List.prefix_rfl (fun _ h => h)
    · cases hstep
  | signalled =>
    obtain rfl := Option.some.inj hstep
    exact signalChild_ok h
  | dies =>
    simp only [childStep] at hstep
    split_ifs at hstep with hended
    obtain rfl := Option.some.inj hstep
    exact killed_ok h (by simpa using hended)

/-! ## The parent -/

/-- The flags allow a second attempt. -/
def MayRestart (c : RunConfig) : Prop := c.forceFentry = false ∧ c.forceKprobes = false

/-- The children before the last one: at most one, and it is killed. -/
structure OldOk (c : RunConfig) (old : List Child) (ch : Child) : Prop where
  one : old.length ≤ 1
  killed : ∀ o ∈ old, o.sigkill
  second : old ≠ [] → MayRestart c ∧ ch.forceKprobes

/-- How far the parent has read, in each call of `next_byte`. -/
def Call.ReadOk (ch : Child) : Call → Prop
  | .attach => ch.nread = 0
  | .again => ch.nread = 0
  | .recording => ch.nread = 1 ∧ ch.written ≠ []
  | .status => ch.nread = 2 ∧ ch.finished ≠ none

/-- What the last child is, by where the parent is. -/
def LastOk (c : RunConfig) (old : List Child) (interrupts failures : ℕ) (ch : Child) : Pc → Prop
  | .start => False
  | .inProcess => ch.doneFd = .absent ∧ old = []
  | .forked => ch.doneFd = .open ∧ ch.nread = 0 ∧ old = []
  | .reforked => ch.doneFd = .open ∧ ch.nread = 0
  | .next call point =>
    ch.doneFd = .open ∧ call.ReadOk ch ∧ (call = .attach → old = []) ∧
      (point = .reading → ch.nread < ch.written.length ∨ ch.gone)
  | .timedOut => MayRestart c ∧ old = []
  | .restarting => MayRestart c ∧ old = [] ∧ ch.sigkill
  | .reaping => failures = 0 → ch.phase.ended ∧ ch.finished = none
  | .detaching status _ =>
    (status = exitSuccess ∨ status = exitFailure) ∧ ∃ r, ch.finished = some r ∧
      (failures = 0 → (status = r ∨ status = exitFailure) ∧ (interrupts < 2 → status = r))
  | .returned ret =>
    (ret = 0 ∨ ret = 1 ∨ (ret = 130 ∧ 2 ≤ interrupts)) ∧
      (failures = 0 → ret = 0 → ch.finished = some exitSuccess) ∧
      (failures = 0 → ret ≠ 130 → ch.finished = none → ch.phase.ended ∨ ch.sigkill) ∧
      (failures = 0 → interrupts < 2 → ∀ r, ch.finished = some r →
        ret = r.toNat ∨ ch.phase = .killed ∨ ch.sigkill)
  | .dead => True

/-- What holds in every state of a run. -/
def Inv (c : RunConfig) (s : Sys) : Prop :=
  (s.children = [] ∧ (s.pc = .start ∨ s.pc = .dead)) ∨
    ∃ old ch, s.children = old ++ [ch] ∧ OldOk c old ch ∧ ChildOk ch ∧
      LastOk c old s.interrupts s.failures ch s.pc

/-! ### What a child does keeps the parent's place -/

theorem Call.ReadOk.mono {call : Call} (h : call.ReadOk ch) (hle : ChildLe ch ch') : call.ReadOk ch' := by
  have hread := hle.nread
  cases call with
  | attach => exact hread.trans h
  | again => exact hread.trans h
  | recording =>
    refine ⟨hread.trans h.1, fun hnil => h.2 ?_⟩
    have hprefix := hle.written
    rw [hnil] at hprefix
    exact List.prefix_nil.mp hprefix
  | status =>
    refine ⟨hread.trans h.1, ?_⟩
    obtain ⟨r, hr⟩ := Option.ne_none_iff_exists'.mp h.2
    simp [hle.finished r hr]

theorem ended_mono (hle : ChildLe ch ch') (h : ch.phase.ended) : ch'.phase.ended := by
  rw [hle.ended h]
  exact h

theorem gone_iff : ch.gone ↔ ch.phase.ended ∧ ch.checkers = 0 := by
  simp [Child.gone]

theorem gone_mono (hle : ChildLe ch ch') (h : ch.gone) : ch'.gone := by
  obtain ⟨hended, hzero⟩ := gone_iff.mp h
  have hless := hle.checkers hended
  exact gone_iff.mpr ⟨ended_mono hle hended, by omega⟩

theorem LastOk.mono {interrupts failures : ℕ} {pc : Pc} (h : LastOk c old interrupts failures ch pc)
    (hle : ChildLe ch ch') : LastOk c old interrupts failures ch' pc := by
  have hfd := hle.doneFd
  have hread := hle.nread
  cases pc with
  | start => exact h
  | inProcess => exact ⟨hfd.trans h.1, h.2⟩
  | forked => exact ⟨hfd.trans h.1, hread.trans h.2.1, h.2.2⟩
  | reforked => exact ⟨hfd.trans h.1, hread.trans h.2⟩
  | next call point =>
    obtain ⟨hopen, hcall, hold, hready⟩ := h
    refine ⟨hfd.trans hopen, hcall.mono hle, hold, fun hpoint => ?_⟩
    rcases hready hpoint with hlt | hgone
    · left
      have hlen := hle.written.length_le
      omega
    · exact Or.inr (gone_mono hle hgone)
  | timedOut => exact h
  | restarting => exact ⟨h.1, h.2.1, by rw [hle.sigkill]; exact h.2.2⟩
  | reaping =>
    intro hzero
    obtain ⟨hended, hfin⟩ := h hzero
    exact ⟨ended_mono hle hended, (hle.stays (Or.inl hended)).1.trans hfin⟩
  | detaching status waited =>
    obtain ⟨hstatus, r, hr, hagree⟩ := h
    exact ⟨hstatus, r, hle.finished r hr, hagree⟩
  | returned ret =>
    obtain ⟨hret, hsuccess, hdone, hagree⟩ := h
    refine ⟨hret, fun h0 hr => hle.finished _ (hsuccess h0 hr), fun h0 h130 hnone => ?_, fun h0 hint r hr => ?_⟩
    · have hfin : ch.finished = none := by
        by_contra hsome
        obtain ⟨r, hr⟩ := Option.ne_none_iff_exists'.mp hsome
        simp [hle.finished r hr] at hnone
      rcases hdone h0 h130 hfin with hended | hkill
      · exact Or.inl (ended_mono hle hended)
      · exact Or.inr (by rw [hle.sigkill]; exact hkill)
    · -- a report that comes only now is one of a child that the parent has left
      match hfin : ch.finished with
      | some q =>
        obtain rfl : q = r := by
          have := hle.finished q hfin
          rw [hr] at this
          exact (Option.some.inj this).symm
        rcases hagree h0 hint q hfin with heq | hkilled | hkill
        · exact Or.inl heq
        · exact Or.inr (Or.inl ((hle.ended (by rw [hkilled]; rfl)).trans hkilled))
        · exact Or.inr (Or.inr (by rw [hle.sigkill]; exact hkill))
      | none =>
        have h130 : ret ≠ 130 := by
          rintro rfl
          rcases hret with h | h | ⟨-, h⟩ <;> omega
        have hstays := hle.stays (hdone h0 h130 hfin)
        rw [hstays.1, hfin] at hr
        cases hr
  | dead => trivial

/-! ### Changes of one child -/

theorem modify_append_singleton {α : Type*} (l : List α) (a : α) (i : ℕ) (f : α → α) :
    (l ++ [a]).modify i f = l.modify i f ++ [if i = l.length then f a else a] := by
  induction l generalizing i with
  | nil => cases i <;> simp [List.modify_cons]
  | cons x l ih =>
    cases i with
    | zero => simp
    | succ i => simp [ih]

theorem children_modifyChild (hch : s.children = old ++ [ch]) (i : ℕ) (f : Child → Child) :
    (s.modifyChild i f).children = old.modify i f ++ [if i = old.length then f ch else ch] := by
  rw [Sys.modifyChild, hch]
  exact modify_append_singleton old ch i f

theorem children_modifyCh (hch : s.children = old ++ [ch]) (f : Child → Child) :
    (s.modifyCh f).children = old ++ [f ch] := by
  have hlen : s.children.length - 1 = old.length := by simp [hch]
  rw [Sys.modifyCh, hlen, children_modifyChild hch, if_pos rfl, List.modify_eq_self (by simp)]

theorem ch_eq (hch : s.children = old ++ [ch]) : s.ch = some ch := by
  simp [Sys.ch, hch]

theorem OldOk.modify {i : ℕ} {f : Child → Child} (h : OldOk c old ch)
    (hf : ∀ o, old[i]? = some o → (f o).sigkill = o.sigkill) (hkprobes : ch'.forceKprobes = ch.forceKprobes) :
    OldOk c (old.modify i f) ch' where
  one := by simpa using h.one
  killed := by
    intro o ho
    obtain ⟨j, hj, rfl⟩ := List.mem_iff_getElem.mp ho
    rw [List.length_modify] at hj
    have hmem := List.getElem_mem hj
    rw [List.getElem_modify]
    split_ifs with hij
    · subst hij
      rw [hf _ (List.getElem?_eq_getElem hj)]
      exact h.killed _ hmem
    · exact h.killed _ hmem
  second := by
    intro hne
    rw [hkprobes]
    refine h.second fun hnil => hne ?_
    simp [hnil]

theorem OldOk.last (h : OldOk c old ch) (hkprobes : ch'.forceKprobes = ch.forceKprobes) : OldOk c old ch' :=
  ⟨h.one, h.killed, fun hne => by rw [hkprobes]; exact h.second hne⟩

theorem close_ok (h : ChildOk ch) : ChildOk ch.close := by
  unfold Child.close
  split_ifs with hopen
  · refine ⟨h.written, h.status, by simp, h.starting, h.attaching, fun hp => ?_, by simp, h.reported, h.exited⟩
    exact ⟨(h.recording hp).1, fun _ => (h.recording hp).2 (by simp [hopen])⟩
  · exact h

@[simp]
theorem close_finished (ch : Child) : ch.close.finished = ch.finished := by
  unfold Child.close
  split_ifs <;> rfl

@[simp]
theorem close_phase (ch : Child) : ch.close.phase = ch.phase := by
  unfold Child.close
  split_ifs <;> rfl

@[simp]
theorem close_sigkill (ch : Child) : ch.close.sigkill = ch.sigkill := by
  unfold Child.close
  split_ifs <;> rfl

@[simp]
theorem close_forceKprobes (ch : Child) : ch.close.forceKprobes = ch.forceKprobes := by
  unfold Child.close
  split_ifs <;> rfl

/-- The parent closes the pipe and goes on at `pc`. -/
theorem inv_closed {pc : Pc} (hch : s.children = old ++ [ch]) (hold : OldOk c old ch) (hok : ChildOk ch)
    (hlast : LastOk c old s.interrupts s.failures ch.close pc) : Inv c { s.modifyCh Child.close with pc := pc } :=
  Or.inr ⟨old, ch.close, children_modifyCh hch _, hold.last (by simp), close_ok hok, hlast⟩

/-! ### What the parent reads -/

/-- What a call of `next_byte` returns, after it has read. -/
def ByteOk (s : Sys) (ch : Child) (call : Call) (b : ℤ) : Prop :=
  (b = nbLeft ∧ 2 ≤ s.interrupts ∧ call.ReadOk ch) ∨
  (b = nbTimeout ∧ call = .attach ∧ call.ReadOk ch) ∨
  (b = 0 ∧ call.ReadOk ch ∧ (s.failures = 0 → ch.phase.ended ∧ ch.written.length ≤ ch.nread)) ∨
  ∃ n x, ch.nread = n + 1 ∧ call.ReadOk { ch with nread := n } ∧ ch.written[n]? = some x ∧ b = x.toNat

theorem written_zero {x : U8} (h : ChildOk ch) (hx : ch.written[0]? = some x) : x = msgAttached := by
  rcases h.written with hw | hw | ⟨r, -, hw⟩ <;> simp [hw] at hx <;> exact hx.symm

theorem written_one {x : U8} (h : ChildOk ch) (hx : ch.written[1]? = some x) : x = msgDone ∧ ch.finished ≠ none := by
  rcases h.written with hw | hw | ⟨r, hr, hw⟩ <;> simp [hw] at hx
  exact ⟨hx.symm, by simp [hr]⟩

theorem written_two {x : U8} (h : ChildOk ch) (hx : ch.written[2]? = some x) : ch.finished = some x := by
  rcases h.written with hw | hw | ⟨r, hr, hw⟩ <;> simp [hw] at hx
  rw [hr, hx]

/-- A report that the parent could still read is in the pipe. -/
theorem finished_none_of_short (h : ChildOk ch) (hopen : ch.doneFd = .open) (hlen : ch.written.length ≤ 1) :
    ch.finished = none := by
  by_contra hne
  obtain ⟨r, hr⟩ := Option.ne_none_iff_exists'.mp hne
  have hw := h.told r hr hopen
  simp [hw] at hlen

theorem afterRecording_inv {b : ℤ} (hch : s.children = old ++ [ch]) (hold : OldOk c old ch) (hok : ChildOk ch)
    (hopen : ch.doneFd = .open) (hleft : b = nbLeft → 2 ≤ s.interrupts)
    (hdone : b = msgDone.toNat → ch.nread = 2 ∧ ch.finished ≠ none)
    (helse : b ≠ nbLeft → b ≠ msgDone.toNat → s.failures = 0 → ch.phase.ended ∧ ch.finished = none) :
    Inv c (afterRecording s b) := by
  unfold afterRecording
  split_ifs with h1 h2
  · refine inv_closed hch hold hok ⟨Or.inr (Or.inr ⟨rfl, hleft h1⟩), by simp, by simp, fun _ hint => ?_⟩
    have := hleft h1
    omega
  · refine inv_closed hch hold hok fun hzero => ?_
    obtain ⟨hended, hfin⟩ := helse h1 h2 hzero
    exact ⟨by simpa using hended, by simpa using hfin⟩
  · exact Or.inr ⟨old, ch, hch, hold, hok, hopen, hdone (not_not.mp h2), by simp, by simp⟩

theorem afterAttach_inv {b : ℤ} (hch : s.children = old ++ [ch]) (hold : OldOk c old ch) (hok : ChildOk ch)
    (hopen : ch.doneFd = .open) (hleft : b = nbLeft → 2 ≤ s.interrupts)
    (hatt : b = msgAttached.toNat → ch.nread = 1 ∧ ch.written ≠ []) (hdone : b ≠ msgDone.toNat)
    (helse : b ≠ nbLeft → b ≠ msgAttached.toNat → s.failures = 0 → ch.phase.ended ∧ ch.finished = none) :
    Inv c (afterAttach s b) := by
  unfold afterAttach
  split_ifs with h1
  · exact Or.inr ⟨old, ch, hch, hold, hok, hopen, hatt h1, by simp, by simp⟩
  · exact afterRecording_inv hch hold hok hopen hleft (fun h => absurd h hdone) fun hl _ => helse hl h1

/-- While it attaches, a child says that it is attached or nothing at all. -/
theorem attach_inv {call : Call} {b : ℤ} (hcall : call = .attach ∨ call = .again) (hch : s.children = old ++ [ch])
    (hold : OldOk c old ch) (hok : ChildOk ch) (hopen : ch.doneFd = .open) (hb : ByteOk s ch call b)
    (htime : b ≠ nbTimeout) : Inv c (afterAttach s b) := by
  have hread : ∀ q : Child, call.ReadOk q → q.nread = 0 := by
    intro q hq
    rcases hcall with rfl | rfl <;> exact hq
  rcases hb with ⟨rfl, hint, hr⟩ | ⟨rfl, -, -⟩ | ⟨rfl, hr, hend⟩ | ⟨n, x, hn, hr, hx, rfl⟩
  · exact afterAttach_inv hch hold hok hopen (fun _ => hint) (fun h => absurd h (by decide)) (by decide) fun h =>
      absurd rfl h
  · exact absurd rfl htime
  · refine afterAttach_inv hch hold hok hopen (fun h => absurd h (by decide)) (fun h => absurd h (by decide))
      (by decide) fun _ _ hzero => ?_
    obtain ⟨hended, hlen⟩ := hend hzero
    have := hread _ hr
    exact ⟨hended, finished_none_of_short hok hopen (by omega)⟩
  · obtain rfl : n = 0 := hread _ hr
    obtain rfl := written_zero hok hx
    refine afterAttach_inv hch hold hok hopen (fun h => absurd h (by decide)) (fun _ => ⟨hn, ?_⟩)
      (by decide) fun _ h => absurd rfl h
    intro hnil
    simp [hnil] at hx

theorem recording_inv {b : ℤ} (hch : s.children = old ++ [ch]) (hold : OldOk c old ch) (hok : ChildOk ch)
    (hopen : ch.doneFd = .open) (hb : ByteOk s ch .recording b) : Inv c (afterRecording s b) := by
  rcases hb with ⟨rfl, hint, hr⟩ | ⟨-, hcall, -⟩ | ⟨rfl, hr, hend⟩ | ⟨n, x, hn, hr, hx, rfl⟩
  · exact afterRecording_inv hch hold hok hopen (fun _ => hint) (fun h => absurd h (by decide)) fun h =>
      absurd rfl h
  · cases hcall
  · refine afterRecording_inv hch hold hok hopen (fun h => absurd h (by decide))
      (fun h => absurd h (by decide)) fun _ _ hzero => ?_
    obtain ⟨hended, hlen⟩ := hend hzero
    have := hr.1
    exact ⟨hended, finished_none_of_short hok hopen (by omega)⟩
  · obtain rfl : n = 1 := hr.1
    obtain ⟨rfl, hfin⟩ := written_one hok hx
    exact afterRecording_inv hch hold hok hopen (fun h => absurd h (by decide)) (fun _ => ⟨hn, hfin⟩)
      fun _ h => absurd rfl h

/-- The byte after `MSG_DONE` is the status of the report. -/
theorem status_inv {b : ℤ} (hch : s.children = old ++ [ch]) (hold : OldOk c old ch) (hok : ChildOk ch)
    (hopen : ch.doneFd = .open) (hb : ByteOk s ch .status b) : Inv c (afterByte c s .status b) := by
  refine inv_closed hch hold hok ?_
  rcases hb with ⟨rfl, hint, hr⟩ | ⟨-, hcall, -⟩ | ⟨rfl, hr, hend⟩ | ⟨n, x, hn, hr, hx, rfl⟩
  · obtain ⟨r, hfin⟩ := Option.ne_none_iff_exists'.mp hr.2
    refine ⟨Or.inr rfl, r, by simpa using hfin, fun _ => ⟨Or.inr rfl, fun h => ?_⟩⟩
    omega
  · cases hcall
  · obtain ⟨r, hfin⟩ := Option.ne_none_iff_exists'.mp hr.2
    refine ⟨Or.inl rfl, r, by simpa using hfin, fun hzero => ?_⟩
    have hw := hok.told r hfin hopen
    have hlen := (hend hzero).2
    have hread := hr.1
    simp [hw, hread] at hlen
  · obtain rfl : n = 2 := hr.1
    have hfin := written_two hok hx
    have hnonneg : ¬((x.toNat : ℤ) < 0) := by omega
    have hbyte : (if (x.toNat : ℤ) < 0 then exitFailure else BitVec.ofInt 8 x.toNat) = x := by
      rw [if_neg hnonneg, BitVec.ofInt_natCast, BitVec.ofNat_toNat, BitVec.setWidth_eq]
    rw [hbyte]
    exact ⟨hok.status x hfin, x, by simpa using hfin, fun _ => ⟨Or.inl rfl, fun _ => rfl⟩⟩

theorem afterByte_inv {call : Call} {b : ℤ} (hch : s.children = old ++ [ch]) (hold : OldOk c old ch)
    (hok : ChildOk ch) (hopen : ch.doneFd = .open) (hattach : call = .attach → old = []) (hb : ByteOk s ch call b) :
    Inv c (afterByte c s call b) := by
  cases call with
  | attach =>
    simp only [afterByte]
    split_ifs with h1 h2
    · refine Or.inr ⟨old, ch, hch, hold, hok, ⟨by simpa using h1.2.1, by simpa using h1.2.2⟩, hattach rfl⟩
    · have hread : ch.nread = 0 := by
        rcases hb with ⟨-, -, hr⟩ | ⟨-, -, hr⟩ | ⟨-, hr, -⟩ | ⟨n, x, -, -, -, hx⟩
        · exact hr
        · exact hr
        · exact hr
        · rw [h2] at hx
          simp only [nbTimeout] at hx
          omega
      exact Or.inr ⟨old, ch, hch, hold, hok, hopen, hread, by simp, by simp⟩
    · exact attach_inv (Or.inl rfl) hch hold hok hopen hb h2
  | again =>
    refine attach_inv (Or.inr rfl) hch hold hok hopen hb ?_
    rintro rfl
    rcases hb with ⟨h, -, -⟩ | ⟨-, hcall, -⟩ | ⟨h, -, -⟩ | ⟨n, x, -, -, -, hx⟩
    · cases h
    · cases hcall
    · cases h
    · simp only [nbTimeout] at hx
      omega
  | recording => exact recording_inv hch hold hok hopen hb
  | status => exact status_inv hch hold hok hopen hb

/-! ### What a step can be -/

/-- A step of the parent itself. -/
def Event.parent : Event → Bool
  | .signal _ => false
  | .child _ _ => false
  | _ => true

/-- What a step of the parent, a signal or a child can be. -/
inductive Moves (c : RunConfig) (s : Sys) : Event → Sys → Prop where
  | fork (hpc : s.pc = .start) : Moves c s (.fork true)
      { s with pc := .forked, children := s.children ++ [{ forceKprobes := c.forceKprobes, inherits := false }] }
  | noFork (hpc : s.pc = .start) : Moves c s (.fork false)
      { s with
        pc := .inProcess
        children := s.children ++ [{ forceKprobes := c.forceKprobes, inherits := false, doneFd := .absent }] }
  | refork (hpc : s.pc = .restarting) : Moves c s (.fork true)
      { s with pc := .reforked, children := s.children ++ [{ forceKprobes := true, inherits := true }] }
  | noRefork (hpc : s.pc = .restarting) : Moves c s (.fork false) (s.ret exitFailure.toNat)
  | setUp (hpc : s.pc = .forked) : Moves c s .setUp
      { s with pc := .next .attach .top, childPid := some (s.children.length - 1) }
  | setUpAgain (hpc : s.pc = .reforked) : Moves c s .setUp
      { s with pc := .next .again .top, childPid := some (s.children.length - 1) }
  | left {call : Call} {expired : Bool} (hpc : s.pc = .next call .top) (hint : 2 ≤ s.interrupts) :
      Moves c s (.test expired) (afterByte c s call nbLeft)
  | expired {point : Point} {e : Event} (he : e.parent) (hpc : s.pc = .next .attach point) :
      Moves c s e (afterByte c s .attach nbTimeout)
  | tested {call : Call} {expired : Bool} (hpc : s.pc = .next call .top) :
      Moves c s (.test expired) { s with pc := .next call .tested }
  | poll {call : Call} (hpc : s.pc = .next call .tested) : Moves c s .poll { s with pc := .next call .polling }
  | ready {call : Call} {ch : Child} (hpc : s.pc = .next call .polling) (hs : s.ch = some ch)
      (hready : ch.nread < ch.written.length ∨ ch.gone) :
      Moves c s .pollReady { s with pc := .next call .reading }
  | failed {call : Call} {point : Point} {e : Event} (he : e.parent) (hpc : s.pc = .next call point) :
      Moves c s e (afterByte c { s with failures := s.failures + 1 } call 0)
  | readByte {call : Call} {ch : Child} {x : U8} (hpc : s.pc = .next call .reading) (hs : s.ch = some ch)
      (hx : ch.written[ch.nread]? = some x) :
      Moves c s .read (afterByte c (s.modifyCh fun ch => { ch with nread := ch.nread + 1 }) call x.toNat)
  | readEnd {call : Call} {ch : Child} (hpc : s.pc = .next call .reading) (hs : s.ch = some ch)
      (hx : ch.written[ch.nread]? = none) (hgone : ch.gone) : Moves c s .read (afterByte c s call 0)
  | kill (hpc : s.pc = .timedOut) : Moves c s .kill
      { s.modifyCh fun ch => { ch.close with sigkill := true } with pc := .restarting }
  | reaped {ch : Child} {ret : U8} {e : Event} (he : e.parent)
      (hpc : s.pc = .reaping ∨ s.pc = .inProcess ∨ ∃ status waited, s.pc = .detaching status waited)
      (hs : s.ch = some ch) (hret : waitStatus ch.phase = some ret) : Moves c s e (s.ret ret.toNat)
  | waits {ch : Child} {status : U8} {waited : ℕ} (hpc : s.pc = .detaching status waited) (hs : s.ch = some ch)
      (hlt : waited < detachWaitMs) : Moves c s .reap { s with pc := .detaching status (waited + 50) }
  | givesUp {ch : Child} {status : U8} {waited : ℕ} (hpc : s.pc = .detaching status waited) (hs : s.ch = some ch) :
      Moves c s .reap (s.ret status.toNat)
  | reapFails (hpc : s.pc = .reaping ∨ ∃ status waited, s.pc = .detaching status waited) :
      Moves c s .reapFails { s.ret exitFailure.toNat with failures := s.failures + 1 }
  | diesEarly {int : Bool} (hpc : s.pc = .start) : Moves c s (.signal int) { s with pc := .dead }
  | dies {int : Bool} (hpc : s.pc = .forked) : Moves c s (.signal int) { s.modifyCh Child.close with pc := .dead }
  | stops {int : Bool} (hpc : s.pc = .inProcess) : Moves c s (.signal int) (s.modifyCh signalChild)
  | forwards {int : Bool} (hpc : s.pc ≠ .start ∧ s.pc ≠ .forked ∧ s.pc ≠ .inProcess) :
      Moves c s (.signal int) (forwardSignal s int)
  | child {i : ℕ} {e : ChildStep} {ch ch' : Child} (hget : s.children[i]? = some ch)
      (hstep : childStep c ch e = some ch') : Moves c s (.child i e) (s.modifyChild i fun _ => ch')

theorem step_moves {e : Event} (h : step c s e = some s') : Moves c s e s' := by
  cases e with
  | fork ok =>
    simp only [step] at h
    split at h <;> rename_i hpc
    · cases ok <;> obtain rfl := Option.some.inj h
      · exact .noFork hpc
      · exact .fork hpc
    · cases ok <;> obtain rfl := Option.some.inj h
      · exact .noRefork hpc
      · exact .refork hpc
    · cases h
  | setUp =>
    simp only [step] at h
    split at h <;> rename_i hpc
    · obtain rfl := Option.some.inj h
      exact .setUp hpc
    · obtain rfl := Option.some.inj h
      exact .setUpAgain hpc
    · cases h
  | test expired =>
    simp only [step] at h
    split at h
    · rename_i call hpc
      split_ifs at h with hint hexp <;> obtain rfl := Option.some.inj h
      · exact .left hpc hint
      · obtain ⟨rfl, -⟩ := hexp
        exact .expired rfl hpc
      · exact .tested hpc
    · cases h
  | poll =>
    simp only [step] at h
    split at h
    · rename_i call hpc
      obtain rfl := Option.some.inj h
      exact .poll hpc
    · cases h
  | pollTimeout =>
    simp only [step] at h
    split at h
    · rename_i hpc
      obtain rfl := Option.some.inj h
      exact .expired rfl hpc
    · cases h
  | pollReady =>
    simp only [step] at h
    split at h
    · rename_i call ch hpc hs
      split_ifs at h with hready
      obtain rfl := Option.some.inj h
      exact .ready hpc hs hready
    · cases h
  | pollFails | readFails =>
    simp only [step] at h
    split at h
    · rename_i call hpc
      obtain rfl := Option.some.inj h
      exact .failed rfl hpc
    · cases h
  | read =>
    simp only [step] at h
    split at h
    · rename_i call ch hpc hs
      split at h
      · rename_i x hx
        obtain rfl := Option.some.inj h
        exact .readByte hpc hs hx
      · rename_i hx
        split_ifs at h with hgone
        obtain rfl := Option.some.inj h
        exact .readEnd hpc hs hx hgone
    · cases h
  | kill =>
    simp only [step] at h
    split at h
    · rename_i hpc
      obtain rfl := Option.some.inj h
      exact .kill hpc
    · cases h
  | reap =>
    simp only [step] at h
    split at h
    · rename_i ch hpc hs
      obtain ⟨ret, hret, rfl⟩ := Option.map_eq_some_iff.mp h
      exact .reaped rfl (Or.inl hpc) hs hret
    · rename_i status waited ch hpc hs
      split_ifs at h with hlt
      · split at h
        · rename_i ret hret
          obtain rfl := Option.some.inj h
          exact .reaped rfl (Or.inr (Or.inr ⟨_, _, hpc⟩)) hs hret
        · obtain rfl := Option.some.inj h
          exact .waits hpc hs hlt
      · obtain rfl := Option.some.inj h
        exact .givesUp hpc hs
    · cases h
  | reapFails =>
    simp only [step] at h
    split at h
    · rename_i hpc
      obtain rfl := Option.some.inj h
      exact .reapFails (Or.inl hpc)
    · rename_i status waited hpc
      split_ifs at h
      obtain rfl := Option.some.inj h
      exact .reapFails (Or.inr ⟨_, _, hpc⟩)
    · cases h
  | recordReturns =>
    simp only [step] at h
    split at h
    · rename_i ch hpc hs
      split at h
      · rename_i ret hphase
        obtain rfl := Option.some.inj h
        exact .reaped rfl (Or.inr (Or.inl hpc)) hs (by rw [hphase]; rfl)
      · cases h
    · cases h
  | signal int =>
    simp only [step, parentSignal] at h
    split at h
    · cases h
    · cases h
    · rename_i hpc
      obtain rfl := Option.some.inj h
      exact .diesEarly hpc
    · rename_i hpc
      obtain rfl := Option.some.inj h
      exact .dies hpc
    · rename_i hpc
      obtain rfl := Option.some.inj h
      exact .stops hpc
    · rename_i h1 h2 h3
      obtain rfl := Option.some.inj h
      exact .forwards ⟨h1, h2, h3⟩
  | child i e =>
    simp only [step] at h
    split at h
    · cases h
    · rename_i ch hget
      obtain ⟨ch', hch', rfl⟩ := Option.map_eq_some_iff.mp h
      exact .child hget hch'

/-! ### Steps keep the invariant -/

theorem ch_unique (hch : s.children = old ++ [ch]) (hs : s.ch = some ch') : ch' = ch := by
  rw [ch_eq hch] at hs
  exact (Option.some.inj hs).symm

/-- Where the parent has a child, the invariant is about that. -/
theorem Inv.cases (h : Inv c s) (hstart : s.pc ≠ .start) (hdead : s.pc ≠ .dead) :
    ∃ old ch, s.children = old ++ [ch] ∧ OldOk c old ch ∧ ChildOk ch ∧
      LastOk c old s.interrupts s.failures ch s.pc := by
  rcases h with ⟨-, hpc | hpc⟩ | h
  · exact absurd hpc hstart
  · exact absurd hpc hdead
  · exact h

theorem newChild_ok (kprobes inherits : Bool) (fd : DoneFd) :
    ChildOk { forceKprobes := kprobes, inherits := inherits, doneFd := fd } where
  written := Or.inl rfl
  status := by simp
  told := by simp
  starting := fun _ => ⟨rfl, rfl⟩
  attaching := by simp
  recording := by simp
  absent := fun _ => rfl
  reported := by simp
  exited := by simp

theorem oldOk_nil (c : RunConfig) (ch : Child) : OldOk c [] ch := ⟨by simp, by simp, by simp⟩

/-- There is no child before the first fork. -/
theorem Inv.nil_of_start (h : Inv c s) (hpc : s.pc = .start) : s.children = [] := by
  rcases h with ⟨hnil, -⟩ | ⟨old, ch, -, -, -, hlast⟩
  · exact hnil
  · rw [hpc] at hlast
    exact hlast.elim

/-- What is known when the parent is in a call of `next_byte`. -/
theorem Inv.next {call : Call} {point : Point} (h : Inv c s) (hpc : s.pc = .next call point) :
    ∃ old ch, s.children = old ++ [ch] ∧ OldOk c old ch ∧ ChildOk ch ∧ ch.doneFd = .open ∧ call.ReadOk ch ∧
      (call = .attach → old = []) ∧ (point = .reading → ch.nread < ch.written.length ∨ ch.gone) := by
  obtain ⟨old, ch, hch, hold, hok, hlast⟩ := h.cases (by simp [hpc]) (by simp [hpc])
  rw [hpc] at hlast
  exact ⟨old, ch, hch, hold, hok, hlast⟩

theorem nread_ok (h : ChildOk ch) (n : ℕ) : ChildOk { ch with nread := n } :=
  ⟨h.written, h.status, h.told, h.starting, h.attaching, h.recording, h.absent, h.reported, h.exited⟩

/-- What `reap` returns is the status of the report, or a failure. -/
theorem waitStatus_ok {ret : U8} (h : ChildOk ch) (hret : waitStatus ch.phase = some ret) :
    ch.phase.ended ∧ (ret = exitSuccess ∨ ret = exitFailure) ∧ (ret = exitSuccess → ch.finished = some exitSuccess) ∧
      ∀ r, ch.finished = some r → ret = r ∨ ch.phase = .killed := by
  match hphase : ch.phase with
  | .exited q =>
    rw [hphase] at hret
    obtain rfl : q = ret := by simpa [waitStatus] using hret
    rcases h.exited q hphase with hfin | ⟨hfin, rfl⟩
    · refine ⟨rfl, h.status q hfin, fun hq => by rw [hfin, hq], fun r hr => Or.inl ?_⟩
      rw [hfin] at hr
      exact Option.some.inj hr
    · refine ⟨rfl, Or.inr rfl, fun hq => absurd hq (by decide), fun r hr => ?_⟩
      rw [hfin] at hr
      cases hr
  | .killed =>
    rw [hphase] at hret
    obtain rfl : exitFailure = ret := by simpa [waitStatus] using hret
    exact ⟨rfl, Or.inr rfl, fun hq => absurd hq (by decide), fun _ _ => Or.inr rfl⟩
  | .starting | .attaching | .recording | .reported _ =>
    simp [hphase, waitStatus] at hret

/-- The parent returns a status of a child that has ended or has told its report. -/
theorem ret_inv {ret : U8} (hch : s.children = old ++ [ch]) (hold : OldOk c old ch) (hok : ChildOk ch)
    (hret : ret = exitSuccess ∨ ret = exitFailure)
    (hsuccess : s.failures = 0 → ret = exitSuccess → ch.finished = some exitSuccess)
    (hdone : s.failures = 0 → ch.finished = none → ch.phase.ended ∨ ch.sigkill)
    (hagree : s.failures = 0 → s.interrupts < 2 → ∀ r, ch.finished = some r →
      ret = r ∨ ch.phase = .killed ∨ ch.sigkill) : Inv c (s.ret ret.toNat) := by
  refine inv_closed hch hold hok ⟨?_, fun hzero hr => ?_, fun hzero _ hnone => ?_, fun hzero hint r hr => ?_⟩
  · rcases hret with rfl | rfl
    · exact Or.inl rfl
    · exact Or.inr (Or.inl rfl)
  · rw [close_finished]
    refine hsuccess hzero ?_
    rcases hret with h | h
    · exact h
    · rw [h] at hr
      cases hr
  · rw [close_finished] at hnone
    rw [close_phase, close_sigkill]
    exact hdone hzero hnone
  · rw [close_finished] at hr
    rw [close_phase, close_sigkill]
    rcases hagree hzero hint r hr with heq | hkilled
    · exact Or.inl (by rw [heq])
    · exact Or.inr hkilled

/-- A `waitpid` that fails makes the parent return a failure. -/
theorem reapFailed_inv (hch : s.children = old ++ [ch]) (hold : OldOk c old ch) (hok : ChildOk ch) :
    Inv c { s.ret exitFailure.toNat with failures := s.failures + 1 } := by
  have hinv := ret_inv (s := { s with failures := s.failures + 1 }) (by exact hch) hold hok (Or.inr rfl)
    (fun hzero => absurd hzero (by simp)) (fun hzero => absurd hzero (by simp)) fun hzero => absurd hzero (by simp)
  exact hinv

theorem childStep_sigkill {e : ChildStep} (hstep : childStep c ch e = some ch') :
    ch'.sigkill = ch.sigkill := by
  have htell : ∀ (q : Child) (msg : List U8) (next : ChildPhase), (tellParent q msg next).sigkill = q.sigkill := by
    intro q msg next
    unfold tellParent
    split <;> rfl
  cases e with
  | setHandlers | forksCheck | checkEnds | openFails | dies =>
    simp only [childStep] at hstep
    split_ifs at hstep
    obtain rfl := Option.some.inj hstep
    rfl
  | attached | finishes =>
    simp only [childStep] at hstep
    split_ifs at hstep
    obtain rfl := Option.some.inj hstep
    exact htell _ _ _
  | detached =>
    simp only [childStep] at hstep
    split at hstep
    · split_ifs at hstep
      obtain rfl := Option.some.inj hstep
      rfl
    · cases hstep
  | signalled =>
    obtain rfl := Option.some.inj hstep
    unfold signalChild
    split_ifs <;> rfl

/-- Whatever a child does, the invariant stays. -/
theorem modifyChild_inv {i : ℕ} {f : Child → Child} (h : Inv c s)
    (hkill : ∀ q, s.children[i]? = some q → (f q).sigkill = q.sigkill)
    (hgoes : ∀ q, s.children[i]? = some q → ChildOk q → ChildOk (f q) ∧ ChildLe q (f q)) :
    Inv c (s.modifyChild i f) := by
  rcases h with ⟨hnil, hpc⟩ | ⟨old, ch, hch, hold, hok, hlast⟩
  · exact Or.inl ⟨by simp [Sys.modifyChild, hnil], hpc⟩
  · have hkept : ChildOk (if i = old.length then f ch else ch) ∧ ChildLe ch (if i = old.length then f ch else ch) := by
      split_ifs with hi
      · exact hgoes ch (by simp [hch, hi]) hok
      · exact ⟨hok, ChildLe.rfl⟩
    have hmod : OldOk c (old.modify i f) (if i = old.length then f ch else ch) := by
      refine hold.modify (fun o ho => hkill o ?_) hkept.2.forceKprobes
      have hlt : i < old.length := (List.getElem?_eq_some_iff.mp ho).1
      rw [hch, List.getElem?_append_left hlt]
      exact ho
    refine Or.inr ⟨_, _, children_modifyChild hch i f, hmod, hkept.1, ?_⟩
    have hlast' := hlast.mono hkept.2
    have hempty : old = [] → old.modify i f = [] := fun h => by simp [h]
    -- the parent's place only says that there is no child before the last one
    unfold LastOk at hlast' ⊢
    cases hpc : s.pc with
    | start => simp only [hpc] at hlast'
    | dead => simp only [Sys.modifyChild, hpc]
    | reforked | reaping | detaching | returned =>
      simp only [Sys.modifyChild, hpc] at hlast' ⊢
      exact hlast'
    | forked | inProcess | timedOut | restarting | next =>
      simp only [Sys.modifyChild, hpc] at hlast' ⊢
      tauto

theorem signalChild_inv (h : Inv c s) (i : ℕ) : Inv c (s.modifyChild i signalChild) :=
  modifyChild_inv h (fun _ _ => childStep_sigkill (c := c) (e := .signalled) rfl) fun _ _ hok => signalChild_ok hok

theorem LastOk.interrupted {interrupts more failures : ℕ} {pc : Pc} (h : LastOk c old interrupts failures ch pc)
    (hle : interrupts ≤ more) : LastOk c old more failures ch pc := by
  cases pc with
  | detaching status waited =>
    obtain ⟨hstatus, r, hr, hagree⟩ := h
    exact ⟨hstatus, r, hr, fun hzero => ⟨(hagree hzero).1, fun hlt => (hagree hzero).2 (by omega)⟩⟩
  | returned ret =>
    obtain ⟨hret, hsuccess, hdone, hagree⟩ := h
    refine ⟨?_, hsuccess, hdone, fun hzero hlt => hagree hzero (by omega)⟩
    omega
  | start | forked | reforked | inProcess | timedOut | restarting | reaping | next | dead => exact h

theorem interrupts_inv {more : ℕ} (h : Inv c s) (hle : s.interrupts ≤ more) : Inv c { s with interrupts := more } := by
  rcases h with hempty | ⟨old, ch, hch, hold, hok, hlast⟩
  · exact Or.inl hempty
  · exact Or.inr ⟨old, ch, hch, hold, hok, hlast.interrupted hle⟩

/-- A signal that makes `poll` return brings the parent back to the top of the loop. -/
theorem interruptPoll_inv (h : Inv c s) : Inv c (interruptPoll s) := by
  unfold interruptPoll
  split
  · rename_i call hpc
    obtain ⟨old, ch, hch, hold, hok, hopen, hread, hattach, -⟩ := h.next hpc
    exact Or.inr ⟨old, ch, hch, hold, hok, hopen, hread, hattach, by simp⟩
  · exact h

theorem forwardSignal_inv {int : Bool} (h : Inv c s) : Inv c (forwardSignal s int) := by
  have hcount := interrupts_inv h (Nat.le_add_right s.interrupts (if int then 1 else 0))
  refine interruptPoll_inv ?_
  match hpid : s.childPid with
  | none =>
    simp only [Option.elim_none]
    simp only [hpid] at hcount
    exact hcount
  | some i =>
    simp only [Option.elim_some]
    simp only [hpid] at hcount
    exact signalChild_inv hcount i

theorem Inv.moves {e : Event} (h : Inv c s) (hm : Moves c s e s') : Inv c s' := by
  cases hm with
  | fork hpc =>
    obtain hnil := h.nil_of_start hpc
    exact Or.inr ⟨[], _, congrArg (· ++ _) hnil, oldOk_nil _ _, newChild_ok _ _ _, rfl, rfl, rfl⟩
  | noFork hpc =>
    obtain hnil := h.nil_of_start hpc
    exact Or.inr ⟨[], _, congrArg (· ++ _) hnil, oldOk_nil _ _, newChild_ok _ _ _, rfl, rfl⟩
  | refork hpc =>
    obtain ⟨old, ch, hch, hold, hok, hlast⟩ := h.cases (by simp [hpc]) (by simp [hpc])
    rw [hpc] at hlast
    obtain ⟨hmay, rfl, hkill⟩ := hlast
    refine Or.inr ⟨[ch], _, congrArg (· ++ _) hch, ⟨by simp, ?_, fun _ => ⟨hmay, rfl⟩⟩, newChild_ok _ _ _, rfl, rfl⟩
    intro o ho
    rw [List.mem_singleton.mp ho]
    exact hkill
  | noRefork hpc =>
    obtain ⟨old, ch, hch, hold, hok, hlast⟩ := h.cases (by simp [hpc]) (by simp [hpc])
    rw [hpc] at hlast
    obtain ⟨-, -, hkill⟩ := hlast
    exact ret_inv hch hold hok (Or.inr rfl) (fun _ h => absurd h (by decide)) (fun _ _ => Or.inr hkill)
      fun _ _ _ _ => Or.inr (Or.inr hkill)
  | setUp hpc =>
    obtain ⟨old, ch, hch, hold, hok, hlast⟩ := h.cases (by simp [hpc]) (by simp [hpc])
    rw [hpc] at hlast
    obtain ⟨hopen, hread, rfl⟩ := hlast
    exact Or.inr ⟨[], ch, hch, hold, hok, hopen, hread, fun _ => rfl, by simp⟩
  | setUpAgain hpc =>
    obtain ⟨old, ch, hch, hold, hok, hlast⟩ := h.cases (by simp [hpc]) (by simp [hpc])
    rw [hpc] at hlast
    obtain ⟨hopen, hread⟩ := hlast
    exact Or.inr ⟨old, ch, hch, hold, hok, hopen, hread, by simp, by simp⟩
  | left hpc hint =>
    obtain ⟨old, ch, hch, hold, hok, hopen, hread, hattach, -⟩ := h.next hpc
    exact afterByte_inv hch hold hok hopen hattach (Or.inl ⟨rfl, hint, hread⟩)
  | expired _ hpc =>
    obtain ⟨old, ch, hch, hold, hok, hopen, hread, hattach, -⟩ := h.next hpc
    exact afterByte_inv hch hold hok hopen hattach (Or.inr (Or.inl ⟨rfl, rfl, hread⟩))
  | tested hpc | poll hpc =>
    obtain ⟨old, ch, hch, hold, hok, hopen, hread, hattach, -⟩ := h.next hpc
    exact Or.inr ⟨old, ch, hch, hold, hok, hopen, hread, hattach, by simp⟩
  | ready hpc hs hready =>
    obtain ⟨old, ch, hch, hold, hok, hopen, hread, hattach, -⟩ := h.next hpc
    obtain rfl := ch_unique hch hs
    exact Or.inr ⟨old, _, hch, hold, hok, hopen, hread, hattach, fun _ => hready⟩
  | failed _ hpc =>
    -- a `poll` or `read` that fails reads as the end of the pipe
    obtain ⟨old, ch, hch, hold, hok, hopen, hread, hattach, -⟩ := h.next hpc
    refine afterByte_inv (by exact hch) hold hok hopen hattach (Or.inr (Or.inr (Or.inl ⟨rfl, hread, fun hzero => ?_⟩)))
    exact absurd hzero (by simp)
  | readByte hpc hs hx =>
    obtain ⟨old, ch, hch, hold, hok, hopen, hread, hattach, -⟩ := h.next hpc
    obtain rfl := ch_unique hch hs
    refine afterByte_inv (children_modifyCh hch _) (hold.last rfl) (nread_ok hok _) hopen hattach ?_
    exact Or.inr (Or.inr (Or.inr ⟨_, _, rfl, hread, hx, rfl⟩))
  | readEnd hpc hs hx hgone =>
    obtain ⟨old, ch, hch, hold, hok, hopen, hread, hattach, -⟩ := h.next hpc
    obtain rfl := ch_unique hch hs
    have hlen := List.getElem?_eq_none_iff.mp hx
    have hended := (gone_iff.mp hgone).1
    exact afterByte_inv hch hold hok hopen hattach (Or.inr (Or.inr (Or.inl ⟨rfl, hread, fun _ => ⟨hended, hlen⟩⟩)))
  | kill hpc =>
    obtain ⟨old, ch, hch, hold, hok, hlast⟩ := h.cases (by simp [hpc]) (by simp [hpc])
    rw [hpc] at hlast
    obtain ⟨hmay, rfl⟩ := hlast
    have hclosed := close_ok hok
    refine Or.inr ⟨[], _, children_modifyCh hch _, oldOk_nil _ _, ?_, hmay, rfl, rfl⟩
    exact ⟨hclosed.written, hclosed.status, hclosed.told, hclosed.starting, hclosed.attaching, hclosed.recording,
      hclosed.absent, hclosed.reported, hclosed.exited⟩
  | reaped _ hpc hs hret =>
    obtain ⟨old, ch, hch, hold, hok, -⟩ := h.cases (by rcases hpc with h | h | ⟨_, _, h⟩ <;> simp [h])
      (by rcases hpc with h | h | ⟨_, _, h⟩ <;> simp [h])
    obtain rfl := ch_unique hch hs
    obtain ⟨hended, hstatus, hsuccess, hagree⟩ := waitStatus_ok hok hret
    refine ret_inv hch hold hok hstatus (fun _ => hsuccess) (fun _ _ => Or.inl hended) fun _ _ r hr => ?_
    rcases hagree r hr with heq | hkilled
    · exact Or.inl heq
    · exact Or.inr (Or.inl hkilled)
  | waits hpc hs _ =>
    obtain ⟨old, ch, hch, hold, hok, hlast⟩ := h.cases (by simp [hpc]) (by simp [hpc])
    rw [hpc] at hlast
    exact Or.inr ⟨old, ch, hch, hold, hok, hlast⟩
  | givesUp hpc hs =>
    obtain ⟨old, ch, hch, hold, hok, hlast⟩ := h.cases (by simp [hpc]) (by simp [hpc])
    rw [hpc] at hlast
    obtain ⟨hstatus, r, hr, hagree⟩ := hlast
    refine ret_inv hch hold hok hstatus (fun hzero hst => ?_) (fun _ hnone => ?_) fun hzero hint q hq => ?_
    · rcases (hagree hzero).1 with heq | hfail
      · rw [hr, ← heq, hst]
      · rw [hfail] at hst
        exact absurd hst (by decide)
    · rw [hr] at hnone
      cases hnone
    · rw [hr] at hq
      obtain rfl := Option.some.inj hq
      exact Or.inl ((hagree hzero).2 hint)
  | reapFails hpc =>
    obtain ⟨old, ch, hch, hold, hok, -⟩ := h.cases (by rcases hpc with h | ⟨_, _, h⟩ <;> simp [h])
      (by rcases hpc with h | ⟨_, _, h⟩ <;> simp [h])
    exact reapFailed_inv hch hold hok
  | diesEarly hpc => exact Or.inl ⟨h.nil_of_start hpc, Or.inr rfl⟩
  | dies hpc =>
    obtain ⟨old, ch, hch, hold, hok, -⟩ := h.cases (by simp [hpc]) (by simp [hpc])
    exact inv_closed hch hold hok trivial
  | stops _ => exact signalChild_inv h _
  | forwards _ => exact forwardSignal_inv h
  | child hget hstep =>
    refine modifyChild_inv h (fun q hq => ?_) fun q hq hok => ?_
    · rw [hget] at hq
      obtain rfl := Option.some.inj hq
      exact childStep_sigkill hstep
    · rw [hget] at hq
      obtain rfl := Option.some.inj hq
      exact childStep_ok hok hstep

theorem Inv.step {e : Event} (h : Inv c s) (hstep : step c s e = some s') : Inv c s' := h.moves (step_moves hstep)

theorem Inv.run {es : List Event} (h : Inv c s) (hrun : run c s es = some s') : Inv c s' := by
  induction es generalizing s with
  | nil =>
    obtain rfl := Option.some.inj hrun
    exact h
  | cons e es ih =>
    obtain ⟨t, ht, hrest⟩ := Option.bind_eq_some_iff.mp hrun
    exact ih (h.step ht) hrest

theorem inv_start (c : RunConfig) : Inv c {} := Or.inl ⟨rfl, Or.inl rfl⟩

end Ntprof.Supervisor
