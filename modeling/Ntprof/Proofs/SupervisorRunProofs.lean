import Ntprof.Proofs.SupervisorProofs

/-!
# Proofs: the runs of `record`

The status that `cmd_record` returns is that of the child's report; no two children record at the same time; and the
parent makes a bounded number of steps, which only a process that is still there can hold up.
-/

namespace Ntprof.Supervisor

variable {c : RunConfig} {s s' : Sys} {ch ch' : Child} {old : List Child}

/-! ## Where a report comes from -/

/-- The status with which child `i` has reported. -/
def finishedAt (s : Sys) (i : ℕ) : Option U8 := s.children[i]?.bind Child.finished

theorem finishedAt_modifyChild {f : Child → Child} (hf : ∀ q, (f q).finished = q.finished) (s : Sys) (i j : ℕ) :
    finishedAt (s.modifyChild j f) i = finishedAt s i := by
  unfold finishedAt Sys.modifyChild
  rw [List.getElem?_modify]
  cases s.children[i]? with
  | none => rfl
  | some q =>
    by_cases hij : j = i
    · simp [hij, hf]
    · simp [hij]

theorem finishedAt_close (s : Sys) (i : ℕ) : finishedAt (s.modifyCh Child.close) i = finishedAt s i :=
  finishedAt_modifyChild close_finished s i _

theorem finishedAt_signal (s : Sys) (i j : ℕ) : finishedAt (s.modifyChild j signalChild) i = finishedAt s i := by
  refine finishedAt_modifyChild (fun q => ?_) s i j
  unfold signalChild
  split_ifs <;> rfl

theorem finishedAt_append {q : Child} (hq : q.finished = none) {r : U8} {i : ℕ} (hs : s'.children = s.children ++ [q])
    (h : finishedAt s' i = some r) : finishedAt s i = some r := by
  unfold finishedAt at h ⊢
  rw [hs] at h
  rcases Nat.lt_or_ge i s.children.length with hlt | hge
  · rw [List.getElem?_append_left hlt] at h
    exact h
  · rw [List.getElem?_append_right hge] at h
    obtain ⟨a, ha, hfin⟩ := Option.bind_eq_some_iff.mp h
    have : a = q := by simpa using List.mem_of_getElem? ha
    rw [this, hq] at hfin
    cases hfin

theorem finishedAt_afterByte (c : RunConfig) (s : Sys) (call : Call) (b : ℤ) (i : ℕ) :
    finishedAt (afterByte c s call b) i = finishedAt s i := by
  have hrec : finishedAt (afterRecording s b) i = finishedAt s i := by
    unfold afterRecording
    split_ifs
    · exact finishedAt_close s i
    · exact finishedAt_close s i
    · rfl
  have hatt : finishedAt (afterAttach s b) i = finishedAt s i := by
    unfold afterAttach
    split_ifs
    · rfl
    · exact hrec
  cases call with
  | attach =>
    simp only [afterByte]
    split_ifs
    · rfl
    · rfl
    · exact hatt
  | again => exact hatt
  | recording => exact hrec
  | status => exact finishedAt_close s i

theorem finishedAt_forwardSignal (s : Sys) (int : Bool) (i : ℕ) :
    finishedAt (forwardSignal s int) i = finishedAt s i := by
  have hpoll : ∀ t : Sys, finishedAt (interruptPoll t) i = finishedAt t i := by
    intro t
    unfold interruptPoll
    split <;> rfl
  unfold forwardSignal
  rw [hpoll]
  match hpid : s.childPid with
  | none => rfl
  | some j => exact finishedAt_signal _ i j

/-- The parent does not report. -/
theorem finishedAt_moves {e : Event} {i : ℕ} {r : U8} (hm : Moves c s e s') (he : ∀ j ce, e ≠ .child j ce)
    (h : finishedAt s' i = some r) : finishedAt s i = some r := by
  cases hm with
  | fork | noFork | refork => exact finishedAt_append rfl rfl h
  | setUp | setUpAgain | tested | poll | ready | waits | diesEarly => exact h
  | noRefork | reaped | givesUp | reapFails | dies => exact (finishedAt_close s i).symm.trans h
  | left | expired | readEnd => exact (finishedAt_afterByte c s _ _ i).symm.trans h
  | failed =>
    rw [finishedAt_afterByte] at h
    exact h
  | readByte =>
    rw [finishedAt_afterByte] at h
    have hread := finishedAt_modifyChild (f := fun q => { q with nread := q.nread + 1 }) (fun _ => rfl) s i
    exact (hread _).symm.trans h
  | kill =>
    have hkill := finishedAt_modifyChild (f := fun q => { q.close with sigkill := true }) close_finished s i
    exact (hkill _).symm.trans h
  | stops => exact (finishedAt_signal s i _).symm.trans h
  | forwards => exact (finishedAt_forwardSignal s _ i).symm.trans h
  | child => exact absurd rfl (he _ _)

/-- A child reports by finishing. -/
theorem finished_childStep {e : ChildStep} {r : U8} (hstep : childStep c ch e = some ch')
    (h : ch'.finished = some r) :
    ch.finished = some r ∨ ∃ why saved, e = .finishes why saved ∧ recordRet why saved = r := by
  have htell : ∀ (q : Child) (msg : List U8) (next : ChildPhase), (tellParent q msg next).finished = q.finished := by
    intro q msg next
    unfold tellParent
    split <;> rfl
  cases e with
  | setHandlers | forksCheck | checkEnds | openFails | dies =>
    simp only [childStep] at hstep
    split_ifs at hstep
    obtain rfl := Option.some.inj hstep
    exact Or.inl h
  | attached =>
    simp only [childStep] at hstep
    split_ifs at hstep
    obtain rfl := Option.some.inj hstep
    exact Or.inl ((htell _ _ _).symm.trans h)
  | finishes why saved =>
    simp only [childStep] at hstep
    split_ifs at hstep
    obtain rfl := Option.some.inj hstep
    have hr := (htell _ _ _).symm.trans h
    exact Or.inr ⟨why, saved, rfl, Option.some.inj hr⟩
  | detached =>
    simp only [childStep] at hstep
    split at hstep
    · split_ifs at hstep
      obtain rfl := Option.some.inj hstep
      exact Or.inl h
    · cases hstep
  | signalled =>
    obtain rfl := Option.some.inj hstep
    left
    rw [← h]
    unfold signalChild
    split_ifs <;> rfl

theorem finishedAt_step {e : Event} {i : ℕ} {r : U8} (hstep : step c s e = some s') (h : finishedAt s' i = some r) :
    finishedAt s i = some r ∨ ∃ why saved, e = .child i (.finishes why saved) ∧ recordRet why saved = r := by
  by_cases hchild : ∃ j ce, e = .child j ce
  · obtain ⟨j, ce, rfl⟩ := hchild
    cases step_moves hstep with
    | expired he _ | failed he _ | reaped he _ _ _ => cases he
    | child hget hch' =>
      by_cases hij : j = i
      · subst hij
        simp only [finishedAt, Sys.modifyChild, List.getElem?_modify, hget] at h
        rcases finished_childStep hch' (by simpa using h) with hold | ⟨why, saved, rfl, hret⟩
        · exact Or.inl (by simp [finishedAt, hget, hold])
        · exact Or.inr ⟨why, saved, rfl, hret⟩
      · left
        simpa [finishedAt, Sys.modifyChild, List.getElem?_modify, hij] using h
  · exact Or.inl (finishedAt_moves (step_moves hstep) (fun j ce he => hchild ⟨j, ce, he⟩) h)

/-- Every report of a run comes from an event of it. -/
theorem finishedAt_run {es : List Event} {i : ℕ} {r : U8} (hrun : run c s es = some s') (h : finishedAt s' i = some r) :
    finishedAt s i = some r ∨ ∃ why saved, .child i (.finishes why saved) ∈ es ∧ recordRet why saved = r := by
  induction es generalizing s with
  | nil =>
    obtain rfl := Option.some.inj hrun
    exact Or.inl h
  | cons e es ih =>
    obtain ⟨t, ht, hrest⟩ := Option.bind_eq_some_iff.mp hrun
    rcases ih hrest with hold | ⟨why, saved, hmem, hret⟩
    · rcases finishedAt_step ht hold with hold | ⟨why, saved, rfl, hret⟩
      · exact Or.inl hold
      · exact Or.inr ⟨why, saved, List.mem_cons_self, hret⟩
    · exact Or.inr ⟨why, saved, List.mem_cons_of_mem _ hmem, hret⟩

/-! ## The status of `record` -/

theorem recordRet_success {why : LoopEnd} {saved : Bool} (h : recordRet why saved = exitSuccess) :
    why ≠ .pollFailed ∧ saved = true := by
  unfold recordRet at h
  split_ifs at h with hcond
  · exact absurd h (by decide)
  · exact ⟨fun hwhy => hcond (Or.inl hwhy), by simpa using fun hsaved => hcond (Or.inr hsaved)⟩

/-- Whatever the order of what parent, children and signals do: `cmd_record` returns 0, 1, or 130 after two interrupts.
As long as the parent's system calls work, it returns 0 only when the last child ended its loop without an error, wrote
all its files and said so, and with fewer than two interrupts it returns the status with which that child reported,
unless the child was killed. -/
theorem cmd_record_status (c : RunConfig) (es : List Event) (s : Sys) (ret : ℕ) (hrun : run c {} es = some s)
    (hret : s.pc = .returned ret) :
    (ret = 0 ∨ ret = 1 ∨ (ret = 130 ∧ 2 ≤ s.interrupts)) ∧
      (s.failures = 0 → ret = 0 →
        ∃ why, .child (s.children.length - 1) (.finishes why true) ∈ es ∧ why ≠ .pollFailed) ∧
      (s.failures = 0 → s.interrupts < 2 → ∀ ch r, s.ch = some ch → ch.finished = some r → ch.phase ≠ .killed →
        ch.sigkill = false → ret = r.toNat) := by
  have hinv := (inv_start c).run hrun
  obtain ⟨old, ch, hch, -, -, hlast⟩ := hinv.cases (by simp [hret]) (by simp [hret])
  rw [hret] at hlast
  obtain ⟨hvalue, hsuccess, -, hagree⟩ := hlast
  refine ⟨hvalue, fun hzero h0 => ?_, fun hzero hint q r hq hfin hkilled hkill => ?_⟩
  · have hfin : finishedAt s (s.children.length - 1) = some exitSuccess := by
      simp [finishedAt, hch, hsuccess hzero h0]
    rcases finishedAt_run hrun hfin with hnone | ⟨why, saved, hmem, hr⟩
    · simp [finishedAt] at hnone
    · obtain ⟨hwhy, rfl⟩ := recordRet_success hr
      exact ⟨why, hmem, hwhy⟩
  · rw [ch_eq hch] at hq
    obtain rfl := Option.some.inj hq
    rcases hagree hzero hint r hfin with heq | hk | hk
    · exact heq
    · exact absurd hk hkilled
    · rw [hkill] at hk
      cases hk

/-- A recording that Ctrl-C ends: the parent gets the signal in `poll`, forwards it and goes on waiting. -/
def stoppedByUser : List Event :=
  [.fork true, .setUp, .test false, .child 0 .setHandlers, .poll, .child 0 .attached, .pollReady, .read, .test false,
    .poll, .signal true, .test false, .poll, .child 0 (.finishes .stopped true), .pollReady, .read, .test false, .poll,
    .pollReady, .read, .reap, .child 0 .detached, .reap]

theorem cmd_record_stopped_by_user :
    ∃ s, run {} {} stoppedByUser = some s ∧ s.pc = .returned 0 ∧ s.interrupts = 1 ∧
      ∃ why, .child 0 (.finishes why true) ∈ stoppedByUser ∧ why ≠ .pollFailed := by
  have hmap : (run {} {} stoppedByUser).map (fun s => (s.pc, s.interrupts, s.failures, s.children.length)) =
      some (.returned 0, 1, 0, 1) := by decide +kernel
  obtain ⟨s, hs, heq⟩ := Option.map_eq_some_iff.mp hmap
  simp only [Prod.mk.injEq] at heq
  obtain ⟨hpc, hint, hfail, hlen⟩ := heq
  have h := (cmd_record_status {} stoppedByUser s 0 hs hpc).2.1 hfail rfl
  rw [hlen] at h
  exact ⟨s, hs, hpc, hint, h⟩

/-! ## One recorder at a time -/

/-- Whatever the order of what parent, children and signals do: no two children make steps of their own at the same
time, there are never more than two, and the second one has kprobes forced and comes only when neither flag was
given. -/
theorem cmd_record_one_recorder (c : RunConfig) (es : List Event) (s : Sys) (hrun : run c {} es = some s) :
    (∀ (i j : ℕ) (ci cj : Child), s.children[i]? = some ci → s.children[j]? = some cj → ci.runs → cj.runs → i = j) ∧
      s.children.length ≤ 2 ∧
      (s.children.length = 2 → c.forceFentry = false ∧ c.forceKprobes = false ∧
        ∃ ch, s.ch = some ch ∧ ch.forceKprobes = true) := by
  rcases (inv_start c).run hrun with ⟨hnil, -⟩ | ⟨old, ch, hch, hold, -, -⟩
  · simp [hnil]
  · have hlast : ∀ (i : ℕ) (ci : Child), s.children[i]? = some ci → ci.runs → i = old.length := by
      intro i ci hget hruns
      rw [hch] at hget
      have hlt : i < (old ++ [ch]).length := (List.getElem?_eq_some_iff.mp hget).1
      rw [List.length_append, List.length_singleton] at hlt
      by_contra hne
      rw [List.getElem?_append_left (by omega)] at hget
      have hkill := hold.killed ci (List.mem_of_getElem? hget)
      simp [Child.runs, hkill] at hruns
    have hlen : s.children.length = old.length + 1 := by simp [hch]
    refine ⟨fun i j ci cj hi hj hri hrj => ?_, ?_, fun htwo => ?_⟩
    · rw [hlast i ci hi hri, hlast j cj hj hrj]
    · have := hold.one
      omega
    · have hne : old ≠ [] := by
        rintro rfl
        simp at hlen
        omega
      obtain ⟨⟨hf, hk⟩, hkprobes⟩ := hold.second hne
      exact ⟨hf, hk, ch, ch_eq hch, hkprobes⟩

/-- The first child is stuck in its attachment: the parent starts over. -/
def startedOver : List Event :=
  [.fork true, .setUp, .child 0 .setHandlers, .test true, .kill, .fork true, .setUp, .child 1 .setHandlers]

theorem cmd_record_started_over :
    ∃ s, run {} {} startedOver = some s ∧ s.children.length = 2 ∧ ∃ ch, s.ch = some ch ∧ ch.forceKprobes = true := by
  have hmap : (run {} {} startedOver).map (fun s => s.children.length) = some 2 := by decide +kernel
  obtain ⟨s, hs, hlen⟩ := Option.map_eq_some_iff.mp hmap
  have h := cmd_record_one_recorder {} startedOver s hs
  exact ⟨s, hs, hlen, (h.2.2 hlen).2.2⟩

/-! ## The parent's steps -/

/-- What is left of a call of `next_byte`. -/
def Point.left : Point → ℕ
  | .top => 3
  | .tested => 2
  | .polling => 1
  | .reading => 0

/-- The calls of `next_byte` that are left, and the waiting for the hooks to go. -/
def Call.left : Call → ℕ
  | .attach => 83
  | .again => 76
  | .recording => 72
  | .status => 68

/-- The steps that the parent has left when no signal comes. -/
def Pc.left : Pc → ℕ
  | .start => 88
  | .forked => 87
  | .next call point => call.left + point.left
  | .timedOut => 82
  | .restarting => 81
  | .reforked => 80
  | .detaching _ waited => (detachWaitMs - waited + 49) / 50 + 1
  | .reaping => 1
  | .inProcess => 1
  | .returned _ => 0
  | .dead => 0

theorem left_afterByte (c : RunConfig) (s : Sys) (call : Call) (point : Point) (b : ℤ) :
    (afterByte c s call b).pc.left < call.left + point.left := by
  have hrec : (afterRecording s b).pc.left < 72 := by
    unfold afterRecording
    split_ifs <;> simp [Sys.ret, Pc.left, Call.left, Point.left]
  have hatt : (afterAttach s b).pc.left < 76 := by
    unfold afterAttach
    split_ifs
    · simp [Pc.left, Call.left, Point.left]
    · omega
  cases call with
  | attach =>
    show _ < 83 + _
    simp only [afterByte]
    split_ifs
    · show 82 < _
      omega
    · show 76 + 3 < _
      omega
    · omega
  | again =>
    show (afterAttach s b).pc.left < 76 + _
    omega
  | recording =>
    show (afterRecording s b).pc.left < 72 + _
    omega
  | status =>
    show (3000 - 0 + 49) / 50 + 1 < 68 + _
    omega

theorem left_forwardSignal (s : Sys) (int : Bool) : (forwardSignal s int).pc.left ≤ s.pc.left + 2 := by
  have hpoll : ∀ t : Sys, (interruptPoll t).pc.left ≤ t.pc.left + 2 := by
    intro t
    unfold interruptPoll
    split
    · rename_i call hpc
      rw [hpc]
      show call.left + 3 ≤ call.left + 1 + 2
      omega
    · omega
  have hpc : ∀ t : Sys, (t.childPid.elim t fun i => t.modifyChild i signalChild).pc = t.pc := by
    intro t
    cases t.childPid <;> rfl
  have h := hpoll (({ s with interrupts := s.interrupts + if int then 1 else 0 } : Sys).childPid.elim
    { s with interrupts := s.interrupts + if int then 1 else 0 }
    fun i => Sys.modifyChild { s with interrupts := s.interrupts + if int then 1 else 0 } i signalChild)
  rw [hpc] at h
  exact h

/-- A step of the parent leaves fewer of them. -/
theorem left_parent {e : Event} (hm : Moves c s e s') (he : e.parent = true) : s'.pc.left < s.pc.left := by
  cases hm with
  | fork hpc | noFork hpc | refork hpc | noRefork hpc | setUp hpc | setUpAgain hpc | kill hpc =>
    rw [hpc]
    simp [Sys.ret, Pc.left, Call.left, Point.left]
  | left hpc | readEnd hpc | readByte hpc =>
    rw [hpc]
    exact left_afterByte ..
  | expired _ hpc | failed _ hpc =>
    rw [hpc]
    exact left_afterByte ..
  | tested hpc | poll hpc | ready hpc =>
    rw [hpc]
    simp [Pc.left, Point.left]
  | reaped _ hpc => rcases hpc with h | h | ⟨_, _, h⟩ <;> rw [h] <;> simp [Sys.ret, Pc.left]
  | waits hpc hs hlt =>
    rw [hpc]
    simp only [Pc.left, detachWaitMs] at hlt ⊢
    omega
  | givesUp hpc =>
    rw [hpc]
    simp [Sys.ret, Pc.left]
  | reapFails hpc => rcases hpc with h | ⟨_, _, h⟩ <;> rw [h] <;> simp [Sys.ret, Pc.left]
  | diesEarly | dies | stops | forwards | child => cases he

/-- A signal for the parent. -/
def Event.isSignal : Event → Bool
  | .signal _ => true
  | _ => false

/-- A signal may bring back two. -/
theorem left_signal {int : Bool} (hm : Moves c s (.signal int) s') : s'.pc.left ≤ s.pc.left + 2 := by
  cases hm with
  | expired he | failed he | reaped he => cases he
  | diesEarly hpc | dies hpc => exact Nat.zero_le _
  | stops hpc => exact Nat.le_add_right _ _
  | forwards _ => exact left_forwardSignal s _

theorem pc_child {i : ℕ} {ce : ChildStep} (hm : Moves c s (.child i ce) s') : s'.pc = s.pc := by
  cases hm with
  | expired he | failed he | reaped he => cases he
  | child => rfl

theorem left_run {es : List Event} (hrun : run c s es = some s') :
    es.countP Event.parent + s'.pc.left ≤ s.pc.left + 2 * es.countP Event.isSignal := by
  induction es generalizing s with
  | nil =>
    obtain rfl := Option.some.inj hrun
    simp
  | cons e es ih =>
    obtain ⟨t, ht, hrest⟩ := Option.bind_eq_some_iff.mp hrun
    have hle := ih hrest
    have hm := step_moves ht
    rw [List.countP_cons, List.countP_cons]
    match e with
    | .child i ce =>
      rw [pc_child hm] at hle
      simp only [Event.parent, Event.isSignal, Bool.false_eq_true, if_false]
      omega
    | .signal int =>
      have := left_signal hm
      simp only [Event.parent, Event.isSignal, Bool.false_eq_true, if_false, if_true]
      omega
    | .fork _ | .setUp | .test _ | .poll | .pollTimeout | .pollReady | .pollFails | .read | .readFails | .kill
    | .reap | .reapFails | .recordReturns =>
      have := left_parent hm rfl
      simp only [Event.parent, Event.isSignal, Bool.false_eq_true, if_false, if_true]
      omega

/-- The parent has come to its end. -/
def Pc.over : Pc → Bool
  | .returned _ => true
  | .dead => true
  | _ => false

/-- The parent waits for what it cannot bring about itself: in `poll` without a deadline, with nothing left to read, for
a process that has the write end of the pipe; in `waitpid` for a child that is still there; or for its own recording. -/
def Sys.heldUp (s : Sys) : Bool :=
  match s.pc, s.ch with
  | .next call .polling, some ch => call ≠ .attach && decide (ch.written.length ≤ ch.nread) && !ch.gone
  | .reaping, some ch => !ch.phase.ended
  | .inProcess, some ch => !ch.phase.ended || ch.phase = .killed
  | _, _ => false

/-- A step of the parent in which no call fails. -/
def CanGoOn (c : RunConfig) (s : Sys) : Prop :=
  ∃ e s', e.parent = true ∧ step c s e = some s' ∧ s'.failures = s.failures

theorem waitStatus_of_ended {phase : ChildPhase} (h : phase.ended) : ∃ ret, waitStatus phase = some ret := by
  cases phase with
  | exited ret => exact ⟨ret, rfl⟩
  | killed => exact ⟨exitFailure, rfl⟩
  | starting | attaching | recording | reported => cases h

theorem ended_of_waitStatus {phase : ChildPhase} {ret : U8} (h : waitStatus phase = some ret) : phase.ended := by
  cases phase with
  | exited | killed => rfl
  | starting | attaching | recording | reported => cases h

theorem exited_of_ended {phase : ChildPhase} (h : phase.ended) (hkilled : phase ≠ .killed) :
    ∃ ret, phase = .exited ret := by
  cases phase with
  | exited ret => exact ⟨ret, rfl⟩
  | killed => exact absurd rfl hkilled
  | starting | attaching | recording | reported => cases h

theorem failures_afterByte (c : RunConfig) (s : Sys) (call : Call) (b : ℤ) :
    (afterByte c s call b).failures = s.failures := by
  have hrec : (afterRecording s b).failures = s.failures := by
    unfold afterRecording
    split_ifs <;> rfl
  have hatt : (afterAttach s b).failures = s.failures := by
    unfold afterAttach
    split_ifs
    · rfl
    · exact hrec
  cases call with
  | attach =>
    simp only [afterByte]
    split_ifs
    · rfl
    · rfl
    · exact hatt
  | again => exact hatt
  | recording => exact hrec
  | status => rfl

/-- A parent that nothing holds up can go on. -/
theorem canGoOn_of_free (h : Inv c s) (hover : s.pc.over = false) (hfree : s.heldUp = false) : CanGoOn c s := by
  match hpc : s.pc with
  | .start => exact ⟨.fork true, _, rfl, by simp only [step, hpc, if_true]; rfl, by rfl⟩
  | .restarting => exact ⟨.fork true, _, rfl, by simp only [step, hpc, if_true]; rfl, by rfl⟩
  | .forked => exact ⟨.setUp, _, rfl, by simp only [step, hpc]; rfl, by rfl⟩
  | .reforked => exact ⟨.setUp, _, rfl, by simp only [step, hpc]; rfl, by rfl⟩
  | .timedOut => exact ⟨.kill, _, rfl, by simp only [step, hpc]; rfl, by rfl⟩
  | .next call .tested => exact ⟨.poll, _, rfl, by simp only [step, hpc]; rfl, by rfl⟩
  | .next call .top =>
    by_cases hint : 2 ≤ s.interrupts
    · exact ⟨.test false, _, rfl, by simp only [step, hpc, hint, if_true]; rfl, by exact failures_afterByte ..⟩
    · exact ⟨.test false, _, rfl, by simp only [step, hpc, hint, if_false, Bool.false_eq_true, and_false]; rfl, by rfl⟩
  | .next call .polling =>
    obtain ⟨old, ch, hch, -⟩ := h.next hpc
    by_cases hready : ch.nread < ch.written.length ∨ ch.gone
    · exact ⟨.pollReady, _, rfl, by simp only [step, hpc, ch_eq hch, hready, if_true]; rfl, by rfl⟩
    · -- only the deadline is left
      obtain ⟨hlen, hgone⟩ := not_or.mp hready
      obtain rfl : call = .attach := by
        by_contra hcall
        simp [Sys.heldUp, hpc, ch_eq hch, hcall, hgone] at hfree
        omega
      exact ⟨.pollTimeout, _, rfl, by simp only [step, hpc]; rfl, by exact failures_afterByte ..⟩
  | .next call .reading =>
    obtain ⟨old, ch, hch, -, -, -, -, -, hready⟩ := h.next hpc
    rcases hx : ch.written[ch.nread]? with _ | x
    · have hlen := List.getElem?_eq_none_iff.mp hx
      have hgone : ch.gone := (hready rfl).resolve_left (by omega)
      exact ⟨.read, _, rfl, by simp only [step, hpc, ch_eq hch, hx, hgone, if_true]; rfl, by exact failures_afterByte ..⟩
    · exact ⟨.read, _, rfl, by simp only [step, hpc, ch_eq hch, hx]; rfl, by exact failures_afterByte ..⟩
  | .reaping =>
    obtain ⟨old, ch, hch, -⟩ := h.cases (by simp [hpc]) (by simp [hpc])
    have hended : ch.phase.ended := by simpa [Sys.heldUp, hpc, ch_eq hch] using hfree
    obtain ⟨ret, hret⟩ := waitStatus_of_ended hended
    exact ⟨.reap, _, rfl, by simp only [step, hpc, ch_eq hch, hret, Option.map_some]; rfl, by rfl⟩
  | .detaching status waited =>
    obtain ⟨old, ch, hch, -⟩ := h.cases (by simp [hpc]) (by simp [hpc])
    by_cases hlt : waited < detachWaitMs
    · rcases hret : waitStatus ch.phase with _ | ret
      · exact ⟨.reap, _, rfl, by simp only [step, hpc, ch_eq hch, hret, hlt, if_true]; rfl, by rfl⟩
      · exact ⟨.reap, _, rfl, by simp only [step, hpc, ch_eq hch, hret, hlt, if_true]; rfl, by rfl⟩
    · exact ⟨.reap, _, rfl, by simp only [step, hpc, ch_eq hch, hlt, if_false]; rfl, by rfl⟩
  | .inProcess =>
    obtain ⟨old, ch, hch, -⟩ := h.cases (by simp [hpc]) (by simp [hpc])
    have hphase : ch.phase.ended = true ∧ ch.phase ≠ .killed := by simpa [Sys.heldUp, hpc, ch_eq hch] using hfree
    obtain ⟨ret, hp⟩ := exited_of_ended hphase.1 hphase.2
    exact ⟨.recordReturns, _, rfl, by simp only [step, hpc, ch_eq hch, hp]; rfl, by rfl⟩
  | .returned _ => simp [hpc, Pc.over] at hover
  | .dead => simp [hpc, Pc.over] at hover

/-- A parent that is held up only goes on when a call of it fails. -/
theorem not_canGoOn_of_heldUp (hheld : s.heldUp = true) : ¬CanGoOn c s := by
  rintro ⟨e, s', he, hstep, hfail⟩
  match hpc : s.pc, hs : s.ch with
  | .next call .polling, some ch =>
    simp only [Sys.heldUp, hpc, hs, Bool.and_eq_true, decide_eq_true_eq, Bool.not_eq_true'] at hheld
    obtain ⟨⟨hcall, hlen⟩, hgone⟩ := hheld
    cases e with
    | pollReady =>
      have hready : ¬(ch.nread < ch.written.length ∨ ch.gone = true) := by simp [hgone, hlen]
      simp only [step, hpc, hs, hready, if_false] at hstep
      cases hstep
    | pollFails =>
      simp only [step, hpc] at hstep
      obtain rfl := Option.some.inj hstep
      rw [failures_afterByte] at hfail
      exact absurd hfail (Nat.succ_ne_self _)
    | pollTimeout =>
      cases call with
      | attach => exact absurd rfl hcall
      | again | recording | status =>
        simp only [step, hpc] at hstep
        cases hstep
    | signal | child => cases he
    | fork | setUp | test | poll | read | readFails | kill | reap | reapFails | recordReturns =>
      simp only [step, hpc] at hstep
      cases hstep
  | .reaping, some ch =>
    simp only [Sys.heldUp, hpc, hs, Bool.not_eq_true'] at hheld
    cases e with
    | reap =>
      simp only [step, hpc, hs] at hstep
      obtain ⟨ret, hret, -⟩ := Option.map_eq_some_iff.mp hstep
      rw [ended_of_waitStatus hret] at hheld
      cases hheld
    | reapFails =>
      simp only [step, hpc] at hstep
      obtain rfl := Option.some.inj hstep
      exact absurd hfail (Nat.succ_ne_self _)
    | signal | child => cases he
    | fork | setUp | test | poll | pollTimeout | pollReady | pollFails | read | readFails | kill | recordReturns =>
      simp only [step, hpc] at hstep
      cases hstep
  | .inProcess, some ch =>
    simp only [Sys.heldUp, hpc, hs] at hheld
    cases e with
    | recordReturns =>
      simp only [step, hpc, hs] at hstep
      split at hstep
      · rename_i ret hphase
        simp [hphase, ChildPhase.ended] at hheld
      · cases hstep
    | signal | child => cases he
    | fork | setUp | test | poll | pollTimeout | pollReady | pollFails | read | readFails | kill | reap | reapFails =>
      simp only [step, hpc] at hstep
      cases hstep
  | _, none => simp [Sys.heldUp, hs] at hheld
  | .start, some _ | .forked, some _ | .next _ .top, some _ | .next _ .tested, some _ | .next _ .reading, some _
  | .timedOut, some _ | .restarting, some _ | .reforked, some _ | .detaching _ _, some _ | .returned _, some _
  | .dead, some _ => simp [Sys.heldUp, hpc] at hheld

/-- Whatever the order of what parent, children and signals do: the parent makes at most 88 steps, and two more for
each signal it gets, so it never spins; and until it is at its end it can go on exactly when nothing holds it up. -/
theorem cmd_record_ends (c : RunConfig) (es : List Event) (s : Sys) (hrun : run c {} es = some s) :
    es.countP Event.parent ≤ 88 + 2 * es.countP Event.isSignal ∧
      (s.pc.over = false → (CanGoOn c s ↔ s.heldUp = false)) := by
  have hleft := left_run hrun
  have hstart : ({} : Sys).pc.left = 88 := rfl
  refine ⟨by omega, fun hover => ⟨fun hgo => ?_, canGoOn_of_free ((inv_start c).run hrun) hover⟩⟩
  by_contra hheld
  exact not_canGoOn_of_heldUp (Bool.eq_true_of_not_eq_false hheld) hgo

/-- The child dies while it records, and its `fentry_check` still waits for its hook. -/
def diedRecording : List Event :=
  [.fork true, .setUp, .child 0 .setHandlers, .child 0 .forksCheck, .child 0 .checkEnds, .test false, .poll,
    .child 0 .attached, .pollReady, .read, .test false, .poll, .child 0 .dies]

theorem cmd_record_after_death :
    (∃ s, run {} {} diedRecording = some s ∧ diedRecording.countP Event.parent ≤ 88 ∧ ¬CanGoOn {} s) ∧
      ∃ s, run {} {} (diedRecording ++ [.child 0 .checkEnds]) = some s ∧ CanGoOn {} s := by
  have hheld : (run {} {} diedRecording).map (fun s => (s.pc.over, s.heldUp)) = some (false, true) := by decide +kernel
  have hfree : (run {} {} (diedRecording ++ [.child 0 .checkEnds])).map (fun s => (s.pc.over, s.heldUp)) =
      some (false, false) := by decide +kernel
  obtain ⟨s, hs, heq⟩ := Option.map_eq_some_iff.mp hheld
  obtain ⟨t, ht, hteq⟩ := Option.map_eq_some_iff.mp hfree
  simp only [Prod.mk.injEq] at heq hteq
  have h := (cmd_record_ends {} diedRecording s hs).2 heq.1
  refine ⟨⟨s, hs, by decide, fun hgo => ?_⟩, t, ht, ((cmd_record_ends {} _ t ht).2 hteq.1).2 hteq.2⟩
  rw [h.1 hgo] at heq
  exact absurd heq.2 (by decide)

end Ntprof.Supervisor
