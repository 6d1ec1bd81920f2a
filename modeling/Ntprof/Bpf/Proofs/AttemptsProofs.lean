import Ntprof.Bpf.Attempts
import Ntprof.Bpf.Proofs.AccountingProofs

/-!
# Host records never mix two attempts, in an orderly run

An open record carries the id of its request's last attempt, and what was written into it came after
that. A later attempt that starts no record would break the first half; the record must start anew.
-/

namespace Ntprof.Bpf

/-- The entry `e` of slot `i`, if a record is open in it, is that of the last attempt of its request. -/
structure LastAttempt (last : U64 → Option Attempt) (events : ℕ) (i : Slot) (e : HostEntry)
    (writer : HostTs → ℕ) : Prop where
  slot : ntpSlot e.rq = i
  attempt : ∃ n ≤ events, last e.rq = some ⟨n, some e.record.id⟩ ∧
    ∀ t : HostTs, afterSetup t → e.record.ts t ≠ 0 → n < writer t

/-- What holds between the slots and the attempts of an orderly run. -/
structure AttemptsInv (s : HostState) (m : Attempts) : Prop where
  slots : ∀ i, s.owner i ≠ 0 → LastAttempt m.last m.events i (s.reqs i) (m.writer i)
  unmixed : m.Unmixed

/-- What an event writes is later than every attempt before it. -/
theorem tsWriters_lt {old new : HostRec} {writer : HostTs → ℕ} {n k : ℕ} {t : HostTs} (hk : n < k)
    (h : old.ts t ≠ 0 → n < writer t) (hne : new.ts t ≠ 0) : n < tsWriters old new writer k t := by
  unfold tsWriters
  split
  · rename_i heq
    exact h (heq ▸ hne)
  · exact hk

section Next

variable {m : Attempts} {s s' : HostState} {e : HostEvent}

@[simp]
theorem attempts_arrive_writer (m : Attempts) (e : HostEvent) : (m.arrive e).writer = m.writer := by
  cases e <;> rfl

@[simp]
theorem attempts_arrive_emitted (m : Attempts) (e : HostEvent) : (m.arrive e).emitted = m.emitted := by
  cases e <;> rfl

@[simp]
theorem attempts_arrive_events (m : Attempts) (e : HostEvent) : (m.arrive e).events = m.events := by
  cases e <;> rfl

theorem attempts_next_events : (m.next s s' e).events = m.events + 1 := by
  simp [Attempts.next]

theorem attempts_next_writer (i : Slot) :
    (m.next s s' e).writer i =
      tsWriters (s.reqs i).record (s'.reqs i).record (m.writer i) (m.events + 1) := by
  simp [Attempts.next]

theorem attempts_next_emitted_same (h : s'.events = s.events) :
    (m.next s s' e).emitted = m.emitted := by
  simp [Attempts.next, h]

theorem attempts_next_emitted_append {r : HostRec} (h : s'.events = s.events ++ [r]) :
    (m.next s s' e).emitted = m.emitted ++ [⟨r, (m.arrive e).last e.ends,
      tsWriters (s.reqs (ntpSlot e.ends)).record r (m.writer (ntpSlot e.ends)) (m.events + 1)⟩] := by
  simp [Attempts.next, h]

theorem attempts_unmixed_same (h : m.Unmixed) (he : s'.events = s.events) :
    (m.next s s' e).Unmixed := by
  unfold Attempts.Unmixed
  rw [attempts_next_emitted_same he]
  exact h

end Next

section Steps

variable {tr : Transport} {f : Filter} {m : Attempts} {s s₁ s' : HostState} {e : HostEvent} {i : Slot}

/-- A slot whose record was at most written to, by an event that is no attempt of its request. -/
theorem LastAttempt.next {en en' : HostEntry} (h : LastAttempt m.last m.events i en (m.writer i))
    (hrq : en'.rq = en.rq) (hid : en'.record.id = en.record.id)
    (hlast : (m.arrive e).last en.rq = m.last en.rq) :
    LastAttempt (m.arrive e).last (m.events + 1) i en'
      (tsWriters en.record en'.record (m.writer i) (m.events + 1)) := by
  obtain ⟨n, hn, hl, hw⟩ := h.attempt
  refine ⟨by rw [hrq]; exact h.slot, n, by omega, ?_, fun t ht hne => ?_⟩
  · rw [hrq, hid, hlast]
    exact hl
  · exact tsWriters_lt (by omega) (hw t ht) hne

/-- A hook that starts and ends no record, at an event that is no attempt of an open one's request. -/
theorem AttemptsInv.touched (h : AttemptsInv s m) (ht : HostTouched s s')
    (hlast : ∀ i, s.owner i ≠ 0 → (m.arrive e).last (s.owner i) = m.last (s.owner i)) :
    AttemptsInv s' (m.next s s' e) where
  slots i hi := by
    rw [ht.owner] at hi
    rw [attempts_next_events, attempts_next_writer]
    exact (h.slots i hi).next (ht.rq i) (ht.id i) (hlast i hi)
  unmixed := attempts_unmixed_same h.unmixed ht.events

/-- `block_rq_complete` ends a record. -/
theorem AttemptsInv.finished {env : HookEnv} {rq : KAddr} (h : AttemptsInv s m)
    (hf : HostFinished rq env.rbFull (doneRec tr env (s.reqs (ntpSlot rq)).record) s s') :
    AttemptsInv s' (m.next s s' (.blkDone env rq)) := by
  have hown : (s.reqs (ntpSlot rq)).rq = rq := hf.isOpen
  refine ⟨fun i hi => ?_, ?_⟩
  · by_cases hs : i = ntpSlot rq
    · exact absurd (hs ▸ hf.freed) hi
    · have hsame := hf.other i hs
      rw [HostState.owner, hsame] at hi
      rw [attempts_next_events, attempts_next_writer, hsame]
      exact (h.slots i hi).next rfl rfl rfl
  · cases hfull : env.rbFull with
    | true => exact attempts_unmixed_same h.unmixed (by simpa [hfull] using hf.events)
    | false =>
      obtain ⟨n, hn, hl, hw⟩ := (h.slots (ntpSlot rq) (by rw [HostState.owner, hown]; exact rq.2)).attempt
      intro p hp
      rw [attempts_next_emitted_append (by simpa [hfull] using hf.events), List.mem_append,
        List.mem_singleton] at hp
      rcases hp with hp | rfl
      · exact h.unmixed p hp
      · refine ⟨n, ?_, fun t ht hne => ?_⟩
        · rw [hown] at hl
          rw [doneRec_id]
          exact hl
        · exact tsWriters_lt (by omega) (hw t ht) hne

theorem newHostRec_ts {env : HookEnv} {a : SetupArgs} {c : NvmeCmd} {p : Pending} {t : HostTs}
    (ht : afterSetup t) : (newHostRec tr f env a c p).ts t = 0 := by
  cases t <;> first | rfl | cases ht

/-- `nvme_setup_cmd` starts a record, in place of any in its slot. -/
theorem AttemptsInv.stored {env : HookEnv} {a : SetupArgs} {c : NvmeCmd} {p : Pending}
    (h : AttemptsInv s m) (ht : HostTouched s s₁) (hc : a.cmd = some c)
    (hs : HostStored a.rq (newHostRec tr f env a c p) s₁ s') :
    AttemptsInv s' (m.next s s' (.setupCmd env a)) := by
  refine ⟨fun i hi => ?_, attempts_unmixed_same h.unmixed (hs.events.trans ht.events)⟩
  by_cases hslot : i = ntpSlot a.rq
  · subst hslot
    refine ⟨by rw [hs.own], m.events + 1, le_of_eq attempts_next_events.symm, ?_, fun t hat hne => ?_⟩
    · rw [hs.own, hs.record]
      have hlast : (m.next s s' (.setupCmd env a)).last a.rq = some ⟨m.events + 1, a.cmd.map a.id⟩ :=
        Function.update_self ..
      rw [hlast, hc]
      rfl
    · rw [hs.record, newHostRec_ts hat] at hne
      exact absurd rfl hne
  · have hsame := hs.other i hslot
    rw [HostState.owner, hsame] at hi
    have hi' : s.owner i ≠ 0 := ht.owner ▸ hi
    have hne : s.owner i ≠ a.rq := by
      intro heq
      have hrq : (s.reqs i).rq = a.rq := heq
      exact hslot (hrq ▸ (h.slots i hi').slot).symm
    rw [attempts_next_events, attempts_next_writer, hsame]
    exact (h.slots i hi').next (ht.rq i) (ht.id i) (Function.update_of_ne hne ..)

/-- `nvme_setup_cmd` starts no record, on a request without an open one. -/
theorem AttemptsInv.unsampled {env : HookEnv} {a : SetupArgs} (h : AttemptsInv s m)
    (ht : HostTouched s s') (hopen : (s.reqs (ntpSlot a.rq)).rq ≠ a.rq) :
    AttemptsInv s' (m.next s s' (.setupCmd env a)) := by
  refine h.touched ht fun i hi => Function.update_of_ne (fun heq => hopen ?_) ..
  have hslot := (h.slots i hi).slot
  have hrq : (s.reqs i).rq = a.rq := heq
  rw [hrq] at hslot
  rw [hslot, hrq]

end Steps

section Run

variable {tr : Transport} {k : Layout} {f : Filter} {m : Attempts} {s : HostState} {e : HostEvent}

theorem AttemptsInv.step (h : AttemptsInv s m) (ho : e.Orderly tr f s) :
    AttemptsInv (hostStep tr k f s e) (m.next s (hostStep tr k f s e) e) := by
  cases e with
  | arm on => exact h.touched (.of_eq rfl rfl rfl) fun _ _ => rfl
  | setupCmd env a =>
    cases hst : setupStores tr f s env a with
    | false =>
      refine h.unsampled (effect_ntpHSetupCmd_unsampled hst) fun hopen => ?_
      rw [ho env a rfl hopen] at hst
      cases hst
    | true =>
      obtain ⟨s₁, c, p, ht, hc, hs⟩ := effect_ntpHSetupCmd_sampled hst
      exact h.stored ht hc hs
  | nvmeDone env rq => exact h.touched (hostTouched_ntpHNvmeDone rq) fun _ _ => rfl
  | blkDone env rq =>
    rcases effect_ntpHBlkDone tr s env rq with heq | hf
    · rw [hostStep, heq]
      exact h.touched (.refl s) fun _ _ => rfl
    · exact h.finished hf
  | tcp env e =>
    refine h.touched ?_ fun _ _ => rfl
    simp only [hostStep]
    split
    · exact hostTouched_tcp e
    · exact .refl s
  | rdma env e =>
    refine h.touched ?_ fun _ _ => rfl
    simp only [hostStep]
    split
    · exact hostTouched_rdma e
    · exact .refl s

theorem AttemptsInv.run {es : List HostEvent} (h : AttemptsInv s m) (ho : OrderlyHostRun tr k f s es) :
    AttemptsInv (attemptsRun tr k f (s, m) es).1 (attemptsRun tr k f (s, m) es).2 := by
  induction es generalizing s m with
  | nil => exact h
  | cons e es ih => exact ih (h.step ho.1) ho.2

/-- In every orderly run of a host object, each record on the ring buffer carries the id of its request's
last attempt and was written after that attempt was set up. -/
theorem orderly_host_run_unmixed (tr : Transport) (k : Layout) (f : Filter) (es : List HostEvent)
    (ho : OrderlyHostRun tr k f {} es) : (attemptsRun tr k f ({}, {}) es).2.Unmixed :=
  AttemptsInv.unmixed
    (AttemptsInv.run ⟨fun _ hi => absurd rfl hi, fun _ hp => absurd hp List.not_mem_nil⟩ ho)

/-! ### A request that is set up twice -/

/-- The request of the examples. -/
def someRq : KAddr := ⟨0x1000#64, by decide⟩

/-- The layout of the examples. -/
def someLayout : Layout := { requestSize := 0x100, sqeOffset := 0 }

/-- An `nvme_setup_cmd` for a read over NVMe/TCP. -/
def setupRead (cid : U16) : SetupArgs := { rq := someRq, tcpQueue := 0x500, cmd := some (readCmd cid) }

/-- Set up with one cid, sent, set up again with another cid, and completed. -/
def retriedRun (cid cid' : U16) : List HostEvent :=
  [.arm true, .setupCmd (hookAt 1) (setupRead cid), .tcp (hookAt 2) (.sendFx 0x1100 1 true false),
    .setupCmd (hookAt 3) (setupRead cid'), .blkDone (hookAt 4) someRq]

theorem orderlyHostRun_retried : OrderlyHostRun .tcp someLayout {} {} (retriedRun 6 1) := by
  have hsetup : ∀ (s : HostState) (env : HookEnv) (a : SetupArgs), setupStores .tcp {} s env a = true →
      (HostEvent.setupCmd env a).Orderly .tcp {} s := by
    intro s env a hst env' a' heq _
    cases heq
    exact hst
  refine ⟨?_, hsetup _ _ _ (by decide +kernel), ?_, hsetup _ _ _ (by decide +kernel), ?_, trivial⟩
  all_goals exact fun env a heq => nomatch heq

theorem orderly_host_run_unmixed_retried :
    OrderlyHostRun .tcp someLayout {} {} (retriedRun 6 1) ∧
      ((attemptsRun .tcp someLayout {} ({}, {}) (retriedRun 6 1)).1.events.map fun r => r.id.cid) = [1] ∧
      (attemptsRun .tcp someLayout {} ({}, {}) (retriedRun 6 1)).2.Unmixed :=
  ⟨orderlyHostRun_retried, by decide +kernel,
    orderly_host_run_unmixed .tcp someLayout {} (retriedRun 6 1) orderlyHostRun_retried⟩

/-- One command in two is sampled: cid 6 is and cid 1 is not, so the record of the first attempt stays in
its slot and is emitted as if it were that of the second one. -/
theorem unsampled_retry_mixes :
    ¬ (attemptsRun .tcp someLayout { sampleEvery := 2 } ({}, {}) (retriedRun 6 1)).2.Unmixed := by
  have hem : ((attemptsRun .tcp someLayout { sampleEvery := 2 } ({}, {}) (retriedRun 6 1)).2.emitted.map
      fun p => (p.record.id.cid, p.last.bind fun l => l.id.map CmdId.cid)) = [(6, some 1)] := by
    decide +kernel
  intro h
  obtain ⟨p, hp, hp'⟩ := List.map_eq_singleton_iff.mp hem
  simp only [Prod.mk.injEq] at hp'
  obtain ⟨n, hlast, -⟩ := h p (by rw [hp]; exact List.mem_singleton_self p)
  rw [hlast] at hp'
  obtain ⟨hcid, hcid'⟩ := hp'
  simp only [Option.bind_some, Option.map_some, Option.some.injEq, hcid] at hcid'
  exact absurd hcid' (by decide)

end Run

end Ntprof.Bpf
