import Ntprof.PollLoop
import Ntprof.Proofs.SessionProofs
import Ntprof.Proofs.JoinAccountProofs

/-!
# How long a host record waits

Host records are given up in the interval branch of the loop only, while target records are joined as they
come. A host record that waits has seen no tick that gives up on it; so an overdue one is joined only if a
target record of its command comes before the first such tick.
-/

namespace Ntprof

/-! ## The loop as a session -/

theorem sessionSteps_append (s : Session) (es es' : List SessionEvent) : sessionSteps s (es ++ es') =
    ((sessionSteps (sessionSteps s es).1 es').1, (sessionSteps s es).2 ++ (sessionSteps (sessionSteps s es).1 es').2) := by
  induction es generalizing s with
  | nil => simp [sessionSteps]
  | cons e es ih => simp [sessionSteps, ih]

/-- What the loop does to the session is what its timeline does. -/
theorem recordLoop_eq_sessionSteps (interval : U64) (l : LoopState) (ps : List Poll) :
    ((recordLoop interval l ps).1.session, (recordLoop interval l ps).2) =
      sessionSteps l.session ((loopTimeline interval l.nextTick ps).map Prod.snd) := by
  induction ps generalizing l with
  | nil => rfl
  | cons p ps ih =>
    have hrecs : (p.records.map fun r => (r.1, SessionEvent.record r.2.1 r.2.2)).map Prod.snd = pollRecords p := by
      simp [pollRecords]
    rw [loopTimeline, List.map_append, hrecs, sessionSteps_append]
    simp only [recordLoop, loopTurn]
    split
    · rw [← ih { l with session := (sessionSteps l.session (pollRecords p)).1 }]
    · rw [List.map_cons, sessionSteps]
      have htick := ih { session := (intervalTick (sessionSteps l.session (pollRecords p)).1 p.now).1
                         nextTick := l.nextTick + interval }
      simp only [sessionStep, ← htick, List.append_assoc]

/-! ## The waiting records -/

/-- What an event of a session does to the plain joiner. -/
def PlainJoiner.session (p : PlainJoiner) : SessionEvent → PlainJoiner
  | .record (.hostSized h) _ => if h.hdr.kind = ntpRecHost then p.next (.hostArrives h) else p
  | .record (.tgtSized t) _ => if t.hdr.kind = ntpRecTarget then p.next (.targetArrives t) else p
  | .record .otherSized _ => p
  | .tick now => (p.next (.releaseHosts (now - hostWaitNs))).next (.expire (now - targetExpiryNs))

section Session

variable {s : Session} {j : Joiner} {p : PlainJoiner}

theorem saveRecord_joiner (s : Session) (writeFails : Bool) : (saveRecord s writeFails).joiner = s.joiner := by
  obtain ⟨n, hn⟩ := saveRecord_eq s writeFails
  rw [hn]

theorem addHosts_joiner (s : Session) (handed : Handed) : (addHosts s handed).joiner = s.joiner := by
  induction handed generalizing s with
  | nil => rfl
  | cons r handed ih => exact ih (addHost s r.1 r.2)

theorem onHostRecord_joiner (hj : s.joiner = some j) (h : HostRec) :
    (onHostRecord s h).1.joiner = some (ntpJoinerHostArrives j h).1 := by
  unfold onHostRecord
  simp only [hj]
  cases ntpJoinerHostArrives j h with
  | mk j' out => cases out <;> rfl

theorem onTargetRecord_eq (hj : s.joiner = some j) (t : TgtRec) :
    (onTargetRecord s t).1.joiner = some (ntpJoinerTargetArrives j t).1 ∧
      (onTargetRecord s t).2 = ((ntpJoinerTargetArrives j t).2.map fun h => (h, some t)).toList := by
  unfold onTargetRecord
  simp only [hj]
  cases ntpJoinerTargetArrives j t with
  | mk j' out => cases out <;> exact ⟨rfl, rfl⟩

theorem intervalTick_joiner (hj : s.joiner = some j) (now : U64) : (intervalTick s now).1.joiner =
    some (ntpJoinerExpire (ntpJoinerReleaseHosts j (now - hostWaitNs)).1 (now - targetExpiryNs)).1 := by
  simp only [intervalTick, releaseUnmatched, hj, addHosts_joiner, Option.map_some]

/-- The session's joiner does what the plain one does. -/
theorem JoinerRep.session (hrep : JoinerRep j p) (hj : s.joiner = some j) (e : SessionEvent) :
    ∃ j', (sessionStep s e).1.joiner = some j' ∧ JoinerRep j' (p.session e) := by
  cases e with
  | tick now =>
    have hrel := (hrep.releaseHosts (now - hostWaitNs)).1
    exact ⟨_, intervalTick_joiner hj now, (hrel.expire (now - targetExpiryNs)).1⟩
  | record data writeFails =>
    cases data with
    | hostSized h =>
      simp only [sessionStep, onRecord, PlainJoiner.session]
      split
      · exact ⟨_, (saveRecord_joiner ..).trans (onHostRecord_joiner hj h), (hrep.hostArrives h).1⟩
      · exact ⟨j, hj, hrep⟩
    | tgtSized t =>
      simp only [sessionStep, onRecord, PlainJoiner.session]
      split
      · exact ⟨_, (saveRecord_joiner ..).trans (onTargetRecord_eq hj t).1, (hrep.targetArrives t).1⟩
      · exact ⟨j, hj, hrep⟩
    | otherSized => exact ⟨j, hj, hrep⟩

/-! ## Nobody waits too long -/

/-- A tick that gives up on a record releases it. -/
theorem agingTs_lt_of_givesUp {now : U64} {h : HostRec} (hg : GivesUp now h) : agingTs h < now - hostWaitNs := by
  have hwait : hostWaitNs ≤ now := by
    rw [BitVec.le_def]
    unfold GivesUp at hg
    omega
  show h.ts .blkDone < now - hostWaitNs
  rw [BitVec.lt_def, BitVec.toNat_sub_of_le hwait]
  unfold GivesUp at hg
  omega

/-- Every waiting host record meets the condition for what is still to come. -/
def PlainJoiner.WaitsFor (p : PlainJoiner) (es : List (U64 × SessionEvent)) : Prop := ∀ h ∈ p.hosts, NoLateTarget h es

theorem PlainJoiner.WaitsFor.step {now : U64} {e : SessionEvent} {es : List (U64 × SessionEvent)}
    (hw : p.WaitsFor ((now, e) :: es)) (hn : NoneLate ((now, e) :: es)) : (p.session e).WaitsFor es := by
  intro h hh
  cases e with
  | tick tick =>
    obtain ⟨hmem, hkept⟩ := List.mem_filter.mp hh
    rcases hw h hmem with hg | hlater
    · -- the tick gave up on it
      rw [Bool.not_eq_true', decide_eq_false_iff_not] at hkept
      exact absurd (agingTs_lt_of_givesUp hg) hkept
    · exact hlater
  | record data writeFails =>
    cases data with
    | hostSized x =>
      simp only [PlainJoiner.session] at hh
      split at hh
      · rename_i hkind
        have hold : h ∈ p.hosts → NoLateTarget h es := fun hmem => hw h hmem
        simp only [PlainJoiner.next] at hh
        split at hh
        · exact hold hh
        · rcases mem_plainPush hh with hmem | rfl
          · exact hold hmem
          · exact hn.1 hkind
      · exact hw h hh
    | tgtSized t =>
      simp only [PlainJoiner.session] at hh
      split at hh
      · simp only [PlainJoiner.next] at hh
        split at hh
        · exact (hw h (List.mem_of_mem_eraseP hh)).2
        · exact (hw h hh).2
      · exact (hw h hh).2
    | otherSized => exact hw h hh

theorem PlainJoiner.WaitsFor.freshAt (hrep : JoinerRep j p) (hj : s.joiner = some j) {now : U64} {e : SessionEvent}
    {es : List (U64 × SessionEvent)} (hw : p.WaitsFor ((now, e) :: es)) : FreshAt s now e := by
  cases e with
  | tick tick => trivial
  | record data writeFails =>
    cases data with
    | hostSized x => trivial
    | otherSized => trivial
    | tgtSized t =>
      intro hkind
      refine ⟨fun h hmem => ?_, fun j' hj' h hmem hid => ?_⟩
      · simp only [onRecord, hkind, if_true] at hmem
        rw [(onTargetRecord_eq hj t).2, (hrep.targetArrives t).2] at hmem
        simp only [Option.mem_toList, Option.map_eq_some_iff, Prod.mk.injEq] at hmem
        obtain ⟨h', hfind, rfl, -⟩ := hmem
        obtain ⟨hmem, hid⟩ := plainFind_mem hfind
        exact (hw h' hmem).1 hkind (hid.symm)
      · rw [hj, Option.some.injEq] at hj'
        subst hj'
        exact (hw h (hrep.hosts.records.mem_iff.mp hmem)).1 hkind hid.symm

theorem PlainJoiner.WaitsFor.run {es : List (U64 × SessionEvent)} (hrep : JoinerRep j p) (hj : s.joiner = some j)
    (hw : p.WaitsFor es) (hn : NoneLate es) : AlwaysFresh s es := by
  induction es generalizing s j p with
  | nil => trivial
  | cons x es ih =>
    obtain ⟨now, e⟩ := x
    obtain ⟨j', hj', hrep'⟩ := hrep.session hj e
    refine ⟨hw.freshAt hrep hj, ih hrep' hj' (hw.step hn) ?_⟩
    cases e with
    | tick tick => exact hn
    | record data writeFails =>
      cases data with
      | hostSized h => exact hn.2
      | tgtSized t => exact hn
      | otherSized => exact hn

end Session

/-- In a run of the loop in which no target record comes late for a host record before it, no overdue host
record waits for a target record that is processed, nor is joined with it. -/
theorem no_overdue_join (c : SessionConfig) (writing : Bool) (intervalS : U32) (start : U64) (ps : List Poll)
    (hn : NoneLate (loopTimeline (intervalNs intervalS) (start + intervalNs intervalS) ps)) :
    AlwaysFresh (sessionBoth c writing) (loopTimeline (intervalNs intervalS) (start + intervalNs intervalS) ps) := by
  have hempty : (PlainJoiner.new targetsPerKey).WaitsFor
      (loopTimeline (intervalNs intervalS) (start + intervalNs intervalS) ps) :=
    fun h hh => absurd hh List.not_mem_nil
  exact hempty.run (joinerRep_new targetsPerKey) rfl hn

/-! ### A target record that comes late -/

/-- A host record that completed at 1.05 s. -/
def waitingHost : HostRec :=
  { hdr := { kind := ntpRecHost, transport := ntpTrTcp }
    id := { cntlid := 1, qid := 1, cid := 7, nsid := 1, opcode := ntpNvmeCmdRead, nlb := 7, slba := 8 }
    ts := Function.update (fun _ => 0) .blkDone 1050000000 }

/-- A target record of another command with the same cid and block address. -/
def lateTarget : TgtRec := { hdr := { kind := ntpRecTarget, transport := ntpTrTcp }, id := waitingHost.id }

/-- The loop started at 1 s and polls every 100 ms; the host record comes in the first poll. -/
def hostPolls (n : Nat) : List Poll :=
  { records := [(1080000000, .hostSized waitingHost, false)], now := 1100000000 } ::
    (List.range n).map fun k => { records := [], now := 1200000000 + 100000000 * BitVec.ofNat 64 k }

/-- The target record comes at 2.05 s, after the first tick. -/
def ticked : List Poll :=
  hostPolls 9 ++ [{ records := [(2050000000, .tgtSized lateTarget, false)], now := 2100000000 }]

/-- The target record comes at 1.85 s, before the first tick. -/
def notTicked : List Poll :=
  hostPolls 7 ++ [{ records := [(1850000000, .tgtSized lateTarget, false)], now := 1900000000 }]

theorem timeline_ticked : loopTimeline (intervalNs 1) (1000000000 + intervalNs 1) ticked =
    [(1080000000, .record (.hostSized waitingHost) false), (2000000000, .tick 2000000000),
      (2050000000, .record (.tgtSized lateTarget) false)] := by
  rfl

theorem timeline_notTicked : loopTimeline (intervalNs 1) (1000000000 + intervalNs 1) notTicked =
    [(1080000000, .record (.hostSized waitingHost) false), (1850000000, .record (.tgtSized lateTarget) false)] := by
  rfl

theorem no_overdue_join_ticked :
    NoneLate (loopTimeline (intervalNs 1) (1000000000 + intervalNs 1) ticked) ∧
    AlwaysFresh (sessionBoth ⟨true, true, false, 1⟩ false)
      (loopTimeline (intervalNs 1) (1000000000 + intervalNs 1) ticked) := by
  have hn : NoneLate (loopTimeline (intervalNs 1) (1000000000 + intervalNs 1) ticked) := by
    rw [timeline_ticked]
    exact ⟨fun _ => Or.inl (by decide), trivial⟩
  exact ⟨hn, no_overdue_join ⟨true, true, false, 1⟩ false 1 1000000000 ticked hn⟩

/-- With an interval of 1 s the host record still waits after 0.8 s, and is joined. -/
theorem overdue_host_joined :
    Punctual 1000000000 notTicked ∧
    ¬ AlwaysFresh (sessionBoth ⟨true, true, false, 1⟩ false)
      (loopTimeline (intervalNs 1) (1000000000 + intervalNs 1) notTicked) := by
  refine ⟨by decide, ?_⟩
  rw [timeline_notTicked]
  rintro ⟨-, hfresh, -⟩
  obtain ⟨j, hj, hrep⟩ := (joinerRep_new targetsPerKey).session (s := sessionBoth ⟨true, true, false, 1⟩ false) rfl
    (.record (.hostSized waitingHost) false)
  have hfind : plainFind ((PlainJoiner.new targetsPerKey).session (.record (.hostSized waitingHost) false)).hosts
      lateTarget.id = some waitingHost := by rfl
  refine (hfresh rfl).1 waitingHost ?_ (by decide)
  show (waitingHost, some lateTarget) ∈ (onTargetRecord (sessionStep (sessionBoth ⟨true, true, false, 1⟩ false)
    (.record (.hostSized waitingHost) false)).1 lateTarget).2
  rw [(onTargetRecord_eq hj lateTarget).2, (hrep.targetArrives lateTarget).2, hfind]
  exact List.mem_singleton_self _

end Ntprof
