import Ntprof.Session
import Ntprof.Proofs.JoinProofs
import Ntprof.Proofs.StatsProofs
import Ntprof.Proofs.OfflineProofs

/-!
# No host record is lost, unless a key is full

Every host record a session accepts is handed to the statistics, waits, or was pushed out by the bound
of the joiner. The last does not reach the statistics: it happens when a host record finds no target
record and as many host records as the bound already wait under its key.
-/

namespace Ntprof

open KeyedList

/-! ## What a push drops -/

section Push

variable {α : Type} [Waiting α]

/-- The record that makes room for `r`. -/
def plainEvicted (l : List α) (r : α) (maxPerKey : Nat) : List α :=
  if maxPerKey ≠ 0 ∧ (under waitKey (waitKey r) l).length = maxPerKey then
    (l.find? fun x => waitKey x = waitKey r).toList
  else []

theorem perm_plainPush (l : List α) (r : α) (maxPerKey : Nat) :
    List.Perm (l ++ [r]) ((plainPush l r maxPerKey).1 ++ plainEvicted l r maxPerKey) := by
  unfold plainPush plainEvicted
  split_ifs with h
  · have hp := perm_find?_eraseP (fun x => decide (waitKey x = waitKey r)) l
    refine (hp.append_right [r]).trans ?_
    rw [List.append_assoc]
    exact List.perm_append_comm
  · simp

/-- Something is dropped exactly when the key is full. -/
theorem plainEvicted_eq_nil {l : List α} {r : α} {maxPerKey : Nat} (hm : maxPerKey ≠ 0) :
    plainEvicted l r maxPerKey = [] ↔ (under packedKey (packedKey r) l).length ≠ maxPerKey := by
  unfold plainEvicted
  rw [under_waitKey]
  constructor
  · intro h hfull
    rw [if_pos ⟨hm, hfull⟩] at h
    -- the key holds a record, so one is found
    have hpos : 0 < (under packedKey (packedKey r) l).length := by omega
    obtain ⟨x, hx⟩ := List.exists_mem_of_length_pos hpos
    obtain ⟨hxl, hxk⟩ := (mem_under packedKey).1 hx
    have hnone : (l.find? fun x => decide (waitKey x = waitKey r)) = none := by
      cases hf : l.find? fun x => decide (waitKey x = waitKey r) with
      | none => rfl
      | some y => simp [hf] at h
    have := List.find?_eq_none.1 hnone x hxl
    exact this (by simpa using packedKey_eq_iff.1 hxk)
  · intro h
    exact if_neg fun hm' => h hm'.2

end Push

/-! ## When a session loses a record -/

/-- A host record arrives, its target record does not wait, and `TARGETS_PER_KEY` host records wait
under its key. -/
def HostOverflow (s : Session) : SessionEvent → Prop
  | .record (.hostSized h) _ =>
    h.hdr.kind = ntpRecHost ∧ ∃ j, s.joiner = some j ∧ (tableTake j.targets h.id).2 = none ∧
      j.hosts.held (keyOf h.id) = targetsPerKey
  | _ => False

/-- No host record of the session arrives at a full key. -/
def NeverFull (s : Session) : List SessionEvent → Prop
  | [] => True
  | e :: es => ¬ HostOverflow s e ∧ NeverFull (sessionStep s e).1 es

/-- Where the accepted host records are, and what the statistics have seen. -/
structure SessionInv (init : Stats) (s : Session) (p : PlainJoiner) (handed : Handed)
    (evicted hosts : List HostRec) (targets : List TgtRec) : Prop where
  joiner : ∃ j, s.joiner = some j ∧ JoinerRep j p
  bound : p.maxPerKey = targetsPerKey
  accounted : List.Perm hosts (handed.map Prod.fst ++ p.hosts ++ evicted)
  waiting : ∀ t ∈ p.targets, t ∈ targets
  own : ∀ h t, (h, some t) ∈ handed → t.id = h.id ∧ t ∈ targets
  total : s.total = statsRun init handed
  count : s.hostRecords = hosts.length

section Steps

variable {init : Stats} {s : Session} {p : PlainJoiner} {handed : Handed}
  {evicted hosts : List HostRec} {targets : List TgtRec}

theorem statsRun_append (s : Stats) (l l' : Handed) : statsRun s (l ++ l') = statsRun (statsRun s l) l' :=
  List.foldl_append

theorem saveRecord_eq (s : Session) (f : Bool) : ∃ n, saveRecord s f = { s with writeErrors := n } := by
  unfold saveRecord
  split_ifs
  · exact ⟨_, rfl⟩
  · exact ⟨s.writeErrors, rfl⟩

/-- What is saved to the file and counted as malformed does not matter here. -/
theorem SessionInv.congr (h : SessionInv init s p handed evicted hosts targets) {s' : Session}
    (hj : s'.joiner = s.joiner) (ht : s'.total = s.total) (hc : s'.hostRecords = s.hostRecords) :
    SessionInv init s' p handed evicted hosts targets :=
  ⟨by rw [hj]; exact h.joiner, h.bound, h.accounted, h.waiting, h.own, by rw [ht]; exact h.total,
    by rw [hc]; exact h.count⟩

theorem plainFind_mem {α : Type} [Waiting α] {l : List α} {id : CmdId} {r : α}
    (h : plainFind l id = some r) : r ∈ l ∧ idOf r = id :=
  ⟨List.mem_of_find?_eq_some h, by simpa using List.find?_some h⟩

/-- A host record arrives. -/
theorem SessionInv.hostRecord (h : SessionInv init s p handed evicted hosts targets) (x : HostRec) :
    ∃ p' ev, SessionInv init (onHostRecord s x).1 p' (handed ++ (onHostRecord s x).2) (evicted ++ ev)
        (hosts ++ [x]) targets ∧
      (ev = [] ↔ ¬ ∃ j, s.joiner = some j ∧ (tableTake j.targets x.id).2 = none ∧
        j.hosts.held (keyOf x.id) = targetsPerKey) := by
  obtain ⟨j, hj, hrep⟩ := h.joiner
  obtain ⟨hrep', hout⟩ := hrep.hostArrives x
  have htake := (hrep.targets.take x.id).2
  have hheld := hrep.hosts.held (keyOf x.id)
  have hb' : (p.next (.hostArrives x)).maxPerKey = targetsPerKey :=
    (plainStep_maxPerKey p (.hostArrives x)).trans h.bound
  have hcond : (∃ j, s.joiner = some j ∧ (tableTake j.targets x.id).2 = none ∧
      j.hosts.held (keyOf x.id) = targetsPerKey) ↔
        plainFind p.targets x.id = none ∧
          (under packedKey (packedKey x) p.hosts).length = targetsPerKey := by
    constructor
    · rintro ⟨j', hj', ht, hh⟩
      rw [hj, Option.some.injEq] at hj'
      subst hj'
      exact ⟨htake.symm.trans ht, hheld.symm.trans hh⟩
    · rintro ⟨ht, hh⟩
      exact ⟨j, hj, htake.trans ht, hheld.trans hh⟩
  rw [hcond]
  unfold onHostRecord
  simp only [hj]
  cases harr : ntpJoinerHostArrives j x with
  | mk j' out =>
    rw [harr] at hrep' hout
    cases out with
    | some t =>
      have hfind : plainFind p.targets x.id = some t := hout.symm
      obtain ⟨htm, htid⟩ := plainFind_mem hfind
      have hnext : p.next (.hostArrives x) = p.takeTarget x := by simp [PlainJoiner.next, hfind]
      rw [hnext] at hrep' hb'
      refine ⟨p.takeTarget x, [], ⟨⟨j', rfl, hrep'⟩, hb', ?_, ?_, ?_, ?_, ?_⟩, by simp [hfind]⟩
      · simp only [List.map_append, List.map_cons, List.map_nil, List.append_nil]
        refine (h.accounted.append_right [x]).trans ?_
        simp only [List.append_assoc]
        refine List.Perm.append_left _ ?_
        simp only [PlainJoiner.takeTarget]
        rw [← List.append_assoc]
        exact List.perm_append_comm
      · exact fun t' ht' => h.waiting t' (List.mem_of_mem_eraseP ht')
      · intro a b hab
        rcases List.mem_append.1 hab with hab | hab
        · exact h.own a b hab
        · simp only [List.mem_singleton, Prod.mk.injEq, Option.some.injEq] at hab
          obtain ⟨rfl, rfl⟩ := hab
          exact ⟨htid, h.waiting b htm⟩
      · rw [statsRun_append, ← h.total]
        rfl
      · simp [addHost, h.count]
    | none =>
      have hfind : plainFind p.targets x.id = none := hout.symm
      have hnext : p.next (.hostArrives x) = p.addHost x := by simp [PlainJoiner.next, hfind]
      rw [hnext] at hrep' hb'
      refine ⟨p.addHost x, plainEvicted p.hosts x p.maxPerKey,
        ⟨⟨j', rfl, hrep'⟩, hb', ?_, h.waiting, by simpa using h.own, by simpa using h.total, ?_⟩, ?_⟩
      · have hpush := perm_plainPush p.hosts x p.maxPerKey
        refine (h.accounted.append_right [x]).trans ?_
        simp only [List.append_nil, List.append_assoc]
        refine List.Perm.append_left _ ?_
        refine (List.Perm.append_left _ List.perm_append_comm).trans ?_
        rw [← List.append_assoc, ← List.append_assoc]
        refine (hpush.append_right _).trans ?_
        rw [List.append_assoc, List.append_assoc]
        exact List.Perm.append_left _ List.perm_append_comm
      · simp [h.count]
      · rw [plainEvicted_eq_nil (by rw [h.bound]; decide), h.bound]
        simp [hfind]

/-- A target record arrives. -/
theorem SessionInv.targetRecord (h : SessionInv init s p handed evicted hosts targets) (x : TgtRec) :
    ∃ p', SessionInv init (onTargetRecord s x).1 p' (handed ++ (onTargetRecord s x).2) evicted
      hosts (targets ++ [x]) := by
  obtain ⟨j, hj, hrep⟩ := h.joiner
  obtain ⟨hrep', hout⟩ := hrep.targetArrives x
  have hb' : (p.next (.targetArrives x)).maxPerKey = targetsPerKey :=
    (plainStep_maxPerKey p (.targetArrives x)).trans h.bound
  have hwait : ∀ t ∈ p.targets, t ∈ targets ++ [x] := fun t ht =>
    List.mem_append_left _ (h.waiting t ht)
  have hown : ∀ a b, (a, some b) ∈ handed → b.id = a.id ∧ b ∈ targets ++ [x] := fun a b hab =>
    (h.own a b hab).imp_right (List.mem_append_left _)
  unfold onTargetRecord
  simp only [hj]
  cases harr : ntpJoinerTargetArrives j x with
  | mk j' out =>
    rw [harr] at hrep' hout
    cases out with
    | some y =>
      have hfind : plainFind p.hosts x.id = some y := hout.symm
      obtain ⟨hym, hyid⟩ := plainFind_mem hfind
      have hnext : p.next (.targetArrives x) = p.takeHost x := by simp [PlainJoiner.next, hfind]
      rw [hnext] at hrep' hb'
      refine ⟨p.takeHost x, ⟨j', rfl, hrep'⟩, hb', ?_, hwait, ?_, ?_, by simp [addHost, h.count]⟩
      · have htake := perm_find?_eraseP (fun r => decide (idOf r = x.id)) p.hosts
        have hf : (p.hosts.find? fun r => decide (idOf r = x.id)) = some y := hfind
        rw [hf] at htake
        refine h.accounted.trans ?_
        simp only [List.map_append, List.map_cons, List.map_nil, List.append_assoc]
        refine List.Perm.append_left _ ?_
        exact htake.append_right evicted
      · intro a b hab
        rcases List.mem_append.1 hab with hab | hab
        · exact hown a b hab
        · simp only [List.mem_singleton, Prod.mk.injEq, Option.some.injEq] at hab
          obtain ⟨rfl, rfl⟩ := hab
          exact ⟨hyid.symm, List.mem_append_right _ (List.mem_singleton_self b)⟩
      · rw [statsRun_append, ← h.total]
        rfl
    | none =>
      have hfind : plainFind p.hosts x.id = none := hout.symm
      have hnext : p.next (.targetArrives x) = p.addTarget x := by simp [PlainJoiner.next, hfind]
      rw [hnext] at hrep' hb'
      refine ⟨p.addTarget x, ⟨j', rfl, hrep'⟩, hb', ?_, ?_, by simpa using hown,
        by simpa using h.total, h.count⟩
      · simpa [PlainJoiner.addTarget] using h.accounted
      · intro t ht
        have hpush := perm_plainPush p.targets x p.maxPerKey
        have hm : t ∈ p.targets ++ [x] := hpush.mem_iff.2 (List.mem_append_left _ ht)
        rcases List.mem_append.1 hm with hm | hm
        · exact hwait t hm
        · exact List.mem_append_right _ hm

/-- Host records are given up. -/
theorem SessionInv.release (h : SessionInv init s p handed evicted hosts targets) (b : U64) :
    SessionInv init (releaseUnmatched s b).1 (p.next (.releaseHosts b))
      (handed ++ (releaseUnmatched s b).2) evicted hosts targets := by
  obtain ⟨j, hj, hrep⟩ := h.joiner
  obtain ⟨hrep', hgone, -⟩ := hrep.releaseHosts b
  have hrel := perm_of_under packedKey hgone
  have hadd : ∀ (l : Handed) (s : Session), (addHosts s l).joiner = s.joiner ∧
      (addHosts s l).total = statsRun s.total l ∧ (addHosts s l).hostRecords = s.hostRecords := by
    intro l
    induction l with
    | nil => exact fun s => ⟨rfl, rfl, rfl⟩
    | cons r l ih => exact fun s => ih (addHost s r.1 r.2)
  unfold releaseUnmatched
  simp only [hj]
  obtain ⟨ha1, ha2, ha3⟩ := hadd ((ntpJoinerReleaseHosts j b).2.1.map fun h => (h, none))
    { s with joiner := some (ntpJoinerReleaseHosts j b).1 }
  refine ⟨⟨_, ha1, hrep'⟩, h.bound, ?_, h.waiting, ?_, ?_, ha3.trans h.count⟩
  · refine h.accounted.trans ?_
    simp only [List.map_append, List.map_map, List.append_assoc]
    refine List.Perm.append_left _ ?_
    rw [← List.append_assoc]
    refine List.Perm.append_right _ ?_
    have hid : (ntpJoinerReleaseHosts j b).2.1.map (Prod.fst ∘ fun h : HostRec => (h, (none : Option TgtRec))) =
        (ntpJoinerReleaseHosts j b).2.1 := List.map_id _
    rw [hid]
    exact (List.filter_append_perm _ p.hosts).symm.trans (hrel.symm.append_right _)
  · intro a t hab
    rcases List.mem_append.1 hab with hab | hab
    · exact h.own a t hab
    · simp at hab
  · rw [ha2, statsRun_append, ← h.total]

theorem SessionInv.tick (h : SessionInv init s p handed evicted hosts targets) (now : U64) :
    ∃ p', SessionInv init (intervalTick s now).1 p' (handed ++ (intervalTick s now).2) evicted
      hosts targets := by
  have hr := h.release (now - hostWaitNs)
  obtain ⟨j, hj, hrep⟩ := hr.joiner
  obtain ⟨hrep', -⟩ := hrep.expire (now - targetExpiryNs)
  refine ⟨_, ⟨_, ?_, hrep'⟩, hr.bound, hr.accounted, ?_, hr.own, hr.total, hr.count⟩
  · simp [intervalTick, hj]
  · exact fun t ht => hr.waiting t (List.mem_filter.1 ht).1

/-- One event keeps account of the host records, and pushes one out exactly when it arrives at a full
key. -/
theorem SessionInv.step (h : SessionInv init s p handed evicted hosts targets) (e : SessionEvent) :
    ∃ p' ev, SessionInv init (sessionStep s e).1 p' (handed ++ (sessionStep s e).2) (evicted ++ ev)
        (hosts ++ acceptedHosts [e]) (targets ++ acceptedTargets [e]) ∧
      (ev = [] ↔ ¬ HostOverflow s e) := by
  -- an event that is no accepted host record pushes nothing out
  have quiet : ∀ {s' : Session} {handed' : Handed} {targets' : List TgtRec},
      (∃ p', SessionInv init s' p' handed' evicted hosts targets') →
      ∃ p' ev, SessionInv init s' p' handed' (evicted ++ ev) (hosts ++ []) targets' ∧
        (ev = [] ↔ ¬ False) := by
    rintro s' handed' targets' ⟨p', hp'⟩
    exact ⟨p', [], by simpa using hp', by simp⟩
  have malformed : SessionInv init { s with malformed := s.malformed + 1 } p handed evicted hosts targets :=
    h.congr rfl rfl rfl
  cases e with
  | tick now =>
    simpa [sessionStep, acceptedHosts, acceptedTargets, HostOverflow] using quiet (h.tick now)
  | record data f =>
    cases data with
    | hostSized x =>
      simp only [sessionStep, onRecord, HostOverflow]
      by_cases hk : x.hdr.kind = ntpRecHost
      · obtain ⟨p', ev, hinv, hev⟩ := h.hostRecord x
        obtain ⟨n, hn⟩ := saveRecord_eq (onHostRecord s x).1 f
        refine ⟨p', ev, ?_, by simpa [hk] using hev⟩
        simp only [hk, if_true, acceptedHosts, acceptedTargets, List.filterMap_cons, List.filterMap_nil,
          List.append_nil, hn]
        exact hinv.congr rfl rfl rfl
      · simpa [hk, acceptedHosts, acceptedTargets] using quiet ⟨p, malformed⟩
    | tgtSized x =>
      simp only [sessionStep, onRecord, HostOverflow]
      by_cases hk : x.hdr.kind = ntpRecTarget
      · obtain ⟨p', hinv⟩ := h.targetRecord x
        obtain ⟨n, hn⟩ := saveRecord_eq (onTargetRecord s x).1 f
        refine ⟨p', [], ?_, by simp⟩
        simp only [hk, if_true, acceptedHosts, acceptedTargets, List.filterMap_cons, List.filterMap_nil,
          List.append_nil, hn]
        exact hinv.congr rfl rfl rfl
      · simpa [hk, acceptedHosts, acceptedTargets] using quiet ⟨p, malformed⟩
    | otherSized =>
      simpa [sessionStep, onRecord, acceptedHosts, acceptedTargets, HostOverflow] using
        quiet ⟨p, malformed⟩

theorem acceptedHosts_cons (e : SessionEvent) (es : List SessionEvent) :
    acceptedHosts (e :: es) = acceptedHosts [e] ++ acceptedHosts es :=
  List.filterMap_append (l := [e])

theorem acceptedTargets_cons (e : SessionEvent) (es : List SessionEvent) :
    acceptedTargets (e :: es) = acceptedTargets [e] ++ acceptedTargets es :=
  List.filterMap_append (l := [e])

theorem SessionInv.steps (h : SessionInv init s p handed evicted hosts targets)
    (es : List SessionEvent) :
    ∃ p' ev, SessionInv init (sessionSteps s es).1 p' (handed ++ (sessionSteps s es).2) (evicted ++ ev)
        (hosts ++ acceptedHosts es) (targets ++ acceptedTargets es) ∧ (ev = [] ↔ NeverFull s es) := by
  induction es generalizing s p handed evicted hosts targets with
  | nil => exact ⟨p, [], by simpa [sessionSteps, acceptedHosts, acceptedTargets] using h, by simp [NeverFull]⟩
  | cons e es ih =>
    obtain ⟨p₁, ev₁, h₁, hev₁⟩ := h.step e
    obtain ⟨p₂, ev₂, h₂, hev₂⟩ := ih h₁
    refine ⟨p₂, ev₁ ++ ev₂, ?_, ?_⟩
    · rw [acceptedHosts_cons, acceptedTargets_cons]
      simpa only [sessionSteps, List.append_assoc] using h₂
    · rw [List.append_eq_nil_iff, hev₁, hev₂, NeverFull]

end Steps

theorem sessionInv_start (c : SessionConfig) (writing : Bool) :
    SessionInv c.stats (sessionBoth c writing) (.new targetsPerKey) [] [] [] [] :=
  ⟨⟨_, rfl, joinerRep_new _⟩, rfl, List.Perm.nil, by simp [PlainJoiner.new], by simp, rfl, rfl⟩

/-! ## Whole sessions -/

/-- Each accepted host record was handed to the statistics once, with its own target record or with
none, and the statistics have seen nothing else. -/
structure EveryHostCounted (c : SessionConfig) (events : List SessionEvent) (out : Session × Handed) :
    Prop where
  once : ∀ h, (out.2.map Prod.fst).count h = (acceptedHosts events).count h
  own : ∀ h t, (h, some t) ∈ out.2 → t.id = h.id ∧ t ∈ acceptedTargets events
  calls : out.1.total = statsRun c.stats out.2
  sum : (out.1.total.groups.map Group.records).sum = out.1.hostRecords

/-- At the end of a session the accepted host records were handed out or pushed out. -/
theorem session_account (c : SessionConfig) (writing : Bool) (events : List SessionEvent)
    (hdone : ∀ h ∈ acceptedHosts events, h.ts .blkDone < uint64Max) :
    ∃ p' ev, SessionInv c.stats (sessionRun (sessionBoth c writing) events).1 p'
        (sessionRun (sessionBoth c writing) events).2 ev (acceptedHosts events)
        (acceptedTargets events) ∧ p'.hosts = [] ∧ (ev = [] ↔ NeverFull (sessionBoth c writing) events) := by
  obtain ⟨p', ev, hinv, hev⟩ := (sessionInv_start c writing).steps events
  simp only [List.nil_append] at hinv
  refine ⟨_, ev, hinv.release uint64Max, ?_, hev⟩
  refine List.filter_eq_nil_iff.2 fun x hx => ?_
  have hm : x ∈ acceptedHosts events :=
    hinv.accounted.mem_iff.2 (List.mem_append_left _ (List.mem_append_right _ hx))
  have hlt : agingTs x < uint64Max := hdone x hm
  simp [hlt]

/-- What a host record that was pushed out costs: the count of the groups falls short by it. -/
theorem session_sum (c : SessionConfig) (writing : Bool) (events : List SessionEvent) :
    ∀ p' ev, SessionInv c.stats (sessionRun (sessionBoth c writing) events).1 p'
        (sessionRun (sessionBoth c writing) events).2 ev (acceptedHosts events)
        (acceptedTargets events) → p'.hosts = [] →
      ((sessionRun (sessionBoth c writing) events).1.total.groups.map Group.records).sum + ev.length =
        (sessionRun (sessionBoth c writing) events).1.hostRecords := by
  intro p' ev hinv hnil
  have hlen := hinv.accounted.length_eq
  rw [hinv.total, sum_records_run, hinv.count]
  simp [hnil, SessionConfig.stats, ntpStatsInit] at hlen ⊢
  omega

/-- A session of role both hands every accepted host record to the statistics exactly once if and only
if no host record without a waiting target record arrives at a key under which `TARGETS_PER_KEY` host
records wait. -/
theorem every_host_counted_iff_never_full (c : SessionConfig) (writing : Bool)
    (events : List SessionEvent)
    (hdone : ∀ h ∈ acceptedHosts events, h.ts .blkDone < uint64Max) :
    EveryHostCounted c events (sessionRun (sessionBoth c writing) events) ↔
      NeverFull (sessionBoth c writing) events := by
  obtain ⟨p', ev, hinv, hnil, hev⟩ := session_account c writing events hdone
  have hperm := hinv.accounted
  have hsum := session_sum c writing events p' ev hinv hnil
  rw [hnil, List.append_nil] at hperm
  rw [← hev]
  constructor
  · intro h
    have hs := h.sum
    exact List.length_eq_zero_iff.1 (by omega)
  · intro h
    subst h
    rw [List.append_nil] at hperm
    exact ⟨fun h => (hperm.count_eq h).symm, hinv.own, hinv.total, by simpa using hsum⟩

/-! ## A flood of host records -/

/-- The record of an NVMe/TCP read with command identifier 7, told apart by its block address. -/
def floodHost (i : Nat) : HostRec :=
  { hdr := { kind := ntpRecHost, transport := ntpTrTcp }
    id := { cntlid := 1, qid := 1, cid := 7, nsid := 1, opcode := ntpNvmeCmdRead, nlb := 7
            slba := BitVec.ofNat 64 (8 * i) }
    bytes := 4096
    ts := fun _ => BitVec.ofNat 64 (1000000 * (i + 1)) }

/-- `n` host records of one key arrive and no target record does. -/
def flood (n : Nat) : List SessionEvent :=
  (List.range n).map fun i => .record (.hostSized (floodHost i)) false

/-- Host records of one key that find no target record fit only as long as the bound allows. -/
theorem neverFull_hosts {k : U64} (hs : List HostRec)
    (hk : ∀ h ∈ hs, h.hdr.kind = ntpRecHost ∧ keyOf h.id = k) {s : Session} {j : Joiner}
    {p : PlainJoiner} (hj : s.joiner = some j) (hrep : JoinerRep j p) (hbound : p.maxPerKey = targetsPerKey)
    (htgt : p.targets = []) (hlen : (under packedKey k p.hosts).length ≤ targetsPerKey)
    (h : NeverFull s (hs.map fun x => .record (.hostSized x) false)) :
    (under packedKey k p.hosts).length + hs.length ≤ targetsPerKey := by
  induction hs generalizing s j p with
  | nil => simpa using hlen
  | cons x hs ih =>
    obtain ⟨hxk, hxkey⟩ := hk x (List.mem_cons_self ..)
    obtain ⟨hno, hrest⟩ := h
    have hfind : plainFind p.targets x.id = none := by rw [htgt]; rfl
    have hnf : (under packedKey k p.hosts).length ≠ targetsPerKey := by
      intro hfull
      refine hno ⟨hxk, j, hj, (hrep.targets.take x.id).2.trans hfind, ?_⟩
      rw [hrep.hosts.held, hxkey, hfull]
    obtain ⟨hrep', hout⟩ := hrep.hostArrives x
    have hnext : p.next (.hostArrives x) = p.addHost x := by simp [PlainJoiner.next, hfind]
    have hpush : plainPush p.hosts x p.maxPerKey = (p.hosts ++ [x], 0) := by
      refine plainPush_of_fits fun _ => ?_
      rw [under_append_self, hbound]
      have hkx : packedKey x = k := hxkey
      rw [hkx]
      simp only [List.length_append, List.length_singleton]
      omega
    have hadd : p.addHost x = { p with hosts := p.hosts ++ [x] } := by
      unfold PlainJoiner.addHost
      rw [hpush]
    rw [hnext, hadd] at hrep'
    have hgrow : (under packedKey k (p.hosts ++ [x])).length = (under packedKey k p.hosts).length + 1 := by
      have hkx : packedKey x = k := hxkey
      rw [← hkx, under_append_self]
      simp
    have hj' : (sessionStep s (.record (.hostSized x) false)).1.joiner =
        some (ntpJoinerHostArrives j x).1 := by
      simp only [sessionStep, onRecord, hxk, if_true, saveRecord, Bool.and_false, Bool.false_eq_true,
        if_false, onHostRecord, hj]
      cases ntpJoinerHostArrives j x with
      | mk j' out => cases out <;> rfl
    have := ih (fun y hy => hk y (List.mem_cons_of_mem _ hy)) hj' hrep' hbound htgt
      (by rw [hgrow]; omega) hrest
    simp only [hgrow] at this
    simp only [List.length_cons]
    omega

theorem flood_accepted (n : Nat) : acceptedHosts (flood n) = (List.range n).map floodHost := by
  unfold acceptedHosts flood
  rw [List.filterMap_map, ← List.filterMap_eq_map]
  rfl

theorem flood_done {n : Nat} (hn : n ≤ 65) :
    ∀ h ∈ acceptedHosts (flood n), h.ts .blkDone < uint64Max := by
  rw [flood_accepted]
  intro h hh
  obtain ⟨i, hi, rfl⟩ := List.mem_map.1 hh
  have hmax : uint64Max.toNat = 2 ^ 64 - 1 := by decide
  have hlt : i < 65 := (List.mem_range.1 hi).trans_le hn
  simp only [floodHost, BitVec.lt_def, BitVec.toNat_ofNat, hmax]
  omega

/-- Two host records of one key: the condition decides whether both are counted. -/
theorem every_host_counted_iff_never_full_two :
    (∀ h ∈ acceptedHosts (flood 2), h.ts .blkDone < uint64Max) ∧
      (EveryHostCounted ⟨true, true, false, 1⟩ (flood 2)
          (sessionRun (sessionBoth ⟨true, true, false, 1⟩ true) (flood 2)) ↔
        NeverFull (sessionBoth ⟨true, true, false, 1⟩ true) (flood 2)) :=
  ⟨flood_done (by decide), every_host_counted_iff_never_full _ _ _ (flood_done (by decide))⟩

/-- The oldest of 65 host records of one key is in no group. -/
theorem flood_host_lost :
    (∀ h ∈ acceptedHosts (flood 65), h.ts .blkDone < uint64Max) ∧
      ¬ EveryHostCounted ⟨true, true, false, 1⟩ (flood 65)
        (sessionRun (sessionBoth ⟨true, true, false, 1⟩ false) (flood 65)) := by
  have hdone := flood_done (n := 65) le_rfl
  refine ⟨hdone, fun hc => ?_⟩
  obtain ⟨p', ev, hinv, hnil, hev⟩ := session_account ⟨true, true, false, 1⟩ false (flood 65) hdone
  have hsum := session_sum _ _ _ p' ev hinv hnil
  have hs := hc.sum
  have hfull := hev.1 (List.length_eq_zero_iff.1 (by omega))
  have hmap : flood 65 = ((List.range 65).map floodHost).map fun x => .record (.hostSized x) false := by
    rw [flood, List.map_map]
    rfl
  rw [hmap] at hfull
  have hle := neverFull_hosts (k := keyOf { cntlid := 1, qid := 1, cid := 7 }) _ (fun h hh => by
      obtain ⟨i, -, rfl⟩ := List.mem_map.1 hh
      exact ⟨rfl, rfl⟩) rfl (joinerRep_new targetsPerKey) rfl rfl (by decide) hfull
  simp [targetsPerKey] at hle

end Ntprof
