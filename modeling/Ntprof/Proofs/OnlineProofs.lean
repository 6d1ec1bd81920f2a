import Ntprof.Online
import Ntprof.Proofs.GroupProofs
import Ntprof.Proofs.SessionProofs

/-!
# Interval reports add up

Every record is shown in the interval in which it was added to the statistics, and the intervals follow each other
without a gap. So the intervals together are the final report.
-/

namespace Ntprof

/-! ## Statistics of parts -/

/-- The group of a key; an empty one where there is none. -/
def Stats.ofKey (s : Stats) (k : GroupKey) : Group := (s.groups.find? fun g => g.key = k).getD { key := k }

/-- The counters of a group are the sums of those of its parts, and its samples are theirs one after another. -/
structure GroupAddsUp (whole : Group) (parts : List Group) : Prop where
  records : whole.records = (parts.map Group.records).sum
  joined : whole.joined = (parts.map Group.joined).sum
  badHost : whole.badHost = (parts.map Group.badHost).sum
  badTarget : whole.badTarget = (parts.map Group.badTarget).sum
  postEstimated : whole.postEstimated = (parts.map Group.postEstimated).sum
  comp : ∀ c, whole.comp c = parts.flatMap fun g => g.comp c
  stage : ∀ s, whole.stage s = parts.flatMap fun g => g.stage s
  queue : ∀ q, whole.queue q = parts.flatMap fun g => g.queue q

section Parts

variable {init : Stats} (h₀ : init.groups = [])
include h₀

/-- The group of a key is made of the records of the key. -/
theorem ofKey_run (recs : List StatRec) (k : GroupKey) :
    (statsRun init recs).ofKey k = Group.addAll { key := k } (recsOf init k recs) := by
  have hrun := groupsOf_run h₀ recs
  rcases hfind : (statsRun init recs).groups.find? fun g => g.key = k with _ | g
  · have hnone : recsOf init k recs = [] := by
      rw [recsOf, List.filter_eq_nil_iff]
      intro r hr hk
      obtain ⟨g, hg, hgk⟩ := hrun.found r hr
      have hne := List.find?_eq_none.mp hfind g hg
      rw [decide_eq_true_eq] at hk hne
      exact hne (hgk.trans hk)
    rw [Stats.ofKey, hfind, hnone]
    rfl
  · have hk : g.key = k := by simpa using List.find?_some hfind
    have hmade := hrun.made g (List.mem_of_find?_eq_some hfind)
    rw [hk] at hmade
    rw [Stats.ofKey, hfind]
    exact hmade

theorem counter_adds {count : Group → ℕ} {p : StatRec → Bool}
    (hstep : ∀ g r, count (Group.addRec g r.1 r.2) = count g + if p r then 1 else 0) (k : GroupKey)
    (hzero : count { key := k } = 0) (parts : List Handed) :
    count ((statsRun init parts.flatten).ofKey k) =
      ((parts.map fun recs => (statsRun init recs).ofKey k).map count).sum := by
  have hmade : ∀ recs, count ((statsRun init recs).ofKey k) = (recsOf init k recs).countP p := by
    intro recs
    rw [ofKey_run h₀, addAll_counter count p hstep, hzero, Nat.zero_add]
  induction parts with
  | nil => exact (hmade []).trans rfl
  | cons recs parts ih =>
    rw [hmade, recsOf, List.flatten_cons, List.filter_append, List.countP_append, List.map_cons, List.map_cons,
      List.sum_cons, ← ih, hmade, hmade]
    rfl

theorem vector_adds (vec : Group → List S64) {f : StatRec → List S64}
    (hstep : ∀ g r, vec (Group.addRec g r.1 r.2) = vec g ++ f r) (k : GroupKey) (hnil : vec { key := k } = [])
    (parts : List Handed) :
    vec ((statsRun init parts.flatten).ofKey k) =
      (parts.map fun recs => (statsRun init recs).ofKey k).flatMap vec := by
  have hmade : ∀ recs, vec ((statsRun init recs).ofKey k) = (recsOf init k recs).flatMap f := by
    intro recs
    rw [ofKey_run h₀, addAll_vector vec f hstep, hnil, List.nil_append]
  induction parts with
  | nil => exact (hmade []).trans rfl
  | cons recs parts ih =>
    rw [hmade, recsOf, List.flatten_cons, List.filter_append, List.flatMap_append, List.map_cons, List.flatMap_cons,
      ← ih, hmade, hmade]
    rfl

/-- Statistics of records that come in parts. -/
theorem groupAddsUp_run (parts : List Handed) (k : GroupKey) :
    GroupAddsUp ((statsRun init parts.flatten).ofKey k) (parts.map fun recs => (statsRun init recs).ofKey k) where
  records := counter_adds (p := fun _ => true) h₀ (fun g r => addRec_records g r.1 r.2) k rfl parts
  joined := counter_adds h₀ addRec_joined k rfl parts
  badHost := counter_adds h₀ addRec_badHost k rfl parts
  badTarget := counter_adds h₀ addRec_badTarget k rfl parts
  postEstimated := counter_adds h₀ addRec_postEstimated k rfl parts
  comp c := vector_adds h₀ (fun g => g.comp c) (fun g r => addRec_comp g r c) k rfl parts
  stage s := vector_adds h₀ (fun g => g.stage s) (fun g r => addRec_stage g r s) k rfl parts
  queue q := vector_adds h₀ (fun g => g.queue q) (fun g r => addRec_queue g r q) k rfl parts

end Parts

/-! ## One event of a session -/

theorem addHosts_stats (s : Session) (handed : Handed) :
    (addHosts s handed).interval = statsRun s.interval handed ∧ (addHosts s handed).total = statsRun s.total handed := by
  induction handed generalizing s with
  | nil => exact ⟨rfl, rfl⟩
  | cons r handed ih => exact ih (addHost s r.1 r.2)

/-- Both statistics of a session get the same records. -/
def SameRecords (s s' : Session) : Prop :=
  ∃ handed, s'.interval = statsRun s.interval handed ∧ s'.total = statsRun s.total handed

theorem SameRecords.refl (s : Session) : SameRecords s s := ⟨[], rfl, rfl⟩

theorem SameRecords.trans {s s' s'' : Session} (h : SameRecords s s') (h' : SameRecords s' s'') : SameRecords s s'' := by
  obtain ⟨l, hi, ht⟩ := h
  obtain ⟨l', hi', ht'⟩ := h'
  refine ⟨l ++ l', ?_, ?_⟩
  · rw [hi', hi, statsRun_append]
  · rw [ht', ht, statsRun_append]

theorem sameRecords_save {s s' : Session} (h : SameRecords s s') (writeFails : Bool) :
    SameRecords s (saveRecord s' writeFails) := by
  obtain ⟨n, hn⟩ := saveRecord_eq s' writeFails
  rw [hn]
  exact h

theorem sameRecords_onRecord (s : Session) (data : RingData) (writeFails : Bool) :
    SameRecords s (onRecord s data writeFails).1 := by
  cases data with
  | hostSized h =>
    rw [onRecord]
    split_ifs
    · apply sameRecords_save
      rcases hj : s.joiner with _ | j
      · simp only [onHostRecord, hj]
        exact ⟨[(h, none)], rfl, rfl⟩
      · rcases ha : ntpJoinerHostArrives j h with ⟨j', _ | t⟩
        · simp only [onHostRecord, hj, ha]
          exact ⟨[], rfl, rfl⟩
        · simp only [onHostRecord, hj, ha]
          exact ⟨[(h, some t)], rfl, rfl⟩
    · exact ⟨[], rfl, rfl⟩
  | tgtSized t =>
    rw [onRecord]
    split_ifs
    · apply sameRecords_save
      rcases hj : s.joiner with _ | j
      · simp only [onTargetRecord, hj]
        exact ⟨[], rfl, rfl⟩
      · rcases ha : ntpJoinerTargetArrives j t with ⟨j', _ | h⟩
        · simp only [onTargetRecord, hj, ha]
          exact ⟨[], rfl, rfl⟩
        · simp only [onTargetRecord, hj, ha]
          exact ⟨[(h, some t)], rfl, rfl⟩
    · exact ⟨[], rfl, rfl⟩
  | otherSized => exact ⟨[], rfl, rfl⟩

theorem sameRecords_takeRecords (s : Session) (records : List (RingData × Bool)) :
    SameRecords s (takeRecords s records) := by
  induction records generalizing s with
  | nil => exact .refl s
  | cons r records ih => exact (sameRecords_onRecord s r.1 r.2).trans (ih _)

theorem sameRecords_release (s : Session) (beforeNs : U64) : SameRecords s (releaseUnmatched s beforeNs).1 := by
  rcases hj : s.joiner with _ | j
  · simp only [releaseUnmatched, hj]
    exact .refl s
  · simp only [releaseUnmatched, hj]
    exact ⟨_, addHosts_stats _ _⟩

/-! ## The loop -/

/-- A throughput counter. -/
inductive TputField where
  | readIos
  | readBytes
  | writeIos
  | writeBytes

/-- The value of a throughput counter. -/
def Tput.get (t : Tput) : TputField → U64
  | .readIos => t.readIos
  | .readBytes => t.readBytes
  | .writeIos => t.writeIos
  | .writeBytes => t.writeBytes

theorem tputDelta_get (now prev : Tput) (seconds : ℚ) (f : TputField) :
    (tputDelta now prev seconds).get f = now.get f - prev.get f := by
  cases f <;> rfl

/-- The intervals follow each other without a gap, the first one from `a` and the last one to `b`. -/
def Contiguous (a b : U64) : List Interval → Prop
  | [] => a = b
  | i :: is => i.fromNs = a ∧ Contiguous i.toNs b is

theorem Contiguous.snoc {a b : U64} {is : List Interval} (h : Contiguous a b is) {i : Interval} (hi : i.fromNs = b) :
    Contiguous a i.toNs (is ++ [i]) := by
  induction is generalizing a with
  | nil => exact ⟨hi.trans (show a = b from h).symm, rfl⟩
  | cons j is ih => exact ⟨h.1, ih h.2⟩

/-- What the loop has shown, and what it keeps for the next interval. -/
structure ShownInv (c : RunConfig) (start : U64) (first : Tput) (l : LoopVars) : Prop where
  spans : Contiguous 0 (l.prevTick - start) l.shown
  tput : ∀ f, (l.shown.map fun i => i.tput.get f).sum = l.prevTput.get f - first.get f
  parts : ∃ (parts : List Handed) (rest : Handed), l.shown.map Interval.stats = parts.map (statsRun (startStats c)) ∧
    l.session.interval = statsRun (startStats c) rest ∧
    l.session.total = statsRun (startStats c) (parts.flatten ++ rest)

/-! ## The steps of the loop -/

theorem startStats_groups (c : RunConfig) : (startStats c).groups = [] := rfl

theorem ntpStatsReset_add (s : Stats) (h : HostRec) (t : Option TgtRec) :
    ntpStatsReset (ntpStatsAdd s h t) = ntpStatsReset s := by
  rcases hfind : s.groups.findIdx? fun g => g.key = groupKey s h with _ | i
  · simp only [ntpStatsAdd, groupFor, hfind]
    rfl
  · simp only [ntpStatsAdd, groupFor, hfind]
    rfl

theorem ntpStatsReset_run (c : RunConfig) (recs : Handed) : ntpStatsReset (statsRun (startStats c) recs) = startStats c := by
  have hrun : ∀ s, ntpStatsReset (statsRun s recs) = ntpStatsReset s := by
    intro s
    induction recs generalizing s with
    | nil => rfl
    | cons r recs ih => exact (ih _).trans (ntpStatsReset_add s r.1 r.2)
  exact hrun _

section Steps

variable {c : RunConfig} {start : U64} {first : Tput} {l : LoopVars}

/-- What comes in between two ticks goes to the current interval. -/
theorem ShownInv.session (h : ShownInv c start first l) {s : Session} (hs : SameRecords l.session s) (n : U64) :
    ShownInv c start first { l with session := s, nextTick := n } := by
  obtain ⟨parts, rest, hshown, hint, htot⟩ := h.parts
  obtain ⟨handed, hi, ht⟩ := hs
  refine ⟨h.spans, h.tput, parts, rest ++ handed, hshown, ?_, ?_⟩
  · rw [hi, hint, statsRun_append]
  · rw [ht, htot, ← List.append_assoc, statsRun_append _ (parts.flatten ++ rest)]

theorem ShownInv.idleHint (h : ShownInv c start first l) (t : Turn) : ShownInv c start first (idleHint c start l t) := by
  rw [Ntprof.idleHint]
  split_ifs
  · exact ⟨h.spans, h.tput, h.parts⟩
  · exact h

/-- At a tick the current interval is shown and the next one starts. -/
theorem ShownInv.tick (h : ShownInv c start first l) (honline : c.online = true ∧ c.role &&& ntpRoleHost ≠ 0)
    (t : Turn) : ShownInv c start first (loopTick c start l t) := by
  have hrel : SameRecords l.session
      { (releaseUnmatched l.session (t.now - hostWaitNs)).1 with
        joiner := (releaseUnmatched l.session (t.now - hostWaitNs)).1.joiner.map
          fun j => (ntpJoinerExpire j (t.now - targetExpiryNs)).1 } :=
    sameRecords_release l.session (t.now - hostWaitNs)
  obtain ⟨hspans, htput, parts, rest, hshown, hint, htot⟩ := h.session hrel (l.nextTick + intervalNs c.intervalS)
  simp only [loopTick, showInterval, if_pos honline]
  refine ⟨?_, ?_, parts ++ [rest], [], ?_, ?_, ?_⟩
  · exact Contiguous.snoc (i := ⟨_, t.now - start, _, _⟩) hspans rfl
  · intro f
    rw [List.map_append, List.sum_append, htput f]
    simp only [List.map_cons, List.map_nil, List.sum_cons, List.sum_nil, tputDelta_get]
    ring
  · rw [List.map_append, List.map_append, hshown, List.map_singleton, List.map_singleton, ← hint]
  · rw [hint]
    exact ntpStatsReset_run c rest
  · rw [List.flatten_append, List.flatten_singleton, List.append_nil]
    exact htot

theorem ShownInv.turns (h : ShownInv c start first l) (honline : c.online = true ∧ c.role &&& ntpRoleHost ≠ 0)
    (ts : List Turn) : ShownInv c start first (recordTurns c start l ts).1 := by
  induction ts generalizing l with
  | nil => exact h
  | cons t ts ih =>
    have htaken : ShownInv c start first { l with session := takeRecords l.session t.records } :=
      h.session (sameRecords_takeRecords l.session t.records) l.nextTick
    simp only [recordTurns]
    split_ifs
    · exact htaken
    · exact htaken
    · exact ih (htaken.idleHint t)
    · exact ih ((htaken.idleHint t).tick honline t)

end Steps

theorem startRecording_stats {c : RunConfig} {env : Machine} {io : OpenIo} {r : Recording}
    (h : startRecording c env io = some r) :
    r.session.interval = startStats c ∧ r.session.total = startStats c := by
  simp only [startRecording] at h
  by_cases hout : c.output = []
  · rw [if_pos hout] at h
    cases h
    exact ⟨rfl, rfl⟩
  · rw [if_neg hout] at h
    by_cases hret : (ntpWriterOpen io (recordHeader c env)).1 ≠ 0
    · rw [if_pos hret] at h
      cases h
    · rw [if_neg hret] at h
      cases h
      exact ⟨rfl, rfl⟩

theorem shownInv_start {c : RunConfig} {s : Session} (hs : s.interval = startStats c ∧ s.total = startStats c)
    (start : U64) (counters : CounterMaps) :
    ShownInv c start (readTput c counters) (startLoop c s start counters) where
  spans := (BitVec.sub_self start).symm
  tput _ := (BitVec.sub_self _).symm
  parts := ⟨[], [], rfl, hs.1, hs.2⟩

/-- In an online recording of a host, whatever the polls deliver and whenever they come: the intervals shown follow
each other without a gap from the start on, the throughput of the intervals and that since the last one add up to the
throughput of the final report, and so do the counters and samples of every group. -/
theorem intervals_add_up_to_report (c : RunConfig) (env : Machine) (io : OpenIo) (r : Recording) (start : U64)
    (firstCounters lastCounters : CounterMaps) (turns : List Turn) (endNs : U64) (drained : List (RingData × Bool))
    (hr : startRecording c env io = some r) (honline : c.online = true) (hrole : c.role &&& ntpRoleHost ≠ 0) :
    let l := (recordTurns c start (startLoop c r.session start firstCounters) turns).1
    ∃ s report, finishLoop c start firstCounters l endNs lastCounters drained = (s, some report) ∧
      Contiguous 0 (l.prevTick - start) l.shown ∧
      (∀ f, report.tput.get f =
        (l.shown.map fun i => i.tput.get f).sum + ((readTput c lastCounters).get f - l.prevTput.get f)) ∧
      ∀ k, GroupAddsUp (report.stats.ofKey k) (l.shown.map (fun i => i.stats.ofKey k) ++ [s.interval.ofKey k]) := by
  intro l
  have hinv : ShownInv c start (readTput c firstCounters) l :=
    (shownInv_start (startRecording_stats hr) start firstCounters).turns ⟨honline, hrole⟩ turns
  have hlast : SameRecords l.session (releaseUnmatched (takeRecords l.session drained) uint64Max).1 :=
    (sameRecords_takeRecords l.session drained).trans (sameRecords_release _ uint64Max)
  obtain ⟨-, -, parts, rest, hshown, hint, htot⟩ := hinv.session hlast l.nextTick
  refine ⟨_, _, by rw [finishLoop, if_pos hrole], hinv.spans, ?_, ?_⟩
  · intro f
    rw [tputDelta_get, hinv.tput f]
    ring
  · intro k
    have hadd := groupAddsUp_run (startStats_groups c) (parts ++ [rest]) k
    rw [List.flatten_append, List.flatten_singleton, ← htot, List.map_append, List.map_singleton, ← hint] at hadd
    have hmap : l.shown.map (fun i => i.stats.ofKey k) = parts.map fun recs => (statsRun (startStats c) recs).ofKey k := by
      rw [← Function.comp_def (fun s : Stats => s.ofKey k) Interval.stats, ← List.map_map, hshown, List.map_map]
      rfl
    rw [hmap]
    exact hadd

/-- A host record and the end of the first interval, then another host record. -/
def twoTurns : List Turn :=
  [{ records := [(.hostSized { hdr := { kind := ntpRecHost }, ts := fun _ => 5 }, false)], now := 1000000000, counters := [] },
    { records := [(.hostSized { hdr := { kind := ntpRecHost }, ts := fun _ => 7 }, false)], now := 1000000001,
      counters := [] }]

/-- A recording as the defaults say. -/
def defaultRecording : RunConfig := { toNtpConfig := configDefaults }

theorem intervals_add_up_to_report_two :
    ∃ r s report, startRecording defaultRecording ⟨1, 2, none, none⟩ .done = some r ∧
      finishLoop defaultRecording 0 []
        (recordTurns defaultRecording 0 (startLoop defaultRecording r.session 0 []) twoTurns).1 1000000002 [] [] =
        (s, some report) ∧
      ∃ g : GroupKey → Group, ∀ k, GroupAddsUp (report.stats.ofKey k) [g k, s.interval.ofKey k] := by
  obtain ⟨s, report, hfin, -, -, hadd⟩ := intervals_add_up_to_report defaultRecording ⟨1, 2, none, none⟩ .done _ 0 [] []
    twoTurns 1000000002 [] rfl rfl (by decide)
  exact ⟨_, s, report, rfl, hfin, _, hadd⟩

end Ntprof
