import Ntprof.Recording
import Ntprof.Proofs.SessionProofs
import Ntprof.Proofs.OfflineProofs
import Ntprof.Proofs.TraceFormatProofs
import Ntprof.Proofs.StatsOrderProofs

/-!
# Proofs: a recording and the report of its file

A recording that ends well has saved exactly the records it accepted, in their order. So `report` makes the statistics
of the same records: in role host the same ones, in role both the same up to the order in which records were joined.
-/

namespace Ntprof

open Supervisor

/-! ## What is in the file -/

/-- The record in the data, where it is accepted. -/
def RawData.rec? : RawData → Option RawRec
  | .hostSized h p => if h.hdr.kind = ntpRecHost then some (.host h p) else none
  | .tgtSized t p => if t.hdr.kind = ntpRecTarget then some (.target t p) else none
  | .otherSized => none

/-- The records that a recording accepts. -/
def savedRecs (es : List RecordingEvent) : List RawRec :=
  es.filterMap fun
    | .data d _ => d.rec?
    | .tick _ => none

theorem saved_eq (d : RawData) : d.saved = d.rec?.map RawRec.encode := by
  cases d with
  | hostSized h p => by_cases hk : h.hdr.kind = ntpRecHost <;> simp [RawData.saved, RawData.rec?, hk, RawRec.encode]
  | tgtSized t p => by_cases hk : t.hdr.kind = ntpRecTarget <;> simp [RawData.saved, RawData.rec?, hk, RawRec.encode]
  | otherSized => rfl

theorem tagged_of_rec? {d : RawData} {r : RawRec} (h : d.rec? = some r) : r.Tagged := by
  cases d with
  | hostSized x p =>
    simp only [RawData.rec?] at h
    split_ifs at h with hk
    obtain rfl := Option.some.inj h
    exact hk
  | tgtSized x p =>
    simp only [RawData.rec?] at h
    split_ifs at h with hk
    obtain rfl := Option.some.inj h
    exact hk
  | otherSized => cases h

theorem tagged_savedRecs (es : List RecordingEvent) : ∀ r ∈ savedRecs es, r.Tagged := by
  intro r hr
  obtain ⟨e, -, he⟩ := List.mem_filterMap.mp hr
  cases e with
  | data d short => exact tagged_of_rec? he
  | tick now => cases he

/-! ### Write errors -/

/-- What a session does to its writing and its write errors. -/
structure Writes (s s' : Session) (more : ℕ) : Prop where
  writing : s'.writing = s.writing
  errors : s'.writeErrors = s.writeErrors + more

theorem writes_onHostRecord (s : Session) (h : HostRec) : Writes s (onHostRecord s h).1 0 := by
  simp only [onHostRecord]
  split
  · exact ⟨rfl, rfl⟩
  · split
    · exact ⟨rfl, rfl⟩
    · exact ⟨rfl, rfl⟩

theorem writes_onTargetRecord (s : Session) (t : TgtRec) : Writes s (onTargetRecord s t).1 0 := by
  simp only [onTargetRecord]
  split
  · exact ⟨rfl, rfl⟩
  · split
    · exact ⟨rfl, rfl⟩
    · exact ⟨rfl, rfl⟩

theorem writes_addHosts (s : Session) (handed : Handed) : Writes s (addHosts s handed) 0 := by
  induction handed generalizing s with
  | nil => exact ⟨rfl, rfl⟩
  | cons x xs ih =>
    have hrest := ih (addHost s x.1 x.2)
    exact ⟨hrest.writing, hrest.errors⟩

theorem writes_releaseUnmatched (s : Session) (b : U64) : Writes s (releaseUnmatched s b).1 0 := by
  unfold releaseUnmatched
  split
  · exact ⟨rfl, rfl⟩
  · rename_i j hj
    have hadd := writes_addHosts { s with joiner := some (ntpJoinerReleaseHosts j b).1 }
      ((ntpJoinerReleaseHosts j b).2.1.map fun h => (h, none))
    exact ⟨hadd.writing, hadd.errors⟩

theorem writes_tick (s : Session) (now : U64) : Writes s (intervalTick s now).1 0 := by
  have hrel := writes_releaseUnmatched s (now - hostWaitNs)
  exact ⟨hrel.writing, hrel.errors⟩

theorem writes_saveRecord (s : Session) (fails : Bool) :
    Writes s (saveRecord s fails) (if s.writing && fails then 1 else 0) := by
  unfold saveRecord
  split_ifs
  · exact ⟨rfl, rfl⟩
  · exact ⟨rfl, rfl⟩

/-- The write of an accepted record fails. -/
def RecordingEvent.lost (writing : Bool) : RecordingEvent → ℕ
  | .data d short => if writing && short.isSome && d.rec?.isSome then 1 else 0
  | .tick _ => 0

theorem writes_record (s : Session) (d : RawData) (short : Option ℕ) :
    Writes s (onRecord s d.ring short.isSome).1 ((RecordingEvent.data d short).lost s.writing) := by
  cases d with
  | hostSized h p =>
    by_cases hk : h.hdr.kind = ntpRecHost
    · have hrec := writes_onHostRecord s h
      have hsave := writes_saveRecord (onHostRecord s h).1 short.isSome
      refine ⟨?_, ?_⟩
      · simp only [onRecord, RawData.ring, hk, if_true]
        rw [hsave.writing, hrec.writing]
      · simp only [onRecord, RawData.ring, hk, if_true]
        rw [hsave.errors, hrec.errors, hrec.writing]
        simp [RecordingEvent.lost, RawData.rec?, hk]
    · refine ⟨?_, ?_⟩
      · simp [onRecord, RawData.ring, hk]
      · simp [onRecord, RawData.ring, hk, RecordingEvent.lost, RawData.rec?]
  | tgtSized t p =>
    by_cases hk : t.hdr.kind = ntpRecTarget
    · have hrec := writes_onTargetRecord s t
      have hsave := writes_saveRecord (onTargetRecord s t).1 short.isSome
      refine ⟨?_, ?_⟩
      · simp only [onRecord, RawData.ring, hk, if_true]
        rw [hsave.writing, hrec.writing]
      · simp only [onRecord, RawData.ring, hk, if_true]
        rw [hsave.errors, hrec.errors, hrec.writing]
        simp [RecordingEvent.lost, RawData.rec?, hk]
    · refine ⟨?_, ?_⟩
      · simp [onRecord, RawData.ring, hk]
      · simp [onRecord, RawData.ring, hk, RecordingEvent.lost, RawData.rec?]
  | otherSized => exact ⟨rfl, by simp [RecordingEvent.lost, RawData.rec?, onRecord, RawData.ring]⟩

/-- A session counts each write of an accepted record that fails. -/
theorem writes_step (s : Session) (e : RecordingEvent) :
    Writes s (sessionStep s e.session).1 (e.lost s.writing) := by
  cases e with
  | data d short => exact writes_record s d short
  | tick now => exact writes_tick s now

/-- A writing session of which no write has failed has the accepted records in its file. -/
theorem file_recordingSteps (r : Recording) (es : List RecordingEvent) (hwriting : r.session.writing = true)
    (hok : (recordingSteps r es).session.writeErrors = r.session.writeErrors) :
    (recordingSteps r es).session.writing = true ∧
      (recordingSteps r es).w.f = r.w.f.map (· ++ (savedRecs es).flatMap RawRec.encode) := by
  induction es generalizing r with
  | nil => exact ⟨hwriting, by simp [recordingSteps, savedRecs]⟩
  | cons e es ih =>
    have hstep := writes_step r.session e
    have hmono : ∀ (q : Recording) (l : List RecordingEvent),
        q.session.writeErrors ≤ (recordingSteps q l).session.writeErrors := by
      intro q l
      induction l generalizing q with
      | nil => exact le_rfl
      | cons x l ihl =>
        have hx := (writes_step q.session x).errors
        have hrest := ihl (recordingStep q x)
        have heq : (recordingStep q x).session.writeErrors = (sessionStep q.session x.session).1.writeErrors := rfl
        have hsteps : recordingSteps q (x :: l) = recordingSteps (recordingStep q x) l := rfl
        rw [hsteps]
        omega
    have hsteps : recordingSteps r (e :: es) = recordingSteps (recordingStep r e) es := rfl
    rw [hsteps] at hok ⊢
    have hle := hmono (recordingStep r e) es
    have herr : (recordingStep r e).session.writeErrors = r.session.writeErrors + e.lost r.session.writing :=
      hstep.errors
    have hlost : e.lost r.session.writing = 0 := by omega
    have hwriting' : (recordingStep r e).session.writing = true := hstep.writing.trans hwriting
    obtain ⟨hw, hf⟩ := ih (recordingStep r e) hwriting' (by omega)
    refine ⟨hw, ?_⟩
    rw [hf]
    cases e with
    | tick now => rfl
    | data d short =>
      rw [hwriting] at hlost
      have hshort : d.rec?.isSome → short = none := by
        intro hsome
        simpa [RecordingEvent.lost, hsome] using hlost
      rcases hrec : d.rec? with _ | x
      · have hsaved : d.saved = none := by rw [saved_eq, hrec]; rfl
        simp [savedRecs, hrec, recordingStep, saveData, hsaved]
      · have hsaved : d.saved = some x.encode := by rw [saved_eq, hrec]; rfl
        have hnone := hshort (by simp [hrec])
        simp only [recordingStep, saveData, hsaved, hwriting, if_true, hnone, ntpWriterAdd, savedRecs,
          List.filterMap_cons, hrec, List.flatMap_cons, Option.map_map]
        congr 1
        funext f
        simp

/-- A recording of which no write fails ends well. -/
theorem closeWriter_of_none_lost {r : Recording} {es : List RecordingEvent} (hwriting : r.session.writing = true)
    (herrors : r.session.writeErrors = 0) (hlost : ∀ e ∈ es, e.lost true = 0) :
    closeWriter (endRecording (recordingSteps r es)) exitSuccess false = exitSuccess := by
  have hsteps : (recordingSteps r es).session.writeErrors = 0 := by
    induction es generalizing r with
    | nil => exact herrors
    | cons e es ih =>
      have hstep := writes_step r.session e
      rw [hwriting, hlost e List.mem_cons_self] at hstep
      exact ih (hstep.writing.trans hwriting) (hstep.errors.trans herrors) fun x hx => hlost x (List.mem_cons_of_mem _ hx)
  have hzero : (endRecording (recordingSteps r es)).session.writeErrors = 0 :=
    (writes_releaseUnmatched _ _).errors.trans hsteps
  unfold closeWriter
  split_ifs with hoff hbad
  · rfl
  · rcases hbad with h | h
    · cases h
    · exact absurd hzero h
  · rfl

/-! ## What `report` reads -/

/-- A file of this version with these records is read as such. -/
theorem readRecordFile_written (buf : Vector U8 sizeofHostRec) (env : Machine) (role transport sampleEvery : U32)
    (recs : List RawRec) (hrecs : ∀ r ∈ recs, r.Tagged) :
    readRecordFile buf.toList
        (encodeFileHeader (ntpHeaderInit env role transport sampleEvery) ++ recs.flatMap RawRec.encode) =
      some ⟨ntpHeaderInit env role transport sampleEvery, recs.map RawRec.toRec⟩ := by
  have h := readRecordFile_records buf (v := ntpFileVersion) (by decide) (by decide)
    (ntpHeaderInit env role transport sampleEvery) recs hrecs
  rw [ntpHeaderInit_atVersion] at h
  simp only [RawRec.bytes_current, Rec.ofVersion_current] at h
  exact h

theorem hostHdr_foldl (r : Run) (recs : List Rec) : (recs.foldl onFileRec r).hostHdr = r.hostHdr := by
  induction recs generalizing r with
  | nil => rfl
  | cons x recs ih =>
    rw [List.foldl_cons, ih]
    cases x <;> rfl

/-- The sampling period is not looked at while records are added. -/
theorem statsRun_sampleEvery (s : Stats) (n : U32) (recs : Handed) :
    statsRun { s with sampleEvery := n } recs = { statsRun s recs with sampleEvery := n } := by
  induction recs generalizing s with
  | nil => rfl
  | cons r recs ih =>
    have hadd : ntpStatsAdd { s with sampleEvery := n } r.1 r.2 = { ntpStatsAdd s r.1 r.2 with sampleEvery := n } := by
      rcases hf : s.groups.findIdx? fun g => g.key = groupKey s r.1 with _ | i
      · rw [ntpStatsAdd, ntpStatsAdd, groupFor_new hf, groupFor_new (s := { s with sampleEvery := n }) hf]
        rfl
      · rw [ntpStatsAdd, ntpStatsAdd, groupFor_found hf, groupFor_found (s := { s with sampleEvery := n }) hf]
    show statsRun (ntpStatsAdd { s with sampleEvery := n } r.1 r.2) recs = _
    rw [hadd, ih]
    rfl

/-- The report of one file of a host. -/
theorem cmdReport_one {φ : Type} (c : RunConfig) {read : φ → Option RecordFile} {f : φ} {file : RecordFile}
    (hread : read f = some file) (hrole : file.hdr.role &&& ntpRoleHost ≠ 0) :
    ∃ rep, cmdReport c read [f] = some rep ∧ rep.hdr = file.hdr ∧ rep.run.hosts = file.recs.filterMap Rec.host? ∧
      rep.stats = { statsRun (ntpStatsInit c.groupByType c.groupBySize c.groupBySession)
          (FifoMatch.offline HostRec.id TgtRec.id (file.recs.filterMap Rec.target?) (file.recs.filterMap Rec.host?)) with
        sampleEvery := file.hdr.sampleEvery } := by
  have hload : loadFiles read ⟨ntpJoinerNew 0, [], 0, none⟩ [f] = some (loadFile ⟨ntpJoinerNew 0, [], 0, none⟩ file) := by
    simp only [loadFiles, hread]
  have hhdr : (loadFile ⟨ntpJoinerNew 0, [], 0, none⟩ file).hostHdr = some file.hdr := by
    simp only [loadFile]
    rw [if_pos ⟨hrole, by rw [hostHdr_foldl]; rfl⟩]
  have hrep : LoadRep (loadFile ⟨ntpJoinerNew 0, [], 0, none⟩ file) ([] ++ file.recs) :=
    loadRep_loadFile ⟨rfl, joinerRep_new 0⟩ file
  have hhanded := matchHosts_eq hrep.joiner (loadFile ⟨ntpJoinerNew 0, [], 0, none⟩ file).hosts
  rw [hrep.hosts, List.nil_append] at hhanded
  simp only [cmdReport, loadRun, hload, hhdr, List.cons_ne_nil, if_false]
  refine ⟨_, rfl, rfl, hrep.hosts, ?_⟩
  simp only [hrep.hosts, List.nil_append, hhanded]

/-! ## Role host -/

/-- The records that are saved, without their padding. -/
def savedOf (es : List RecordingEvent) : List Rec := (savedRecs es).map RawRec.toRec

theorem savedOf_cons (e : RecordingEvent) (es : List RecordingEvent) : savedOf (e :: es) = savedOf [e] ++ savedOf es := by
  rw [savedOf, savedOf, savedOf, ← List.map_append]
  exact congrArg _ (List.filterMap_append (l := [e]))

/-- What one event saves. -/
theorem savedOf_data (d : RawData) (short : Option ℕ) :
    savedOf [.data d short] = (d.rec?.map RawRec.toRec).toList := by
  rcases hrec : d.rec? with _ | x <;> simp [savedOf, savedRecs, hrec]

/-- Without a joiner every host record is counted as it comes, without a target record. -/
structure Unjoined (s s' : Session) (hosts : List HostRec) : Prop where
  joiner : s'.joiner = none
  total : s'.total = statsRun s.total (hosts.map fun h => (h, none))
  count : s'.hostRecords = s.hostRecords + hosts.length

theorem unjoined_record {s : Session} (hj : s.joiner = none) (d : RawData) (short : Option ℕ) :
    Unjoined s (onRecord s d.ring short.isSome).1 ((savedOf [.data d short]).filterMap Rec.host?) := by
  have hsave : ∀ q : Session, ∃ n, saveRecord q short.isSome = { q with writeErrors := n } :=
    fun q => saveRecord_eq q _
  rw [savedOf_data]
  cases d with
  | otherSized => exact ⟨hj, rfl, rfl⟩
  | hostSized h p =>
    by_cases hk : h.hdr.kind = ntpRecHost
    · simp only [onRecord, RawData.ring, hk, if_true, onHostRecord, hj, RawData.rec?]
      obtain ⟨n, hn⟩ := hsave (addHost { s with hostRecords := s.hostRecords + 1 } h none)
      simp only [hj] at hn
      rw [hn]
      exact ⟨rfl, rfl, rfl⟩
    · simp only [onRecord, RawData.ring, hk, if_false, RawData.rec?]
      exact ⟨hj, rfl, rfl⟩
  | tgtSized t p =>
    by_cases hk : t.hdr.kind = ntpRecTarget
    · simp only [onRecord, RawData.ring, hk, if_true, onTargetRecord, hj, RawData.rec?]
      obtain ⟨n, hn⟩ := hsave { s with targetRecords := s.targetRecords + 1 }
      simp only [hj] at hn
      rw [hn]
      exact ⟨rfl, rfl, rfl⟩
    · simp only [onRecord, RawData.ring, hk, if_false, RawData.rec?]
      exact ⟨hj, rfl, rfl⟩

theorem unjoined_step {s : Session} (hj : s.joiner = none) (e : RecordingEvent) :
    Unjoined s (sessionStep s e.session).1 ((savedOf [e]).filterMap Rec.host?) := by
  cases e with
  | data d short => exact unjoined_record hj d short
  | tick now =>
    simp only [RecordingEvent.session, sessionStep, intervalTick, releaseUnmatched, hj]
    exact ⟨rfl, rfl, rfl⟩

theorem unjoined_steps {r : Recording} (hj : r.session.joiner = none) (es : List RecordingEvent) :
    Unjoined r.session (recordingSteps r es).session ((savedOf es).filterMap Rec.host?) := by
  induction es generalizing r with
  | nil => exact ⟨hj, rfl, rfl⟩
  | cons e es ih =>
    have hstep := unjoined_step hj e
    have hrest := ih (r := recordingStep r e) hstep.joiner
    have htotal : (recordingStep r e).session.total = _ := hstep.total
    have hcount : (recordingStep r e).session.hostRecords = _ := hstep.count
    rw [savedOf_cons, List.filterMap_append]
    refine ⟨hrest.joiner, ?_, ?_⟩
    · rw [List.map_append, statsRun_append, ← htotal]
      exact hrest.total
    · rw [List.length_append, ← Nat.add_assoc, ← hcount]
      exact hrest.count

/-- With no target records every host record stays alone. -/
theorem offline_nil (hosts : List HostRec) :
    FifoMatch.offline HostRec.id TgtRec.id ([] : List TgtRec) hosts = hosts.map fun h => (h, none) := by
  induction hosts with
  | nil => rfl
  | cons h hosts ih => simp [FifoMatch.offline, ih]

/-- The recording that `record` starts when it can make its file. -/
theorem startRecording_writing {c : RunConfig} {env : Machine} {io : OpenIo} {r : Recording} (hout : c.output ≠ [])
    (hstart : startRecording c env io = some r) :
    r.session.writing = true ∧ r.session.writeErrors = 0 ∧ r.session.total = startStats c ∧
      r.session.hostRecords = 0 ∧ r.w.f = some (encodeFileHeader (recordHeader c env)) ∧
      r.session.joiner = if c.role = ntpRoleBoth then some (ntpJoinerNew targetsPerKey) else none := by
  unfold startRecording at hstart
  simp only [hout, if_false] at hstart
  cases io with
  | done =>
    simp only [ntpWriterOpen, ne_eq, not_true_eq_false, if_false, Option.some.injEq] at hstart
    obtain rfl := hstart
    exact ⟨rfl, rfl, rfl, rfl, rfl, rfl⟩
  | noFile | noHeader => simp [ntpWriterOpen] at hstart

/-- A recording that ends well has its header and its records in the file. -/
theorem file_of_success {c : RunConfig} {env : Machine} {io : OpenIo} {r : Recording} {es : List RecordingEvent}
    {closeFails : Bool} (hout : c.output ≠ []) (hstart : startRecording c env io = some r)
    (hclose : closeWriter (endRecording (recordingSteps r es)) exitSuccess closeFails = exitSuccess) :
    (endRecording (recordingSteps r es)).w.f =
      some (encodeFileHeader (recordHeader c env) ++ (savedRecs es).flatMap RawRec.encode) := by
  obtain ⟨hwriting, herrors, -, -, hfile, -⟩ := startRecording_writing hout hstart
  have hwritesAll : ∀ (q : Recording) (l : List RecordingEvent),
      (recordingSteps q l).session.writing = q.session.writing := by
    intro q l
    induction l generalizing q with
    | nil => rfl
    | cons x l ih => exact (ih (recordingStep q x)).trans (writes_step q.session x).writing
  have hend := writes_releaseUnmatched (recordingSteps r es).session uint64Max
  have hon : (endRecording (recordingSteps r es)).session.writing = true :=
    hend.writing.trans ((hwritesAll r es).trans hwriting)
  have hzero : (endRecording (recordingSteps r es)).session.writeErrors = 0 := by
    by_contra hne
    unfold closeWriter at hclose
    rw [hon] at hclose
    simp only [Bool.not_true, Bool.false_eq_true, if_false] at hclose
    rw [if_pos (Or.inr hne)] at hclose
    exact absurd hclose (by decide)
  have hsteps : (recordingSteps r es).session.writeErrors = r.session.writeErrors := by
    have : (endRecording (recordingSteps r es)).session.writeErrors = (recordingSteps r es).session.writeErrors :=
      hend.errors
    omega
  obtain ⟨-, hf⟩ := file_recordingSteps r es hwriting hsteps
  show (recordingSteps r es).w.f = _
  rw [hf, hfile]
  rfl

/-- What a recording of a host shows at its end and what `report` shows of its file are the same statistics: for every
sequence of records and intervals, when all of the file was written. -/
theorem host_report_agrees_with_file (c : RunConfig) (env : Machine) (io : OpenIo) (r : Recording)
    (es : List RecordingEvent) (closeFails : Bool) (buf : Vector U8 sizeofHostRec) (hrole : c.role = ntpRoleHost)
    (hout : c.output ≠ []) (hstart : startRecording c env io = some r)
    (hhosts : ∀ x ∈ savedOf es, x.target? = none)
    (hclose : closeWriter (endRecording (recordingSteps r es)) exitSuccess closeFails = exitSuccess) :
    ∃ f rep, (endRecording (recordingSteps r es)).w.f = some f ∧
      cmdReport c (readRecordFile buf.toList) [f] = some rep ∧
      rep.stats = (endRecording (recordingSteps r es)).session.total ∧
      rep.hdr = recordHeader c env ∧
      rep.run.hosts.length = (endRecording (recordingSteps r es)).session.hostRecords := by
  obtain ⟨-, -, htotal, hcount, -, hjoiner⟩ := startRecording_writing hout hstart
  have hfile := file_of_success hout hstart hclose
  have hnone : r.session.joiner = none := by
    rw [hjoiner, hrole]
    rfl
  have hsteps := unjoined_steps hnone es
  have hend : (endRecording (recordingSteps r es)).session = (recordingSteps r es).session := by
    simp only [endRecording, releaseUnmatched, hsteps.joiner]
  have hread : readRecordFile buf.toList (encodeFileHeader (recordHeader c env) ++ (savedRecs es).flatMap RawRec.encode) =
      some ⟨recordHeader c env, savedOf es⟩ :=
    readRecordFile_written buf env _ _ _ _ (tagged_savedRecs es)
  have hhost : (recordHeader c env).role &&& ntpRoleHost ≠ 0 := by
    show c.role &&& ntpRoleHost ≠ 0
    rw [hrole]
    decide
  obtain ⟨rep, hrep, hhdr, hruns, hstats⟩ := cmdReport_one c hread hhost
  have htargets : (savedOf es).filterMap Rec.target? = [] := List.filterMap_eq_nil_iff.mpr hhosts
  refine ⟨_, rep, hfile, hrep, ?_, hhdr, ?_⟩
  · rw [hend, hstats, hsteps.total, htotal]
    simp only [htargets, offline_nil]
    exact (statsRun_sampleEvery _ _ _).symm
  · rw [hend, hsteps.count, hcount, hruns, Nat.zero_add]

/-- Two host records that are saved. Between them are the end of an interval, a target record as long as a host
record, and data of another length. -/
def twoHostRecords : List RecordingEvent :=
  [.data (.hostSized { hdr := { kind := ntpRecHost }, ts := fun _ => 5 } {}) none, .tick 7,
    .data (.hostSized { hdr := { kind := ntpRecTarget } } {}) none, .data .otherSized none,
    .data (.hostSized { hdr := { kind := ntpRecHost }, id := { cid := 1 }, ts := fun _ => 9 } {}) none]

/-- A configuration that saves its records. -/
def savingConfig (role : U32) : RunConfig :=
  { configDefaults with role := role, output := [0x66#8] }

/-- A machine whose names are not known. -/
def someMachine : Machine := ⟨1, 2, none, none⟩

theorem host_report_agrees_with_file_two :
    ∃ r f rep, startRecording (savingConfig ntpRoleHost) someMachine .done = some r ∧
      (endRecording (recordingSteps r twoHostRecords)).w.f = some f ∧
      cmdReport (savingConfig ntpRoleHost) (readRecordFile (List.replicate sizeofHostRec 0)) [f] = some rep ∧
      rep.stats = (endRecording (recordingSteps r twoHostRecords)).session.total ∧ rep.run.hosts.length = 2 := by
  obtain ⟨f, rep, hf, hrep, hstats, -, hlen⟩ := host_report_agrees_with_file (savingConfig ntpRoleHost) someMachine .done
    _ twoHostRecords false (Vector.replicate _ 0) rfl (by decide) rfl (by decide) (by decide +kernel)
  rw [Vector.toList_replicate] at hrep
  exact ⟨_, f, rep, rfl, hf, hrep, hstats, hlen⟩

/-! ## Role both -/

/-- The event gives up on no record. -/
def QuietEvent (s : Session) : RecordingEvent → Prop
  | .data _ _ => True
  | .tick now => (intervalTick s now).2 = [] ∧
      ∀ j, s.joiner = some j →
        (ntpJoinerExpire (ntpJoinerReleaseHosts j (now - hostWaitNs)).1 (now - targetExpiryNs)).2 = 0

/-- No interval's end gives up on a record. -/
def Quiet (r : Recording) : List RecordingEvent → Prop
  | [] => True
  | e :: es => QuietEvent r.session e ∧ Quiet (recordingStep r e) es

theorem plainArriveAll_append_one (p : PlainJoiner) (recs : List Rec) (x : Rec) :
    plainArriveAll p (recs ++ [x]) =
      ((plainArrive (plainArriveAll p recs).1 x).1,
        (plainArriveAll p recs).2 ++ (plainArrive (plainArriveAll p recs).1 x).2.toList) := by
  induction recs generalizing p with
  | nil => simp [plainArriveAll]
  | cons r recs ih => simp [plainArriveAll, ih]

/-- What waits and what was counted, after the records that have come. -/
structure Joined (init : Stats) (s : Session) (recs : List Rec) : Prop where
  joiner : ∃ j, s.joiner = some j ∧ JoinerRep j (plainArriveAll (.new targetsPerKey) recs).1
  total : s.total = statsRun init ((plainArriveAll (.new targetsPerKey) recs).2.map fun p => (p.1, some p.2))

variable {init : Stats} {s : Session} {recs : List Rec}

theorem Joined.congr (h : Joined init s recs) {s' : Session} (hj : s'.joiner = s.joiner) (ht : s'.total = s.total) :
    Joined init s' recs :=
  ⟨by rw [hj]; exact h.joiner, by rw [ht]; exact h.total⟩

/-- A record arrives, and completes a pair or not. -/
theorem Joined.arrive (h : Joined init s recs) {s' : Session} {j' : Joiner} {x : Rec}
    {out : Option (HostRec × TgtRec)} (hj : s'.joiner = some j')
    (hrep : JoinerRep j' (plainArrive (plainArriveAll (.new targetsPerKey) recs).1 x).1)
    (hout : (plainArrive (plainArriveAll (.new targetsPerKey) recs).1 x).2 = out)
    (htotal : s'.total = statsRun s.total (out.toList.map fun p => (p.1, some p.2))) :
    Joined init s' (recs ++ [x]) := by
  refine ⟨⟨j', hj, ?_⟩, ?_⟩
  · rw [plainArriveAll_append_one]
    exact hrep
  · rw [plainArriveAll_append_one, hout, List.map_append, statsRun_append, ← h.total]
    exact htotal

theorem Joined.hostRecord (h : Joined init s recs) (x : HostRec) :
    Joined init (onHostRecord s x).1 (recs ++ [.host x]) := by
  obtain ⟨j, hj, hrep⟩ := h.joiner
  obtain ⟨hrep', hout⟩ := hrep.hostArrives x
  rcases hr : ntpJoinerHostArrives j x with ⟨j', _ | t⟩
  · rw [hr] at hrep' hout
    simp only [onHostRecord, hj, hr]
    exact h.arrive rfl hrep' (by rw [plainArrive, ← hout]) rfl
  · rw [hr] at hrep' hout
    simp only [onHostRecord, hj, hr]
    exact h.arrive rfl hrep' (by rw [plainArrive, ← hout]) rfl

theorem Joined.targetRecord (h : Joined init s recs) (x : TgtRec) :
    Joined init (onTargetRecord s x).1 (recs ++ [.target x]) := by
  obtain ⟨j, hj, hrep⟩ := h.joiner
  obtain ⟨hrep', hout⟩ := hrep.targetArrives x
  rcases hr : ntpJoinerTargetArrives j x with ⟨j', _ | y⟩
  · rw [hr] at hrep' hout
    simp only [onTargetRecord, hj, hr]
    exact h.arrive rfl hrep' (by rw [plainArrive, ← hout]) rfl
  · rw [hr] at hrep' hout
    simp only [onTargetRecord, hj, hr]
    exact h.arrive rfl hrep' (by rw [plainArrive, ← hout]) rfl

theorem Joined.saved (h : Joined init s recs) (fails : Bool) : Joined init (saveRecord s fails) recs := by
  obtain ⟨n, hn⟩ := saveRecord_eq s fails
  rw [hn]
  exact h.congr rfl rfl

theorem Joined.record (h : Joined init s recs) (d : RawData) (short : Option ℕ) :
    Joined init (onRecord s d.ring short.isSome).1 (recs ++ savedOf [.data d short]) := by
  rw [savedOf_data]
  cases d with
  | otherSized =>
    rw [show (RawData.rec? .otherSized).map RawRec.toRec = none from rfl, Option.toList_none, List.append_nil]
    exact h.congr rfl rfl
  | hostSized x p =>
    by_cases hk : x.hdr.kind = ntpRecHost
    · simp only [onRecord, RawData.ring, hk, if_true, RawData.rec?]
      exact (h.hostRecord x).saved _
    · simp only [onRecord, RawData.ring, hk, if_false, RawData.rec?, Option.map_none, Option.toList_none,
        List.append_nil]
      exact h.congr rfl rfl
  | tgtSized x p =>
    by_cases hk : x.hdr.kind = ntpRecTarget
    · simp only [onRecord, RawData.ring, hk, if_true, RawData.rec?]
      exact (h.targetRecord x).saved _
    · simp only [onRecord, RawData.ring, hk, if_false, RawData.rec?, Option.map_none, Option.toList_none,
        List.append_nil]
      exact h.congr rfl rfl

theorem plainExpire_of_none {α : Type} [Waiting α] {l : List α} {b : U64} (h : (plainExpire l b).2 = []) :
    (plainExpire l b).1 = l := by
  refine List.filter_eq_self.mpr fun x hx => ?_
  have hnot := List.filter_eq_nil_iff.mp h x hx
  simpa using hnot

/-- An interval's end that gives up on nothing leaves what waits. -/
theorem Joined.tick (h : Joined init s recs) {now : U64} (hquiet : QuietEvent s (.tick now)) :
    Joined init (intervalTick s now).1 recs := by
  obtain ⟨j, hj, hrep⟩ := h.joiner
  obtain ⟨hnone, hexp⟩ := hquiet
  have hexp := hexp j hj
  obtain ⟨hrep1, hgone, -⟩ := hrep.releaseHosts (now - hostWaitNs)
  have hreleased : (ntpJoinerReleaseHosts j (now - hostWaitNs)).2.1 = [] := by
    simp only [intervalTick, releaseUnmatched, hj] at hnone
    exact List.map_eq_nil_iff.mp hnone
  rw [hreleased] at hgone
  have hperm := KeyedList.perm_of_under packedKey hgone
  have hhosts := plainExpire_of_none (List.nil_perm.mp hperm)
  have hrep1' : JoinerRep (ntpJoinerReleaseHosts j (now - hostWaitNs)).1
      (plainArriveAll (.new targetsPerKey) recs).1 := by
    have heq : (plainArriveAll (.new targetsPerKey) recs).1.next (.releaseHosts (now - hostWaitNs)) =
        (plainArriveAll (.new targetsPerKey) recs).1 := by
      simp only [PlainJoiner.next, hhosts]
    rw [heq] at hrep1
    exact hrep1
  obtain ⟨hrep2, hcount⟩ := hrep1'.expire (now - targetExpiryNs)
  rw [hexp] at hcount
  have htargets := plainExpire_of_none (List.length_eq_zero_iff.mp hcount.symm)
  have heq : (plainArriveAll (.new targetsPerKey) recs).1.next (.expire (now - targetExpiryNs)) =
      (plainArriveAll (.new targetsPerKey) recs).1 := by
    simp only [PlainJoiner.next, htargets]
  rw [heq] at hrep2
  refine ⟨⟨_, ?_, hrep2⟩, ?_⟩
  · simp only [intervalTick, releaseUnmatched, hj, hreleased, List.map_nil, addHosts, List.foldl_nil, Option.map_some]
  · rw [← h.total]
    simp only [intervalTick, releaseUnmatched, hj, hreleased, List.map_nil, addHosts, List.foldl_nil]

theorem Joined.steps {r : Recording} (h : Joined init r.session recs) {es : List RecordingEvent} (hquiet : Quiet r es) :
    Joined init (recordingSteps r es).session (recs ++ savedOf es) := by
  induction es generalizing r recs with
  | nil =>
    rw [show savedOf [] = [] from rfl, List.append_nil]
    exact h
  | cons e es ih =>
    obtain ⟨he, hes⟩ := hquiet
    have hstep : Joined init (recordingStep r e).session (recs ++ savedOf [e]) := by
      cases e with
      | data d short => exact h.record d short
      | tick now =>
        rw [show savedOf [.tick now] = [] from rfl, List.append_nil]
        exact h.tick he
    rw [savedOf_cons, ← List.append_assoc]
    exact ih hstep hes

theorem addHosts_total (s : Session) (handed : Handed) : (addHosts s handed).total = statsRun s.total handed := by
  induction handed generalizing s with
  | nil => rfl
  | cons x xs ih => exact ih (addHost s x.1 x.2)

theorem fst_offline (targets : List TgtRec) (hosts : List HostRec) :
    (FifoMatch.offline HostRec.id TgtRec.id targets hosts).map Prod.fst = hosts := by
  induction hosts generalizing targets with
  | nil => rfl
  | cons h hosts ih => rw [FifoMatch.offline, List.map_cons, ih]

/-- The final release counts what still waits: after it, the pairs and the records without one are those of the off
line join. -/
theorem Joined.released (h : Joined init s recs) (hdone : ∀ x, .host x ∈ recs → x.ts .blkDone ≠ uint64Max)
    (hfit : FitsBound targetsPerKey recs) :
    ∃ handed, (releaseUnmatched s uint64Max).1.total = statsRun init handed ∧
      handed.Perm (FifoMatch.offline HostRec.id TgtRec.id (recs.filterMap Rec.target?) (recs.filterMap Rec.host?)) := by
  obtain ⟨j, hj, hrep⟩ := h.joiner
  obtain ⟨hperm, hmax⟩ := hrep.release_all
  have hbound : targetsPerKey ≠ 0 → FitsBound targetsPerKey recs := fun _ => hfit
  have hoffline := arriveAll_perm_offline hbound
  rw [((joinerRep_new targetsPerKey).arriveAll recs).2] at hoffline
  have hleft : (ntpJoinerReleaseHosts j uint64Max).1.hosts.records = [] := by
    refine List.eq_nil_iff_forall_not_mem.mpr fun x hx => ?_
    have hwait : x ∈ (plainArriveAll (.new targetsPerKey) recs).1.hosts :=
      hperm.mem_iff.mpr (List.mem_append_right _ hx)
    have hpair : (x, none) ∈ FifoMatch.offline HostRec.id TgtRec.id (recs.filterMap Rec.target?)
        (recs.filterMap Rec.host?) :=
      hoffline.mem_iff.mp (List.mem_append_right _ (List.mem_map_of_mem hwait))
    have hhost : x ∈ recs.filterMap Rec.host? := by
      rw [← fst_offline (recs.filterMap Rec.target?) (recs.filterMap Rec.host?)]
      exact List.mem_map_of_mem hpair
    obtain ⟨y, hy, hyx⟩ := List.mem_filterMap.mp hhost
    cases y with
    | host y =>
      obtain rfl := Option.some.inj hyx
      exact hdone y hy (hmax y hx)
    | target y => cases hyx
  rw [hleft, List.append_nil] at hperm
  refine ⟨(plainArriveAll (.new targetsPerKey) recs).2.map (fun p => (p.1, some p.2)) ++
    (ntpJoinerReleaseHosts j uint64Max).2.1.map fun x => (x, none), ?_, ?_⟩
  · simp only [releaseUnmatched, hj]
    rw [addHosts_total, statsRun_append, ← h.total]
  · exact ((hperm.symm.map _).append_left _).trans hoffline

/-- Adding the same records in two orders to statistics without a group gives the same statistics. -/
theorem sameStats_of_perm {s₀ : Stats} (h₀ : s₀.groups = []) {l l' : List StatRec} (h : l.Perm l') :
    SameStats (statsRun s₀ l) (statsRun s₀ l') := by
  have hrun : GroupsOf _ _ (statsRun s₀ l) := groupsOf_run h₀ l
  have hrun' : GroupsOf _ _ (statsRun s₀ l') := groupsOf_run h₀ l'
  have hspan := statsRun_span s₀ l
  have hspan' := statsRun_span s₀ l'
  have hsame : ∀ g ∈ (statsRun s₀ l).groups, ∀ g' ∈ (statsRun s₀ l').groups, g.key = g'.key → SameGroup g g' := by
    intro g hg g' hg' hkey
    rw [hrun.made g hg, hrun'.made g' hg', ← hkey]
    exact addAll_perm g.key (h.filter _)
  refine ⟨hrun.distinct, ?_, hsame, ?_, ?_, ?_⟩
  · rw [List.perm_ext_iff_of_nodup hrun.distinct hrun'.distinct]
    exact fun k => ⟨keys_subset h₀ h, keys_subset h₀ h.symm⟩
  · intro g hg g' hg' hkey
    have hgg := hsame g hg g' hg' hkey
    exact ⟨fun c => ntpSummarize_of_perm (hgg.comp c), fun i => ntpSummarize_of_perm (hgg.stage i),
      fun m => ntpSummarize_of_perm (hgg.queue m)⟩
  · rw [hspan.1, hspan'.1]
    exact h.foldl_eq' (fun x _ y _ z => earlier_comm z _ _) _
  · rw [hspan.2, hspan'.2]
    exact h.foldl_eq' (fun x _ y _ z => later_comm z _ _) _

/-- What a recording of host and target shows at its end and what `report` shows of its file agree group by group, as
long as no record was given up before its counterpart could come: for every order in which records arrive. -/
theorem both_report_agrees_with_file (c : RunConfig) (env : Machine) (io : OpenIo) (r : Recording)
    (es : List RecordingEvent) (closeFails : Bool) (buf : Vector U8 sizeofHostRec) (hrole : c.role = ntpRoleBoth)
    (hout : c.output ≠ []) (hstart : startRecording c env io = some r) (hquiet : Quiet r es)
    (hdone : ∀ x, .host x ∈ savedOf es → x.ts .blkDone ≠ uint64Max) (hfit : FitsBound targetsPerKey (savedOf es))
    (hclose : closeWriter (endRecording (recordingSteps r es)) exitSuccess closeFails = exitSuccess) :
    ∃ f rep, (endRecording (recordingSteps r es)).w.f = some f ∧
      cmdReport c (readRecordFile buf.toList) [f] = some rep ∧
      SameStats (endRecording (recordingSteps r es)).session.total rep.stats ∧
      rep.stats.sampleEvery = (endRecording (recordingSteps r es)).session.total.sampleEvery := by
  obtain ⟨-, -, htotal, -, -, hjoiner⟩ := startRecording_writing hout hstart
  have hfile := file_of_success hout hstart hclose
  rw [if_pos hrole] at hjoiner
  have hbegin : Joined (startStats c) r.session [] := ⟨⟨_, hjoiner, joinerRep_new _⟩, htotal⟩
  have hsteps := hbegin.steps hquiet
  rw [List.nil_append] at hsteps
  obtain ⟨handed, hhanded, hperm⟩ := hsteps.released hdone hfit
  have hread : readRecordFile buf.toList (encodeFileHeader (recordHeader c env) ++ (savedRecs es).flatMap RawRec.encode) =
      some ⟨recordHeader c env, savedOf es⟩ :=
    readRecordFile_written buf env _ _ _ _ (tagged_savedRecs es)
  have hhost : (recordHeader c env).role &&& ntpRoleHost ≠ 0 := by
    show c.role &&& ntpRoleHost ≠ 0
    rw [hrole]
    decide
  obtain ⟨rep, hrep, -, -, hstats⟩ := cmdReport_one c hread hhost
  have hreport : rep.stats = statsRun (startStats c) (FifoMatch.offline HostRec.id TgtRec.id
      ((savedOf es).filterMap Rec.target?) ((savedOf es).filterMap Rec.host?)) := by
    rw [hstats]
    exact (statsRun_sampleEvery _ _ _).symm
  have hlive : (endRecording (recordingSteps r es)).session.total = statsRun (startStats c) handed := hhanded
  refine ⟨_, rep, hfile, hrep, ?_, ?_⟩
  · rw [hlive, hreport]
    exact sameStats_of_perm rfl hperm
  · have hkeeps : ∀ l, (statsRun (startStats c) l).sampleEvery = c.sampleEvery := by
      intro l
      exact congrArg Stats.sampleEvery (statsRun_sampleEvery (ntpStatsInit c.groupByType c.groupBySize c.groupBySession) _ l)
    rw [hlive, hreport, hkeeps, hkeeps]

/-- When nothing waits, an interval's end gives up on nothing. -/
theorem quietEvent_of_empty {s : Session} {j : Joiner} {p : PlainJoiner} (hj : s.joiner = some j) (h : JoinerRep j p)
    (hhosts : p.hosts = []) (htargets : p.targets = []) (now : U64) : QuietEvent s (.tick now) := by
  obtain ⟨hrep, hgone, -⟩ := h.releaseHosts (now - hostWaitNs)
  rw [hhosts] at hgone
  have hreleased := List.perm_nil.mp (KeyedList.perm_of_under packedKey hgone)
  refine ⟨?_, fun j' hj' => ?_⟩
  · simp only [intervalTick, releaseUnmatched, hj, hreleased, List.map_nil]
  · rw [hj] at hj'
    obtain rfl := Option.some.inj hj'
    rw [(hrep.expire (now - targetExpiryNs)).2]
    show (plainExpire p.targets _).2.length = 0
    rw [htargets]
    rfl

theorem quiet_append {r : Recording} {es : List RecordingEvent} {e : RecordingEvent} (h : Quiet r es)
    (he : QuietEvent (recordingSteps r es).session e) : Quiet r (es ++ [e]) := by
  induction es generalizing r with
  | nil => exact ⟨he, trivial⟩
  | cons x es ih => exact ⟨h.1, ih h.2 he⟩

/-- The completion of the one command. -/
def joinedHost : HostRec := { hdr := { kind := ntpRecHost }, ts := fun _ => 5 }

/-- A target record and the host record of its command. -/
def oneJoinedCommand : List RecordingEvent :=
  [.data (.tgtSized { hdr := { kind := ntpRecTarget } } {}) none, .data (.hostSized joinedHost {}) none]

theorem both_report_agrees_with_file_one :
    ∃ r f rep, startRecording (savingConfig ntpRoleBoth) someMachine .done = some r ∧
      (endRecording (recordingSteps r (oneJoinedCommand ++ [.tick 7]))).w.f = some f ∧
      cmdReport (savingConfig ntpRoleBoth) (readRecordFile (List.replicate sizeofHostRec 0)) [f] = some rep ∧
      SameStats (endRecording (recordingSteps r (oneJoinedCommand ++ [.tick 7]))).session.total rep.stats := by
  obtain ⟨r, hr⟩ : ∃ r, startRecording (savingConfig ntpRoleBoth) someMachine .done = some r := ⟨_, rfl⟩
  obtain ⟨hwriting, herrors, htotal, -, -, hjoiner⟩ := startRecording_writing (by decide) hr
  have hbegin : Joined (startStats (savingConfig ntpRoleBoth)) r.session [] := ⟨⟨_, hjoiner, joinerRep_new _⟩, htotal⟩
  have hfirst : Quiet r oneJoinedCommand := ⟨trivial, trivial, trivial⟩
  obtain ⟨j, hj, hrep⟩ := (hbegin.steps hfirst).joiner
  have hquiet := quiet_append hfirst (quietEvent_of_empty hj hrep rfl rfl 7)
  have hclose : closeWriter (endRecording (recordingSteps r (oneJoinedCommand ++ [.tick 7]))) exitSuccess false =
      exitSuccess := closeWriter_of_none_lost hwriting herrors (by simp [oneJoinedCommand, RecordingEvent.lost])
  have hsaved : savedOf (oneJoinedCommand ++ [.tick 7]) =
      [.target { hdr := { kind := ntpRecTarget } }, .host joinedHost] := rfl
  have hdone : ∀ x, .host x ∈ savedOf (oneJoinedCommand ++ [.tick 7]) → x.ts .blkDone ≠ uint64Max := by
    intro x hx
    rw [hsaved] at hx
    obtain rfl : x = joinedHost := by simpa using hx
    decide
  have hfit : FitsBound targetsPerKey (savedOf (oneJoinedCommand ++ [.tick 7])) :=
    fitsBound_of_length_le (by rw [hsaved]; decide)
  have h := both_report_agrees_with_file (savingConfig ntpRoleBoth) someMachine .done r
    (oneJoinedCommand ++ [.tick 7]) false (Vector.replicate _ 0) rfl (by decide) hr
  obtain ⟨f, rep, hf, hreport, hstats, -⟩ := h hquiet hdone hfit hclose
  rw [Vector.toList_replicate] at hreport
  exact ⟨r, f, rep, hr, hf, hreport, hstats⟩

end Ntprof
