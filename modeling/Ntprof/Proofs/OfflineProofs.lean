import Ntprof.Offline
import Ntprof.Lib.FifoMatch
import Ntprof.Proofs.JoinProofs

/-!
# Joining on line and joining off line

Without the bound, the plain joiner is the pairing of two streams of `FifoMatch`, on line through
`on_record` and off line through `load_run`. A bound that is never reached changes nothing.
-/

namespace Ntprof

open KeyedList

/-! ## The bound -/

section Bound

variable {α : Type} [Waiting α]

theorem plainPush_unbounded (l : List α) (r : α) : plainPush l r 0 = (l ++ [r], 0) := by
  unfold plainPush
  rw [if_neg fun h => h.1 rfl]

/-- A bound that the key of `r` stays within when `r` is kept does nothing. -/
theorem plainPush_of_fits {l : List α} {r : α} {maxPerKey : Nat}
    (h : maxPerKey ≠ 0 → (under packedKey (packedKey r) (l ++ [r])).length ≤ maxPerKey) :
    plainPush l r maxPerKey = (l ++ [r], 0) := by
  unfold plainPush
  refine if_neg fun hm => ?_
  have hle := h hm.1
  have hfull := hm.2
  rw [under_append_self, List.length_append, ← under_waitKey] at hle
  simp only [List.length_singleton] at hle
  omega

theorem TableRep.held {maxPerKey : Nat} {t : Table α} {l : List α} (h : TableRep maxPerKey t l)
    (k : U64) : t.held k = (under packedKey k l).length := by
  rw [← h.lookup k, Table.held]
  cases t.lookup k <;> rfl

/-- The records of a table are those of its list. -/
theorem TableRep.records {maxPerKey : Nat} {t : Table α} {l : List α} (h : TableRep maxPerKey t l) :
    t.records.Perm l := by
  refine perm_of_under packedKey fun k => ?_
  have hkeyed : ∀ s, (t.v s).flatMap Bucket.recs =
      (t.v s).flatMap fun b => b.recs.filter fun r => packedKey r = b.key := by
    intro s
    refine List.flatMap_congr fun b hb => ?_
    exact (List.filter_eq_self.2 fun r hr => decide_eq_true (h.bucket_key hb hr)).symm
  have hcol := Chains.Ok.filter_flatMap Bucket.key t.slotOf packedKey h.chains
    (g := fun b : Bucket α => b.recs.filter fun r => packedKey r = b.key)
    (fun b x hx => by simpa using (List.mem_filter.1 hx).2) k
  unfold Table.records
  simp only [hkeyed]
  unfold under at hcol ⊢
  rw [hcol]
  change Option.elim (t.lookup k) _ _ = under packedKey k l
  rw [← h.lookup k]
  cases hb : t.lookup k with
  | none => rfl
  | some b =>
    obtain ⟨hbk, hbr, -⟩ := h.of_some hb
    refine List.filter_eq_self.2 fun r hr => decide_eq_true ?_
    rw [hbr] at hr
    exact ((mem_under packedKey).1 hr).2.trans hbk.symm

end Bound

/-- The records arrive at a joiner without a bound, and no key ever holds more than `maxPerKey`
records of a side. -/
def FitsBound (maxPerKey : Nat) (recs : List Rec) : Prop :=
  ∀ pre, pre <+: recs → ∀ k,
    (joinArriveAll (ntpJoinerNew 0) pre).1.hosts.held k ≤ maxPerKey ∧
      (joinArriveAll (ntpJoinerNew 0) pre).1.targets.held k ≤ maxPerKey

/-! ## On line -/

theorem JoinerRep.arrive {j : Joiner} {p : PlainJoiner} (h : JoinerRep j p) (r : Rec) :
    JoinerRep (joinArrive j r).1 (plainArrive p r).1 ∧ (joinArrive j r).2 = (plainArrive p r).2 := by
  cases r with
  | host r =>
    obtain ⟨hs, hout⟩ := h.hostArrives r
    exact ⟨hs, by simp only [joinArrive, plainArrive, hout]⟩
  | target t =>
    obtain ⟨hs, hout⟩ := h.targetArrives t
    exact ⟨hs, by simp only [joinArrive, plainArrive, hout]⟩

theorem JoinerRep.arriveAll {j : Joiner} {p : PlainJoiner} (h : JoinerRep j p) (recs : List Rec) :
    JoinerRep (joinArriveAll j recs).1 (plainArriveAll p recs).1 ∧
      (joinArriveAll j recs).2 = (plainArriveAll p recs).2 := by
  induction recs generalizing j p with
  | nil => exact ⟨h, rfl⟩
  | cons r recs ih =>
    obtain ⟨hs, hout⟩ := h.arrive r
    obtain ⟨hr, houts⟩ := ih hs
    refine ⟨hr, ?_⟩
    simp only [joinArriveAll, plainArriveAll]
    rw [hout, houts]

/-- The plain joiner with the same lists and another bound. -/
def PlainJoiner.withBound (p : PlainJoiner) (maxPerKey : Nat) : PlainJoiner :=
  { p with maxPerKey := maxPerKey }

theorem plainArrive_withBound {q : PlainJoiner} {maxPerKey : Nat} (hq : q.maxPerKey = 0) {r : Rec}
    (hfit : maxPerKey ≠ 0 → ∀ k,
      (under packedKey k (plainArrive q r).1.hosts).length ≤ maxPerKey ∧
        (under packedKey k (plainArrive q r).1.targets).length ≤ maxPerKey) :
    plainArrive (q.withBound maxPerKey) r =
      ((plainArrive q r).1.withBound maxPerKey, (plainArrive q r).2) := by
  cases r with
  | host h =>
    simp only [plainArrive, PlainJoiner.next, PlainJoiner.withBound] at hfit ⊢
    cases hf : plainFind q.targets h.id with
    | some t => rfl
    | none =>
      simp only [hf, PlainJoiner.addHost, hq, plainPush_unbounded] at hfit ⊢
      rw [plainPush_of_fits fun hm => (hfit hm _).1]
  | target t =>
    simp only [plainArrive, PlainJoiner.next, PlainJoiner.withBound] at hfit ⊢
    cases hf : plainFind q.hosts t.id with
    | some h => rfl
    | none =>
      simp only [hf, PlainJoiner.addTarget, hq, plainPush_unbounded] at hfit ⊢
      rw [plainPush_of_fits fun hm => (hfit hm _).2]

theorem plainArrive_maxPerKey (p : PlainJoiner) (r : Rec) :
    (plainArrive p r).1.maxPerKey = p.maxPerKey := by
  cases r with
  | host h => exact plainStep_maxPerKey p (.hostArrives h)
  | target t => exact plainStep_maxPerKey p (.targetArrives t)

/-- A bound that is never reached changes nothing. -/
theorem plainArriveAll_withBound {maxPerKey : Nat} {recs : List Rec} {q : PlainJoiner}
    (hq : q.maxPerKey = 0)
    (hfit : maxPerKey ≠ 0 → ∀ pre, pre <+: recs → ∀ k,
      (under packedKey k (plainArriveAll q pre).1.hosts).length ≤ maxPerKey ∧
        (under packedKey k (plainArriveAll q pre).1.targets).length ≤ maxPerKey) :
    plainArriveAll (q.withBound maxPerKey) recs =
      ((plainArriveAll q recs).1.withBound maxPerKey, (plainArriveAll q recs).2) := by
  induction recs generalizing q with
  | nil => rfl
  | cons r recs ih =>
    have hone := plainArrive_withBound (r := r) hq
      fun hm k => hfit hm [r] ⟨recs, rfl⟩ k
    have hrest := ih (q := (plainArrive q r).1) ((plainArrive_maxPerKey q r).trans hq)
      fun hm pre hpre k => hfit hm (r :: pre) (List.cons_prefix_cons.2 ⟨rfl, hpre⟩) k
    simp only [plainArriveAll, hone, hrest]

/-- The side a record comes from. -/
def Rec.side : Rec → HostRec ⊕ TgtRec
  | .host h => .inl h
  | .target t => .inr t

/-- The plain joiner without a bound pairs the two streams. -/
theorem plainArrive_fifo {q : PlainJoiner} (hq : q.maxPerKey = 0) (pairs : List (HostRec × TgtRec))
    (r : Rec) :
    FifoMatch.arrive HostRec.id TgtRec.id (⟨q.hosts, q.targets⟩, pairs) r.side =
      (⟨(plainArrive q r).1.hosts, (plainArrive q r).1.targets⟩,
        pairs ++ (plainArrive q r).2.toList) := by
  cases r with
  | host h =>
    have hf : (q.targets.find? fun t => t.id = h.id) = plainFind q.targets h.id := rfl
    simp only [Rec.side, FifoMatch.arrive, plainArrive, PlainJoiner.next, hf]
    cases hp : plainFind q.targets h.id with
    | none => simp [PlainJoiner.addHost, hq, plainPush_unbounded]
    | some t => rfl
  | target t =>
    have hf : (q.hosts.find? fun h => h.id = t.id) = plainFind q.hosts t.id := rfl
    simp only [Rec.side, FifoMatch.arrive, plainArrive, PlainJoiner.next, hf]
    cases hp : plainFind q.hosts t.id with
    | none => simp [PlainJoiner.addTarget, hq, plainPush_unbounded]
    | some h => rfl

theorem plainArriveAll_fifo {q : PlainJoiner} (hq : q.maxPerKey = 0)
    (pairs : List (HostRec × TgtRec)) (recs : List Rec) :
    (recs.map Rec.side).foldl (FifoMatch.arrive HostRec.id TgtRec.id) (⟨q.hosts, q.targets⟩, pairs) =
      (⟨(plainArriveAll q recs).1.hosts, (plainArriveAll q recs).1.targets⟩,
        pairs ++ (plainArriveAll q recs).2) := by
  induction recs generalizing q pairs with
  | nil => simp [plainArriveAll]
  | cons r recs ih =>
    rw [List.map_cons, List.foldl_cons, plainArrive_fifo hq,
      ih ((plainArrive_maxPerKey q r).trans hq)]
    simp only [plainArriveAll, List.append_assoc]

theorem lefts_side (recs : List Rec) : FifoMatch.lefts (recs.map Rec.side) = recs.filterMap Rec.host? := by
  unfold FifoMatch.lefts
  rw [List.filterMap_map]
  exact List.filterMap_congr fun r _ => by cases r <;> rfl

theorem rights_side (recs : List Rec) :
    FifoMatch.rights (recs.map Rec.side) = recs.filterMap Rec.target? := by
  unfold FifoMatch.rights
  rw [List.filterMap_map]
  exact List.filterMap_congr fun r _ => by cases r <;> rfl

/-! ## Off line -/

/-- The files of a run were read: what the joiner waits with, and the host records, in file order. -/
structure LoadRep (r : Run) (recs : List Rec) : Prop where
  hosts : r.hosts = recs.filterMap Rec.host?
  joiner : JoinerRep r.joiner ⟨recs.filterMap Rec.target?, [], 0⟩

theorem loadRep_onFileRec {r : Run} {recs : List Rec} (h : LoadRep r recs) (x : Rec) :
    LoadRep (onFileRec r x) (recs ++ [x]) := by
  cases x with
  | host x =>
    refine ⟨?_, ?_⟩
    · simp [onFileRec, h.hosts, Rec.host?]
    · have ht : (recs ++ [Rec.host x]).filterMap Rec.target? = recs.filterMap Rec.target? := by
        simp [List.filterMap_append, Rec.target?]
      rw [ht]
      exact h.joiner
  | target x =>
    refine ⟨?_, ?_⟩
    · simp [onFileRec, h.hosts, Rec.host?]
    · have ha := h.joiner.addTarget x
      simpa [onFileRec, Rec.target?, PlainJoiner.addTarget, plainPush_unbounded] using ha

theorem loadRep_foldl {r : Run} {recs : List Rec} (h : LoadRep r recs) (xs : List Rec) :
    LoadRep (xs.foldl onFileRec r) (recs ++ xs) := by
  induction xs generalizing r recs with
  | nil => simpa using h
  | cons x xs ih => simpa using ih (loadRep_onFileRec h x)

theorem loadRep_loadFile {r : Run} {recs : List Rec} (h : LoadRep r recs) (f : RecordFile) :
    LoadRep (loadFile r f) (recs ++ f.recs) := by
  have hf := loadRep_foldl h f.recs
  simp only [loadFile]
  split_ifs
  · exact ⟨hf.hosts, hf.joiner⟩
  · exact hf

theorem loadFiles_eq {φ : Type} {read : φ → Option RecordFile} {files : List φ}
    {loaded : List RecordFile} (hread : files.map read = loaded.map some) {r : Run} {recs : List Rec}
    (h : LoadRep r recs) :
    ∃ r', loadFiles read r files = some r' ∧ LoadRep r' (recs ++ loaded.flatMap RecordFile.recs) := by
  induction files generalizing loaded r recs with
  | nil =>
    cases loaded with
    | nil => exact ⟨r, rfl, by simpa using h⟩
    | cons f fs => simp at hread
  | cons f fs ih =>
    cases loaded with
    | nil => simp at hread
    | cons g gs =>
      simp only [List.map_cons, List.cons.injEq] at hread
      obtain ⟨r', hr', hrep⟩ := ih hread.2 (loadRep_loadFile h g)
      refine ⟨r', ?_, by simpa using hrep⟩
      simp only [loadFiles, hread.1, hr']

theorem matchHosts_eq {j : Joiner} {p : PlainJoiner} (h : JoinerRep j p) (hosts : List HostRec) :
    (matchHosts j hosts).2 = FifoMatch.offline HostRec.id TgtRec.id p.targets hosts := by
  induction hosts generalizing j p with
  | nil => rfl
  | cons x hosts ih =>
    obtain ⟨hs, hout⟩ := h.matchHost x
    simp only [matchHosts, FifoMatch.offline, hout, ih hs]
    rfl

/-- `load_run` hands out the off line pairing of the records of its files. -/
theorem loadRun_handed {φ : Type} {read : φ → Option RecordFile} {files : List φ}
    {loaded : List RecordFile} (hread : files.map read = loaded.map some) (stats : Stats) :
    ∃ out, loadRun read files stats = some out ∧
      out.handed = FifoMatch.offline HostRec.id TgtRec.id
        ((loaded.flatMap RecordFile.recs).filterMap Rec.target?)
        ((loaded.flatMap RecordFile.recs).filterMap Rec.host?) := by
  have hstart : LoadRep ⟨ntpJoinerNew 0, [], 0, none⟩ [] := ⟨rfl, joinerRep_new 0⟩
  obtain ⟨r, hr, hrep⟩ := loadFiles_eq hread hstart
  rw [List.nil_append] at hrep
  refine ⟨_, by rw [loadRun, hr], ?_⟩
  rw [matchHosts_eq hrep.joiner, hrep.hosts]

/-! ## The two agree -/

theorem fits_plain {maxPerKey : Nat} {recs : List Rec} (h : FitsBound maxPerKey recs) (pre : List Rec)
    (hpre : pre <+: recs) (k : U64) :
    (under packedKey k (plainArriveAll (.new 0) pre).1.hosts).length ≤ maxPerKey ∧
      (under packedKey k (plainArriveAll (.new 0) pre).1.targets).length ≤ maxPerKey := by
  obtain ⟨hrep, -⟩ := (joinerRep_new 0).arriveAll pre
  have hk := h pre hpre k
  rw [hrep.hosts.held, hrep.targets.held] at hk
  exact hk

/-- Pairs found on arrival, and the host records that wait when all has arrived, are what `load_run`
hands out for the same records. -/
theorem arriveAll_perm_offline {maxPerKey : Nat} {recs : List Rec}
    (hfit : maxPerKey ≠ 0 → FitsBound maxPerKey recs) :
    List.Perm
      ((joinArriveAll (ntpJoinerNew maxPerKey) recs).2.map (fun p => (p.1, some p.2)) ++
        (plainArriveAll (.new maxPerKey) recs).1.hosts.map fun h => (h, none))
      (FifoMatch.offline HostRec.id TgtRec.id (recs.filterMap Rec.target?)
        (recs.filterMap Rec.host?)) := by
  -- the bound is never reached, and the joiner without it is the on line pairing
  have hplain : plainArriveAll (.new maxPerKey) recs =
      ((plainArriveAll (.new 0) recs).1.withBound maxPerKey, (plainArriveAll (.new 0) recs).2) :=
    plainArriveAll_withBound (q := .new 0) rfl fun hm pre hpre k => fits_plain (hfit hm) pre hpre k
  have hfifo : FifoMatch.online HostRec.id TgtRec.id (recs.map Rec.side) =
      (⟨(plainArriveAll (.new 0) recs).1.hosts, (plainArriveAll (.new 0) recs).1.targets⟩,
        (plainArriveAll (.new 0) recs).2) :=
    plainArriveAll_fifo (q := .new 0) rfl [] recs
  have h := FifoMatch.online_perm_offline HostRec.id TgtRec.id (recs.map Rec.side)
  rw [hfifo, lefts_side, rights_side] at h
  rw [((joinerRep_new maxPerKey).arriveAll recs).2, hplain]
  exact h

theorem not_lt_uint64Max {x : U64} (h : ¬ x < uint64Max) : x = uint64Max := by
  have hx : x.toNat < 2 ^ 64 := x.isLt
  have hm : uint64Max.toNat = 2 ^ 64 - 1 := by decide
  rw [BitVec.lt_def] at h
  apply BitVec.eq_of_toNat_eq
  omega

/-- The final release gives up on every host record that waits, but for one whose completion time is
the largest there is. -/
theorem JoinerRep.release_all {j : Joiner} {p : PlainJoiner} (h : JoinerRep j p) :
    List.Perm p.hosts ((ntpJoinerReleaseHosts j uint64Max).2.1 ++
        (ntpJoinerReleaseHosts j uint64Max).1.hosts.records) ∧
      ∀ x ∈ (ntpJoinerReleaseHosts j uint64Max).1.hosts.records, x.ts .blkDone = uint64Max := by
  obtain ⟨hrep, hgone, -⟩ := h.releaseHosts uint64Max
  have hrel := perm_of_under packedKey hgone
  have hleft := hrep.hosts.records
  constructor
  · refine List.Perm.trans ?_ (hrel.symm.append hleft.symm)
    exact (List.filter_append_perm _ p.hosts).symm
  · intro x hx
    have hm := List.mem_filter.1 (hleft.mem_iff.1 hx)
    have hlt : ¬ agingTs x < uint64Max := by simpa using hm.2
    exact not_lt_uint64Max hlt

/-- On line and off line joining agree: whatever the order in which the records of the two sides
arrive, and as long as no key holds more records than the bound, the pairs found on arrival, together
with the host records that wait at the end as unmatched ones, are those `load_run` hands to
`ntp_stats_add` for files with the same host records and the same target records in their orders. -/
theorem online_join_agrees_with_load_run {φ : Type} (read : φ → Option RecordFile) (files : List φ)
    (loaded : List RecordFile) (stats : Stats) (maxPerKey : Nat) (recs : List Rec)
    (hread : files.map read = loaded.map some)
    (hhosts : (loaded.flatMap RecordFile.recs).filterMap Rec.host? = recs.filterMap Rec.host?)
    (htargets : (loaded.flatMap RecordFile.recs).filterMap Rec.target? = recs.filterMap Rec.target?)
    (hfit : maxPerKey ≠ 0 → FitsBound maxPerKey recs) :
    ∃ out, loadRun read files stats = some out ∧
      let online := joinArriveAll (ntpJoinerNew maxPerKey) recs
      let final := ntpJoinerReleaseHosts online.1 uint64Max
      List.Perm (online.2.map (fun p => (p.1, some p.2)) ++ final.2.1.map (fun h => (h, none)) ++
          final.1.hosts.records.map fun h => (h, none)) out.handed ∧
        ∀ h ∈ final.1.hosts.records, h.ts .blkDone = uint64Max := by
  obtain ⟨out, hout, hhanded⟩ := loadRun_handed hread stats
  obtain ⟨hrep, -⟩ := (joinerRep_new maxPerKey).arriveAll recs
  obtain ⟨hperm, hmax⟩ := hrep.release_all
  refine ⟨out, hout, ?_, hmax⟩
  rw [hhanded, hhosts, htargets]
  refine List.Perm.trans ?_ (arriveAll_perm_offline hfit)
  rw [List.append_assoc, ← List.map_append]
  exact (hperm.symm.map _).append_left _

theorem plainArrive_length_le (q : PlainJoiner) (hq : q.maxPerKey = 0) (r : Rec) :
    (plainArrive q r).1.hosts.length ≤ q.hosts.length + 1 ∧
      (plainArrive q r).1.targets.length ≤ q.targets.length + 1 := by
  cases r with
  | host h =>
    simp only [plainArrive, PlainJoiner.next]
    cases hf : plainFind q.targets h.id with
    | some t => exact ⟨Nat.le_succ _, List.eraseP_sublist.length_le.trans (Nat.le_succ _)⟩
    | none => simp [PlainJoiner.addHost, hq, plainPush_unbounded]
  | target t =>
    simp only [plainArrive, PlainJoiner.next]
    cases hf : plainFind q.hosts t.id with
    | some h => exact ⟨List.eraseP_sublist.length_le.trans (Nat.le_succ _), Nat.le_succ _⟩
    | none => simp [PlainJoiner.addTarget, hq, plainPush_unbounded]

theorem plainArriveAll_length_le (recs : List Rec) (q : PlainJoiner) (hq : q.maxPerKey = 0) :
    (plainArriveAll q recs).1.hosts.length ≤ q.hosts.length + recs.length ∧
      (plainArriveAll q recs).1.targets.length ≤ q.targets.length + recs.length := by
  induction recs generalizing q with
  | nil => exact ⟨le_rfl, le_rfl⟩
  | cons r recs ih =>
    have hone := plainArrive_length_le q hq r
    have hrest := ih (plainArrive q r).1 ((plainArrive_maxPerKey q r).trans hq)
    simp only [plainArriveAll, List.length_cons]
    omega

/-- As many records as the bound allows under one key always fit. -/
theorem fitsBound_of_length_le {maxPerKey : Nat} {recs : List Rec} (h : recs.length ≤ maxPerKey) :
    FitsBound maxPerKey recs := by
  intro pre hpre k
  obtain ⟨hrep, -⟩ := (joinerRep_new 0).arriveAll pre
  have hlen := plainArriveAll_length_le pre (.new 0) rfl
  have hpl := hpre.length_le
  have hzero : (PlainJoiner.new 0).hosts.length = 0 ∧ (PlainJoiner.new 0).targets.length = 0 := ⟨rfl, rfl⟩
  have hfh := List.length_filter_le (fun r => decide (packedKey r = k)) (plainArriveAll (.new 0) pre).1.hosts
  have hft := List.length_filter_le (fun r => decide (packedKey r = k)) (plainArriveAll (.new 0) pre).1.targets
  rw [hrep.hosts.held, hrep.targets.held]
  unfold under
  omega

/-- A host record that comes before its target record and one whose target record never comes. -/
theorem online_join_agrees_with_load_run_late_target :
    ∃ out, loadRun some [⟨{ role := 1 }, [.host { id := { cid := 1 } }, .host { id := { cid := 2 } }]⟩,
        ⟨{ role := 2 }, [.target { id := { cid := 1 } }]⟩] (ntpStatsInit true true true) = some out ∧
      let online := joinArriveAll (ntpJoinerNew 64)
        [.host { id := { cid := 1 } }, .target { id := { cid := 1 } }, .host { id := { cid := 2 } }]
      let final := ntpJoinerReleaseHosts online.1 uint64Max
      List.Perm (online.2.map (fun p => (p.1, some p.2)) ++ final.2.1.map (fun h => (h, none)) ++
          final.1.hosts.records.map fun h => (h, none)) out.handed ∧
        ∀ h ∈ final.1.hosts.records, h.ts .blkDone = uint64Max :=
  online_join_agrees_with_load_run some _
    [⟨{ role := 1 }, [.host { id := { cid := 1 } }, .host { id := { cid := 2 } }]⟩,
      ⟨{ role := 2 }, [.target { id := { cid := 1 } }]⟩] _ 64
    [.host { id := { cid := 1 } }, .target { id := { cid := 1 } }, .host { id := { cid := 2 } }]
    rfl rfl rfl fun _ => fitsBound_of_length_le (by decide)

end Ntprof
