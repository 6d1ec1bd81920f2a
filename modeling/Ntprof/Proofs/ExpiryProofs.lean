import Ntprof.Session
import Ntprof.Proofs.OfflineProofs

/-!
# Proofs: what a tick gives up

A tick gives up the records whose aging timestamp is before a bound that it computes by an unsigned
subtraction. Shortly after boot the clock is smaller than the time a record may wait; the bound then wraps
to a time in the far future, and every record is before it.
-/

namespace Ntprof

theorem filter_eq_filter_iff {α : Type} {p q : α → Bool} {l : List α} :
    l.filter p = l.filter q ↔ ∀ r ∈ l, p r = q r := by
  refine ⟨?_, List.filter_congr⟩
  intro h r hr
  rw [Bool.eq_iff_iff]
  constructor
  · intro hp
    have hm : r ∈ l.filter p := List.mem_filter.mpr ⟨hr, hp⟩
    rw [h] at hm
    exact (List.mem_filter.mp hm).2
  · intro hq
    have hm : r ∈ l.filter q := List.mem_filter.mpr ⟨hr, hq⟩
    rw [← h] at hm
    exact (List.mem_filter.mp hm).2

section Table

variable {α : Type} [Waiting α] {wait now : U64} {t : Table α}

/-- At `now` a record has waited for more than `wait`. -/
def TooOld (wait now : U64) (r : α) : Prop := (agingTs r).toNat + wait.toNat < now.toNat

instance (wait now : U64) (r : α) : Decidable (TooOld wait now r) := inferInstanceAs (Decidable (_ < _))

/-- From `t` to `t'`, `n` records were given up: those that are too old. The others stay, in order. -/
structure GivenUp (wait now : U64) (t t' : Table α) (n : Nat) : Prop where
  kept : t'.records = t.records.filter fun r => ¬ TooOld wait now r
  count : n = (t.records.filter fun r => TooOld wait now r).length
  pending : t'.pending + n = t.pending

/-- The bound of a tick at `now` does not wrap, or no record is before it all the same. -/
def Unwrapped (wait now : U64) (t : Table α) : Prop :=
  wait ≤ now ∨ ∀ r ∈ t.records, now - wait ≤ agingTs r

theorem allExpired_eq (t : Table α) (beforeNs : U64) :
    allExpired t beforeNs = t.records.filter fun r => decide (agingTs r < beforeNs) := by
  simp only [allExpired, Table.records, List.filter_flatMap]
  rfl

theorem flatMap_filterMap_expireBucket (beforeNs : U64) (bs : List (Bucket α)) :
    (bs.filterMap (expireBucket beforeNs)).flatMap Bucket.recs =
      (bs.flatMap Bucket.recs).filter fun r => !decide (agingTs r < beforeNs) := by
  induction bs with
  | nil => rfl
  | cons b bs ih =>
    rw [List.flatMap_cons, List.filter_append, ← expireBucket_recs, ← ih]
    cases hb : expireBucket beforeNs b with
    | none => simp [List.filterMap_cons_none hb]
    | some b' => simp [List.filterMap_cons_some hb]

theorem records_tableExpire (t : Table α) (beforeNs : U64) :
    (tableExpire t beforeNs).1.records = t.records.filter fun r => !decide (agingTs r < beforeNs) := by
  rw [tableExpire_eq]
  simp only [Table.records, flatMap_filterMap_expireBucket, List.filter_flatMap]

theorem tooOld_iff (hle : wait ≤ now) (r : α) : agingTs r < now - wait ↔ TooOld wait now r := by
  have hsub : (now - wait).toNat = now.toNat - wait.toNat := BitVec.toNat_sub_of_le hle
  rw [BitVec.lt_def, hsub, TooOld]
  omega

theorem not_tooOld (hlt : ¬ wait ≤ now) (r : α) : ¬ TooOld wait now r := by
  rw [BitVec.not_le, BitVec.lt_def] at hlt
  intro h
  unfold TooOld at h
  omega

/-- The bound selects the records that are too old exactly if it did not wrap, or wrapped to no effect. -/
theorem before_iff_tooOld :
    (∀ r ∈ t.records, (agingTs r < now - wait ↔ TooOld wait now r)) ↔ Unwrapped wait now t := by
  by_cases hle : wait ≤ now
  · simp only [Unwrapped, hle, true_or, iff_true]
    intro r _
    exact tooOld_iff hle r
  · simp only [Unwrapped, hle, false_or]
    refine forall₂_congr fun r _ => ?_
    simp only [not_tooOld hle r, iff_false, BitVec.not_lt]

theorem givenUp_iff (hpending : t.pending = t.records.length) :
    GivenUp wait now t (tableExpire t (now - wait)).1 (tableExpire t (now - wait)).2.2 ↔ Unwrapped wait now t := by
  have hlen := List.length_eq_length_filter_add (l := t.records) fun r => decide (agingTs r < now - wait)
  rw [← before_iff_tooOld]
  constructor
  · intro h
    have hkept := h.kept
    rw [records_tableExpire, filter_eq_filter_iff] at hkept
    intro r hr
    have hr' := hkept r hr
    rw [← decide_not, decide_eq_decide, not_iff_not] at hr'
    exact hr'
  · intro h
    have hsel : (t.records.filter fun r => decide (agingTs r < now - wait)) =
        t.records.filter fun r => TooOld wait now r :=
      List.filter_congr fun r hr => decide_eq_decide.mpr (h r hr)
    refine ⟨?_, ?_, ?_⟩
    · rw [records_tableExpire]
      refine List.filter_congr fun r hr => ?_
      rw [← decide_not]
      exact decide_eq_decide.mpr (not_congr (h r hr))
    · rw [tableExpire_eq, allExpired_eq, hsel]
    · rw [tableExpire_eq, allExpired_eq]
      simp only
      omega

end Table

/-! ## The tick -/

/-- What the tick of `record` at `now` does to a joiner is what it is for: it releases the host records
with `BLK_DONE + HOST_WAIT_NS < now` and drops the target records with `CMD_ARR + TARGET_EXPIRY_NS < now`. -/
structure TickExact (j : Joiner) (now : U64) : Prop where
  released : (ntpJoinerReleaseHosts j (now - hostWaitNs)).2.1 =
    j.hosts.records.filter fun h => TooOld hostWaitNs now h
  hosts : GivenUp hostWaitNs now j.hosts (ntpJoinerReleaseHosts j (now - hostWaitNs)).1.hosts
    (ntpJoinerReleaseHosts j (now - hostWaitNs)).2.2
  targets : GivenUp targetExpiryNs now j.targets
    (ntpJoinerExpire (ntpJoinerReleaseHosts j (now - hostWaitNs)).1 (now - targetExpiryNs)).1.targets
    (ntpJoinerExpire (ntpJoinerReleaseHosts j (now - hostWaitNs)).1 (now - targetExpiryNs)).2

theorem JoinerRep.tickExact_iff {j : Joiner} {p : PlainJoiner} (h : JoinerRep j p) (now : U64) :
    TickExact j now ↔ Unwrapped hostWaitNs now j.hosts ∧ Unwrapped targetExpiryNs now j.targets := by
  have hhosts : j.hosts.pending = j.hosts.records.length := by
    rw [h.hosts.pending, h.hosts.records.length_eq]
  have htargets : j.targets.pending = j.targets.records.length := by
    rw [h.targets.pending, h.targets.records.length_eq]
  constructor
  · intro ht
    exact ⟨(givenUp_iff hhosts).mp ht.hosts, (givenUp_iff htargets).mp ht.targets⟩
  · rintro ⟨hh, ht⟩
    refine ⟨?_, (givenUp_iff hhosts).mpr hh, (givenUp_iff htargets).mpr ht⟩
    have hsel := before_iff_tooOld.mpr hh
    show (tableExpire j.hosts (now - hostWaitNs)).2.1 = _
    rw [tableExpire_eq, allExpired_eq]
    exact List.filter_congr fun r hr => decide_eq_decide.mpr (hsel r hr)

/-- In every state that a joiner reaches, a tick gives up exactly the records that are too old if and only
if each of its two bounds did not wrap below 0, or wrapped to a time that no waiting record is before. -/
theorem tick_exact_iff (maxPerKey : Nat) (ops : List JoinOp) (now : U64) :
    TickExact (joinRun (ntpJoinerNew maxPerKey) ops).1 now ↔
      Unwrapped hostWaitNs now (joinRun (ntpJoinerNew maxPerKey) ops).1.hosts ∧
      Unwrapped targetExpiryNs now (joinRun (ntpJoinerNew maxPerKey) ops).1.targets :=
  ((joinerRep_new maxPerKey).run ops).1.tickExact_iff now

/-- A target record that arrived 1 s after boot. -/
def bootTarget : TgtRec := { ts := fun i => if i = .cmdArr then 1000000000 else 0 }

/-- At 2 s after boot it is dropped, 9 s too early. -/
theorem dropped_after_boot :
    ¬ TickExact (joinRun (ntpJoinerNew targetsPerKey) [.targetArrives bootTarget]).1 2000000000 := by
  have hrep := ((joinerRep_new targetsPerKey).run [.targetArrives bootTarget]).1
  rw [hrep.tickExact_iff]
  rintro ⟨-, hle | hlate⟩
  · exact absurd hle (by decide)
  · have hm : bootTarget ∈ (joinRun (ntpJoinerNew targetsPerKey) [.targetArrives bootTarget]).1.targets.records :=
      hrep.targets.records.mem_iff.mpr (by simp [plainRun, plainStep, PlainJoiner.next, plainFind,
        PlainJoiner.new, PlainJoiner.addTarget, plainPush, KeyedList.under, targetsPerKey])
    exact absurd (hlate bootTarget hm) (by decide)

end Ntprof
