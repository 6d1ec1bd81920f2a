import Ntprof.Bpf.Proofs.HostCountProofs
import Ntprof.Bpf.Proofs.TargetCountProofs

/-!
# Exact queue counts

The counts are exact as long as `counted` and `tcounted` take every request and command that is counted; a
request that is counted while the map is full stays in the counts for good.
-/

namespace Ntprof.Bpf

open BpfMap

/-- Exact queue counts: along a run from empty maps, every count of every queue is the number of requests
(commands) still counted on it, if and only if no request (command) is counted while the map of counted ones
is full. -/
theorem queue_counts_exact_iff (tr : Transport) (k : Layout) (f : Filter) :
    (∀ es : List HostEvent,
      (∀ es', es' <+: es → (hostRun tr k f {} es').Exact) ↔ hostFits tr k f {} es = true) ∧
    ∀ es : List TgtEvent,
      (∀ es', es' <+: es → (tgtRun tr f {} es').Exact) ↔ tgtFits tr f {} es = true := by
  constructor
  · intro es
    exact HostState.countInv_init.run_iff tr k es
  · intro es
    exact TgtState.countInv_init.run_iff tr es

/-! ## More requests than `counted` holds -/

/-- A host that counts queues and got `->queue_rq()` for the requests `rqs` on the queues `qs`, in order. -/
structure Flooded (s : HostState) (qs rqs : List U64) : Prop where
  inv : s.CountInv
  armed : s.armed = true
  maxQueues : s.qstats.maxEntries = 4096
  okQueues : s.qstats.Ok
  queues : s.qstats.entries.map Prod.fst ⊆ qs
  requests : s.counted.entries.map Prod.fst = rqs

section Flood

variable {s : HostState} {qs rqs : List U64} {k : Layout} {f : Filter} {env : HookEnv} {rq : KAddr} {q : U64}

theorem Flooded.queue_room (h : Flooded s qs rqs) (hqs : qs.length < 4096) : s.qstats.full = false := by
  have hle : (s.qstats.entries.map Prod.fst).length ≤ qs.length :=
    (List.subperm_of_subset h.okQueues.nodup h.queues).length_le
  rw [List.length_map] at hle
  have hmax := h.maxQueues
  show decide (s.qstats.maxEntries ≤ s.qstats.entries.length) = false
  exact decide_eq_false (by omega)

theorem Flooded.counted_full (h : Flooded s qs rqs) : s.counted.full = decide (65536 ≤ rqs.length) := by
  unfold BpfMap.full
  rw [h.inv.max, ← h.requests, List.length_map]

theorem Flooded.counted_lookup (h : Flooded s qs rqs) (hrq : rq.val ∉ rqs) : s.counted.lookup rq = none := by
  rw [lookup_eq_none, h.requests]
  exact hrq

theorem hostQueueRq_armed : (hostQueueRq f s env rq q).armed = s.armed := by
  have hcount : (countRequest f s rq q).1.armed = s.armed := by
    unfold countRequest
    split_ifs
    · dsimp only
      split
      · rfl
      · split_ifs <;> rfl
    · rfl
  unfold hostQueueRq
  by_cases harmed : (!s.armed) = true
  · rw [if_pos harmed]
  · rw [if_neg harmed]
    exact hcount

/-- Another request. -/
theorem Flooded.next (h : Flooded s qs rqs) (hqs : qs.length < 4096) (hf : f.trackQueues = true)
    (hq : q ∈ qs) (hrq : rq.val ∉ rqs) (hlen : rqs.length < 65536) :
    Flooded (hostStep .tcp k f s (.tcp env (.queueRq rq q))) qs (rqs ++ [rq.val]) := by
  have hroom : s.counted.full = false := by
    rw [h.counted_full]
    exact decide_eq_false (by omega)
  have hc := h.counted_lookup hrq
  have hqroom := h.queue_room hqs
  have hnew : ((s.getQstat q).qstats.lookup q).isSome := by
    show ((s.qstats.updateNoExist q {}).lookup q).isSome
    rw [lookup_updateNoExist_isSome, hqroom]
    simp
  have hfits : hostOverflow .tcp f s (.tcp env (.queueRq rq q)) = false := by
    simp [hostOverflow, HostEvent.queued, hroom]
  have hcounts := hostStep_queued (f := f) (k := k) (HostEvent.queued_tcp .tcp env rq q) h.armed
  rw [countRequest_new hf hc hnew, updateAny_of_none hc, updateNoExist_of_room hc hroom] at hcounts
  obtain ⟨hstats, hcounted⟩ := Prod.mk.inj hcounts
  constructor
  · exact h.inv.step .tcp k _ hfits
  · exact hostQueueRq_armed.trans h.armed
  · rw [hstats]
    exact (maxEntries_updateNoExist ..).trans h.maxQueues
  · rw [hstats]
    exact h.okQueues.updateNoExist.modify _
  · rw [hstats, keys_modify]
    exact keys_updateNoExist_subset h.queues hq
  · rw [hcounted]
    show (s.counted.entries ++ [(rq.val, _)]).map Prod.fst = rqs ++ [rq.val]
    rw [List.map_append, h.requests]
    rfl

/-- Many of them. -/
theorem Flooded.run (hqs : qs.length < 4096) (hf : f.trackQueues = true) (l : List (KAddr × U64))
    (h : Flooded s qs rqs) (hq : ∀ p ∈ l, p.2 ∈ qs) (hnd : (rqs ++ l.map fun p => p.1.val).Nodup)
    (hlen : (rqs ++ l.map fun p => p.1.val).length ≤ 65536) :
    Flooded (hostRun .tcp k f s (l.map fun p => .tcp env (.queueRq p.1 p.2))) qs
      (rqs ++ l.map fun p => p.1.val) := by
  induction l generalizing s rqs with
  | nil =>
    rw [List.map_nil, List.map_nil, List.append_nil]
    exact h
  | cons p l ih =>
    rw [List.map_cons, List.append_cons] at hnd hlen
    rw [List.map_cons, List.map_cons, List.append_cons]
    have hrq : p.1.val ∉ rqs := by
      intro hmem
      have hdisj := (List.nodup_append.mp (List.nodup_append.mp hnd).1).2.2
      exact hdisj _ hmem _ (List.mem_singleton_self _) rfl
    have hroom : rqs.length < 65536 := by
      rw [List.length_append, List.length_append, List.length_singleton] at hlen
      omega
    have hnext : Flooded (hostStep .tcp k f s (.tcp env (.queueRq p.1 p.2))) qs (rqs ++ [p.1.val]) :=
      h.next hqs hf (hq p (by simp)) hrq hroom
    exact ih hnext (fun p' hp' => hq p' (by simp [hp'])) hnd hlen

/-- One request too many. -/
theorem Flooded.lost (h : Flooded s qs []) (hqs : qs.length < 4096) (hf : f.trackQueues = true)
    (l : List (KAddr × U64)) (last : KAddr × U64) (hq : ∀ p ∈ l, p.2 ∈ qs)
    (hnd : ((l ++ [last]).map fun p => p.1.val).Nodup) (hlen : l.length = 65536) :
    ¬ (hostRun .tcp k f s ((l ++ [last]).map fun p => .tcp env (.queueRq p.1 p.2))).Exact := by
  rw [List.map_append] at hnd
  have hl : Flooded (hostRun .tcp k f s (l.map fun p => .tcp env (.queueRq p.1 p.2))) qs
      ([] ++ l.map fun p => p.1.val) :=
    h.run hqs hf l hq (List.nodup_append.mp hnd).1 (by rw [List.nil_append, List.length_map, hlen])
  rw [List.nil_append] at hl
  have hlast : last.1.val ∉ l.map fun p => p.1.val := by
    intro hmem
    exact (List.nodup_append.mp hnd).2.2 _ hmem _ (List.mem_singleton_self _) rfl
  rw [List.map_append, hostRun, List.foldl_append]
  apply hl.inv.overflow .tcp k (.tcp env (.queueRq last.1 last.2))
  have hfull := hl.counted_full
  rw [List.length_map, hlen] at hfull
  simp [hostOverflow, HostEvent.queued, hl.armed, hf, hl.counted_lookup hlast, hl.queue_room hqs, hfull]

end Flood

/-- The request number `i`, on one of 65 queues with 1024 requests each. -/
def floodRequest (i : Fin 65537) : KAddr × U64 :=
  (⟨BitVec.ofNat 64 (i.val + 1), by
    intro h
    have hval := congrArg BitVec.toNat h
    rw [BitVec.toNat_ofNat, Nat.mod_eq_of_lt (by omega)] at hval
    exact absurd hval (by simp)⟩, BitVec.ofNat 64 (i.val / 1024))

theorem floodRequest_inj : Function.Injective fun i => (floodRequest i).1.val := by
  intro i j h
  have hval := congrArg BitVec.toNat (show BitVec.ofNat 64 (i.val + 1) = BitVec.ofNat 64 (j.val + 1) from h)
  rw [BitVec.toNat_ofNat, BitVec.toNat_ofNat, Nat.mod_eq_of_lt (by omega), Nat.mod_eq_of_lt (by omega)] at hval
  exact Fin.ext (by omega)

theorem floodRequest_queue (i : Fin 65537) : (floodRequest i).2 ∈ (List.range 65).map (BitVec.ofNat 64) :=
  List.mem_map.mpr ⟨i.val / 1024, List.mem_range.mpr (by omega), rfl⟩

/-- 65537 requests are in flight at once: the last is counted on its queue, and `counted` has no room for
it. -/
theorem flood_is_miscounted :
    ¬ (hostRun .tcp ⟨0, 0⟩ { trackQueues := true } {}
      (.arm true :: ((List.finRange 65537).map floodRequest).map fun p =>
        .tcp { cpu := 0, tid := 1, now := 1 } (.queueRq p.1 p.2))).Exact := by
  have hstart : Flooded { armed := true } ((List.range 65).map (BitVec.ofNat 64)) [] :=
    ⟨HostState.countInv_init.congr rfl, rfl, rfl, ok_empty 4096, List.nil_subset _, rfl⟩
  have hqs : ((List.range 65).map (BitVec.ofNat 64)).length < 4096 := by
    rw [List.length_map, List.length_range]
    omega
  have hsplit : (List.finRange 65537).map floodRequest =
      ((List.finRange 65536).map Fin.castSucc).map floodRequest ++ [floodRequest (Fin.last 65536)] := by
    rw [List.finRange_succ_last, List.map_append, List.map_singleton]
  have hnd : (((List.finRange 65537).map floodRequest).map fun p => p.1.val).Nodup := by
    rw [List.map_map]
    exact (List.nodup_finRange 65537).map floodRequest_inj
  have harm : ∀ es, hostRun .tcp ⟨0, 0⟩ { trackQueues := true } {} (.arm true :: es) =
      hostRun .tcp ⟨0, 0⟩ { trackQueues := true } { armed := true } es := fun _ => rfl
  rw [hsplit] at hnd ⊢
  rw [harm]
  refine hstart.lost hqs rfl _ _ ?_ hnd ?_
  · intro p hp
    obtain ⟨i, -, rfl⟩ := List.mem_map.mp hp
    exact floodRequest_queue i
  · rw [List.length_map, List.length_map, List.length_finRange]

end Ntprof.Bpf
