import Ntprof.Proofs.GroupProofs
import Ntprof.Proofs.QuantileProofs

/-!
# The order of the records does not matter

Online and offline runs add the same pairs in different orders. The groups, their counters, their
samples and the time span come out the same.
-/

namespace Ntprof

/-! ## Summaries -/

/-- The same samples in another order have the same summary. -/
theorem ntpSummarize_of_perm {u v : List S64} (h : u.Perm v) : (ntpSummarize u).2 = (ntpSummarize v).2 := by
  unfold ntpSummarize
  rw [h.length_eq]
  by_cases hv : v.length = 0
  · rw [if_pos hv, if_pos hv]
  · rw [if_neg hv, if_neg hv, mergeSort_eq_of_perm h]

/-! ## Groups -/

/-- Two groups with the same counters and, but for their order, the same samples. -/
structure SameGroup (g g' : Group) : Prop where
  records : g.records = g'.records
  joined : g.joined = g'.joined
  badHost : g.badHost = g'.badHost
  badTarget : g.badTarget = g'.badTarget
  postEstimated : g.postEstimated = g'.postEstimated
  spdkHost : g.spdkHost = g'.spdkHost
  spdkTarget : g.spdkTarget = g'.spdkTarget
  comp : ∀ c, (g.comp c).Perm (g'.comp c)
  stage : ∀ s, (g.stage s).Perm (g'.stage s)
  queue : ∀ m, (g.queue m).Perm (g'.queue m)

theorem addAll_perm (k : GroupKey) {recs recs' : List StatRec} (h : recs.Perm recs') :
    SameGroup (Group.addAll { key := k } recs) (Group.addAll { key := k } recs') where
  records := by rw [made_records, made_records, h.length_eq]
  joined := by rw [made_joined, made_joined, h.countP_eq]
  badHost := by rw [made_badHost, made_badHost, h.countP_eq]
  badTarget := by rw [made_badTarget, made_badTarget, h.countP_eq]
  postEstimated := by rw [made_postEstimated, made_postEstimated, h.countP_eq]
  spdkHost := by rw [addAll_spdkHost, addAll_spdkHost, h.any_eq]
  spdkTarget := by
    rw [addAll_flag Group.spdkTarget _ addRec_spdkTarget, addAll_flag Group.spdkTarget _ addRec_spdkTarget,
      h.any_eq]
  comp c := by
    rw [addAll_comp, addAll_comp]
    exact (((h.filter _).filter _).map _).append_left _
  stage s := by
    rw [addAll_stage, addAll_stage]
    exact (((h.filter _).filter _).map _).append_left _
  queue m := by
    rw [addAll_vector (fun g => g.queue m) _ (fun g r => addRec_queue g r m),
      addAll_vector (fun g => g.queue m) _ (fun g r => addRec_queue g r m)]
    exact (h.flatMap_right _).append_left _

/-! ## The time span -/

/-- How a request's start moves the beginning of the span, 0 being none yet. -/
def earlier (first Q : U64) : U64 := if Q ≠ 0 ∧ (first = 0 ∨ Q < first) then Q else first

/-- How a completion moves its end. -/
def later (last D : U64) : U64 := if last < D then D else last

theorem earlier_comm (first Q R : U64) : earlier (earlier first Q) R = earlier (earlier first R) Q := by
  unfold earlier
  grind

theorem later_comm (last D E : U64) : later (later last D) E = later (later last E) D := by
  unfold later
  grind

theorem ntpStatsAdd_span (s : Stats) (h : HostRec) (t : Option TgtRec) :
    (ntpStatsAdd s h t).firstNs = earlier s.firstNs (h.ts .queueRq) ∧
      (ntpStatsAdd s h t).lastNs = later s.lastNs (h.ts .blkDone) := by
  cases hf : s.groups.findIdx? fun g => g.key = groupKey s h with
  | some i => simp only [ntpStatsAdd, groupFor_found hf, earlier, later, and_self]
  | none => simp only [ntpStatsAdd, groupFor_new hf, earlier, later, and_self]

theorem statsRun_span (s : Stats) (recs : List StatRec) :
    (statsRun s recs).firstNs = recs.foldl (fun x r => earlier x (r.1.ts .queueRq)) s.firstNs ∧
      (statsRun s recs).lastNs = recs.foldl (fun x r => later x (r.1.ts .blkDone)) s.lastNs := by
  induction recs generalizing s with
  | nil => exact ⟨rfl, rfl⟩
  | cons r recs ih =>
    have hstep := ntpStatsAdd_span s r.1 r.2
    have htail := ih (ntpStatsAdd s r.1 r.2)
    rw [hstep.1, hstep.2] at htail
    exact htail

/-! ## Two orders -/

/-- Statistics that say the same: their groups correspond by key. -/
structure SameStats (s s' : Stats) : Prop where
  distinct : (s.groups.map Group.key).Nodup
  keys : (s.groups.map Group.key).Perm (s'.groups.map Group.key)
  groups : ∀ g ∈ s.groups, ∀ g' ∈ s'.groups, g.key = g'.key → SameGroup g g'
  summaries : ∀ g ∈ s.groups, ∀ g' ∈ s'.groups, g.key = g'.key →
    (∀ c, (ntpSummarize (g.comp c)).2 = (ntpSummarize (g'.comp c)).2) ∧
    (∀ i, (ntpSummarize (g.stage i)).2 = (ntpSummarize (g'.stage i)).2) ∧
    ∀ m, (ntpSummarize (g.queue m)).2 = (ntpSummarize (g'.queue m)).2
  firstNs : s.firstNs = s'.firstNs
  lastNs : s.lastNs = s'.lastNs

theorem mem_keys_add {s : Stats} {h : HostRec} {t : Option TgtRec} {k : GroupKey}
    (hk : k ∈ (ntpStatsAdd s h t).groups.map Group.key) :
    k ∈ s.groups.map Group.key ∨ groupKey s h = k := by
  cases hf : s.groups.findIdx? fun g => g.key = groupKey s h with
  | some i =>
    rw [ntpStatsAdd_groups_found t hf, map_key_modify] at hk
    exact Or.inl hk
  | none =>
    rw [ntpStatsAdd_groups_new t hf, List.map_append, List.mem_append, List.map_singleton,
      List.mem_singleton, addRec_key] at hk
    exact hk.imp id Eq.symm

/-- A group is there only for a record with its key. -/
theorem mem_keys_run {s : Stats} {recs : List StatRec} {k : GroupKey}
    (hk : k ∈ (statsRun s recs).groups.map Group.key) :
    k ∈ s.groups.map Group.key ∨ ∃ r ∈ recs, groupKey s r.1 = k := by
  induction recs generalizing s with
  | nil => exact Or.inl hk
  | cons r recs ih =>
    rcases ih (s := ntpStatsAdd s r.1 r.2) hk with hold | ⟨x, hx, hkey⟩
    · rcases mem_keys_add hold with hold | hr
      · exact Or.inl hold
      · exact Or.inr ⟨r, List.mem_cons_self, hr⟩
    · rw [groupKey_ntpStatsAdd] at hkey
      exact Or.inr ⟨x, List.mem_cons_of_mem _ hx, hkey⟩

theorem keys_subset {s₀ : Stats} (h₀ : s₀.groups = []) {recs recs' : List StatRec} (h : recs.Perm recs')
    {k : GroupKey} (hk : k ∈ (statsRun s₀ recs).groups.map Group.key) :
    k ∈ (statsRun s₀ recs').groups.map Group.key := by
  rcases mem_keys_run hk with hold | ⟨r, hr, hkey⟩
  · rw [h₀] at hold
    cases hold
  · obtain ⟨g, hg, hgk⟩ := (groupsOf_run h₀ recs').found r (h.subset hr)
    exact List.mem_map.mpr ⟨g, hg, hgk.trans hkey⟩

/-- Adding the same records in two orders to fresh statistics gives the same statistics. -/
theorem stats_order_irrelevant (byType bySize bySession : Bool) {recs recs' : List StatRec}
    (h : recs.Perm recs') :
    SameStats (statsRun (ntpStatsInit byType bySize bySession) recs)
      (statsRun (ntpStatsInit byType bySize bySession) recs') := by
  have hrun : GroupsOf _ _ (statsRun (ntpStatsInit byType bySize bySession) recs) := groupsOf_run rfl recs
  have hrun' : GroupsOf _ _ (statsRun (ntpStatsInit byType bySize bySession) recs') := groupsOf_run rfl recs'
  have hspan := statsRun_span (ntpStatsInit byType bySize bySession) recs
  have hspan' := statsRun_span (ntpStatsInit byType bySize bySession) recs'
  have hsame : ∀ g ∈ (statsRun (ntpStatsInit byType bySize bySession) recs).groups,
      ∀ g' ∈ (statsRun (ntpStatsInit byType bySize bySession) recs').groups, g.key = g'.key →
        SameGroup g g' := by
    intro g hg g' hg' hkey
    rw [hrun.made g hg, hrun'.made g' hg', ← hkey]
    exact addAll_perm g.key (h.filter _)
  refine ⟨hrun.distinct, ?_, hsame, ?_, ?_, ?_⟩
  · rw [List.perm_ext_iff_of_nodup hrun.distinct hrun'.distinct]
    exact fun k => ⟨keys_subset rfl h, keys_subset rfl h.symm⟩
  · intro g hg g' hg' hkey
    have hg := hsame g hg g' hg' hkey
    exact ⟨fun c => ntpSummarize_of_perm (hg.comp c), fun i => ntpSummarize_of_perm (hg.stage i),
      fun m => ntpSummarize_of_perm (hg.queue m)⟩
  · rw [hspan.1, hspan'.1]
    exact h.foldl_eq' (fun x _ y _ z => earlier_comm z _ _) _
  · rw [hspan.2, hspan'.2]
    exact h.foldl_eq' (fun x _ y _ z => later_comm z _ _) _

theorem stats_order_irrelevant_reads :
    SameStats
      (statsRun (ntpStatsInit true true true)
        [(exampleReadHost, some exampleReadTarget), (tcpReadHost, none)])
      (statsRun (ntpStatsInit true true true)
        [(tcpReadHost, none), (exampleReadHost, some exampleReadTarget)]) :=
  stats_order_irrelevant true true true (List.Perm.swap _ _ _)

end Ntprof
