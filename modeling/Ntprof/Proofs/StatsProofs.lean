import Ntprof.Stats
import Mathlib.Data.List.Nodup

/-!
# Properties of the statistics

A group holds the records of its key, in the order in which they were added, and every record is in
one group.
-/

namespace Ntprof

theorem addRec_key (g : Group) (h : HostRec) (t : Option TgtRec) : (g.addRec h t).key = g.key := by
  simp only [Group.addRec]
  split_ifs <;> rfl

theorem addRec_records (g : Group) (h : HostRec) (t : Option TgtRec) :
    (g.addRec h t).records = g.records + 1 := by
  simp only [Group.addRec]
  split_ifs <;> rfl

/-! ## The group of a record -/

theorem groupFor_found {s : Stats} {h : HostRec} {i : Nat}
    (hi : (s.groups.findIdx? fun g => g.key = groupKey s h) = some i) : groupFor s h = (s, i) := by
  simp only [groupFor, hi]

theorem groupFor_new {s : Stats} {h : HostRec}
    (hn : (s.groups.findIdx? fun g => g.key = groupKey s h) = none) :
    groupFor s h = ({ s with groups := s.groups ++ [{ key := groupKey s h }] }, s.groups.length) := by
  simp only [groupFor, hn]

theorem ntpStatsAdd_groups_found {s : Stats} {h : HostRec} (t : Option TgtRec) {i : Nat}
    (hi : (s.groups.findIdx? fun g => g.key = groupKey s h) = some i) :
    (ntpStatsAdd s h t).groups = s.groups.modify i fun g => g.addRec h t := by
  simp only [ntpStatsAdd, groupFor_found hi]

theorem ntpStatsAdd_groups_new {s : Stats} {h : HostRec} (t : Option TgtRec)
    (hn : (s.groups.findIdx? fun g => g.key = groupKey s h) = none) :
    (ntpStatsAdd s h t).groups = s.groups ++ [Group.addRec { key := groupKey s h } h t] := by
  simp only [ntpStatsAdd, groupFor_new hn]
  rw [List.modify_eq_set_getElem?]
  simp

theorem ntpStatsAdd_grouping (s : Stats) (h : HostRec) (t : Option TgtRec) :
    (ntpStatsAdd s h t).byType = s.byType ∧ (ntpStatsAdd s h t).bySize = s.bySize ∧
      (ntpStatsAdd s h t).bySession = s.bySession := by
  cases hf : s.groups.findIdx? fun g => g.key = groupKey s h with
  | some i => simp [ntpStatsAdd, groupFor_found hf]
  | none => simp [ntpStatsAdd, groupFor_new hf]

theorem groupKey_ntpStatsAdd (s : Stats) (h : HostRec) (t : Option TgtRec) (x : HostRec) :
    groupKey (ntpStatsAdd s h t) x = groupKey s x := by
  obtain ⟨h1, h2, h3⟩ := ntpStatsAdd_grouping s h t
  unfold groupKey
  rw [h1, h2, h3]

/-! ## Every record is counted -/

theorem sum_records_modify (gs : List Group) {i : Nat} (hi : i < gs.length) (h : HostRec)
    (t : Option TgtRec) :
    ((gs.modify i fun g => g.addRec h t).map Group.records).sum = (gs.map Group.records).sum + 1 := by
  induction gs generalizing i with
  | nil => simp at hi
  | cons g gs ih =>
    cases i with
    | zero =>
      simp only [List.modify_zero_cons, List.map_cons, List.sum_cons, addRec_records]
      omega
    | succ i =>
      simp only [List.modify_succ_cons, List.map_cons, List.sum_cons, ih (by simpa using hi)]
      omega

theorem sum_records_add (s : Stats) (h : HostRec) (t : Option TgtRec) :
    ((ntpStatsAdd s h t).groups.map Group.records).sum = (s.groups.map Group.records).sum + 1 := by
  cases hf : s.groups.findIdx? fun g => g.key = groupKey s h with
  | some i =>
    obtain ⟨hi, -⟩ := List.findIdx?_eq_some_iff_getElem.1 hf
    rw [ntpStatsAdd_groups_found t hf, sum_records_modify _ hi]
  | none =>
    rw [ntpStatsAdd_groups_new t hf]
    simp [addRec_records]

/-- The records of the groups sum to the number of calls. -/
theorem sum_records_run (s : Stats) (recs : List (HostRec × Option TgtRec)) :
    ((statsRun s recs).groups.map Group.records).sum =
      (s.groups.map Group.records).sum + recs.length := by
  induction recs generalizing s with
  | nil => rfl
  | cons r recs ih =>
    have h := ih (ntpStatsAdd s r.1 r.2)
    rw [sum_records_add] at h
    simp only [statsRun, List.foldl_cons, List.length_cons] at h ⊢
    omega

/-! ## The records of a group -/

/-- The records `ntp_stats_add` was called with that belong to the group with key `k`. -/
def recsOf (s : Stats) (k : GroupKey) (recs : List (HostRec × Option TgtRec)) :
    List (HostRec × Option TgtRec) := recs.filter fun r => groupKey s r.1 = k

/-- Records added to one group. -/
def Group.addAll (g : Group) (recs : List (HostRec × Option TgtRec)) : Group :=
  recs.foldl (fun g r => g.addRec r.1 r.2) g

theorem recsOf_snoc (s : Stats) (k : GroupKey) (recs : List (HostRec × Option TgtRec))
    (r : HostRec × Option TgtRec) :
    recsOf s k (recs ++ [r]) = if groupKey s r.1 = k then recsOf s k recs ++ [r] else recsOf s k recs := by
  by_cases hk : groupKey s r.1 = k
  · simp [recsOf, List.filter_append, hk]
  · simp [recsOf, List.filter_append, hk]

/-- The statistics after the calls `recs`: one group for each key that occurs, made of the records of
that key. -/
structure GroupsOf (s₀ : Stats) (recs : List (HostRec × Option TgtRec)) (s : Stats) : Prop where
  keys : ∀ h, groupKey s h = groupKey s₀ h
  distinct : (s.groups.map Group.key).Nodup
  made : ∀ g ∈ s.groups, g = Group.addAll { key := g.key } (recsOf s₀ g.key recs)
  found : ∀ r ∈ recs, ∃ g ∈ s.groups, g.key = groupKey s₀ r.1

theorem GroupsOf.init {s₀ : Stats} (h₀ : s₀.groups = []) : GroupsOf s₀ [] s₀ where
  keys _ := rfl
  distinct := by simp [h₀]
  made := by simp [h₀]
  found := by simp

theorem map_key_modify (gs : List Group) (i : Nat) (h : HostRec) (t : Option TgtRec) :
    (gs.modify i fun g => g.addRec h t).map Group.key = gs.map Group.key := by
  induction gs generalizing i with
  | nil => cases i <;> rfl
  | cons g gs ih =>
    cases i with
    | zero => simp [addRec_key]
    | succ i => simp [ih]

/-- Where keys are distinct, changing the group of one key leaves the other groups as they are. -/
theorem mem_modify_key {gs : List Group} (hd : (gs.map Group.key).Nodup) {i : Nat} {k : GroupKey}
    (hi : (gs.findIdx? fun g => g.key = k) = some i) {f : Group → Group} {g : Group}
    (hg : g ∈ gs.modify i f) : (∃ a ∈ gs, a.key = k ∧ g = f a) ∨ (g ∈ gs ∧ g.key ≠ k) := by
  induction gs generalizing i with
  | nil => simp at hi
  | cons a gs ih =>
    rw [List.map_cons, List.nodup_cons] at hd
    by_cases ha : a.key = k
    · -- the first group is the one
      have h0 : i = 0 := by simpa [List.findIdx?_cons, ha] using hi.symm
      subst h0
      rw [List.modify_zero_cons, List.mem_cons] at hg
      rcases hg with rfl | hg
      · exact Or.inl ⟨a, by simp, ha, rfl⟩
      · refine Or.inr ⟨List.mem_cons_of_mem _ hg, fun hk => hd.1 ?_⟩
        rw [ha, ← hk]
        exact List.mem_map_of_mem hg
    · obtain ⟨j, hj, rfl⟩ : ∃ j, (gs.findIdx? fun g => g.key = k) = some j ∧ i = j + 1 := by
        rw [List.findIdx?_cons] at hi
        simp only [ha, decide_false, Bool.false_eq_true, if_false, Option.map_eq_some_iff] at hi
        obtain ⟨j, hj, rfl⟩ := hi
        exact ⟨j, hj, rfl⟩
      rw [List.modify_succ_cons, List.mem_cons] at hg
      rcases hg with rfl | hg
      · exact Or.inr ⟨by simp, ha⟩
      · rcases ih hd.2 hj hg with ⟨b, hb, hbk, rfl⟩ | ⟨hm, hk⟩
        · exact Or.inl ⟨b, List.mem_cons_of_mem _ hb, hbk, rfl⟩
        · exact Or.inr ⟨List.mem_cons_of_mem _ hm, hk⟩

/-- A record of a group's key goes to the end of that group. -/
theorem made_add {s₀ : Stats} {recs : List (HostRec × Option TgtRec)} {g : Group}
    (hg : g = Group.addAll { key := g.key } (recsOf s₀ g.key recs)) {r : HostRec × Option TgtRec}
    (hr : groupKey s₀ r.1 = g.key) :
    g.addRec r.1 r.2 =
      Group.addAll { key := (g.addRec r.1 r.2).key } (recsOf s₀ (g.addRec r.1 r.2).key (recs ++ [r])) := by
  rw [addRec_key, recsOf_snoc, if_pos hr]
  conv_lhs => rw [hg]
  simp only [Group.addAll, List.foldl_append, List.foldl_cons, List.foldl_nil]

theorem made_keep {s₀ : Stats} {recs : List (HostRec × Option TgtRec)} {g : Group}
    (hg : g = Group.addAll { key := g.key } (recsOf s₀ g.key recs)) {r : HostRec × Option TgtRec}
    (hr : g.key ≠ groupKey s₀ r.1) :
    g = Group.addAll { key := g.key } (recsOf s₀ g.key (recs ++ [r])) := by
  rw [recsOf_snoc, if_neg fun hk => hr hk.symm]
  exact hg

theorem GroupsOf.add {s₀ s : Stats} {recs : List (HostRec × Option TgtRec)}
    (hs : GroupsOf s₀ recs s) (r : HostRec × Option TgtRec) :
    GroupsOf s₀ (recs ++ [r]) (ntpStatsAdd s r.1 r.2) := by
  have hkeys : ∀ h, groupKey (ntpStatsAdd s r.1 r.2) h = groupKey s₀ h :=
    fun h => (groupKey_ntpStatsAdd s r.1 r.2 h).trans (hs.keys h)
  cases hf : s.groups.findIdx? fun g => g.key = groupKey s r.1 with
  | some i =>
    have hgs := ntpStatsAdd_groups_found r.2 hf
    have hmap : (ntpStatsAdd s r.1 r.2).groups.map Group.key = s.groups.map Group.key := by
      rw [hgs, map_key_modify]
    refine ⟨hkeys, by rw [hmap]; exact hs.distinct, fun g hg => ?_, fun x hx => ?_⟩
    · rw [hgs] at hg
      rcases mem_modify_key hs.distinct hf hg with ⟨a, ha, hak, rfl⟩ | ⟨hm, hk⟩
      · exact made_add (hs.made a ha) (by rw [hak, hs.keys])
      · exact made_keep (hs.made g hm) (by rw [← hs.keys]; exact hk)
    · -- the keys of the groups are as before, and one of them is the record's
      have hold : groupKey s₀ x.1 ∈ s.groups.map Group.key := by
        rw [List.mem_append, List.mem_singleton] at hx
        rcases hx with hx | rfl
        · obtain ⟨g, hg, hk⟩ := hs.found x hx
          exact hk ▸ List.mem_map_of_mem hg
        · obtain ⟨hi, hp, -⟩ := List.findIdx?_eq_some_iff_getElem.1 hf
          rw [← hs.keys, ← of_decide_eq_true hp]
          exact List.mem_map_of_mem (List.getElem_mem hi)
      rw [← hmap] at hold
      obtain ⟨g, hg, hk⟩ := List.mem_map.1 hold
      exact ⟨g, hg, hk⟩
  | none =>
    have hgs := ntpStatsAdd_groups_new r.2 hf
    have hnew : ∀ g ∈ s.groups, g.key ≠ groupKey s r.1 := by
      intro g hg hk
      have := List.findIdx?_eq_none_iff.1 hf g hg
      simp [hk] at this
    -- no earlier record had this key
    have hnone : recsOf s₀ (groupKey s r.1) recs = [] := by
      rw [recsOf, List.filter_eq_nil_iff]
      intro x hx
      obtain ⟨g, hg, hk⟩ := hs.found x hx
      simpa [← hk] using hnew g hg
    refine ⟨hkeys, ?_, fun g hg => ?_, fun x hx => ?_⟩
    · rw [hgs, List.map_append, List.nodup_append]
      refine ⟨hs.distinct, by simp, ?_⟩
      intro a ha b hb hab
      obtain ⟨g, hg, rfl⟩ := List.mem_map.1 ha
      simp only [List.map_cons, List.map_nil, List.mem_singleton, addRec_key] at hb
      exact hnew g hg (hab.trans hb)
    · rw [hgs, List.mem_append, List.mem_singleton] at hg
      rcases hg with hg | rfl
      · exact made_keep (hs.made g hg) (by rw [← hs.keys]; exact hnew g hg)
      · refine made_add (g := { key := groupKey s r.1 }) ?_ (hs.keys r.1).symm
        simp only [hnone]
        rfl
    · rw [hgs]
      rw [List.mem_append, List.mem_singleton] at hx
      rcases hx with hx | rfl
      · obtain ⟨g, hg, hk⟩ := hs.found x hx
        exact ⟨g, List.mem_append_left _ hg, hk⟩
      · refine ⟨_, List.mem_append_right _ (List.mem_singleton_self _), ?_⟩
        rw [addRec_key, ← hs.keys]

/-- After any sequence of calls on fresh statistics, the groups have distinct keys and each is made of
the records of its key, in the order of the calls. -/
theorem groupsOf_run {s₀ : Stats} (h₀ : s₀.groups = []) (recs : List (HostRec × Option TgtRec)) :
    GroupsOf s₀ recs (statsRun s₀ recs) := by
  induction recs using List.reverseRecOn with
  | nil => exact .init h₀
  | append_singleton recs r ih =>
    have := ih.add r
    rwa [statsRun, List.foldl_append]

/-! ## The samples of a group -/

/-- A record that is counted: its host side is complete. -/
def usable (r : HostRec × Option TgtRec) : Bool := (ntpBreakdown r.1 r.2).1 ≠ .incompleteHost

/-- The breakdown of a record. -/
def breakdownOf (r : HostRec × Option TgtRec) : Breakdown := (ntpBreakdown r.1 r.2).2

theorem addRec_comp (g : Group) (r : HostRec × Option TgtRec) (c : Comp) :
    (g.addRec r.1 r.2).comp c = g.comp c ++
      (if usable r && (breakdownOf r).valid c then [(breakdownOf r).comp c] else []) := by
  rw [Group.addRec, usable, breakdownOf]
  rcases ntpBreakdown r.1 r.2 with ⟨err, b⟩
  by_cases he : err = .incompleteHost
  · simp [he]
  · by_cases hv : b.valid c = true <;> simp [he, hv, pushIf]

theorem addRec_stage (g : Group) (r : HostRec × Option TgtRec) (s : Stage) :
    (g.addRec r.1 r.2).stage s = g.stage s ++
      (if usable r && (breakdownOf r).stageValid s then [(breakdownOf r).stage s] else []) := by
  rw [Group.addRec, usable, breakdownOf]
  rcases ntpBreakdown r.1 r.2 with ⟨err, b⟩
  by_cases he : err = .incompleteHost
  · simp [he]
  · by_cases hv : b.stageValid s = true <;> simp [he, hv, pushIf]

theorem addRec_spdkHost (g : Group) (r : HostRec × Option TgtRec) :
    (g.addRec r.1 r.2).spdkHost = (g.spdkHost || r.1.hdr.has ntpFSpdk) := by
  simp only [Group.addRec]
  split_ifs <;> rfl

/-- A component's samples are those of the usable records that have it. -/
theorem addAll_comp (g : Group) (recs : List (HostRec × Option TgtRec)) (c : Comp) :
    (g.addAll recs).comp c = g.comp c ++
      ((recs.filter usable).filter fun r => (breakdownOf r).valid c).map fun r => (breakdownOf r).comp c := by
  induction recs generalizing g with
  | nil => simp [Group.addAll]
  | cons r recs ih =>
    simp only [Group.addAll, List.foldl_cons] at ih ⊢
    rw [ih, addRec_comp]
    by_cases hu : usable r = true
    · by_cases hv : (breakdownOf r).valid c = true <;> simp [hu, hv]
    · simp [hu]

theorem addAll_stage (g : Group) (recs : List (HostRec × Option TgtRec)) (s : Stage) :
    (g.addAll recs).stage s = g.stage s ++
      ((recs.filter usable).filter fun r => (breakdownOf r).stageValid s).map
        fun r => (breakdownOf r).stage s := by
  induction recs generalizing g with
  | nil => simp [Group.addAll]
  | cons r recs ih =>
    simp only [Group.addAll, List.foldl_cons] at ih ⊢
    rw [ih, addRec_stage]
    by_cases hu : usable r = true
    · by_cases hv : (breakdownOf r).stageValid s = true <;> simp [hu, hv]
    · simp [hu]

theorem addAll_spdkHost (g : Group) (recs : List (HostRec × Option TgtRec)) :
    (g.addAll recs).spdkHost = (g.spdkHost || recs.any fun r => r.1.hdr.has ntpFSpdk) := by
  induction recs generalizing g with
  | nil => simp [Group.addAll]
  | cons r recs ih =>
    simp only [Group.addAll, List.foldl_cons] at ih ⊢
    rw [ih, addRec_spdkHost, List.any_cons, Bool.or_assoc]

end Ntprof
