import Mathlib.Data.List.GetD
import Ntprof.Lib.InsertBack
import Ntprof.Proofs.JsonReportProofs
import Ntprof.ReportText

/-!
# The order of the groups

`order_groups` sorts the indexes of the groups in place, by an insertion from the back: the array is at each step the
sorted list of the indexes so far, and what was there at first. Equal groups keep their order because the new index
only passes groups with fewer records, and it is larger than those before it. The groups that `folded` finds are then
the last ones, and the three loops that ask it find the same groups, since no counter changes while they run.
-/

namespace Ntprof

open InsertBack

/-! ## One step of the sort -/

/-- Group `k` has fewer records than group `i`. -/
def fewer (s : Stats) (i k : ℕ) : Bool := decide (s.count k < s.count i)

/-- In the order of the report, group `a` comes before group `b`. -/
def Before (s : Stats) (a b : ℕ) : Prop := s.count b ≤ s.count a ∧ (s.count a = s.count b → a < b)

/-- The inner loop inserts from the back: what was at the place it starts from is overwritten. -/
theorem orderLoop_eq (s : Stats) (i : ℕ) (l : List ℕ) (x : ℕ) (rest : List ℕ) :
    orderLoop s i l.length (l ++ x :: rest) = insertBack (fewer s i) i l ++ rest := by
  induction l using List.reverseRecOn generalizing x rest with
  | nil => simp [orderLoop]
  | append_singleton l y ih =>
    have hlen : (l ++ [y]).length = l.length + 1 := by simp
    have hget : (l ++ [y] ++ x :: rest).getD l.length 0 = y := by simp
    rw [hlen, orderLoop, hget]
    by_cases hy : s.count y < s.count i
    · have hset : (l ++ [y] ++ x :: rest).set (l.length + 1) y = l ++ y :: y :: rest := by simp
      rw [if_pos hy, hset, ih, insertBack_concat_pos (by simpa [fewer] using hy)]
      simp
    · have hset : (l ++ [y] ++ x :: rest).set (l.length + 1) i = l ++ y :: i :: rest := by simp
      rw [if_neg hy, hset, insertBack_concat_neg (by simpa [fewer] using hy)]
      simp

/-- An insertion keeps the order, if the new index is the largest. -/
theorem before_insertBack (s : Stats) {i : ℕ} {l : List ℕ} (hl : l.Pairwise (Before s)) (hlt : ∀ k ∈ l, k < i) :
    (insertBack (fewer s i) i l).Pairwise (Before s) := by
  apply insertBack_pairwise hl
  · refine hl.imp ?_
    intro a b hab ha
    simp only [fewer, decide_eq_true_eq] at ha ⊢
    have hle := hab.1
    bv_omega
  · intro k hk hp
    simp only [fewer, decide_eq_true_eq] at hp
    refine ⟨BitVec.le_of_lt hp, ?_⟩
    intro he
    rw [he] at hp
    exact absurd hp (BitVec.lt_irrefl _)
  · intro k hk hp
    simp only [fewer, decide_eq_false_iff_not, BitVec.not_lt] at hp
    exact ⟨hp, fun _ => hlt k hk⟩

/-! ## The sort -/

/-- The indexes below `n`, sorted. -/
def sortedBelow (s : Stats) (n : ℕ) : List ℕ := (List.range n).foldl (fun l i => insertBack (fewer s i) i l) []

theorem sortedBelow_succ (s : Stats) (n : ℕ) :
    sortedBelow s (n + 1) = insertBack (fewer s n) n (sortedBelow s n) := by
  rw [sortedBelow, List.range_succ, List.foldl_append]
  rfl

theorem sortedBelow_perm (s : Stats) (n : ℕ) : (sortedBelow s n).Perm (List.range n) := by
  induction n with
  | zero => exact List.Perm.refl []
  | succ n ih =>
    rw [sortedBelow_succ, List.range_succ]
    exact ((insertBack_perm n _).trans (ih.cons n)).trans (List.perm_append_singleton n _).symm

theorem sortedBelow_length (s : Stats) (n : ℕ) : (sortedBelow s n).length = n := by
  rw [(sortedBelow_perm s n).length_eq, List.length_range]

theorem mem_sortedBelow (s : Stats) {n k : ℕ} : k ∈ sortedBelow s n ↔ k < n := by
  rw [(sortedBelow_perm s n).mem_iff, List.mem_range]

theorem sortedBelow_before (s : Stats) (n : ℕ) : (sortedBelow s n).Pairwise (Before s) := by
  induction n with
  | zero => exact List.Pairwise.nil
  | succ n ih =>
    rw [sortedBelow_succ]
    exact before_insertBack s ih fun k hk => (mem_sortedBelow s).mp hk

/-- The array after `k` rounds of the outer loop. -/
theorem orderRounds_eq (s : Stats) {len k : ℕ} (hk : k ≤ len) :
    (List.range k).foldl (fun idx i => orderLoop s i i idx) (List.replicate len 0) =
      sortedBelow s k ++ List.replicate (len - k) 0 := by
  induction k with
  | zero => rfl
  | succ k ih =>
    have hrest : List.replicate (len - k) 0 = 0 :: List.replicate (len - (k + 1)) 0 := by
      rw [← List.replicate_succ]
      congr 1
      omega
    have hstep := orderLoop_eq s k (sortedBelow s k) 0 (List.replicate (len - (k + 1)) 0)
    rw [sortedBelow_length] at hstep
    rw [List.range_succ, List.foldl_append, ih (by omega), hrest, sortedBelow_succ]
    exact hstep

/-- The first places of the array that `order_groups` returns; it has a place more where there is no group. -/
theorem orderGroups_take (s : Stats) : (orderGroups s).take s.groups.length = sortedBelow s s.groups.length := by
  have hlen : s.groups.length ≤ if s.groups.length ≠ 0 then s.groups.length else 1 := by
    split <;> omega
  rw [orderGroups, orderRounds_eq s hlen, List.take_left' (sortedBelow_length s _)]

/-- A place of the array. -/
theorem orderGroups_getD (s : Stats) {i : ℕ} (hi : i < s.groups.length) :
    (orderGroups s).getD i 0 = (sortedBelow s s.groups.length).getD i 0 := by
  rw [← orderGroups_take, List.getD_eq_getElem?_getD, List.getD_eq_getElem?_getD, List.getElem?_take_of_lt hi]

theorem orderGroups_lt (s : Stats) {i : ℕ} (hi : i < s.groups.length) :
    (orderGroups s).getD i 0 < s.groups.length := by
  have hi' : i < (sortedBelow s s.groups.length).length := by rwa [sortedBelow_length]
  rw [orderGroups_getD s hi, List.getD_eq_getElem _ _ hi']
  exact (mem_sortedBelow s).mp (List.getElem_mem hi')

/-- Of two places, the first one has the group that comes before the other. -/
theorem orderGroups_before (s : Stats) {i j : ℕ} (hij : i < j) (hj : j < s.groups.length) :
    Before s ((orderGroups s).getD i 0) ((orderGroups s).getD j 0) := by
  have hj' : j < (sortedBelow s s.groups.length).length := by rwa [sortedBelow_length]
  rw [orderGroups_getD s hj, orderGroups_getD s (hij.trans hj), List.getD_eq_getElem _ _ hj',
    List.getD_eq_getElem _ _ (hij.trans hj')]
  exact List.pairwise_iff_getElem.mp (sortedBelow_before s _) i j _ hj' hij

/-! ## Folding -/

/-- The products in `folded` do not wrap. -/
def NoWrap (s : Stats) : Prop := ∀ g ∈ s.groups, g.count.toNat * 100 < 2 ^ 64

theorem count_mul (s : Stats) (hs : NoWrap s) (k : ℕ) : (s.count k * 100).toNat = (s.count k).toNat * 100 := by
  have hk : (s.count k).toNat * 100 < 2 ^ 64 := by
    rw [Stats.count]
    cases hg : s.groups[k]? with
    | none => decide
    | some g => exact hs g (List.mem_of_getElem? hg)
  rw [BitVec.toNat_mul]
  exact Nat.mod_eq_of_lt hk

/-- A place behind one that is folded is folded. -/
theorem folded_mono (s : Stats) (o : ReportOpts) (total : U64) (hs : NoWrap s) {i j : ℕ} (hij : i < j)
    (hj : j < s.groups.length) (hi : folded s (orderGroups s) i total o = true) :
    folded s (orderGroups s) j total o = true := by
  have hle := (orderGroups_before s hij hj).1
  simp only [folded, Bool.and_eq_true, decide_eq_true_eq, BitVec.lt_def] at hi ⊢
  obtain ⟨⟨-, hall⟩, hlt⟩ := hi
  refine ⟨⟨by omega, hall⟩, ?_⟩
  rw [count_mul s hs] at hlt ⊢
  rw [BitVec.le_def] at hle
  omega

theorem folded_zero (s : Stats) (idx : List ℕ) (total : U64) (o : ReportOpts) :
    folded s idx 0 total o = false := rfl

/-- The folded places are those from some place on, and not the first one. -/
theorem folded_suffix (s : Stats) (o : ReportOpts) (total : U64) (hs : NoWrap s) :
    ∃ k, 0 < k ∧ ∀ i < s.groups.length, folded s (orderGroups s) i total o = true ↔ k ≤ i := by
  classical
  by_cases hex : ∃ i, i < s.groups.length ∧ folded s (orderGroups s) i total o = true
  · obtain ⟨hlt, hk⟩ := Nat.find_spec hex
    refine ⟨Nat.find hex, ?_, ?_⟩
    · rw [Nat.pos_iff_ne_zero]
      intro hz
      rw [hz, folded_zero] at hk
      exact absurd hk Bool.false_ne_true
    · intro i hi
      constructor
      · intro hf
        exact Nat.find_min' hex ⟨hi, hf⟩
      · intro hle
        rcases Nat.eq_or_lt_of_le hle with heq | hlt'
        · rwa [heq] at hk
        · exact folded_mono s o total hs hlt' hi hk
  · refine ⟨s.groups.length + 1, by omega, ?_⟩
    intro i hi
    constructor
    · intro hf
      exact absurd ⟨i, hi, hf⟩ hex
    · intro hle
      omega

/-! ## Printing keeps the counters -/

@[simp] theorem setVec_records (g : Group) (v : RowVec) (x : List S64) : (g.setVec v x).records = g.records := by
  cases v <;> rfl

theorem summarizeRows_records (g : Group) (rows : List SRow) : (summarizeRows g rows).1.records = g.records := by
  induction rows generalizing g with
  | nil => rfl
  | cons row rows ih =>
    show (summarizeRows (summarizeRow g row).1 rows).1.records = _
    rw [ih]
    exact setVec_records g row.v _

theorem queuesLoop_records (P : Printf) (g : Group) (any : Bool) (qs : List QueueMetric) :
    (queuesLoop P g any qs).1.records = g.records := by
  induction qs generalizing g any with
  | nil => rfl
  | cons q qs ih =>
    rw [queuesLoop]
    by_cases hn : (ntpSummarize (g.queue q)).2.n = 0
    · simp only [hn, if_pos]
      exact ih _ any
    · simp only [hn, if_neg, not_false_eq_true]
      exact ih _ true

theorem componentsLoop_records (P : Printf) (o : ReportOpts) (rate : ℚ) (g : Group) (rows : List (Comp × ℕ)) :
    (componentsLoop P o rate g rows).1.records = g.records := by
  induction rows generalizing g with
  | nil => rfl
  | cons row rows ih =>
    show (componentsLoop P o rate (g.setVec (.comp row.1) _) rows).1.records = _
    rw [ih, setVec_records]

theorem printComponents_records (P : Printf) (o : ReportOpts) (rate : ℚ) (g : Group) :
    (printComponents P o rate g).1.records = g.records :=
  componentsLoop_records P o rate g display

theorem optional_records (c : Bool) {g : Group} (table : Group × List U8) (h : table.1.records = g.records) :
    (if c then table else (g, [])).1.records = g.records := by
  split
  · exact h
  · rfl

theorem printGroup_records (P : Printf) (s : Stats) (g : Group) (o : ReportOpts) :
    (printGroup P s g o).1.records = g.records := by
  rw [printGroup]
  by_cases hn : (ntpSummarize (g.comp .e2e)).2.n = 0
  · simp only [hn, if_pos]
    exact setVec_records g _ _
  · simp only [hn, if_neg, not_false_eq_true]
    -- the tables in the order in which they are written, from the last one back
    refine (optional_records o.detail _ (printComponents_records P o (ntpGroupRate s g) _)).trans ?_
    refine (optional_records o.queueLength _ (queuesLoop_records P _ false QueueMetric.all)).trans ?_
    refine (optional_records o.breakdown (_, stagesText P o _ _ _) (summarizeRows_records _ _)).trans ?_
    exact setVec_records g _ _

/-! ## The loops of the report -/

/-- Two statistics with the same groups, as far as the counters go. -/
structure SameCounts (s s' : Stats) : Prop where
  length : s'.groups.length = s.groups.length
  count : ∀ k, s'.count k = s.count k

theorem SameCounts.trans {s s' s'' : Stats} (h : SameCounts s s') (h' : SameCounts s' s'') : SameCounts s s'' :=
  ⟨h'.length.trans h.length, fun k => (h'.count k).trans (h.count k)⟩

theorem SameCounts.folded {s s' : Stats} (h : SameCounts s s') (idx : List ℕ) (i : ℕ) (total : U64)
    (o : ReportOpts) : folded s' idx i total o = folded s idx i total o := by
  rw [Ntprof.folded, Ntprof.folded, h.count]

/-- A group is written back with the counter it had. -/
theorem sameCounts_set {s : Stats} {k : ℕ} {g g' : Group} (hk : s.groups[k]? = some g)
    (hg : g'.records = g.records) : SameCounts s { s with groups := s.groups.set k g' } := by
  refine ⟨List.length_set, ?_⟩
  intro j
  rw [Stats.count, Stats.count]
  by_cases hj : k = j
  · subst hj
    rw [List.getElem?_set_self', hk]
    exact congrArg (BitVec.ofNat 64) hg
  · simp [hj]

/-- The records of the group at a place of the order. -/
def placeRecords (s : Stats) (idx : List ℕ) (i : ℕ) : ℕ := (s.count (idx.getD i 0)).toNat

/-- The records of the groups that a report shows. -/
def shownRecords (s : Stats) (parts : List ReportPart) : ℕ :=
  (parts.map fun | .group k _ => (s.count k).toNat | _ => 0).sum

/-- The records in the line of the groups that a report does not show. -/
def minorRecords (parts : List ReportPart) : ℕ :=
  (parts.map fun | .minor _ records _ => records.toNat | _ => 0).sum

theorem SameCounts.placeRecords {s s' : Stats} (h : SameCounts s s') (idx : List ℕ) :
    placeRecords s' idx = placeRecords s idx := by
  funext i
  rw [Ntprof.placeRecords, Ntprof.placeRecords, h.count]

theorem SameCounts.shownRecords {s s' : Stats} (h : SameCounts s s') (parts : List ReportPart) :
    shownRecords s' parts = shownRecords s parts := by
  rw [Ntprof.shownRecords, Ntprof.shownRecords]
  congr 1
  apply List.map_congr_left
  intro part _
  cases part with
  | group k t => exact congrArg BitVec.toNat (h.count k)
  | nothing t => rfl
  | minor n records t => rfl

/-- A place that is not folded: its group is printed, and written back. -/
theorem groupsLoop_shown (P : Printf) (o : ReportOpts) {idx : List ℕ} {total : U64} {s : Stats} {i : ℕ} {g : Group}
    (hf : folded s idx i total o = false) (hk : s.groups[idx.getD i 0]? = some g) (is : List ℕ) :
    groupsLoop P o idx total s (i :: is) =
      ((groupsLoop P o idx total { s with groups := s.groups.set (idx.getD i 0) (printGroup P s g o).1 } is).1,
        .group (idx.getD i 0) (printGroup P s g o).2 ::
          (groupsLoop P o idx total { s with groups := s.groups.set (idx.getD i 0) (printGroup P s g o).1 } is).2) := by
  simp only [groupsLoop, hf, hk, Bool.false_eq_true, if_false]

theorem shownRecords_append (s : Stats) (parts parts' : List ReportPart) :
    shownRecords s (parts ++ parts') = shownRecords s parts + shownRecords s parts' := by
  rw [shownRecords, List.map_append, List.sum_append, shownRecords, shownRecords]

theorem minorRecords_append (parts parts' : List ReportPart) :
    minorRecords (parts ++ parts') = minorRecords parts + minorRecords parts' := by
  rw [minorRecords, List.map_append, List.sum_append, minorRecords, minorRecords]

/-- The loop of `ntp_report_text` keeps the counters, and shows the places that are not folded. -/
theorem groupsLoop_spec (P : Printf) (o : ReportOpts) (idx : List ℕ) (total : U64) (s : Stats) (is : List ℕ)
    (his : ∀ i ∈ is, idx.getD i 0 < s.groups.length) :
    SameCounts s (groupsLoop P o idx total s is).1 ∧
      shownRecords s (groupsLoop P o idx total s is).2 =
        ((is.filter fun i => !folded s idx i total o).map (placeRecords s idx)).sum ∧
      minorRecords (groupsLoop P o idx total s is).2 = 0 := by
  induction is generalizing s with
  | nil => exact ⟨⟨rfl, fun _ => rfl⟩, rfl, rfl⟩
  | cons i is ih =>
    have hrest : ∀ i ∈ is, idx.getD i 0 < s.groups.length := fun i hi => his i (List.mem_cons_of_mem _ hi)
    by_cases hf : folded s idx i total o = true
    · rw [groupsLoop, if_pos hf, List.filter_cons_of_neg (by simp [hf])]
      exact ih s hrest
    · obtain ⟨g, hk⟩ : ∃ g, s.groups[idx.getD i 0]? = some g :=
        ⟨_, List.getElem?_eq_getElem (his i List.mem_cons_self)⟩
      have hset := sameCounts_set hk (printGroup_records P s g o)
      obtain ⟨hsame, hshown, hminor⟩ := ih _ (by rwa [hset.length])
      -- the places behind are asked about the statistics with the group written back
      have hfilter : (is.filter fun j => !folded { s with groups := s.groups.set (idx.getD i 0) (printGroup P s g o).1 }
          idx j total o) = is.filter fun j => !folded s idx j total o :=
        List.filter_congr fun j _ => by rw [hset.folded]
      rw [hset.shownRecords, hfilter, hset.placeRecords] at hshown
      rw [groupsLoop_shown P o (by simpa using hf) hk, List.filter_cons_of_pos (by simp [hf]), List.map_cons,
        List.sum_cons, ← hshown]
      exact ⟨hset.trans hsame, List.sum_cons, (List.sum_cons.trans (Nat.zero_add _)).trans hminor⟩

/-- The places that are folded. -/
def foldedPlaces (s : Stats) (idx : List ℕ) (total : U64) (o : ReportOpts) : List ℕ :=
  (List.range s.groups.length).filter fun i => folded s idx i total o

/-- The records of the places that are folded. -/
def foldedRecords (s : Stats) (idx : List ℕ) (total : U64) (o : ReportOpts) : ℕ :=
  ((foldedPlaces s idx total o).map (placeRecords s idx)).sum

theorem SameCounts.foldedRecords {s s' : Stats} (h : SameCounts s s') (idx : List ℕ) (total : U64) (o : ReportOpts) :
    foldedRecords s' idx total o = foldedRecords s idx total o := by
  have hplaces : foldedPlaces s' idx total o = foldedPlaces s idx total o := by
    rw [foldedPlaces, foldedPlaces, h.length]
    exact List.filter_congr fun i _ => h.folded idx i total o
  rw [Ntprof.foldedRecords, Ntprof.foldedRecords, hplaces, h.placeRecords]

/-- The first loop of `print_minor` counts the places that are folded. -/
theorem minorCount_spec (s : Stats) (idx : List ℕ) (total : U64) (o : ReportOpts) :
    minorCount s idx total o =
      ((foldedPlaces s idx total o).length, BitVec.ofNat 64 (foldedRecords s idx total o)) := by
  have hloop : ∀ (is : List ℕ) (n : ℕ) (records : U64),
      is.foldl (minorStep s idx total o) (n, records) =
      (n + (is.filter fun i => folded s idx i total o).length,
        records + BitVec.ofNat 64 ((is.filter fun i => folded s idx i total o).map (placeRecords s idx)).sum) := by
    intro is
    induction is with
    | nil => intro n records; simp
    | cons i is ih =>
      intro n records
      rw [List.foldl_cons, minorStep]
      by_cases hf : folded s idx i total o = true
      · rw [if_pos hf, ih, List.filter_cons_of_pos (by simpa using hf), List.map_cons, List.sum_cons, List.length_cons,
          BitVec.ofNat_add, placeRecords, BitVec.ofNat_toNat, BitVec.setWidth_eq, BitVec.add_assoc]
        congr 1
        omega
      · rw [if_neg hf, ih, List.filter_cons_of_neg (by simpa using hf)]
  rw [minorCount, hloop, Nat.zero_add]
  exact congrArg _ (BitVec.zero_add _)

/-- `print_minor` shows no group, and the records in its line are those of the places that are folded. -/
theorem printMinor_spec (P : Printf) (s : Stats) (idx : List ℕ) (total : U64) (o : ReportOpts) (s' : Stats) :
    shownRecords s' (printMinor P s idx total o) = 0 ∧
      minorRecords (printMinor P s idx total o) = foldedRecords s idx total o % 2 ^ 64 := by
  rw [printMinor, minorCount_spec]
  by_cases hn : (foldedPlaces s idx total o).length = 0
  · have hzero : foldedRecords s idx total o = 0 := by
      rw [foldedRecords, List.length_eq_zero_iff.mp hn]
      rfl
    simp only [hn, if_true, hzero]
    exact ⟨rfl, rfl⟩
  · simp only [hn, if_false]
    refine ⟨rfl, ?_⟩
    show BitVec.toNat _ + 0 = _
    rw [Nat.add_zero, BitVec.toNat_ofNat]

/-! ## The sum -/

/-- The records of all groups, as a number. -/
def allRecords (s : Stats) : ℕ := (s.groups.map fun g => g.count.toNat).sum

theorem totalRecords_eq (s : Stats) : totalRecords s = BitVec.ofNat 64 (allRecords s) := by
  have hloop : ∀ (gs : List Group) (n : U64),
      gs.foldl (fun n g => n + g.count) n = n + BitVec.ofNat 64 (gs.map fun g => g.count.toNat).sum := by
    intro gs
    induction gs with
    | nil => intro n; simp
    | cons g gs ih =>
      intro n
      rw [List.foldl_cons, ih, List.map_cons, List.sum_cons, BitVec.ofNat_add, BitVec.ofNat_toNat, BitVec.setWidth_eq,
        BitVec.add_assoc]
  rw [totalRecords, hloop, allRecords]
  exact BitVec.zero_add _

/-- Every group has one place of the order. -/
theorem sum_placeRecords (s : Stats) :
    ((List.range s.groups.length).map (placeRecords s (orderGroups s))).sum = allRecords s := by
  have hplaces : (List.range s.groups.length).map (placeRecords s (orderGroups s)) =
      (sortedBelow s s.groups.length).map fun k => (s.count k).toNat := by
    apply List.ext_getElem
    · simp [sortedBelow_length]
    · intro i hi hi'
      have hlt : i < s.groups.length := by simpa using hi
      have hlt' : i < (sortedBelow s s.groups.length).length := by simpa using hi'
      rw [List.getElem_map, List.getElem_map, List.getElem_range, placeRecords, orderGroups_getD s hlt,
        List.getD_eq_getElem _ _ hlt']
  have hgroups : ((List.range s.groups.length).map fun k => (s.count k).toNat) =
      s.groups.map fun g => g.count.toNat := by
    apply List.ext_getElem
    · simp
    · intro i hi hi'
      have hlt : i < s.groups.length := by simpa using hi
      simp [Stats.count, hlt]
  rw [hplaces, ((sortedBelow_perm s _).map _).sum_eq, hgroups, allRecords]

/-- The places that are folded, and the others. -/
theorem foldedRecords_add (s : Stats) (total : U64) (o : ReportOpts) :
    ((((List.range s.groups.length).filter fun i => !folded s (orderGroups s) i total o).map
        (placeRecords s (orderGroups s))).sum) + foldedRecords s (orderGroups s) total o = allRecords s := by
  have hperm := ((List.filter_append_perm (fun i => folded s (orderGroups s) i total o)
    (List.range s.groups.length)).map (placeRecords s (orderGroups s))).sum_eq
  rw [List.map_append, List.sum_append, sum_placeRecords] at hperm
  rw [foldedRecords, foldedPlaces]
  omega

/-- The records that a report shows and those in its last line: the line's sum may wrap. -/
theorem ntpReportText_records (P : Printf) (s : Stats) (o : ReportOpts) :
    ∃ others, shownRecords s (ntpReportText P s o).2 + others = allRecords s ∧
      minorRecords (ntpReportText P s o).2 = others % 2 ^ 64 := by
  rw [ntpReportText]
  by_cases hn : s.groups.length = 0
  · have hnil : s.groups = [] := List.length_eq_zero_iff.mp hn
    refine ⟨0, ?_, ?_⟩
    · simp [allRecords, hnil, shownRecords]
    · simp [hn, minorRecords]
  · simp only [hn, if_false]
    obtain ⟨hsame, hshown, hminor⟩ := groupsLoop_spec P o (orderGroups s) (totalRecords s) s
      (List.range s.groups.length) fun i hi => orderGroups_lt s (List.mem_range.mp hi)
    -- print_minor asks about the statistics that the loop left
    obtain ⟨hshown', hminor'⟩ := printMinor_spec P
      (groupsLoop P o (orderGroups s) (totalRecords s) s (List.range s.groups.length)).1 (orderGroups s)
      (totalRecords s) o s
    rw [hsame.foldedRecords] at hminor'
    refine ⟨foldedRecords s (orderGroups s) (totalRecords s) o, ?_, ?_⟩
    · rw [shownRecords_append, hshown, hshown', Nat.add_zero, foldedRecords_add]
    · rw [minorRecords_append, hminor, hminor', Nat.zero_add]

/-- The order of the groups and what the report makes of it. `order_groups` returns the indexes of the groups, those
with more records first, and of those with equally many the lower index. Where not all groups are to be shown and no
product wraps, the folded groups are the last ones, and never the first. The records of the groups that the report
shows and those in its last line are `total_records`, in the 64 bits of the source and, where these hold all records,
as a number. -/
theorem groups_ordered_and_folded (P : Printf) (s : Stats) (o : ReportOpts) :
    ((orderGroups s).take s.groups.length).Perm (List.range s.groups.length) ∧
      (∀ i j, i < j → j < s.groups.length →
        s.count ((orderGroups s).getD j 0) ≤ s.count ((orderGroups s).getD i 0) ∧
        (s.count ((orderGroups s).getD i 0) = s.count ((orderGroups s).getD j 0) →
          (orderGroups s).getD i 0 < (orderGroups s).getD j 0)) ∧
      (o.allGroups = false → (∀ g ∈ s.groups, g.count.toNat * 100 < 2 ^ 64) →
        ∃ k, 0 < k ∧ ∀ i < s.groups.length, folded s (orderGroups s) i (totalRecords s) o = true ↔ k ≤ i) ∧
      BitVec.ofNat 64 (shownRecords s (ntpReportText P s o).2 + minorRecords (ntpReportText P s o).2) =
        totalRecords s ∧
      (allRecords s < 2 ^ 64 →
        shownRecords s (ntpReportText P s o).2 + minorRecords (ntpReportText P s o).2 = (totalRecords s).toNat) := by
  obtain ⟨others, hsum, hminor⟩ := ntpReportText_records P s o
  refine ⟨?_, fun i j => orderGroups_before s, fun _ hs => folded_suffix s o _ hs, ?_, ?_⟩
  · rw [orderGroups_take]
    exact sortedBelow_perm s _
  · apply BitVec.eq_of_toNat_eq
    rw [totalRecords_eq, BitVec.toNat_ofNat, BitVec.toNat_ofNat, hminor, Nat.add_mod_mod, hsum]
  · intro hall
    have hothers : others % 2 ^ 64 = others := Nat.mod_eq_of_lt (by omega)
    rw [totalRecords_eq, BitVec.toNat_ofNat, Nat.mod_eq_of_lt hall, hminor, hothers, hsum]

/-- A group of reads of one size. -/
def readGroup (bytes : U32) (records : ℕ) : Group :=
  { key := { isWrite := 0, bytes := bytes, session := Vector.replicate _ 0 }, records := records }

/-- Two groups with equally many records between two small ones. -/
def mixedStats : Stats :=
  { ntpStatsInit true true false with
    groups := [readGroup 512 3, readGroup 4096 500, readGroup 8192 2, readGroup 65536 500] }

theorem groups_ordered_and_folded_mixed :
    orderGroups mixedStats = [1, 3, 0, 2] ∧
      (∃ k, 0 < k ∧ ∀ i < mixedStats.groups.length,
        folded mixedStats (orderGroups mixedStats) i (totalRecords mixedStats) {} = true ↔ k ≤ i) ∧
      shownRecords mixedStats (ntpReportText decimalPrintf mixedStats {}).2 +
        minorRecords (ntpReportText decimalPrintf mixedStats {}).2 = 1005 := by
  obtain ⟨-, -, hfolded, -, hsum⟩ := groups_ordered_and_folded decimalPrintf mixedStats {}
  have hwrap : ∀ g ∈ mixedStats.groups, g.count.toNat * 100 < 2 ^ 64 := by
    simp [mixedStats, readGroup, Group.count]
  exact ⟨by decide, hfolded rfl hwrap, hsum (by decide)⟩

end Ntprof
