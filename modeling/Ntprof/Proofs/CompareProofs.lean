import Ntprof.Compare
import Ntprof.Proofs.ReportProofs
import Ntprof.Proofs.GroupOrderProofs

/-!
# What a comparison shows

The comparison of two runs shows the groups that both have, without those that are folded, and each row of a group has
the means of the samples that the two runs have for it: sorting vectors on the way changes none of this.
-/

namespace Ntprof

/-! ## Sorted vectors -/

/-- A group some of whose vectors were sorted. -/
structure Resorted (g g' : Group) : Prop where
  key : g'.key = g.key
  records : g'.records = g.records
  transport : g'.transport = g.transport
  spdkHost : g'.spdkHost = g.spdkHost
  spdkTarget : g'.spdkTarget = g.spdkTarget
  vec : ∀ v, (g'.vec v).Perm (g.vec v)

theorem Resorted.refl (g : Group) : Resorted g g := ⟨rfl, rfl, rfl, rfl, rfl, fun _ => .refl _⟩

theorem Resorted.trans {g g' g'' : Group} (h : Resorted g g') (h' : Resorted g' g'') : Resorted g g'' :=
  ⟨h'.key.trans h.key, h'.records.trans h.records, h'.transport.trans h.transport, h'.spdkHost.trans h.spdkHost,
    h'.spdkTarget.trans h.spdkTarget, fun v => (h'.vec v).trans (h.vec v)⟩

theorem Resorted.setVec {g g' : Group} (h : Resorted g g') (v : RowVec) :
    Resorted g (g'.setVec v (ntpSummarize (g'.vec v)).1) := by
  refine h.trans ?_
  have hperm := fun w => setVec_perm g' v w (ntpSummarize_perm (g'.vec v))
  cases v <;> exact ⟨rfl, rfl, rfl, rfl, rfl, hperm⟩

/-! ## One row -/

/-- The row for the samples of the two runs. -/
def rowOf (desc : String) (indent : ℕ) (bv lv : List S64) : Option LadRow :=
  if bv.length = 0 ∨ lv.length = 0 then none
  else
    some { desc := desc, indent := indent, base := vecMean bv, load := vecMean lv,
           lad := if ladMinBaseNs ≤ vecMean bv then some (vecMean lv / vecMean bv) else none }

theorem ladRow_summarize (desc : String) (indent : ℕ) (bv lv : List S64) :
    ladRow desc indent (ntpSummarize bv).2 (ntpSummarize lv).2 = rowOf desc indent bv lv := by
  simp only [ladRow, rowOf, ntpSummarize_n, ntpSummarize_mean]

theorem rowOf_perm (desc : String) (indent : ℕ) {bv bv' lv lv' : List S64} (hb : bv'.Perm bv) (hl : lv'.Perm lv) :
    rowOf desc indent bv' lv' = rowOf desc indent bv lv := by
  rw [rowOf, rowOf, hb.length_eq, hl.length_eq, vecMean_perm hb, vecMean_perm hl]

theorem rowOf_desc {desc : String} {indent : ℕ} {bv lv : List S64} {r : LadRow}
    (h : rowOf desc indent bv lv = some r) : r.desc = desc := by
  by_cases hn : bv.length = 0 ∨ lv.length = 0
  · rw [rowOf, if_pos hn] at h
    cases h
  · rw [rowOf, if_neg hn] at h
    obtain rfl := Option.some.inj h
    rfl

/-! ## The rows of a group -/

/-- A comparison of the groups `bg` and `lg` that has printed the rows `rows`. -/
structure Comparison.Over (bg lg : Group) (rows : List LadRow) (s : Comparison) : Prop where
  base : Resorted bg s.base
  load : Resorted lg s.load
  rows : s.rows = rows

variable {bg lg : Group} {rows : List LadRow} {s : Comparison}

theorem Comparison.Over.row (h : s.Over bg lg rows) (desc : String) (indent : ℕ) (bv lv : RowVec) :
    (s.row desc indent bv lv).1.Over bg lg (rows ++ (rowOf desc indent (bg.vec bv) (lg.vec lv)).toList) ∧
      (s.row desc indent bv lv).2 = LadRow.ret (rowOf desc indent (bg.vec bv) (lg.vec lv)) := by
  have hrow : ladRow desc indent (ntpSummarize (s.base.vec bv)).2 (ntpSummarize (s.load.vec lv)).2 =
      rowOf desc indent (bg.vec bv) (lg.vec lv) :=
    (ladRow_summarize _ _ _ _).trans (rowOf_perm desc indent (h.base.vec bv) (h.load.vec lv))
  refine ⟨⟨h.base.setVec bv, h.load.setVec lv, ?_⟩, congrArg LadRow.ret hrow⟩
  simp only [Comparison.row, hrow, h.rows]

theorem Comparison.Over.comp (h : s.Over bg lg rows) (d : Comp × ℕ) :
    (s.comp d).Over bg lg (rows ++ (rowOf (ntpComps d.1).desc d.2 (bg.comp d.1) (lg.comp d.1)).toList) :=
  (h.row (ntpComps d.1).desc d.2 (.comp d.1) (.comp d.1)).1

theorem Comparison.Over.comps (h : s.Over bg lg rows) (ds : List (Comp × ℕ)) :
    (ds.foldl Comparison.comp s).Over bg lg
      (rows ++ ds.filterMap fun d => rowOf (ntpComps d.1).desc d.2 (bg.comp d.1) (lg.comp d.1)) := by
  induction ds generalizing s rows with
  | nil =>
    rw [List.filterMap_nil, List.append_nil]
    exact h
  | cons d ds ih =>
    have hrec := ih (h.comp d)
    rw [List.append_assoc] at hrec
    rw [List.foldl_cons, List.filterMap_cons]
    rcases hrow : rowOf (ntpComps d.1).desc d.2 (bg.comp d.1) (lg.comp d.1) with _ | r
    · rw [hrow] at hrec
      exact hrec
    · rw [hrow] at hrec
      exact hrec

/-! ## The largest LAD -/

/-- The first row with the largest LAD, if a LAD is above 0. -/
def Largest (rows : List LadRow) (best : ℚ) (bestRow : Option String) : Prop :=
  (bestRow = none ∧ best = 0 ∧ ∀ r ∈ rows, LadRow.ret (some r) ≤ 0) ∨
    ∃ before r after, rows = before ++ r :: after ∧ bestRow = some r.desc ∧ r.lad = some best ∧ 0 < best ∧
      (∀ x ∈ before, LadRow.ret (some x) < best) ∧ ∀ x ∈ after, LadRow.ret (some x) ≤ best

variable {best : ℚ} {bestRow : Option String}

theorem Largest.nonneg (h : Largest rows best bestRow) : 0 ≤ best := by
  rcases h with ⟨-, hbest, -⟩ | ⟨-, -, -, -, -, -, hpos, -⟩
  · exact hbest.ge
  · exact hpos.le

theorem Largest.bound (h : Largest rows best bestRow) {x : LadRow} (hx : x ∈ rows) : LadRow.ret (some x) ≤ best := by
  rcases h with ⟨-, hbest, hall⟩ | ⟨before, r, after, rfl, -, hlad, -, hbefore, hafter⟩
  · rw [hbest]
    exact hall x hx
  · rcases List.mem_append.mp hx with hx | hx
    · exact (hbefore x hx).le
    · rcases List.mem_cons.mp hx with rfl | hx
      · rw [LadRow.ret, hlad]
        exact le_rfl
      · exact hafter x hx

/-- One more row, with a larger LAD. -/
theorem Largest.better (h : Largest rows best bestRow) {r : LadRow} (hr : best < LadRow.ret (some r)) :
    Largest (rows ++ [r]) (LadRow.ret (some r)) (some r.desc) := by
  have hpos : 0 < LadRow.ret (some r) := h.nonneg.trans_lt hr
  refine Or.inr ⟨rows, r, [], rfl, rfl, ?_, hpos, fun x hx => (h.bound hx).trans_lt hr, fun x hx => by cases hx⟩
  rw [LadRow.ret] at hpos ⊢
  rcases hlad : r.lad with _ | v
  · rw [hlad] at hpos
    exact absurd hpos (lt_irrefl _)
  · rfl

/-- One more row, with no larger LAD. -/
theorem Largest.other (h : Largest rows best bestRow) {r : LadRow} (hr : ¬ best < LadRow.ret (some r)) :
    Largest (rows ++ [r]) best bestRow := by
  rcases h with ⟨hnone, hbest, hall⟩ | ⟨before, x, after, rfl, hrow, hlad, hpos, hbefore, hafter⟩
  · refine Or.inl ⟨hnone, hbest, fun x hx => ?_⟩
    rcases List.mem_append.mp hx with hx | hx
    · exact hall x hx
    · rw [List.mem_singleton.mp hx, ← hbest]
      exact not_lt.mp hr
  · refine Or.inr ⟨before, x, after ++ [r], by simp, hrow, hlad, hpos, hbefore, fun y hy => ?_⟩
    rcases List.mem_append.mp hy with hy | hy
    · exact hafter y hy
    · rw [List.mem_singleton.mp hy]
      exact not_lt.mp hr

/-! ## The stages -/

/-- What a comparison needs of a row: its key, its name and its vector. -/
def SRow.bare (r : SRow) : String × String × RowVec := (r.key, r.desc, r.v)

/-- The row for a stage of the loaded run, where the baseline has the stage. -/
def stageRow (bg lg : Group) (br : List (String × String × RowVec)) (row : String × String × RowVec) : Option LadRow :=
  (br.find? fun b => b.1 = row.1).bind fun b => rowOf row.2.1 0 (bg.vec b.2.2) (lg.vec row.2.2)

/-- One stage. -/
theorem Comparison.Over.stage (h : s.Over bg lg rows) (hbest : Largest rows s.best s.bestRow) (br : List SRow)
    (row : SRow) :
    (s.stage br row).Over bg lg (rows ++ (stageRow bg lg (br.map SRow.bare) row.bare).toList) ∧
      Largest (rows ++ (stageRow bg lg (br.map SRow.bare) row.bare).toList) (s.stage br row).best
        (s.stage br row).bestRow := by
  have hfind : (br.map SRow.bare).find? (fun b => b.1 = row.bare.1) = (br.find? fun b => b.key = row.key).map SRow.bare :=
    List.find?_map
  rw [stageRow, hfind]
  rcases hb : br.find? (fun b => b.key = row.key) with _ | b
  · have hsame : s.stage br row = s := by simp only [Comparison.stage, hb]
    rw [hsame, hb, Option.map_none, Option.bind_none, Option.toList_none, List.append_nil]
    exact ⟨h, hbest⟩
  · obtain ⟨hover, hret⟩ := h.row row.desc 0 b.v row.v
    have hrowBest : (s.row row.desc 0 b.v row.v).1.best = s.best := rfl
    have hrowRow : (s.row row.desc 0 b.v row.v).1.bestRow = s.bestRow := rfl
    rw [hb, Option.map_some, Option.bind_some]
    simp only [SRow.bare]
    by_cases hlt : s.best < LadRow.ret (rowOf row.desc 0 (bg.vec b.v) (lg.vec row.v))
    · have hstep : s.stage br row = { (s.row row.desc 0 b.v row.v).1 with
          best := LadRow.ret (rowOf row.desc 0 (bg.vec b.v) (lg.vec row.v)), bestRow := some row.desc } := by
        simp only [Comparison.stage, hb, hret, hrowBest, hlt, if_true]
      rw [hstep]
      refine ⟨⟨hover.base, hover.load, hover.rows⟩, ?_⟩
      rcases hrow : rowOf row.desc 0 (bg.vec b.v) (lg.vec row.v) with _ | r
      · rw [hrow] at hlt
        exact absurd hlt (not_lt.mpr hbest.nonneg)
      · rw [hrow] at hlt
        have hlargest := hbest.better hlt
        rw [rowOf_desc hrow] at hlargest
        exact hlargest
    · have hstep : s.stage br row = (s.row row.desc 0 b.v row.v).1 := by
        simp only [Comparison.stage, hb, hret, hrowBest, hlt, if_false]
      rw [hstep, hrowBest, hrowRow]
      refine ⟨hover, ?_⟩
      rcases hrow : rowOf row.desc 0 (bg.vec b.v) (lg.vec row.v) with _ | r
      · rw [Option.toList_none, List.append_nil]
        exact hbest
      · rw [hrow] at hlt
        exact hbest.other hlt

/-- The loop over the stages. -/
theorem Comparison.Over.stages (h : s.Over bg lg rows) (hbest : Largest rows s.best s.bestRow) (br lr : List SRow) :
    (lr.foldl (Comparison.stage br) s).Over bg lg
        (rows ++ (lr.map SRow.bare).filterMap (stageRow bg lg (br.map SRow.bare))) ∧
      Largest (rows ++ (lr.map SRow.bare).filterMap (stageRow bg lg (br.map SRow.bare)))
        (lr.foldl (Comparison.stage br) s).best (lr.foldl (Comparison.stage br) s).bestRow := by
  induction lr generalizing s rows with
  | nil =>
    rw [List.map_nil, List.filterMap_nil, List.append_nil]
    exact ⟨h, hbest⟩
  | cons row lr ih =>
    obtain ⟨hover, hlargest⟩ := h.stage hbest br row
    have hrec := ih hover hlargest
    rw [List.append_assoc] at hrec
    rw [List.foldl_cons, List.map_cons, List.filterMap_cons]
    rcases hrow : stageRow bg lg (br.map SRow.bare) row.bare with _ | r
    · rw [hrow] at hrec
      exact hrec
    · rw [hrow] at hrec
      exact hrec

/-- The stages of a group. -/
def bareRows (g : Group) (joined : Bool) : List (String × String × RowVec) :=
  (hostRows g ++ if joined then joinedRows g else unjoinedRows g).map SRow.bare

theorem summarizeRows_bare (g : Group) (rows : List SRow) :
    (summarizeRows g rows).2.map SRow.bare = rows.map SRow.bare ∧ Resorted g (summarizeRows g rows).1 := by
  induction rows generalizing g with
  | nil => exact ⟨rfl, .refl g⟩
  | cons row rows ih =>
    obtain ⟨hbare, hsorted⟩ := ih (summarizeRow g row).1
    constructor
    · show (summarizeRow g row).2.bare :: (summarizeRows (summarizeRow g row).1 rows).2.map SRow.bare = _
      rw [hbare, List.map_cons]
      rfl
    · exact ((Resorted.refl g).setVec row.v).trans hsorted

/-- The rows of the stages that both runs show. -/
def ladStages (bg lg : Group) : List LadRow :=
  (bareRows lg (groupJoined bg && groupJoined lg)).filterMap
    (stageRow bg lg (bareRows bg (groupJoined bg && groupJoined lg)))

/-- The rows of two groups: the stages, the whole command and, with details, the components. -/
def ladRows (bg lg : Group) (o : ReportOpts) : List LadRow :=
  ladStages bg lg ++ (rowOf (ntpComps .e2e).desc 0 (bg.comp .e2e) (lg.comp .e2e)).toList ++
    if o.detail then
      (display.filter fun d => d.1 ≠ .e2e).filterMap fun d => rowOf (ntpComps d.1).desc d.2 (bg.comp d.1) (lg.comp d.1)
    else []

theorem comps_best (s : Comparison) (ds : List (Comp × ℕ)) :
    (ds.foldl Comparison.comp s).best = s.best ∧ (ds.foldl Comparison.comp s).bestRow = s.bestRow := by
  induction ds generalizing s with
  | nil => exact ⟨rfl, rfl⟩
  | cons d ds ih => exact ih (s.comp d)

/-- `compare_group`. -/
theorem comparison_spec (bg lg : Group) (o : ReportOpts) :
    (comparison bg lg o).Over bg lg (ladRows bg lg o) ∧
      Largest (ladStages bg lg) (comparison bg lg o).best (comparison bg lg o).bestRow := by
  obtain ⟨hbb, hbs⟩ := summarizeRows_bare bg
    (hostRows bg ++ if groupJoined bg && groupJoined lg then joinedRows bg else unjoinedRows bg)
  obtain ⟨hlb, hls⟩ := summarizeRows_bare lg
    (hostRows lg ++ if groupJoined bg && groupJoined lg then joinedRows lg else unjoinedRows lg)
  have hstart : (Comparison.mk (stageRows bg (groupJoined bg && groupJoined lg)).1
      (stageRows lg (groupJoined bg && groupJoined lg)).1 [] 0 none).Over bg lg [] := ⟨hbs, hls, rfl⟩
  have hnone : Largest [] 0 none := Or.inl ⟨rfl, rfl, fun r hr => by cases hr⟩
  obtain ⟨hover, hlargest⟩ := hstart.stages hnone (stageRows bg (groupJoined bg && groupJoined lg)).2
    (stageRows lg (groupJoined bg && groupJoined lg)).2
  rw [List.nil_append, stageRows, stageRows, hbb, hlb] at hover hlargest
  have he2e := hover.comp (.e2e, 0)
  rw [ladRows]
  by_cases hdetail : o.detail = true
  · have hall := he2e.comps (display.filter fun d => d.1 ≠ .e2e)
    simp only [comparison, compareGroup, stageRows, hdetail, Bool.not_true, Bool.false_eq_true, if_false, if_true]
    refine ⟨hall, ?_⟩
    rw [(comps_best _ _).1, (comps_best _ _).2]
    exact hlargest
  · simp only [comparison, compareGroup, stageRows, hdetail, Bool.not_false, Bool.false_eq_true, if_false, if_true,
      List.append_nil]
    exact ⟨he2e, hlargest⟩

/-! ## Sorting changes no row -/

variable {bg' lg' : Group}

theorem Resorted.groupJoined (h : Resorted bg bg') : groupJoined bg' = groupJoined bg := by
  have hstage : (bg'.stage .s3s5).length = (bg.stage .s3s5).length := (h.vec (.stage .s3s5)).length_eq
  have he2e : (bg'.comp .e2e).length = (bg.comp .e2e).length := (h.vec (.comp .e2e)).length_eq
  rw [Ntprof.groupJoined, Ntprof.groupJoined, hstage, he2e]

theorem Resorted.bareRows (h : Resorted bg bg') (joined : Bool) : bareRows bg' joined = bareRows bg joined := by
  have hwait : (bg'.comp .hostWait).length = (bg.comp .hostWait).length := (h.vec (.comp .hostWait)).length_eq
  simp only [Ntprof.bareRows, hostRows, joinedRows, unjoinedRows, h.transport, h.spdkHost, h.spdkTarget, hwait]

theorem ladStages_resorted (hb : Resorted bg bg') (hl : Resorted lg lg') : ladStages bg' lg' = ladStages bg lg := by
  have hrow : stageRow bg' lg' = stageRow bg lg := by
    funext br row
    simp only [stageRow, rowOf_perm _ _ (hb.vec _) (hl.vec _)]
  rw [ladStages, ladStages, hb.groupJoined, hl.groupJoined, hb.bareRows, hl.bareRows, hrow]

theorem ladRows_resorted (hb : Resorted bg bg') (hl : Resorted lg lg') (o : ReportOpts) :
    ladRows bg' lg' o = ladRows bg lg o := by
  have hcomp : ∀ desc indent c, rowOf desc indent (bg'.comp c) (lg'.comp c) = rowOf desc indent (bg.comp c) (lg.comp c) :=
    fun desc indent c => rowOf_perm desc indent (hb.vec (.comp c)) (hl.vec (.comp c))
  simp only [ladRows, ladStages_resorted hb hl, hcomp]

/-! ## The groups -/

/-- Statistics whose groups were sorted, each in its place. -/
structure SameGroups (s s' : Stats) : Prop where
  keys : s'.groups.map Group.key = s.groups.map Group.key
  get : ∀ (k : ℕ) g', s'.groups[k]? = some g' → ∃ g, s.groups[k]? = some g ∧ Resorted g g'

theorem SameGroups.refl (s : Stats) : SameGroups s s := ⟨rfl, fun _ g h => ⟨g, h, .refl g⟩⟩

theorem SameGroups.length {s s' : Stats} (h : SameGroups s s') : s'.groups.length = s.groups.length := by
  rw [← List.length_map (f := Group.key), h.keys, List.length_map]

theorem SameGroups.set {s s' : Stats} (h : SameGroups s s') {k : ℕ} {g g' : Group} (hk : s'.groups[k]? = some g)
    (hg : Resorted g g') : SameGroups s { s' with groups := s'.groups.set k g' } := by
  obtain ⟨hlt, hat⟩ := List.getElem?_eq_some_iff.mp hk
  refine ⟨?_, fun j x hx => ?_⟩
  · show (s'.groups.set k g').map Group.key = _
    rw [List.map_set, hg.key, ← h.keys, ← hat, ← List.getElem_map Group.key (h := by rwa [List.length_map])]
    exact List.set_getElem_self _
  · have hx' : (s'.groups.set k g')[j]? = some x := hx
    by_cases hj : k = j
    · subst hj
      rw [List.getElem?_set_self hlt] at hx'
      obtain rfl := Option.some.inj hx'
      obtain ⟨y, hy, hres⟩ := h.get k g hk
      exact ⟨y, hy, hres.trans hg⟩
    · rw [List.getElem?_set_ne hj] at hx'
      exact h.get j x hx'

/-- The counters are as before. -/
theorem SameGroups.count {s s' : Stats} (h : SameGroups s s') (k : ℕ) : s'.count k = s.count k := by
  rw [Stats.count, Stats.count]
  rcases hk : s'.groups[k]? with _ | g'
  · have hle : s.groups.length ≤ k := by
      rw [← h.length]
      exact List.getElem?_eq_none_iff.mp hk
    rw [List.getElem?_eq_none hle]
  · obtain ⟨g, hg, hres⟩ := h.get k g' hk
    rw [hg]
    exact congrArg (BitVec.ofNat 64) hres.records

theorem SameGroups.folded {s s' : Stats} (h : SameGroups s s') (idx : List ℕ) (i : ℕ) (total : U64) (o : ReportOpts) :
    folded s' idx i total o = folded s idx i total o := by
  rw [Ntprof.folded, Ntprof.folded, h.count]

theorem SameGroups.findGroup {s s' : Stats} (h : SameGroups s s') (k : GroupKey) : findGroup s' k = findGroup s k := by
  have hmap : ∀ t : Stats, Ntprof.findGroup t k = (t.groups.map Group.key).findIdx? fun x => x = k := by
    intro t
    rw [List.findIdx?_map]
    rfl
  rw [hmap, hmap, h.keys]

/-- The place of the order has a group that the baseline has too. -/
def common (base loaded : Stats) (idx : List ℕ) (i : ℕ) : Bool :=
  ((loaded.groups[idx.getD i 0]?).bind fun lg => findGroup base lg.key).isSome

/-- What is shown for the group at a place: the rows of the samples of the two groups with its key. -/
def Shows (base loaded : Stats) (o : ReportOpts) (p : ℕ × Comparison) : Prop :=
  ∃ lg j bg, loaded.groups[p.1]? = some lg ∧ findGroup base lg.key = some j ∧ base.groups[j]? = some bg ∧
    bg.key = lg.key ∧ p.2.rows = ladRows bg lg o ∧ Largest (ladStages bg lg) p.2.best p.2.bestRow

theorem findGroup_get {s : Stats} {k : GroupKey} {j : ℕ} (h : findGroup s k = some j) :
    ∃ g, s.groups[j]? = some g ∧ g.key = k := by
  obtain ⟨hlt, hat, -⟩ := List.findIdx?_eq_some_iff_getElem.mp h
  exact ⟨_, List.getElem?_eq_getElem hlt, of_decide_eq_true hat⟩

/-- The loop over the places, from statistics whose vectors may have been sorted. -/
theorem compareLoop_spec (o : ReportOpts) (idx : List ℕ) (total : U64) {base loaded base' loaded' : Stats}
    (hb : SameGroups base base') (hl : SameGroups loaded loaded') (is : List ℕ) :
    (compareLoop o idx total base' loaded' is).1.map Prod.fst =
        (is.filter fun i => common base loaded idx i && !folded loaded idx i total o).map (fun i => idx.getD i 0) ∧
      (compareLoop o idx total base' loaded' is).2 =
        (is.filter fun i => common base loaded idx i && folded loaded idx i total o).length ∧
      ∀ p ∈ (compareLoop o idx total base' loaded' is).1, Shows base loaded o p := by
  induction is generalizing base' loaded' with
  | nil => exact ⟨rfl, rfl, fun p hp => by cases hp⟩
  | cons i is ih =>
    obtain ⟨hfst, hskipped, hshows⟩ := ih hb hl
    rcases hk : loaded'.groups[idx.getD i 0]? with _ | lg'
    · have hnone : loaded.groups[idx.getD i 0]? = none := by
        rw [List.getElem?_eq_none_iff, ← hl.length]
        exact List.getElem?_eq_none_iff.mp hk
      have hcommon : common base loaded idx i = false := by
        rw [common, hnone]
        rfl
      have hstep : compareLoop o idx total base' loaded' (i :: is) = compareLoop o idx total base' loaded' is := by
        simp only [compareLoop, hk]
      simp only [hstep, List.filter_cons, hcommon, Bool.false_and, Bool.false_eq_true, if_false]
      exact ⟨hfst, hskipped, hshows⟩
    obtain ⟨lg, hlg, hlres⟩ := hl.get _ _ hk
    have hsame : findGroup base' lg'.key = findGroup base lg.key := by rw [hb.findGroup, hlres.key]
    rcases hj : findGroup base lg.key with _ | j
    · have hcommon : common base loaded idx i = false := by
        rw [common, hlg, Option.bind_some, hj]
        rfl
      have hstep : compareLoop o idx total base' loaded' (i :: is) = compareLoop o idx total base' loaded' is := by
        simp only [compareLoop, hk, hsame, hj]
      simp only [hstep, List.filter_cons, hcommon, Bool.false_and, Bool.false_eq_true, if_false]
      exact ⟨hfst, hskipped, hshows⟩
    have hcommon : common base loaded idx i = true := by
      rw [common, hlg, Option.bind_some, hj]
      rfl
    by_cases hfold : folded loaded idx i total o = true
    · have hstep : compareLoop o idx total base' loaded' (i :: is) =
          ((compareLoop o idx total base' loaded' is).1, (compareLoop o idx total base' loaded' is).2 + 1) := by
        simp only [compareLoop, hk, hsame, hj, hl.folded, hfold, if_true]
      simp only [hstep, List.filter_cons, hcommon, hfold, Bool.true_and, Bool.not_true, Bool.false_eq_true, if_false,
        if_true, List.length_cons]
      exact ⟨hfst, congrArg (· + 1) hskipped, hshows⟩
    · rw [Bool.not_eq_true] at hfold
      obtain ⟨bg', hbg', -⟩ := findGroup_get (hsame.trans hj)
      obtain ⟨bg, hbg, hbres⟩ := hb.get _ _ hbg'
      obtain ⟨hover, hlargest⟩ := comparison_spec bg' lg' o
      obtain ⟨hfst, hskipped, hshows⟩ := ih (hb.set hbg' hover.base) (hl.set hk hover.load)
      simp only [compareLoop, hk, hsame, hj, hl.folded, hfold, hbg', Bool.false_eq_true, if_false, List.filter_cons,
        hcommon, Bool.true_and, Bool.not_false, if_true, List.map_cons]
      refine ⟨congrArg (idx.getD i 0 :: ·) hfst, hskipped, fun p hp => ?_⟩
      rcases List.mem_cons.mp hp with rfl | hp
      · obtain ⟨g, hg, hkey⟩ := findGroup_get hj
        rw [hbg] at hg
        obtain rfl := Option.some.inj hg
        rw [ladStages_resorted hbres hlres] at hlargest
        exact ⟨lg, j, bg, hlg, hj, hbg, hkey, hover.rows.trans (ladRows_resorted hbres hlres o), hlargest⟩
      · exact hshows p hp

/-- The groups that a comparison shows are those of the loaded run that the baseline has too and that are not folded,
the largest first; each row has the means over all samples of the two groups, and the largest LAD is that of the first
row with the largest one. It says that the runs have no group in common when it shows none, and otherwise counts the
folded groups that both runs have. -/
theorem comparison_shows_common_groups (base loaded : Stats) (o : ReportOpts) :
    (ntpReportCompare base loaded o).1.map Prod.fst =
        ((List.range loaded.groups.length).filter fun i => common base loaded (orderGroups loaded) i &&
          !folded loaded (orderGroups loaded) i (totalRecords loaded) o).map (fun i => (orderGroups loaded).getD i 0) ∧
      ((ntpReportCompare base loaded o).1.map Prod.fst).Pairwise (Before loaded) ∧
      (∀ p ∈ (ntpReportCompare base loaded o).1, Shows base loaded o p) ∧
      (ntpReportCompare base loaded o).2 =
        (if (ntpReportCompare base loaded o).1 = [] then .noGroup
        else if ((List.range loaded.groups.length).filter fun i => common base loaded (orderGroups loaded) i &&
            folded loaded (orderGroups loaded) i (totalRecords loaded) o) = [] then .nothing
        else .more ((List.range loaded.groups.length).filter fun i => common base loaded (orderGroups loaded) i &&
            folded loaded (orderGroups loaded) i (totalRecords loaded) o).length) := by
  obtain ⟨hfst, hskipped, hshows⟩ := compareLoop_spec o (orderGroups loaded) (totalRecords loaded) (.refl base)
    (.refl loaded) (List.range loaded.groups.length)
  refine ⟨hfst, ?_, hshows, ?_⟩
  · show ((compareLoop o (orderGroups loaded) (totalRecords loaded) base loaded
      (List.range loaded.groups.length)).1.map Prod.fst).Pairwise (Before loaded)
    rw [hfst, List.pairwise_map]
    refine (List.pairwise_lt_range.filter _).imp_of_mem fun {i j} _ hj hij => ?_
    exact orderGroups_before loaded hij (List.mem_range.mp (List.mem_filter.mp hj).1)
  · simp only [ntpReportCompare, hskipped, List.length_eq_zero_iff]
    split_ifs <;> simp_all

end Ntprof
