import Ntprof.ReportText

/-!
# The comparison of two runs (`src/report.c`)

`ntp_report_compare` sets the groups of a run under load against those of a baseline: for each stage, the mean under
load over the mean of the baseline is its latency amplification degree (LAD). Summarising a vector sorts it in place.
-/

namespace Ntprof

/-- `LAD_MIN_BASE_NS`. -/
def ladMinBaseNs : ℚ := 500

/-- A row of the comparison: the two means and the LAD, where the baseline is not too small for one. -/
structure LadRow where
  desc : String
  indent : ℕ
  base : ℚ
  load : ℚ
  lad : Option ℚ

/-- The row that `lad_row` prints for two summaries, if it prints one. -/
def ladRow (desc : String) (indent : ℕ) (b l : Summary) : Option LadRow :=
  if b.n = 0 ∨ l.n = 0 then none
  else
    some { desc := desc, indent := indent, base := b.mean, load := l.mean,
           lad := if ladMinBaseNs ≤ b.mean then some (l.mean / b.mean) else none }

/-- What `lad_row` returns. -/
def LadRow.ret : Option LadRow → ℚ
  | none => 0
  | some r => r.lad.getD 0

/-- The variables of `compare_group`, and the rows it has printed. -/
structure Comparison where
  base : Group
  load : Group
  rows : List LadRow := []
  best : ℚ := 0
  bestRow : Option String := none

/-- A call of `lad_row` for vectors of the two groups; also what it returns. -/
def Comparison.row (s : Comparison) (desc : String) (indent : ℕ) (bv lv : RowVec) : Comparison × ℚ :=
  let (bs, b) := ntpSummarize (s.base.vec bv)
  let (ls, l) := ntpSummarize (s.load.vec lv)
  ({ s with base := s.base.setVec bv bs, load := s.load.setVec lv ls, rows := s.rows ++ (ladRow desc indent b l).toList },
    LadRow.ret (ladRow desc indent b l))

/-- One turn of the loop of `compare_group` over the stages of the loaded run: the same stage in the baseline, whose
rows are `br`. -/
def Comparison.stage (br : List SRow) (s : Comparison) (row : SRow) : Comparison :=
  match br.find? fun b => b.key = row.key with
  | none => s
  | some b =>
    let (s, lad) := s.row row.desc 0 b.v row.v
    if s.best < lad then { s with best := lad, bestRow := some row.desc } else s

/-- The row of a component. -/
def Comparison.comp (s : Comparison) (d : Comp × ℕ) : Comparison :=
  (s.row (ntpComps d.1).desc d.2 (.comp d.1) (.comp d.1)).1

/-- `compare_group`, whose stages are the rows of `compareGroup`. -/
def comparison (bg lg : Group) (o : ReportOpts) : Comparison :=
  let ((bg, br), (lg, lr)) := compareGroup bg lg
  let s := (lr.foldl (Comparison.stage br) { base := bg, load := lg }).comp (.e2e, 0)
  if !o.detail then s else (display.filter fun d => d.1 ≠ .e2e).foldl Comparison.comp s

/-- `find_group`: the place of the group. -/
def findGroup (s : Stats) (k : GroupKey) : Option ℕ := s.groups.findIdx? fun g => g.key = k

/-- The loop of `ntp_report_compare` over the places of the order: the groups of the loaded run that it shows, by their
places, and how many it skips. -/
def compareLoop (o : ReportOpts) (idx : List ℕ) (total : U64) :
    Stats → Stats → List ℕ → List (ℕ × Comparison) × ℕ
  | _, _, [] => ([], 0)
  | base, loaded, i :: is =>
    let k := idx.getD i 0
    match loaded.groups[k]? with
    -- the order has only indexes of groups
    | none => compareLoop o idx total base loaded is
    | some lg =>
      match findGroup base lg.key with
      | none => compareLoop o idx total base loaded is
      | some j =>
        if folded loaded idx i total o then
          let (shown, skipped) := compareLoop o idx total base loaded is
          (shown, skipped + 1)
        else
          match base.groups[j]? with
          | none => compareLoop o idx total base loaded is
          | some bg =>
            let c := comparison bg lg o
            let (shown, skipped) := compareLoop o idx total { base with groups := base.groups.set j c.base }
              { loaded with groups := loaded.groups.set k c.load } is
            ((k, c) :: shown, skipped)

/-- The last line of the comparison. -/
inductive CompareEnd where
  | nothing
  | noGroup
  | more (n : ℕ)

/-- `ntp_report_compare`: the groups it shows, and its last line. -/
def ntpReportCompare (base loaded : Stats) (o : ReportOpts) : List (ℕ × Comparison) × CompareEnd :=
  let (shown, skipped) := compareLoop o (orderGroups loaded) (totalRecords loaded) base loaded
    (List.range loaded.groups.length)
  (shown, if shown.length = 0 then .noGroup else if skipped ≠ 0 then .more skipped else .nothing)

end Ntprof
