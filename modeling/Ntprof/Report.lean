import Ntprof.Stats

/-!
# The stage table (`src/report.c`)

The rows of the stage summary of one group, as `print_stages` and `compare_group` build them. A row
points to one of the group's sample vectors; summarising the row sorts that vector in place.
-/

namespace Ntprof

/-- A sample vector of a group: what `srow.v` points to. -/
inductive RowVec where
  | stage (s : Stage)
  | comp (c : Comp)
  deriving DecidableEq

def Group.vec (g : Group) : RowVec → List S64
  | .stage s => g.stage s
  | .comp c => g.comp c

def Group.setVec (g : Group) (v : RowVec) (x : List S64) : Group :=
  match v with
  | .stage s => { g with stage := Function.update g.stage s x }
  | .comp c => { g with comp := Function.update g.comp c x }

/-- `struct srow`. -/
structure SRow where
  key : String
  desc : String
  v : RowVec
  m : Summary := {}

/-- `group_joined`. -/
def groupJoined (g : Group) : Bool :=
  (g.stage .s3s5).length != 0 && decide ((g.comp .e2e).length ≤ 2 * (g.stage .s3s5).length)

/-- The rows of the host's stages. SPDK has no block layer: that row is left out. -/
def hostRows (g : Group) : List SRow :=
  let rdma := g.transport == ntpTrRdma
  let hostTr := if g.spdkHost then "SPDK" else if rdma then "nvme-rdma" else "nvme-tcp"
  let s1 : List SRow :=
    if g.spdkHost then [] else [⟨ntpStageKeys .s1, "host block layer", .stage .s1, {}⟩]
  s1 ++ [⟨ntpStageKeys .s2, "host driver (" ++ hostTr ++ ")", .stage .s2, {}⟩]

/-- The rows of the network and the target, with target records. -/
def joinedRows (g : Group) : List SRow :=
  let rdma := g.transport == ntpTrRdma
  let tgtTr := if g.spdkTarget then "SPDK" else if rdma then "nvmet-rdma" else "nvmet-tcp"
  [⟨ntpStageKeys .s3s5, if rdma then "network (RDMA, NICs, wire)" else "network (TCP/IP, NICs, wire)",
      .stage .s3s5, {}⟩,
    ⟨ntpStageKeys .s6, "target driver (" ++ tgtTr ++ ")", .stage .s6, {}⟩,
    ⟨ntpStageKeys .s7s9,
      if g.spdkTarget then "storage (SPDK bdev, drive)" else "storage (target block layer, drive)",
      .stage .s7s9, {}⟩]

/-- The rows of the network and the target, seen from the host alone. -/
def unjoinedRows (g : Group) : List SRow :=
  -- a TCP read's wait for the rest of its data: network, seen from the host
  let wait : List SRow :=
    if (g.comp .hostWait).length ≠ 0 then
      [⟨"host_data_wait", "rest of the data arriving", .comp .hostWait, {}⟩]
    else []
  [⟨"host_receive", "host receive path", .comp .hostRx, {}⟩] ++ wait ++
    [⟨"network_and_target", "network and target (not recorded)", .comp .remote, {}⟩]

/-- `ntp_summarize(rows[i].v, &rows[i].m)`. -/
def summarizeRow (g : Group) (row : SRow) : Group × SRow :=
  let (sorted, m) := ntpSummarize (g.vec row.v)
  (g.setVec row.v sorted, { row with m := m })

/-- The loop at the end of `stage_rows`. -/
def summarizeRows (g : Group) : List SRow → Group × List SRow
  | [] => (g, [])
  | row :: rows =>
    let (g, row) := summarizeRow g row
    let (g, rows) := summarizeRows g rows
    (g, row :: rows)

/-- `stage_rows`. -/
def stageRows (g : Group) (joined : Bool) : Group × List SRow :=
  summarizeRows g (hostRows g ++ if joined then joinedRows g else unjoinedRows g)

/-- The rows of `print_stages`. -/
def printStages (g : Group) : Group × List SRow := stageRows g (groupJoined g)

/-- The rows of `compare_group`: of the baseline and of the loaded run. -/
def compareGroup (bg lg : Group) : (Group × List SRow) × (Group × List SRow) :=
  let joined := groupJoined bg && groupJoined lg
  (stageRows bg joined, stageRows lg joined)

end Ntprof
