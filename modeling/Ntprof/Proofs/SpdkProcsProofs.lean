import Ntprof.Proofs.SpdkGateProofs

/-!
# The processes that are found, and the probes

The loop of `ntp_spdk_find` takes the first processes that run the binary, and fails when one of these has no sampling
variable. The table of `ntp_spdk_list_probes` counts every site under its name.
-/

namespace Ntprof.Spdk

open Loader (SpdkProc Found ntpMaxPids)

/-! ## The loop over the processes -/

section Find

variable (sys : System) (first : List U8) (others : List (List U8)) (max : ℕ)

/-- The processes in `/proc` that run the first file, in its order, each with its mappings. -/
def running (es : List (List U8 × Option (List (List U8)))) : List (BitVec 32 × List Mapping) :=
  (es.filterMap (procOf sys)).filter fun p => mapsHas p.2 first

/-- The process is reported with the address of its sampling variable. -/
def ReportedAs (c : BitVec 32 × List Mapping) (p : SpdkProc) : Prop :=
  p.pid = c.1 ∧ gateAddress sys c.2 (first :: others) = some p.gate

/-- What the loop comes to from the processes `ps` on, when `cs` are those that run the file. -/
def FindResult (ps : List SpdkProc) (cs : List (BitVec 32 × List Mapping)) (s : FindState) : Prop :=
  (s.failed = true ∧ ∃ c ∈ cs.take (max - ps.length), gateAddress sys c.2 (first :: others) = none) ∨
    (s.failed = false ∧ ∃ qs, s.procs = ps ++ qs ∧
      List.Forall₂ (ReportedAs sys first others) (cs.take (max - ps.length)) qs)

variable {sys first others max}

theorem findStep_done {s : FindState} (h : s.failed = true ∨ s.full = true)
    (es : List (List U8 × Option (List (List U8)))) : es.foldl (findStep sys first others max) s = s := by
  induction es with
  | nil => rfl
  | cons e es ih =>
    have hstep : findStep sys first others max s e = s := if_pos h
    rw [List.foldl_cons, hstep]
    exact ih

theorem running_cons_none {e : List U8 × Option (List (List U8))} (h : procOf sys e = none)
    (es : List (List U8 × Option (List (List U8)))) : running sys first (e :: es) = running sys first es := by
  rw [running, List.filterMap_cons_none h]
  rfl

theorem running_cons_other {e : List U8 × Option (List (List U8))} {c : BitVec 32 × List Mapping}
    (h : procOf sys e = some c) (hc : ¬ mapsHas c.2 first = true) (es : List (List U8 × Option (List (List U8)))) :
    running sys first (e :: es) = running sys first es := by
  have hfilter := List.filter_cons_of_neg (p := fun c : BitVec 32 × List Mapping => mapsHas c.2 first)
    (l := es.filterMap (procOf sys)) hc
  rw [running, List.filterMap_cons_some h, hfilter]
  rfl

theorem running_cons {e : List U8 × Option (List (List U8))} {c : BitVec 32 × List Mapping}
    (h : procOf sys e = some c) (hc : mapsHas c.2 first = true) (es : List (List U8 × Option (List (List U8)))) :
    running sys first (e :: es) = c :: running sys first es := by
  have hfilter := List.filter_cons_of_pos (p := fun c : BitVec 32 × List Mapping => mapsHas c.2 first)
    (l := es.filterMap (procOf sys)) hc
  rw [running, List.filterMap_cons_some h, hfilter]
  rfl

/-- The loop takes processes while there is room. -/
theorem foldl_findStep (es : List (List U8 × Option (List (List U8)))) (ps : List SpdkProc) (hps : ps.length ≤ max) :
    FindResult sys first others max ps (running sys first es)
      (es.foldl (findStep sys first others max) { procs := ps }) := by
  induction es generalizing ps with
  | nil =>
    refine Or.inr ⟨rfl, [], (List.append_nil ps).symm, ?_⟩
    rw [running, List.filterMap_nil, List.filter_nil, List.take_nil]
    exact .nil
  | cons e es ih =>
    rw [List.foldl_cons]
    rcases hproc : procOf sys e with _ | ⟨pid, m⟩
    · have hstep : findStep sys first others max { procs := ps } e = { procs := ps } := by
        simp [findStep, hproc]
      rw [hstep, running_cons_none hproc]
      exact ih ps hps
    by_cases hhas : mapsHas m first = true
    · rw [running_cons hproc hhas]
      by_cases hfull : ps.length = max
      · -- no room: the first `max` processes are taken
        have hstep : findStep sys first others max { procs := ps } e = { procs := ps, full := true } := by
          simp [findStep, hproc, hhas, hfull]
        rw [hstep, findStep_done (Or.inr rfl)]
        refine Or.inr ⟨rfl, [], (List.append_nil ps).symm, ?_⟩
        rw [hfull, Nat.sub_self, List.take_zero]
        exact .nil
      · have hroom : max - ps.length = (max - (ps.length + 1)) + 1 := by omega
        rcases hgate : gateAddress sys m (first :: others) with _ | a
        · have hstep : findStep sys first others max { procs := ps } e = { procs := ps, failed := true } := by
            simp [findStep, hproc, hhas, hfull, hgate]
          rw [hstep, findStep_done (Or.inl rfl)]
          refine Or.inl ⟨rfl, (pid, m), ?_, hgate⟩
          rw [hroom, List.take_succ_cons]
          exact List.mem_cons_self
        · have hstep : findStep sys first others max { procs := ps } e = { procs := ps ++ [⟨pid, a⟩] } := by
            simp [findStep, hproc, hhas, hfull, hgate]
          have hlen : (ps ++ [(⟨pid, a⟩ : SpdkProc)]).length ≤ max := by
            rw [List.length_append, List.length_singleton]
            omega
          have hrec := ih (ps ++ [⟨pid, a⟩]) hlen
          rw [hstep, FindResult, hroom, List.take_succ_cons]
          rw [FindResult, List.length_append, List.length_singleton] at hrec
          rcases hrec with ⟨hfail, c, hc, hnone⟩ | ⟨hok, qs, hqs, hall⟩
          · exact Or.inl ⟨hfail, c, List.mem_cons_of_mem _ hc, hnone⟩
          · refine Or.inr ⟨hok, ⟨pid, a⟩ :: qs, ?_, .cons ⟨rfl, hgate⟩ hall⟩
            rw [hqs, List.append_assoc, List.singleton_append]
    · have hstep : findStep sys first others max { procs := ps } e = { procs := ps } := by
        simp [findStep, hproc, hhas]
      rw [hstep, running_cons_other hproc hhas]
      exact ih ps hps

end Find

theorem forall₂_map_fst {R : BitVec 32 × List Mapping → SpdkProc → Prop} (hR : ∀ c p, R c p → p.pid = c.1)
    {cs : List (BitVec 32 × List Mapping)} {ps : List SpdkProc} (h : List.Forall₂ R cs ps) :
    ps.map SpdkProc.pid = cs.map Prod.fst := by
  induction h with
  | nil => rfl
  | cons hhead _ ih => rw [List.map_cons, List.map_cons, hR _ _ hhead, ih]

theorem forall₂_exists {α β : Type} {R : α → β → Prop} {as : List α} {bs : List β} (h : List.Forall₂ R as bs) {a : α}
    (ha : a ∈ as) : ∃ b, R a b := by
  induction h with
  | nil => cases ha
  | cons hhead _ ih =>
    rcases List.mem_cons.mp ha with rfl | ha
    · exact ⟨_, hhead⟩
    · exact ih ha

/-- Whatever `/proc` holds, `ntp_spdk_find` reports the first `NTP_MAX_PIDS` other processes that run the first file, in
the order of the directory and each with the address of its sampling variable; it fails exactly when one of these has no
such variable. What it reports is what the loader relies on: no more processes than there is room for, and none twice. -/
theorem spdk_find_takes_first_processes (sys : System) (list first : List U8) (others : List (List U8))
    (es : List (List U8 × Option (List (List U8)))) (hpaths : pathsParse sys list = some (first, others))
    (hproc : sys.proc = some es) (honce : ((es.filterMap (procOf sys)).map Prod.fst).Nodup) :
    (ntpSpdkFind sys list ntpMaxPids = none ↔
      ∃ c ∈ (running sys first es).take ntpMaxPids, gateAddress sys c.2 (first :: others) = none) ∧
    ∀ ps, ntpSpdkFind sys list ntpMaxPids = some ps →
      List.Forall₂ (ReportedAs sys first others) ((running sys first es).take ntpMaxPids) ps ∧
      ∃ f : Found, f.procs = ps := by
  have hloop : FindResult sys first others ntpMaxPids [] (running sys first es)
      (es.foldl (findStep sys first others ntpMaxPids) {}) := foldl_findStep es [] (Nat.zero_le _)
  rw [FindResult, List.length_nil, Nat.sub_zero] at hloop
  simp only [ntpSpdkFind, hpaths, hproc]
  rcases hloop with ⟨hfail, hnone⟩ | ⟨hok, qs, hqs, hall⟩
  · rw [hfail, if_pos rfl]
    refine ⟨⟨fun _ => hnone, fun _ => rfl⟩, fun ps hps => ?_⟩
    cases hps
  · rw [hok, hqs, List.nil_append, if_neg Bool.false_ne_true]
    constructor
    · constructor
      · intro h
        cases h
      · rintro ⟨c, hc, hgate⟩
        obtain ⟨p, hp⟩ := forall₂_exists hall hc
        rw [hp.2] at hgate
        cases hgate
    · intro ps hps
      obtain rfl := Option.some.inj hps
      have hpids := forall₂_map_fst (fun _ _ h => h.1) hall
      refine ⟨hall, ⟨qs, ?_, ?_⟩, rfl⟩
      · have hsub : ((running sys first es).take ntpMaxPids).Sublist (es.filterMap (procOf sys)) :=
          (List.take_sublist _ _).trans List.filter_sublist
        rw [hpids]
        exact honce.sublist (hsub.map Prod.fst)
      · rw [← hall.length_eq]
        exact List.length_take_le _ _

/-- The name of a process with a number of two digits. -/
def pidName (n : ℕ) : List U8 := [BitVec.ofNat 8 (0x30 + n / 10), BitVec.ofNat 8 (0x30 + n % 10)]

/-- What `/proc` holds: an entry that is no process, the process itself, one that runs no file, and nine that run the
binary, the last one first. -/
def tgtProc : List (List U8 × Option (List (List U8))) :=
  [([0x61#8], none), ([0x31#8], some (tgtRegions.map Region.line)), (pidName 30, some [])] ++
    [20, 19, 18, 17, 16, 15, 14, 13, 12].map fun n => (pidName n, some (tgtRegions.map Region.line))

theorem spdk_find_eight_of_nine :
    ∃ ps, ntpSpdkFind { tgtSystem with proc := some tgtProc } tgtPath ntpMaxPids = some ps ∧
      ps.map SpdkProc.pid = [20#32, 19#32, 18#32, 17#32, 16#32, 15#32, 14#32, 13#32] := by
  have hfind := spdk_find_takes_first_processes { tgtSystem with proc := some tgtProc } tgtPath tgtPath [] tgtProc
    (by decide) rfl (by decide +kernel)
  rcases h : ntpSpdkFind { tgtSystem with proc := some tgtProc } tgtPath ntpMaxPids with _ | ps
  · obtain ⟨c, hc, hnone⟩ := hfind.1.mp h
    have hall : ∀ c ∈ (running { tgtSystem with proc := some tgtProc } tgtPath tgtProc).take ntpMaxPids,
        gateAddress { tgtSystem with proc := some tgtProc } c.2 [tgtPath] ≠ none := by decide +kernel
    exact absurd hnone (hall c hc)
  · have hpids := forall₂_map_fst (fun _ _ h => h.1) (hfind.2 ps h).1
    exact ⟨ps, rfl, hpids.trans (by decide +kernel)⟩

end Ntprof.Spdk
