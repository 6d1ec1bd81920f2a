import Ntprof.Loader
import Mathlib.Data.Set.Basic

/-!
# The gates of SPDK processes

`Samples e S` describes the gates by the set of processes that sample; a call of `ntp_spdk_set_gate` adds a
process to the set or takes one out. The order of the writes is then an order of sets: until the last target
process samples no host process does, and a target process stops only when no host process samples.
-/

namespace Ntprof.Loader

open Bpf (Transport)

variable {m : Machine} {c : Config} {e x : U32} {S : Set SpdkProc} {p q : SpdkProc} {ps : List SpdkProc}
  {r r' r'' : Run} {g : Gates} {hosts targets : List SpdkProc}

/-- The processes of `S` sample one command in `e`, the others none. -/
def Samples (e : U32) (S : Set SpdkProc) (g : Gates) : Prop :=
  ∀ p v, g p = some v → (p ∈ S ∧ v = e) ∨ (p ∉ S ∧ v = 0)

theorem AllZero.samples (h : AllZero g) : Samples e ∅ g := by
  intro p v hv
  exact Or.inr ⟨Set.notMem_empty p, h p v hv⟩

theorem Samples.allZero (h : Samples e ∅ g) : AllZero g := by
  intro p v hv
  rcases h p v hv with ⟨hp, -⟩ | ⟨-, h0⟩
  · exact absurd hp (Set.notMem_empty p)
  · exact h0

/-- With a period of 0 nothing is sampled, so that any order of the writes will do. -/
theorem Samples.ordered (h : Samples e S g)
    (hS : e ≠ 0 → ∀ p ∈ hosts, p ∈ S → ∀ t ∈ targets, t ∈ S) : Ordered hosts targets g := by
  intro p hp v hv hv0 t ht u hu
  rcases h p v hv with ⟨hpS, rfl⟩ | ⟨-, h0⟩
  · rcases h t u hu with ⟨-, rfl⟩ | ⟨htS, -⟩
    · exact hv0
    · exact absurd (hS hv0 p hp hpS t ht) htS
  · exact absurd h0 hv0

/-! ## One write -/

theorem ntpSpdkSetGate_gates {v : U32} (h : (ntpSpdkSetGate m p x r).2.gates q = some v) :
    ((ntpSpdkSetGate m p x r).1 = true ∧ q = p ∧ v = x) ∨
      (r.gates q = some v ∧ ((ntpSpdkSetGate m p x r).1 = true → q ≠ p)) := by
  unfold ntpSpdkSetGate at h ⊢
  dsimp only at h ⊢
  by_cases hok : (((if m.exits r.calls p then none else r.gates p).isSome &&
      !(if x = 0 then m.clearFails r.calls else m.setFails r.calls)) = true)
  · rw [if_pos hok] at h
    by_cases hq : q = p
    · subst hq
      rw [Function.update_self] at h
      exact Or.inl ⟨hok, rfl, (Option.some.inj h).symm⟩
    · rw [Function.update_of_ne hq] at h
      refine Or.inr ⟨?_, fun _ => hq⟩
      split at h
      · exact absurd h (by simp)
      · exact h
  · rw [if_neg hok] at h
    refine Or.inr ⟨?_, fun hok' => absurd hok' hok⟩
    split at h
    · exact absurd h (by simp)
    · exact h

/-- Only a process that has exited makes clearing a gate fail. -/
theorem ntpSpdkSetGate_clear (hc : ∀ n, m.clearFails n = false)
    (h : (ntpSpdkSetGate m p 0 r).1 = false) : (ntpSpdkSetGate m p 0 r).2.gates p = none := by
  unfold ntpSpdkSetGate at h ⊢
  simp only [if_true, hc, Bool.not_false, Bool.and_true] at h ⊢
  rw [h]
  simpa using h

theorem Samples.set (h : Samples e S r.gates) (hok : (ntpSpdkSetGate m p e r).1 = true) :
    Samples e (insert p S) (ntpSpdkSetGate m p e r).2.gates := by
  intro q v hv
  rcases ntpSpdkSetGate_gates hv with ⟨-, rfl, rfl⟩ | ⟨hq, hne⟩
  · exact Or.inl ⟨Set.mem_insert _ _, rfl⟩
  · rcases h q v hq with ⟨hS, hv⟩ | ⟨hS, hv⟩
    · exact Or.inl ⟨Set.mem_insert_of_mem _ hS, hv⟩
    · refine Or.inr ⟨?_, hv⟩
      rintro (hqp | hqS)
      · exact hne hok hqp
      · exact hS hqS

theorem Samples.failed (h : Samples e S r.gates) (hok : (ntpSpdkSetGate m p e r).1 = false) :
    Samples e S (ntpSpdkSetGate m p e r).2.gates := by
  intro q v hv
  rcases ntpSpdkSetGate_gates hv with ⟨hok', -⟩ | ⟨hq, -⟩
  · rw [hok] at hok'
    exact absurd hok' (by simp)
  · exact h q v hq

theorem Samples.clear (hc : ∀ n, m.clearFails n = false) (h : Samples e S r.gates) :
    Samples e (S \ {p}) (ntpSpdkSetGate m p 0 r).2.gates := by
  intro q v hv
  by_cases hqp : q = p
  · subst hqp
    refine Or.inr ⟨fun hq => hq.2 rfl, ?_⟩
    rcases ntpSpdkSetGate_gates hv with ⟨-, -, hv0⟩ | ⟨-, hne⟩
    · exact hv0
    · cases hok : (ntpSpdkSetGate m q 0 r).1 with
      | true => exact absurd rfl (hne hok)
      | false =>
        rw [ntpSpdkSetGate_clear hc hok] at hv
        exact absurd hv (by simp)
  · rcases ntpSpdkSetGate_gates hv with ⟨-, hq, -⟩ | ⟨hq, -⟩
    · exact absurd hq hqp
    · rcases h q v hq with ⟨hS, hv⟩ | ⟨hS, hv⟩
      · exact Or.inl ⟨⟨hS, hqp⟩, hv⟩
      · exact Or.inr ⟨fun hq => hS hq.1, hv⟩

/-! ## The writes of an instance -/

/-- Between `r` and `r'` the gates satisfied `Q` after every write. -/
def Keeps (Q : Gates → Prop) (r r' : Run) : Prop := ∀ g ∈ r'.history, g ∈ r.history ∨ Q g

variable {Q : Gates → Prop}

theorem Keeps.refl : Keeps Q r r := fun _ hg => Or.inl hg

theorem Keeps.trans (h : Keeps Q r r') (h' : Keeps Q r' r'') : Keeps Q r r'' := by
  intro g hg
  rcases h' g hg with hg | hQ
  · exact h g hg
  · exact Or.inr hQ

theorem keeps_ntpSpdkSetGate (h : Q (ntpSpdkSetGate m p x r).2.gates) :
    Keeps Q r (ntpSpdkSetGate m p x r).2 := by
  intro g hg
  rcases List.mem_cons.mp hg with rfl | hg
  · exact Or.inr h
  · exact Or.inl hg

/-- The gates are set from the first process on, up to the first that fails. -/
theorem setGates_samples (ps : List SpdkProc) {S : Set SpdkProc} {r : Run} (h : Samples e S r.gates) :
    ∃ l s, ps = l ++ s ∧ ((setGates m e ps r).1 = true ↔ s = []) ∧
      Samples e (S ∪ {q | q ∈ l}) (setGates m e ps r).2.gates := by
  induction ps generalizing S r with
  | nil => exact ⟨[], [], rfl, by simp [setGates], by simpa [setGates] using h⟩
  | cons p ps ih =>
    rcases hw : ntpSpdkSetGate m p e r with ⟨_ | _, r'⟩
    · have hs := h.failed (m := m) (p := p) (by rw [hw])
      rw [hw] at hs
      refine ⟨[], p :: ps, rfl, ?_, ?_⟩
      · simp [setGates, hw]
      · simpa [setGates, hw] using hs
    · have hs := h.set (m := m) (p := p) (by rw [hw])
      rw [hw] at hs
      obtain ⟨l, s, rfl, hok, hl⟩ := ih hs
      refine ⟨p :: l, s, rfl, ?_, ?_⟩
      · simpa only [setGates, hw] using hok
      · simp only [setGates, hw]
        convert hl using 1
        ext q
        simp only [Set.mem_union, Set.mem_insert_iff, Set.mem_ofPred_eq, List.mem_cons]
        tauto

theorem keeps_setGates (ps : List SpdkProc) {S : Set SpdkProc} {r : Run} (h : Samples e S r.gates)
    (hQ : ∀ l s g, ps = l ++ s → Samples e (S ∪ {q | q ∈ l}) g → Q g) : Keeps Q r (setGates m e ps r).2 := by
  induction ps generalizing S r with
  | nil => exact Keeps.refl
  | cons p ps ih =>
    rcases hw : ntpSpdkSetGate m p e r with ⟨_ | _, r'⟩
    · have hs := h.failed (m := m) (p := p) (by rw [hw])
      have hk : Keeps Q r (ntpSpdkSetGate m p e r).2 :=
        keeps_ntpSpdkSetGate (hQ [] _ _ rfl (by simpa using hs))
      rw [hw] at hk
      simpa only [setGates, hw] using hk
    · have hs := h.set (m := m) (p := p) (by rw [hw])
      have hk : Keeps Q r (ntpSpdkSetGate m p e r).2 := by
        refine keeps_ntpSpdkSetGate (hQ [p] ps _ rfl ?_)
        convert hs using 1
        ext q
        simp [or_comm]
      rw [hw] at hs hk
      simp only [setGates, hw]
      refine hk.trans (ih hs ?_)
      intro l s g hps hg
      refine hQ (p :: l) s g (by rw [hps]; rfl) ?_
      convert hg using 1
      ext q
      simp only [Set.mem_union, Set.mem_insert_iff, Set.mem_ofPred_eq, List.mem_cons]
      tauto

theorem clearGates_samples (hc : ∀ n, m.clearFails n = false) (ps : List SpdkProc) {S : Set SpdkProc} {r : Run}
    (h : Samples e S r.gates) : Samples e (S \ {q | q ∈ ps}) (clearGates m ps r).gates := by
  induction ps generalizing S r with
  | nil => simpa [clearGates] using h
  | cons p ps ih =>
    have hs := ih (h.clear (p := p) hc)
    show Samples e _ (clearGates m ps (ntpSpdkSetGate m p 0 r).2).gates
    convert hs using 1
    ext q
    simp only [Set.mem_sdiff, Set.mem_ofPred_eq, List.mem_cons, Set.mem_singleton_iff, not_or]
    tauto

theorem keeps_clearGates (hc : ∀ n, m.clearFails n = false) (ps : List SpdkProc) {S : Set SpdkProc} {r : Run}
    (h : Samples e S r.gates) (hQ : ∀ l s g, ps = l ++ s → Samples e (S \ {q | q ∈ l}) g → Q g) :
    Keeps Q r (clearGates m ps r) := by
  induction ps generalizing S r with
  | nil => exact Keeps.refl
  | cons p ps ih =>
    have hs := h.clear (p := p) hc
    have hk : Keeps Q r (ntpSpdkSetGate m p 0 r).2 := by
      refine keeps_ntpSpdkSetGate (hQ [p] ps _ rfl ?_)
      convert hs using 1
      ext q
      simp
    refine hk.trans (ih hs ?_)
    intro l s g hps hg
    refine hQ (p :: l) s g (by rw [hps]; rfl) ?_
    convert hg using 1
    ext q
    simp only [Set.mem_sdiff, Set.mem_ofPred_eq, List.mem_cons, Set.mem_singleton_iff, not_or]
    tauto

/-! ## What the loader leaves behind -/

/-- The processes whose gates the loader will clear. -/
def gatedProcs (insts : List ObjInst) : List SpdkProc := insts.flatMap fun o => if o.gated then o.procs else []

/-- Whatever samples is of an instance whose gates will be cleared. -/
def Covered (e : U32) (insts : List ObjInst) (r : Run) : Prop :=
  ∃ S : Set SpdkProc, S ⊆ {q | q ∈ gatedProcs insts} ∧ Samples e S r.gates

variable {insts : List ObjInst} {o : ObjInst}

theorem gatedProcs_cons (o : ObjInst) (insts : List ObjInst) :
    gatedProcs (o :: insts) = (if o.gated then o.procs else []) ++ gatedProcs insts := rfl

theorem openObjects_gated (ds : List Object) : ∀ o ∈ (openObjects m ds).1, o.gated = false := by
  induction ds with
  | nil => simp [openObjects]
  | cons d ds ih =>
    intro o ho
    unfold openObjects at ho
    split at ho
    · exact absurd ho (by simp)
    · rw [List.mem_singleton.mp ho]
    · split at ho
      · rw [List.mem_singleton.mp ho]
      · rcases List.mem_cons.mp ho with rfl | ho
        · rfl
        · exact ih o ho

theorem opened_gated :
    ∀ o ∈ (if m.ready then openObjects m (objects.filter (wanted c)) else ([], false)).1, o.gated = false := by
  split
  · exact openObjects_gated _
  · simp

theorem ungate_samples (hc : ∀ n, m.clearFails n = false) (h : Samples e S r.gates) :
    Samples e (S \ {q | q ∈ if o.gated then o.procs else []}) (ungate m o r).2.gates := by
  unfold ungate
  cases o.gated with
  | true => exact clearGates_samples hc o.procs h
  | false => simpa using h

theorem ungate_gated : (ungate m o r).1.gated = false := by
  unfold ungate
  split
  · rfl
  · rename_i hg
    simpa using hg

theorem ungate_procs : (ungate m o r).1.procs = o.procs := by
  unfold ungate
  split <;> rfl

theorem ungateInsts_samples (hc : ∀ n, m.clearFails n = false) (insts : List ObjInst) {S : Set SpdkProc} {r : Run}
    (h : Samples e S r.gates) :
    Samples e (S \ {q | q ∈ gatedProcs insts}) (ungateInsts m insts r).2.gates := by
  induction insts generalizing S r with
  | nil => simpa [gatedProcs, ungateInsts] using h
  | cons o insts ih =>
    have hs := ih (ungate_samples (o := o) hc h)
    show Samples e _ (ungateInsts m insts (ungate m o r).2).2.gates
    convert hs using 1
    ext q
    rw [gatedProcs_cons]
    simp only [Set.mem_sdiff, Set.mem_ofPred_eq, List.mem_append, not_or]
    tauto

theorem ungateInsts_allZero (hc : ∀ n, m.clearFails n = false) (h : Covered e insts r) :
    AllZero (ungateInsts m insts r).2.gates := by
  obtain ⟨S, hS, hs⟩ := h
  have h0 := ungateInsts_samples hc insts hs
  rw [Set.sdiff_eq_empty.mpr hS] at h0
  exact h0.allZero

theorem ungateInsts_idle (hi : ∀ o ∈ insts, o.gated = false) : ungateInsts m insts r = (insts, r) := by
  induction insts generalizing r with
  | nil => rfl
  | cons o insts ih =>
    have ho : ungate m o r = (o, r) := by
      unfold ungate
      rw [hi o (List.mem_cons_self)]
      rfl
    simp only [ungateInsts, ho, ih (fun o ho => hi o (List.mem_cons_of_mem _ ho))]

theorem covered_gateInsts (insts : List ObjInst) {r : Run} (h : AllZero r.gates) (hi : ∀ o ∈ insts, o.gated = false) :
    Covered e (gateInsts m e insts r).2.1 (gateInsts m e insts r).2.2 := by
  induction insts with
  | nil => exact ⟨∅, Set.empty_subset _, h.samples⟩
  | cons o insts ih =>
    obtain ⟨S, hS, hs⟩ := ih (fun o ho => hi o (List.mem_cons_of_mem _ ho))
    rcases hg : gateInsts m e insts r with ⟨_ | _, os, r'⟩
    · rw [hg] at hS hs
      simp only [gateInsts, hg]
      refine ⟨S, ?_, hs⟩
      rw [gatedProcs_cons, hi o (List.mem_cons_self)]
      exact hS
    · rw [hg] at hS hs
      simp only [gateInsts, hg]
      obtain ⟨l, s, hps, -, hl⟩ := setGates_samples (m := m) o.procs hs
      refine ⟨_, ?_, hl⟩
      rintro q (hq | hq)
      · exact List.mem_append_right _ (hS hq)
      · have hqo : q ∈ o.procs := by
          rw [hps]
          exact List.mem_append_left _ hq
        refine List.mem_append_left _ ?_
        have hne : o.procs.isEmpty = false := by
          cases hp : o.procs with
          | nil => rw [hp] at hqo; exact absurd hqo (by simp)
          | cons _ _ => rfl
        simpa [hne] using hqo

/-- The state of a loader: nothing samples without a loader that will clear it. -/
def StateCovered (e : U32) : Option (List ObjInst) × Run → Prop
  | (none, r) => AllZero r.gates
  | (some insts, r) => Covered e insts r

theorem stateCovered_ntpLoaderOpen (hc : ∀ n, m.clearFails n = false) (h : AllZero r.gates) :
    StateCovered c.sampleEvery (ntpLoaderOpen m c r) := by
  unfold ntpLoaderOpen
  rcases ho : (if m.ready then openObjects m (objects.filter (wanted c)) else ([], false)) with ⟨insts, ok⟩
  have hi := opened_gated (m := m) (c := c)
  rw [ho] at hi
  dsimp only
  split
  · show AllZero (ungateInsts m insts r).2.gates
    rw [ungateInsts_idle hi]
    exact h
  · have hcov := covered_gateInsts (m := m) (e := c.sampleEvery) (insts.map fun o => { o with armed := true }) h
      (by
        intro o ho'
        obtain ⟨o, ho, rfl⟩ := List.mem_map.mp ho'
        exact hi o ho)
    rcases hg : gateInsts m c.sampleEvery (insts.map fun o => { o with armed := true }) r with ⟨_ | _, insts', r'⟩
    · rw [hg] at hcov
      simp only [hg]
      exact ungateInsts_allZero hc hcov
    · rw [hg] at hcov
      simp only [hg]
      exact hcov

/-- Disarming and closing clear every gate, as long as gates of live processes can be cleared. -/
theorem allZero_step (hc : ∀ n, m.clearFails n = false) {s : Option (List ObjInst) × Run} (h : StateCovered e s)
    (op : Op) : AllZero (step m s op).2.gates := by
  obtain ⟨_ | insts, r⟩ := s
  · exact h
  · cases op with
    | disarm => exact ungateInsts_allZero hc h
    | close => exact ungateInsts_allZero hc h

theorem stateCovered_step (hc : ∀ n, m.clearFails n = false) {s : Option (List ObjInst) × Run}
    (h : StateCovered e s) (op : Op) : StateCovered e (step m s op) := by
  have hz := allZero_step hc h op
  rcases hs : step m s op with ⟨_ | insts, r⟩
  · rw [hs] at hz
    exact hz
  · rw [hs] at hz
    exact ⟨∅, Set.empty_subset _, hz.samples⟩

theorem stateCovered_foldl (hc : ∀ n, m.clearFails n = false) (ops : List Op) {s : Option (List ObjInst) × Run}
    (h : StateCovered e s) : StateCovered e (ops.foldl (step m) s) := by
  induction ops generalizing s with
  | nil => exact h
  | cons op ops ih => exact ih (stateCovered_step hc h op)

theorem run_cleared (hc : ∀ n, m.clearFails n = false) (h : AllZero g) {ops : List Op}
    (hend : ops ≠ [] ∨ (ntpLoaderOpen m c { gates := g }).1 = none) : AllZero (run m c g ops).2.gates := by
  have hopen := stateCovered_ntpLoaderOpen (c := c) (r := { gates := g }) hc h
  rcases List.eq_nil_or_concat ops with rfl | ⟨ops, op, rfl⟩
  · rcases hend with hne | hnone
    · exact absurd rfl hne
    · unfold run
      rcases ho : ntpLoaderOpen m c { gates := g } with ⟨_ | insts, r⟩
      · rw [ho] at hopen
        exact hopen
      · rw [ho] at hnone
        exact absurd hnone (by simp)
  · unfold run
    rw [List.concat_eq_append, List.foldl_append]
    exact allZero_step hc (stateCovered_foldl hc ops hopen) op

/-! ## The order of the writes -/

/-- Two instances, the first of the host and the second of the target, that can be ungated in this order: if the
host's is gated then all target processes sample, else no host process does. -/
def CanUngate (e : U32) (hosts targets : List SpdkProc) (insts : List ObjInst) (r : Run) : Prop :=
  ∃ oh ot S, insts = [oh, ot] ∧ oh.procs = hosts ∧ ot.procs = targets ∧ Samples e S r.gates ∧
    (e ≠ 0 → (oh.gated = true ∧ ∀ t ∈ targets, t ∈ S) ∨ (oh.gated = false ∧ ∀ p ∈ hosts, p ∉ S))

/-- Only its last process can be shared, so no proper prefix of the host's holds one of the target's. -/
theorem SharedLast.host_disjoint (hl : SharedLast hosts targets) (hn : hosts.Nodup) {l s : List SpdkProc}
    (hls : hosts = l ++ s) (hs : s ≠ []) : ∀ t ∈ targets, t ∉ l := by
  intro t ht htl
  have hth : t ∈ hosts := by
    rw [hls]
    exact List.mem_append_left _ htl
  have hlast := (hl t hth ht).1
  rw [hls, List.getLast?_append_of_ne_nil _ hs] at hlast
  rw [hls] at hn
  exact (List.nodup_append.mp hn).2.2 t htl t (List.mem_of_getLast? hlast) rfl

theorem SharedLast.target_disjoint (hl : SharedLast hosts targets) (hn : targets.Nodup) {l s : List SpdkProc}
    (hls : targets = l ++ s) (hs : s ≠ []) : ∀ p ∈ hosts, p ∉ l :=
  SharedLast.host_disjoint (fun p hp hp' => ⟨(hl p hp' hp).2, (hl p hp' hp).1⟩) hn hls hs

/-- Hosts first when stopping. -/
theorem keeps_ungateInsts (hc : ∀ n, m.clearFails n = false) (hn : hosts.Nodup)
    (hl : e ≠ 0 → SharedLast hosts targets) (h : CanUngate e hosts targets insts r) :
    Keeps (Ordered hosts targets) r (ungateInsts m insts r).2 ∧
      CanUngate e hosts targets (ungateInsts m insts r).1 (ungateInsts m insts r).2 := by
  obtain ⟨oh, ot, S, rfl, rfl, rfl, hs, hS⟩ := h
  -- the host's gates: a target process is cleared with the last host process only
  have hhost : Keeps (Ordered oh.procs ot.procs) r (ungate m oh r).2 ∧ ∃ S', Samples e S' (ungate m oh r).2.gates ∧
      (e ≠ 0 → ∀ p ∈ oh.procs, p ∉ S') := by
    unfold ungate
    cases hg : oh.gated with
    | false =>
      refine ⟨Keeps.refl, S, hs, ?_⟩
      intro he
      rcases hS he with ⟨hg', -⟩ | ⟨-, hS⟩
      · rw [hg] at hg'
        exact absurd hg' (by simp)
      · exact hS
    | true =>
      refine ⟨?_, _, clearGates_samples hc oh.procs hs, fun _ p hp hp' => hp'.2 hp⟩
      refine keeps_clearGates hc oh.procs hs ?_
      intro l s g hls hg'
      refine hg'.ordered ?_
      intro he p hp hpS t ht
      have htS : ∀ t ∈ ot.procs, t ∈ S := by
        rcases hS he with ⟨-, hS⟩ | ⟨hg', -⟩
        · exact hS
        · rw [hg] at hg'
          exact absurd hg' (by simp)
      refine ⟨htS t ht, (hl he).host_disjoint hn hls ?_ t ht⟩
      rintro rfl
      rw [List.append_nil] at hls
      exact hpS.2 (hls ▸ hp)
  obtain ⟨hk, S', hs', hS'⟩ := hhost
  -- the target's gates: no host process samples any more
  have htarget : Keeps (Ordered oh.procs ot.procs) (ungate m oh r).2 (ungate m ot (ungate m oh r).2).2 ∧
      ∃ S'', Samples e S'' (ungate m ot (ungate m oh r).2).2.gates ∧ (e ≠ 0 → ∀ p ∈ oh.procs, p ∉ S'') := by
    refine ⟨?_, _, ungate_samples (o := ot) hc hs', fun he p hp hp' => hS' he p hp hp'.1⟩
    unfold ungate
    cases ot.gated with
    | false => exact Keeps.refl
    | true =>
      refine keeps_clearGates hc ot.procs hs' ?_
      intro l s g _ hg
      refine hg.ordered ?_
      intro he p hp hpS
      exact absurd hpS.1 (hS' he p hp)
  obtain ⟨hk', S'', hs'', hS''⟩ := htarget
  refine ⟨hk.trans hk', (ungate m oh r).1, (ungate m ot (ungate m oh r).2).1, S'', rfl, ?_, ?_, hs'', ?_⟩
  · exact ungate_procs
  · exact ungate_procs
  · exact fun he => Or.inr ⟨ungate_gated, hS'' he⟩

/-- Targets first when starting. -/
theorem keeps_gateInsts (oh ot : ObjInst) (hn : ot.procs.Nodup) (hne : oh.procs ≠ []) (hidle : oh.gated = false)
    (hl : e ≠ 0 → SharedLast oh.procs ot.procs) (h : AllZero r.gates) :
    Keeps (Ordered oh.procs ot.procs) r (gateInsts m e [oh, ot] r).2.2 ∧
      CanUngate e oh.procs ot.procs (gateInsts m e [oh, ot] r).2.1 (gateInsts m e [oh, ot] r).2.2 := by
  -- until the last target process samples, none that samples is a host process
  have hk : Keeps (Ordered oh.procs ot.procs) r (setGates m e ot.procs r).2 := by
    refine keeps_setGates ot.procs h.samples ?_
    intro l s g hls hg
    refine hg.ordered ?_
    intro he p hp hpS t ht
    rw [Set.empty_union] at hpS ⊢
    by_cases hs : s = []
    · rw [hls, hs, List.append_nil] at ht
      exact ht
    · exact absurd hpS ((hl he).target_disjoint hn hls hs p hp)
  obtain ⟨l, s, hls, hok, hs⟩ := setGates_samples (m := m) (e := e) ot.procs h.samples
  rw [Set.empty_union] at hs
  rcases hw : setGates m e ot.procs r with ⟨_ | _, r'⟩
  · rw [hw] at hk hok hs
    have hgate : gateInsts m e [oh, ot] r = (false, [oh, { ot with gated := !ot.procs.isEmpty }], r') := by
      simp [gateInsts, hw]
    rw [hgate]
    refine ⟨hk, oh, _, _, rfl, rfl, rfl, hs, ?_⟩
    intro he
    refine Or.inr ⟨hidle, (hl he).target_disjoint hn hls ?_⟩
    intro hs
    exact absurd (hok.mpr hs) (by simp)
  · rw [hw] at hk hok hs
    have hall : ∀ t ∈ ot.procs, t ∈ {q | q ∈ l} := by
      intro t ht
      rw [hls, hok.mp rfl, List.append_nil] at ht
      exact ht
    have hgate : gateInsts m e [oh, ot] r =
        ((setGates m e oh.procs r').1, [{ oh with gated := !oh.procs.isEmpty }, { ot with gated := !ot.procs.isEmpty }],
          (setGates m e oh.procs r').2) := by
      simp [gateInsts, hw]
    rw [hgate]
    obtain ⟨l', s', hls', -, hs'⟩ := setGates_samples (m := m) (e := e) oh.procs hs
    refine ⟨hk.trans (keeps_setGates oh.procs hs ?_), _, _, _, rfl, rfl, rfl, hs', ?_⟩
    · intro l' s' g _ hg
      exact hg.ordered fun _ _ _ _ t ht => Or.inl (hall t ht)
    · intro _
      refine Or.inl ⟨?_, fun t ht => Or.inl (hall t ht)⟩
      cases hp : oh.procs with
      | nil => exact absurd hp hne
      | cons _ _ => rfl

variable {find : Object → Found} {role : U32}

/-! ## The instances of a loader -/

/-- The objects of the SPDK host and target of a transport. -/
def spdkObjects : Transport → Object × Object
  | .tcp => (.spdkTcpHost, .spdkTcpTarget)
  | .rdma => (.spdkRdmaHost, .spdkRdmaTarget)

theorem roleInSpdk_host (c : Config) : roleInSpdk c ntpRoleHost = c.spdkHost := rfl

theorem roleInSpdk_target (c : Config) : roleInSpdk c ntpRoleTarget = c.spdkTarget := rfl

theorem rolesProcs_ne_nil (h : rolesProcs c find role ≠ []) :
    c.role &&& role ≠ 0 ∧ roleInSpdk c role = true := by
  obtain ⟨p, hp⟩ := List.exists_mem_of_ne_nil _ h
  obtain ⟨d, hd, -⟩ := List.mem_flatMap.mp hp
  obtain ⟨hw, hrole⟩ := List.mem_filter.mp hd
  rw [Bool.and_eq_true, decide_eq_true_eq] at hrole
  obtain ⟨hspdk, rfl⟩ := hrole
  have hw := (List.mem_filter.mp hw).2
  simp only [wanted, Bool.and_eq_true, decide_eq_true_eq, beq_iff_eq] at hw
  exact ⟨hw.1.1, hw.2 ▸ hspdk⟩

/-- With processes on both sides there are two instances, the host's first. -/
theorem wanted_objects (hH : hostProcs c find ≠ []) (hT : targetProcs c find ≠ []) :
    objects.filter (wanted c) = [(spdkObjects c.transport).1, (spdkObjects c.transport).2] := by
  obtain ⟨hh, hsh⟩ := rolesProcs_ne_nil hH
  obtain ⟨ht, hst⟩ := rolesProcs_ne_nil hT
  rw [roleInSpdk_host] at hsh
  rw [roleInSpdk_target] at hst
  obtain ⟨role, transport, sh, st, every⟩ := c
  have hh' : ¬ role &&& ntpRoleHost = 0#32 := hh
  have ht' : ¬ role &&& ntpRoleTarget = 0#32 := ht
  subst hsh hst
  cases transport <;>
    simp [objects, wanted, roleInSpdk_host, roleInSpdk_target, Object.role, Object.spdk, Object.transport,
      spdkObjects, hh', ht']

theorem procs_eq (hH : hostProcs c find ≠ []) (hT : targetProcs c find ≠ []) :
    hostProcs c find = (find (spdkObjects c.transport).1).procs ∧
      targetProcs c find = (find (spdkObjects c.transport).2).procs := by
  have hw := wanted_objects hH hT
  unfold hostProcs targetProcs rolesProcs
  rw [hw]
  cases c.transport <;> simp [spdkObjects, Object.role, Object.spdk, ntpRoleHost, ntpRoleTarget]

theorem Found.nodup_procs (f : Found) : f.procs.Nodup := List.Nodup.of_map _ f.nodup

theorem openObjects_pair {d d' : Object} (hd : d.spdk = true) (hd' : d'.spdk = true)
    (h : openObjects m [d, d'] = (insts, true)) :
    insts = [{ desc := d, procs := (m.find d).procs }, { desc := d', procs := (m.find d').procs }] := by
  simp only [openObjects, hd, hd', Bool.true_and, if_true] at h
  repeat' split at h
  all_goals simp_all

theorem spdk_spdkObjects (t : Transport) : (spdkObjects t).1.spdk = true ∧ (spdkObjects t).2.spdk = true := by
  cases t <;> exact ⟨rfl, rfl⟩

theorem keeps_ntpLoaderOpen (hc : ∀ n, m.clearFails n = false) (hH : hostProcs c m.find ≠ [])
    (hT : targetProcs c m.find ≠ [])
    (hl : c.sampleEvery ≠ 0 → SharedLast (hostProcs c m.find) (targetProcs c m.find)) (h : AllZero r.gates) :
    Keeps (Ordered (hostProcs c m.find) (targetProcs c m.find)) r (ntpLoaderOpen m c r).2 ∧
      ∀ insts, (ntpLoaderOpen m c r).1 = some insts →
        CanUngate c.sampleEvery (hostProcs c m.find) (targetProcs c m.find) insts (ntpLoaderOpen m c r).2 := by
  have hw := wanted_objects hH hT
  obtain ⟨hhost, htarget⟩ := procs_eq hH hT
  obtain ⟨hd, hd'⟩ := spdk_spdkObjects c.transport
  rw [hhost, htarget] at hl ⊢
  rw [hhost] at hH
  unfold ntpLoaderOpen
  rcases ho : (if m.ready then openObjects m (objects.filter (wanted c)) else ([], false)) with ⟨insts, ok⟩
  dsimp only
  split
  · -- nothing was gated yet
    have hi := opened_gated (m := m) (c := c)
    rw [ho] at hi
    refine ⟨?_, fun _ hs => absurd hs (by simp)⟩
    show Keeps _ r (ungateInsts m insts r).2
    rw [ungateInsts_idle hi]
    exact Keeps.refl
  · rename_i hopened
    have hok : ok = true := by
      cases ok with
      | true => rfl
      | false => exact absurd (by simp) hopened
    subst hok
    have hopen : openObjects m [(spdkObjects c.transport).1, (spdkObjects c.transport).2] = (insts, true) := by
      split at ho
      · rw [← hw]
        exact ho
      · exact absurd ho (by simp)
    obtain rfl := openObjects_pair hd hd' hopen
    obtain ⟨hk, hcan⟩ := keeps_gateInsts (m := m) (e := c.sampleEvery) (r := r)
      { desc := (spdkObjects c.transport).1, procs := (m.find (spdkObjects c.transport).1).procs, armed := true }
      { desc := (spdkObjects c.transport).2, procs := (m.find (spdkObjects c.transport).2).procs, armed := true }
      (Found.nodup_procs _) hH rfl hl h
    simp only [List.map_cons, List.map_nil]
    generalize gateInsts m c.sampleEvery _ r = res at hk hcan ⊢
    obtain ⟨_ | _, insts, r'⟩ := res
    · refine ⟨hk.trans (keeps_ungateInsts hc (Found.nodup_procs _) hl hcan).1, ?_⟩
      exact fun _ hs => absurd hs (by simp)
    · refine ⟨hk, ?_⟩
      rintro _ ⟨⟩
      exact hcan

theorem keeps_step (hc : ∀ n, m.clearFails n = false) (hn : hosts.Nodup) (hl : e ≠ 0 → SharedLast hosts targets)
    {s : Option (List ObjInst) × Run} (h : ∀ insts, s.1 = some insts → CanUngate e hosts targets insts s.2) (op : Op) :
    Keeps (Ordered hosts targets) s.2 (step m s op).2 ∧
      ∀ insts, (step m s op).1 = some insts → CanUngate e hosts targets insts (step m s op).2 := by
  obtain ⟨_ | insts, r⟩ := s
  · exact ⟨Keeps.refl, fun _ hs => absurd hs (by simp [step])⟩
  · obtain ⟨hk, oh, ot, S, hinsts, hp, hp', hs, hS⟩ := keeps_ungateInsts hc hn hl (h insts rfl)
    cases op with
    | disarm =>
      refine ⟨hk, ?_⟩
      rintro _ ⟨⟩
      exact ⟨{ oh with armed := false }, { ot with armed := false }, S, by rw [hinsts]; rfl, hp, hp', hs, hS⟩
    | close => exact ⟨hk, fun _ hs => absurd hs (by simp [step])⟩

theorem keeps_foldl (hc : ∀ n, m.clearFails n = false) (hn : hosts.Nodup) (hl : e ≠ 0 → SharedLast hosts targets)
    (ops : List Op) {s : Option (List ObjInst) × Run}
    (h : ∀ insts, s.1 = some insts → CanUngate e hosts targets insts s.2) :
    Keeps (Ordered hosts targets) s.2 (ops.foldl (step m) s).2 := by
  induction ops generalizing s with
  | nil => exact Keeps.refl
  | cons op ops ih =>
    obtain ⟨hk, hcan⟩ := keeps_step hc hn hl h op
    exact hk.trans (ih hcan)

theorem run_ordered (hc : ∀ n, m.clearFails n = false)
    (hl : c.sampleEvery ≠ 0 → SharedLast (hostProcs c m.find) (targetProcs c m.find)) (h : AllZero g) (ops : List Op) :
    ∀ g' ∈ (run m c g ops).2.history, Ordered (hostProcs c m.find) (targetProcs c m.find) g' := by
  intro g' hg'
  by_cases hH : hostProcs c m.find = []
  · intro p hp
    rw [hH] at hp
    exact absurd hp (by simp)
  by_cases hT : targetProcs c m.find = []
  · intro _ _ _ _ _ t ht
    rw [hT] at ht
    exact absurd ht (by simp)
  have hn : (hostProcs c m.find).Nodup := by
    rw [(procs_eq hH hT).1]
    exact Found.nodup_procs _
  obtain ⟨hk, hcan⟩ := keeps_ntpLoaderOpen (r := { gates := g }) hc hH hT hl h
  rcases hk.trans (keeps_foldl hc hn hl ops hcan) g' hg' with hnil | hord
  · exact absurd hnil (by simp)
  · exact hord

/-! ## When the order fails -/

/-- Nothing fails and no process exits. -/
def smooth (find : Object → Found) : Machine := { find := find }

/-- Every process is alive. -/
def Live (r : Run) : Prop := ∀ p, (r.gates p).isSome = true

theorem ntpSpdkSetGate_smooth (h : Live r) : ntpSpdkSetGate (smooth find) p x r =
    (true, ⟨Function.update r.gates p (some x), r.calls + 1, Function.update r.gates p (some x) :: r.history⟩) := by
  simp [ntpSpdkSetGate, smooth, h p]

theorem live_update {calls : Nat} {history : List Gates} (h : Live r) :
    Live ⟨Function.update r.gates p (some x), calls, history⟩ := by
  intro q
  by_cases hq : q = p
  · rw [hq]
    simp
  · simpa [Function.update_of_ne hq] using h q

theorem setGates_history (ps : List SpdkProc) {r : Run} : ∀ g ∈ r.history, g ∈ (setGates m x ps r).2.history := by
  induction ps generalizing r with
  | nil => exact fun _ hg => hg
  | cons p ps ih =>
    intro g hg
    have hg' : g ∈ (ntpSpdkSetGate m p x r).2.history := List.mem_cons_of_mem _ hg
    rcases hw : ntpSpdkSetGate m p x r with ⟨_ | _, r'⟩
    · rw [hw] at hg'
      simpa only [setGates, hw] using hg'
    · rw [hw] at hg'
      simpa only [setGates, hw] using ih g hg'

theorem clearGates_history (ps : List SpdkProc) {r : Run} : ∀ g ∈ r.history, g ∈ (clearGates m ps r).history := by
  induction ps generalizing r with
  | nil => exact fun _ hg => hg
  | cons p ps ih => exact fun g hg => ih g (List.mem_cons_of_mem _ hg)

/-- The gates when the processes of a list have been written. -/
def written (ps : List SpdkProc) (x : U32) (g : Gates) : Gates := fun q => if q ∈ ps then some x else g q

theorem written_update (ps : List SpdkProc) :
    written ps x (Function.update g p (some x)) = written (p :: ps) x g := by
  funext q
  by_cases hq : q ∈ ps
  · simp [written, hq]
  · by_cases hqp : q = p
    · simp [written, hqp]
    · simp [written, hq, hqp]

theorem setGates_smooth (find : Object → Found) (x : U32) (ps : List SpdkProc) {r : Run} (h : Live r) :
    (setGates (smooth find) x ps r).1 = true ∧ (setGates (smooth find) x ps r).2.gates = written ps x r.gates := by
  induction ps generalizing r with
  | nil => exact ⟨rfl, by funext q; simp [written, setGates]⟩
  | cons p ps ih =>
    simp only [setGates, ntpSpdkSetGate_smooth h]
    rw [← written_update]
    exact ih (live_update h)

theorem live_written (h : Live r) (hr : r'.gates = written ps x r.gates) : Live r' := by
  intro q
  rw [hr]
  by_cases hq : q ∈ ps
  · simp [written, hq]
  · simpa [written, hq] using h q

/-- The gates are written one process at a time, so that every prefix is seen. -/
theorem setGates_passes (find : Object → Found) (x : U32) (l s : List SpdkProc) {r : Run} (h : Live r) :
    written (l ++ [p]) x r.gates ∈ (setGates (smooth find) x (l ++ p :: s) r).2.history := by
  induction l generalizing r with
  | nil =>
    simp only [List.nil_append, setGates, ntpSpdkSetGate_smooth h]
    refine setGates_history s _ (List.mem_cons.mpr (Or.inl ?_))
    rw [← written_update]
    funext q
    simp [written]
  | cons q l ih =>
    simp only [List.cons_append, setGates, ntpSpdkSetGate_smooth h]
    rw [← written_update]
    exact ih (live_update h)

theorem clearGates_passes (find : Object → Found) (l s : List SpdkProc) {r : Run} (h : Live r) :
    written (l ++ [p]) 0 r.gates ∈ (clearGates (smooth find) (l ++ p :: s) r).history := by
  induction l generalizing r with
  | nil =>
    simp only [List.nil_append, clearGates, List.foldl_cons, ntpSpdkSetGate_smooth h]
    refine clearGates_history s _ (List.mem_cons.mpr (Or.inl ?_))
    rw [← written_update]
    funext q
    simp [written]
  | cons q l ih =>
    simp only [List.cons_append, clearGates, List.foldl_cons, ntpSpdkSetGate_smooth h]
    rw [← written_update]
    exact ih (live_update h)

theorem openObjects_smooth {d d' : Object} (hd : d.spdk = true) (hd' : d'.spdk = true) (hp : (find d).procs ≠ [])
    (hp' : (find d').procs ≠ []) :
    openObjects (smooth find) [d, d'] =
      ([{ desc := d, procs := (find d).procs }, { desc := d', procs := (find d').procs }], true) := by
  simp [openObjects, smooth, hd, hd', hp, hp']

/-- A loader that is opened and disarmed sets the gates of the targets and of the hosts, and clears those of the
hosts and of the targets. -/
theorem run_smooth (hlive : Live { gates := g }) (hH : hostProcs c find ≠ []) (hT : targetProcs c find ≠ []) :
    (run (smooth find) c g [.disarm]).2 =
      clearGates (smooth find) (targetProcs c find) (clearGates (smooth find) (hostProcs c find)
        (setGates (smooth find) c.sampleEvery (hostProcs c find)
          (setGates (smooth find) c.sampleEvery (targetProcs c find) { gates := g }).2).2) := by
  have hw := wanted_objects hH hT
  obtain ⟨hhost, htarget⟩ := procs_eq hH hT
  obtain ⟨hd, hd'⟩ := spdk_spdkObjects c.transport
  rw [hhost, htarget]
  rw [hhost] at hH
  rw [htarget] at hT
  obtain ⟨hok, hg⟩ := setGates_smooth find c.sampleEvery
    (find (spdkObjects c.transport).2).procs hlive
  have hlive' := live_written hlive hg
  obtain ⟨hok', -⟩ := setGates_smooth find c.sampleEvery
    (find (spdkObjects c.transport).1).procs hlive'
  have hne : (find (spdkObjects c.transport).1).procs.isEmpty = false := by simpa using hH
  have hne' : (find (spdkObjects c.transport).2).procs.isEmpty = false := by simpa using hT
  have hready : (smooth find).ready = true := rfl
  have hatt : (smooth find).attached = true := rfl
  generalize ht : setGates (smooth find) c.sampleEvery (find (spdkObjects c.transport).2).procs
    { gates := g } = rt at hok hok' ⊢
  obtain ⟨okt, rt⟩ := rt
  dsimp only at hok
  subst hok
  generalize hh : setGates (smooth find) c.sampleEvery (find (spdkObjects c.transport).1).procs rt = rh at hok' ⊢
  obtain ⟨okh, rh⟩ := rh
  dsimp only at hok'
  subst hok'
  simp [run, ntpLoaderOpen, hw, openObjects_smooth hd hd' hH hT, gateInsts, hready, hatt, step, ntpLoaderDisarm,
    ungateInsts, ungate, hne, hne', ht, hh]

theorem split_before_last (hp : p ∈ ps) (hlast : ps.getLast? ≠ some p) :
    ∃ l b s, ps = l ++ p :: b :: s := by
  obtain ⟨l, s, rfl⟩ := List.append_of_mem hp
  cases s with
  | nil => exact absurd (by simp) hlast
  | cons b s => exact ⟨l, b, s, rfl⟩

theorem sharedLast_of_run (he : c.sampleEvery ≠ 0)
    (h : ∀ g ∈ (run (smooth find) c (fun _ => some 0) [.disarm]).2.history,
      Ordered (hostProcs c find) (targetProcs c find) g) :
    SharedLast (hostProcs c find) (targetProcs c find) := by
  intro p hp hp'
  have hH : hostProcs c find ≠ [] := List.ne_nil_of_mem hp
  have hT : targetProcs c find ≠ [] := List.ne_nil_of_mem hp'
  have hn : (hostProcs c find).Nodup := by
    rw [(procs_eq hH hT).1]
    exact Found.nodup_procs _
  have hn' : (targetProcs c find).Nodup := by
    rw [(procs_eq hH hT).2]
    exact Found.nodup_procs _
  have hlive : Live { gates := fun _ => some 0 } := fun _ => rfl
  rw [run_smooth hlive hH hT] at h
  have hg := (setGates_smooth find c.sampleEvery (targetProcs c find) hlive).2
  have hlive' := live_written hlive hg
  have hg' := (setGates_smooth find c.sampleEvery (hostProcs c find) hlive').2
  have hlive'' := live_written hlive' hg'
  constructor
  · -- hosts first when stopping: the next host process samples still
    by_contra hlast
    obtain ⟨l, b, s, hs⟩ := split_before_last hp hlast
    have hpass := clearGates_passes (p := p) find l (b :: s) hlive''
    rw [← hs] at hpass
    have hord := h _ (clearGates_history _ _ hpass)
    have hb : b ∈ hostProcs c find := by
      rw [hs]
      simp
    have hbl : b ∉ l ++ [p] := by
      rw [hs, List.append_cons] at hn
      intro hbl
      exact (List.nodup_append.mp hn).2.2 b hbl b List.mem_cons_self rfl
    refine hord b hb c.sampleEvery ?_ he p hp' 0 ?_ rfl
    · rw [written, if_neg hbl, hg', written, if_pos hb]
    · rw [written, if_pos (by simp)]
  · -- targets first when starting: the next target process does not sample yet
    by_contra hlast
    obtain ⟨l, b, s, hs⟩ := split_before_last hp' hlast
    have hpass := setGates_passes (p := p) find c.sampleEvery l (b :: s) hlive
    rw [← hs] at hpass
    have hord := h _ (clearGates_history _ _ (clearGates_history _ _ (setGates_history _ _ hpass)))
    have hb : b ∈ targetProcs c find := by
      rw [hs]
      simp
    have hbl : b ∉ l ++ [p] := by
      rw [hs, List.append_cons] at hn'
      intro hbl
      exact (List.nodup_append.mp hn').2.2 b hbl b List.mem_cons_self rfl
    refine hord p hp c.sampleEvery ?_ he b hb 0 ?_ rfl
    · rw [written, if_pos (by simp)]
    · rw [written, if_neg hbl]

/-- A loader switches the gates of its SPDK processes in order, whatever fails on the way, exactly when no process
is both a host and a target process, but possibly the last of both; and it always clears what it set. -/
theorem gates_in_order_iff (c : Config) (find : Object → Found) :
    (∀ m : Machine, m.find = find → (∀ n, m.clearFails n = false) → ∀ gates, AllZero gates → ∀ ops,
      (∀ g ∈ (run m c gates ops).2.history, Ordered (hostProcs c find) (targetProcs c find) g) ∧
      (ops ≠ [] ∨ (ntpLoaderOpen m c { gates := gates }).1 = none → AllZero (run m c gates ops).2.gates)) ↔
    c.sampleEvery = 0 ∨ SharedLast (hostProcs c find) (targetProcs c find) := by
  constructor
  · intro h
    by_cases he : c.sampleEvery = 0
    · exact Or.inl he
    · refine Or.inr (sharedLast_of_run he ?_)
      refine (h (smooth find) rfl (fun _ => rfl) (fun _ => some 0) ?_ [.disarm]).1
      intro p v hv
      exact (Option.some.inj hv).symm
  · rintro hl m rfl hc gates h0 ops
    refine ⟨run_ordered hc ?_ h0 ops, fun hend => run_cleared hc h0 hend⟩
    intro he
    rcases hl with h | h
    · exact absurd h he
    · exact h

/-- The application that is given as host and as target, of which two processes run. -/
def proxyConfig : Config := { role := 3, transport := .tcp, spdkHost := true, spdkTarget := true }

/-- Its processes. -/
def proxies : Object → Found := fun _ => { procs := [⟨1, 4096⟩, ⟨2, 4096⟩] }

/-- The first process samples as a host when its gate was set, and the second does not yet as a target. -/
theorem proxies_out_of_order :
    ¬ ∀ g ∈ (run (smooth proxies) proxyConfig (fun _ => some 0) [.disarm]).2.history,
      Ordered (hostProcs proxyConfig proxies) (targetProcs proxyConfig proxies) g := by
  intro h
  have hl := sharedLast_of_run (by decide) h
  have hlast := (hl ⟨1, 4096⟩ (by decide) (by decide)).2
  exact absurd hlast (by decide)

end Ntprof.Loader
