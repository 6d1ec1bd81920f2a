import Ntprof.Attach
import Ntprof.Proofs.ParallelForProofs
import Mathlib.Algebra.Order.BigOperators.Group.List
import Mathlib.Algebra.Order.Group.Nat

/-!
# Every link that was made is destroyed once

The array of an object has room for all links that can be made for it, and what `attach_all` has made is what
`ntp_loader_close` finds there, whatever fails and however the threads run.
-/

namespace Ntprof.Loader

open WorkSharing

variable {a : Attacher} {o : AttachInst} {p : Program}

/-! ## Room -/

theorem addLink_of_room {l : Link} (h : o.links.length < o.room) :
    addLink o l = { o with links := o.links ++ [l] } := if_pos h

/-- There are at most as many tokens as commas, and one more. -/
theorem length_commaTokens (v : List U8) : (commaTokens v).length ≤ v.count 0x2c#8 + 1 := by
  have hsplit : (v.splitOn 0x2c#8).length = v.count 0x2c#8 + 1 := by
    unfold List.splitOn
    induction v with
    | nil => rfl
    | cons c v ih =>
      rw [List.splitOnP_cons_eq_if_modifyHead, List.count_cons]
      split_ifs with hc
      · rw [List.length_cons, ih]
      · rw [List.length_modifyHead, ih]
  exact (List.length_filter_le _ _).trans (le_of_eq hsplit)

theorem length_usdtFiles (o : AttachInst) : (usdtFiles o).length ≤ fileCount o := by
  unfold usdtFiles fileCount
  rw [List.length_map]
  cases o.usdtPaths with
  | none => simp
  | some paths =>
    have := length_commaTokens paths
    simp only [Option.elim_some]
    omega

/-! ## USDT programs -/

/-- The files whose probe a program is attached to. -/
def filesOf (a : Attacher) (o : AttachInst) (p : Program) (fs : List (List U8 × ℕ)) : List (List U8 × ℕ) :=
  fs.filter fun f => (a.usdt o.desc p f).isNone

theorem attachUsdtLoop_eq (fs : List (List U8 × ℕ)) (err : ℕ) (hroom : o.links.length + fs.length ≤ o.room) :
    ∃ made err', attachUsdtLoop a p o err fs = ({ o with links := o.links ++ made }, made, err') ∧
      made = (filesOf a o p fs).map fun f => ⟨o.desc, p, some f⟩ := by
  induction fs generalizing o err with
  | nil => exact ⟨[], err, by simp [attachUsdtLoop], rfl⟩
  | cons f fs ih =>
    rw [List.length_cons] at hroom
    cases hf : a.usdt o.desc p f with
    | some e =>
      obtain ⟨made, err', heq, hmade⟩ := ih (o := o) e (by omega)
      refine ⟨made, err', by simp only [attachUsdtLoop, hf, heq], ?_⟩
      rw [hmade, filesOf, filesOf, List.filter_cons_of_neg (by simp [hf])]
    | none =>
      have hadd := addLink_of_room (o := o) (l := ⟨o.desc, p, some f⟩) (by omega)
      obtain ⟨made, err', heq, hmade⟩ := ih (o := addLink o ⟨o.desc, p, some f⟩) err (by
        rw [hadd]
        simp only [List.length_append, List.length_singleton]
        omega)
      refine ⟨⟨o.desc, p, some f⟩ :: made, err', ?_, ?_⟩
      · simp only [attachUsdtLoop, hf, heq]
        rw [hadd]
        simp
      · rw [hmade, hadd, filesOf, filesOf, List.filter_cons_of_pos (by simp [hf]), List.map_cons]

/-- The USDT programs of a list. -/
def usdtOf (ps : List Program) : List Program := ps.filter isUsdt

/-- The program can be attached: a USDT program to one of the files. -/
def Attaches (a : Attacher) (o : AttachInst) (p : Program) : Prop :=
  if isUsdt p then ∃ f ∈ (usdtFiles o).zipIdx, a.usdt o.desc p f = none else a.plain o.desc p = none

theorem attachUsdt_eq (hroom : o.links.length + (usdtFiles o).length ≤ o.room) (hu : isUsdt p = true) :
    ∃ made r, attachUsdt a o p = ({ o with links := o.links ++ made }, made, r) ∧
      made.length ≤ (usdtFiles o).length ∧ (r = none ↔ Attaches a o p) := by
  rw [← List.length_zipIdx (l := usdtFiles o) (i := 0)] at hroom ⊢
  obtain ⟨made, err, heq, hmade⟩ := attachUsdtLoop_eq (a := a) (p := p) (usdtFiles o).zipIdx enoent hroom
  refine ⟨made, if made.length ≠ 0 then none else some err, by simp only [attachUsdt, heq], ?_, ?_⟩
  · rw [hmade, List.length_map]
    exact List.length_filter_le _ _
  · have hlen : made.length ≠ 0 ↔ Attaches a o p := by
      rw [hmade, List.length_map, Attaches, if_pos hu, filesOf, ← Nat.pos_iff_ne_zero, List.length_pos_iff_exists_mem]
      simp [List.mem_filter]
    rw [← hlen]
    split_ifs with h <;> simp [h]

theorem attachUsdtAll_eq (ps : List Program) (hroom : o.links.length + (usdtOf ps).length * (usdtFiles o).length ≤ o.room) :
    ∃ ok made msgs, attachUsdtAll a o ps = (ok, { o with links := o.links ++ made }, made, msgs) ∧
      made.length ≤ (usdtOf ps).length * (usdtFiles o).length ∧
      (ok = true ↔ ∀ p ∈ ps, isUsdt p = true → isRequired o.desc p.name = true → Attaches a o p) := by
  induction ps generalizing o with
  | nil => exact ⟨true, [], [], by simp [attachUsdtAll], by simp, by simp⟩
  | cons p ps ih =>
    cases hu : isUsdt p with
    | false =>
      have husdt : usdtOf (p :: ps) = usdtOf ps := List.filter_cons_of_neg (by simp [hu])
      rw [husdt] at hroom ⊢
      obtain ⟨ok, made, msgs, heq, hlen, hok⟩ := ih hroom
      refine ⟨ok, made, msgs, by simp [attachUsdtAll, hu, heq], hlen, ?_⟩
      rw [hok, List.forall_mem_cons]
      simp [hu]
    | true =>
      have husdt : usdtOf (p :: ps) = p :: usdtOf ps := List.filter_cons_of_pos hu
      rw [husdt, List.length_cons, Nat.succ_mul] at hroom ⊢
      obtain ⟨made, r, heq, hlen, hr⟩ := attachUsdt_eq (a := a) (o := o) (by omega) hu
      set o' : AttachInst := { o with links := o.links ++ made } with ho'
      have hfiles : usdtFiles o' = usdtFiles o := rfl
      have hatt : ∀ q, Attaches a o' q ↔ Attaches a o q := fun q => Iff.rfl
      have hlinks : o'.links.length = o.links.length + made.length := List.length_append
      have hroom' : o'.room = o.room := rfl
      obtain ⟨ok, made', msgs, heq', hlen', hok⟩ := ih (o := o') (by rw [hlinks, hfiles, hroom']; omega)
      rw [hfiles] at hlen'
      cases r with
      | none =>
        refine ⟨ok, made ++ made', msgs, ?_, ?_, ?_⟩
        · simp only [attachUsdtAll, hu, heq, heq']
          simp [ho']
        · rw [List.length_append]
          omega
        · rw [hok, List.forall_mem_cons]
          simp only [hatt, hr.mp rfl, implies_true, true_and]
          rfl
      | some e =>
        have hnot : ¬ Attaches a o p := fun h => by simpa using hr.mpr h
        by_cases hreq : isRequired o.desc p.name = true
        · refine ⟨false, made, [.cannotUsdt o.desc p e], ?_, by omega, ?_⟩
          · simp only [attachUsdtAll, hu, heq, ho', hreq, Bool.not_true, Bool.false_eq_true, if_false, if_true]
          · simp only [Bool.false_eq_true, false_iff, List.forall_mem_cons, not_and_or]
            exact Or.inl fun h => hnot (h hu hreq)
        · refine ⟨ok, made ++ made', .withoutUsdt o.desc p e :: msgs, ?_, ?_, ?_⟩
          · simp only [attachUsdtAll, hu, heq, heq']
            simp only [ho', hreq, Bool.not_true, Bool.false_eq_true, if_false, List.append_assoc]
          · rw [List.length_append]
            omega
          · rw [hok, List.forall_mem_cons]
            simp only [hatt, hreq, Bool.false_eq_true, false_implies, implies_true, true_and]
            rfl

/-! ## The first loop of `attach_all` -/

/-- An instance that was just opened. -/
structure Fresh (o : AttachInst) : Prop where
  loaded : o.loaded.Sublist o.desc.programs
  links : o.links = []
  inside : o.outside = false
  /-- the paths are in an array of 512 characters -/
  paths : ∀ paths, o.usdtPaths = some paths → paths.length < 512

/-- The programs that are not USDT programs. -/
def plainOf (ps : List Program) : List Program := ps.filter fun p => !isUsdt p

theorem length_usdt_add_plain (ps : List Program) : (usdtOf ps).length + (plainOf ps).length = ps.length :=
  List.length_eq_length_filter_add isUsdt |>.symm

/-- The array is large enough. -/
theorem room_enough (h : Fresh o) :
    (usdtOf o.loaded).length * (usdtFiles o).length + (plainOf o.loaded).length ≤ (allocLinks o).room := by
  have hfiles := length_usdtFiles o
  have hpos : 1 ≤ fileCount o := Nat.le_add_right 1 _
  have hsum := length_usdt_add_plain o.loaded
  have hloaded := h.loaded.length_le
  calc (usdtOf o.loaded).length * (usdtFiles o).length + (plainOf o.loaded).length
      ≤ (usdtOf o.loaded).length * fileCount o + (plainOf o.loaded).length * fileCount o := by
        have h1 := Nat.mul_le_mul_left (usdtOf o.loaded).length hfiles
        have h2 := Nat.mul_le_mul_left (plainOf o.loaded).length hpos
        omega
    _ = o.loaded.length * fileCount o := by rw [← Nat.add_mul, hsum]
    _ ≤ (allocLinks o).room := Nat.mul_le_mul_right _ hloaded

theorem length_programs (d : Object) : d.programs.length ≤ 64 := by
  cases d <;> decide

theorem room_le (h : Fresh o) : (allocLinks o).room ≤ 64 * 512 := by
  have hcount : fileCount o ≤ 512 := by
    unfold fileCount
    cases hp : o.usdtPaths with
    | none => simp
    | some paths =>
      have hlen := h.paths paths hp
      have := List.count_le_length (a := 0x2c#8) (l := paths)
      simp only [Option.elim_some]
      omega
  exact Nat.mul_le_mul (length_programs o.desc) hcount

/-- What the first loop leaves of an instance, while there is room for `left` more links. -/
structure Probed (left : ℕ) (o o' : AttachInst) : Prop where
  desc : o'.desc = o.desc
  loaded : o'.loaded = o.loaded
  usdtPaths : o'.usdtPaths = o.usdtPaths
  inside : o'.outside = false
  room : o'.links.length + left ≤ o'.room
  bound : o'.room ≤ 64 * 512

theorem attachProbes_eq {os : List AttachInst} (h : ∀ o ∈ os, Fresh o) :
    ∃ ok os' made msgs, attachProbes a os = (ok, os', made, msgs) ∧ made = os'.flatMap AttachInst.links ∧
      (∀ o' ∈ os', o'.outside = false ∧ o'.links.length ≤ 64 * 512) ∧
      (ok = true → List.Forall₂ (fun o o' => Probed (plainOf o.loaded).length o o') os os') ∧
      (ok = true ↔ ∀ o ∈ os, ∀ p ∈ o.loaded, isUsdt p = true → isRequired o.desc p.name = true → Attaches a o p) := by
  induction os with
  | nil => exact ⟨true, [], [], [], rfl, rfl, by simp, by simp, by simp⟩
  | cons o os ih =>
    obtain ⟨hfresh, hrest⟩ := List.forall_mem_cons.mp h
    have hroom := room_enough hfresh
    have hle := room_le hfresh
    have hlinks : (allocLinks o).links = [] := rfl
    have hfiles : usdtFiles (allocLinks o) = usdtFiles o := rfl
    obtain ⟨ok, made, msgs, heq, hlen, hok⟩ := attachUsdtAll_eq (a := a) (o := allocLinks o) o.loaded (by
      rw [hlinks, hfiles, List.length_nil]
      omega)
    rw [hfiles] at hlen
    set o' : AttachInst := { allocLinks o with links := (allocLinks o).links ++ made } with ho'
    have hmade : o'.links = made := by rw [ho', hlinks, List.nil_append]
    have hroom' : o'.room = (allocLinks o).room := rfl
    have hinside : o'.outside = false := hfresh.inside
    cases ok with
    | false =>
      refine ⟨false, o' :: os, made, msgs, by simp only [attachProbes, heq], ?_, ?_, by simp, ?_⟩
      · have hempty : os.flatMap AttachInst.links = [] := by
          rw [List.flatMap_eq_nil_iff]
          exact fun o ho => (hrest o ho).links
        rw [List.flatMap_cons, hempty, List.append_nil, hmade]
      · rw [List.forall_mem_cons]
        refine ⟨⟨hinside, by rw [hmade]; omega⟩, fun o ho => ⟨(hrest o ho).inside, ?_⟩⟩
        rw [(hrest o ho).links]
        simp
      · simp only [Bool.false_eq_true, false_iff, List.forall_mem_cons, not_and_or] at hok ⊢
        exact Or.inl hok
    | true =>
      obtain ⟨ok, os', made', msgs', heq', hmade', hinv, hfor, hok'⟩ := ih hrest
      refine ⟨ok, o' :: os', made ++ made', msgs ++ msgs', by simp only [attachProbes, heq, heq'], ?_, ?_, ?_, ?_⟩
      · rw [List.flatMap_cons, hmade, hmade']
      · rw [List.forall_mem_cons]
        exact ⟨⟨hinside, by rw [hmade]; omega⟩, hinv⟩
      · intro htrue
        exact List.Forall₂.cons ⟨rfl, rfl, rfl, hinside, by rw [hmade, hroom']; omega, by rw [hroom']; exact hle⟩ (hfor htrue)
      · rw [hok', List.forall_mem_cons]
        simp only [true_iff] at hok
        exact ⟨fun h => ⟨hok, h⟩, fun h => h.2⟩

/-! ## The jobs -/

theorem mem_jobsFrom {k : ℕ} {os : List AttachInst} {j : AttachJob} :
    j ∈ jobsFrom k os ↔ ∃ i o, os[i]? = some o ∧ j.inst = k + i ∧ j.obj = o.desc ∧ j.prog ∈ plainOf o.loaded := by
  obtain ⟨inst, obj, prog⟩ := j
  induction os generalizing k with
  | nil => simp [jobsFrom]
  | cons o os ih =>
    rw [jobsFrom, List.mem_append, ih]
    constructor
    · rintro (h | ⟨i, o', ho', hinst, hobj, hprog⟩)
      · obtain ⟨p, hp, heq⟩ := List.mem_map.mp h
        obtain ⟨rfl, rfl, rfl⟩ := AttachJob.mk.inj heq
        exact ⟨0, o, rfl, rfl, rfl, hp⟩
      · exact ⟨i + 1, o', ho', by simp only at hinst ⊢; omega, hobj, hprog⟩
    · rintro ⟨i, o', ho', hinst, hobj, hprog⟩
      cases i with
      | zero =>
        obtain rfl := Option.some.inj ho'
        simp only [Nat.add_zero] at hinst hobj hprog
        exact Or.inl (List.mem_map.mpr ⟨prog, hprog, by rw [hinst, hobj]⟩)
      | succ i => exact Or.inr ⟨i, o', ho', by simp only at hinst ⊢; omega, hobj, hprog⟩

/-- An instance has a job for each of its programs. -/
theorem countP_jobsFrom (k : ℕ) (os : List AttachInst) (i : ℕ) :
    (jobsFrom k os).countP (fun j => j.inst = k + i) = (os[i]?).elim 0 fun o => (plainOf o.loaded).length := by
  induction os generalizing k i with
  | nil => simp [jobsFrom]
  | cons o os ih =>
    rw [jobsFrom, List.countP_append, List.countP_map]
    cases i with
    | zero =>
      have hrest : (jobsFrom (k + 1) os).countP (fun j => j.inst = k + 0) = 0 := by
        rw [List.countP_eq_zero]
        intro j hj
        obtain ⟨i, -, -, hinst, -⟩ := mem_jobsFrom.mp hj
        simp only [decide_eq_true_eq]
        omega
      rw [hrest, List.countP_eq_length.mpr (by simp)]
      rfl
    | succ i =>
      have hfirst : (plainOf o.loaded).countP
          ((fun j : AttachJob => decide (j.inst = k + (i + 1))) ∘ fun p => ⟨k, o.desc, p⟩) = 0 := by
        rw [List.countP_eq_zero]
        intro p _
        simp
      have hnext := ih (k + 1) i
      rw [Nat.add_right_comm k 1 i] at hnext
      show (plainOf o.loaded).countP _ + _ = _
      rw [hfirst, Nat.zero_add]
      simpa [Nat.add_assoc] using hnext

/-- There is room for the links of the jobs. -/
def RoomFor (os : List AttachInst) (jobs : List AttachJob) : Prop :=
  ∀ i o, os[i]? = some o →
    o.outside = false ∧ o.links.length + jobs.countP (fun j => j.inst = i) ≤ o.room ∧ o.room ≤ 64 * 512

/-- A link more in one array. -/
theorem perm_flatMap_modify {os : List AttachInst} {i : ℕ} {f : AttachInst → AttachInst} {l : Link} (hi : os[i]? = some o)
    (hf : (f o).links = o.links ++ [l]) :
    ((os.modify i f).flatMap AttachInst.links).Perm (os.flatMap AttachInst.links ++ [l]) := by
  induction os generalizing i with
  | nil => simp at hi
  | cons o' os ih =>
    cases i with
    | zero =>
      obtain rfl := Option.some.inj hi
      rw [List.modify_zero_cons, List.flatMap_cons, List.flatMap_cons, hf, List.append_assoc, List.append_assoc]
      exact List.Perm.append_left _ List.perm_append_comm
    | succ i =>
      rw [List.modify_succ_cons, List.flatMap_cons, List.flatMap_cons, List.append_assoc]
      exact List.Perm.append_left _ (ih hi)

/-- The job was attached. -/
def AttachJob.attaches (a : Attacher) (j : AttachJob) : Bool := (a.plain j.obj j.prog).isNone

theorem attachJob_link (j : AttachJob) :
    (attachJob a j).link = if j.attaches a then some ⟨j.obj, j.prog, none⟩ else none := by
  unfold attachJob AttachJob.attaches
  cases a.plain j.obj j.prog <;> rfl

/-- The last loop of `attach_all` files the link of every job. -/
theorem collect_eq {results : ℕ → JobResult} (jobs : List AttachJob) (k : ℕ)
    (hres : ∀ i j, jobs[i]? = some j → results (k + i) = attachJob a j) {os : List AttachInst} (ok : Bool)
    (msgs : List AttachMsg) (hroom : RoomFor os jobs) (hin : ∀ j ∈ jobs, j.inst < os.length) :
    ∃ os' msgs', (jobs.zipIdx k).foldl (collectJob results) (ok, os, msgs) =
        (ok && jobs.all (fun j => !isRequired j.obj j.prog.name || j.attaches a), os', msgs') ∧
      (os'.flatMap AttachInst.links).Perm
        (os.flatMap AttachInst.links ++ jobs.filterMap fun j => (attachJob a j).link) ∧ RoomFor os' [] := by
  induction jobs generalizing k os ok msgs with
  | nil => exact ⟨os, msgs, by simp, by simp, hroom⟩
  | cons j jobs ih =>
    have hj : results k = attachJob a j := hres 0 j rfl
    have hres' : ∀ i j, jobs[i]? = some j → results (k + 1 + i) = attachJob a j := by
      intro i j' hj'
      rw [Nat.add_right_comm, Nat.add_assoc]
      exact hres (i + 1) j' hj'
    obtain ⟨hjin, hin'⟩ := List.forall_mem_cons.mp hin
    rw [List.zipIdx_cons, List.foldl_cons]
    cases hatt : j.attaches a with
    | true =>
      have hlink : (attachJob a j).link = some ⟨j.obj, j.prog, none⟩ := by rw [attachJob_link, hatt, if_pos rfl]
      have hstep : collectJob results (ok, os, msgs) (j, k) =
          (ok, os.modify j.inst fun o => addLink o ⟨j.obj, j.prog, none⟩, msgs) := by
        simp only [collectJob, hj, hlink]
      obtain ⟨o, ho⟩ : ∃ o, os[j.inst]? = some o := ⟨_, List.getElem?_eq_getElem hjin⟩
      have hadd : addLink o ⟨j.obj, j.prog, none⟩ = { o with links := o.links ++ [⟨j.obj, j.prog, none⟩] } := by
        apply addLink_of_room
        have := (hroom j.inst o ho).2.1
        rw [List.countP_cons_of_pos (by simp)] at this
        omega
      have hroom' : RoomFor (os.modify j.inst fun o => addLink o ⟨j.obj, j.prog, none⟩) jobs := by
        intro i o' ho'
        by_cases hi : i = j.inst
        · subst hi
          obtain ⟨hout, hlen, hle⟩ := hroom j.inst o ho
          rw [List.getElem?_modify_eq, ho] at ho'
          have hval : addLink o ⟨j.obj, j.prog, none⟩ = o' := Option.some.inj ho'
          rw [List.countP_cons_of_pos (by simp)] at hlen
          rw [← hval, hadd]
          refine ⟨hout, ?_, hle⟩
          show (o.links ++ [_]).length + _ ≤ o.room
          rw [List.length_append, List.length_singleton]
          omega
        · rw [List.getElem?_modify_ne _ _ (Ne.symm hi)] at ho'
          obtain ⟨hout, hlen, hle⟩ := hroom i o' ho'
          rw [List.countP_cons_of_neg (by simpa using Ne.symm hi)] at hlen
          exact ⟨hout, hlen, hle⟩
      obtain ⟨os', msgs', heq, hperm, hend⟩ := ih (k + 1) hres' ok msgs hroom'
        (by rw [List.length_modify]; exact hin')
      refine ⟨os', msgs', ?_, ?_, hend⟩
      · rw [hstep, heq, List.all_cons, hatt]
        simp
      · have hmod := perm_flatMap_modify (l := ⟨j.obj, j.prog, none⟩)
          (f := fun o => addLink o ⟨j.obj, j.prog, none⟩) ho (by rw [hadd])
        simp only [List.filterMap_cons, hlink]
        refine hperm.trans ((hmod.append_right _).trans ?_)
        rw [List.append_assoc, List.singleton_append]
    | false =>
      have hlink : (attachJob a j).link = none := by rw [attachJob_link, hatt]; rfl
      have hroom' : RoomFor os jobs := by
        intro i o ho
        obtain ⟨hout, hlen, hle⟩ := hroom i o ho
        have hcount := List.countP_cons (p := fun j : AttachJob => decide (j.inst = i)) (a := j) (l := jobs)
        exact ⟨hout, by omega, hle⟩
      by_cases hreq : isRequired j.obj j.prog.name = true
      · have hstep : collectJob results (ok, os, msgs) (j, k) =
            (false, os, msgs ++ [.cannot j.obj j.prog (attachJob a j).err]) := by
          simp only [collectJob, hj, hlink, hreq, if_true]
        obtain ⟨os', msgs', heq, hperm, hend⟩ := ih (k + 1) hres' false _ hroom' hin'
        refine ⟨os', msgs', ?_, ?_, hend⟩
        · rw [hstep, heq, List.all_cons, hatt, hreq]
          simp
        · simp only [List.filterMap_cons, hlink]
          exact hperm
      · have hstep : collectJob results (ok, os, msgs) (j, k) =
            (ok, os, msgs ++ [.without j.obj j.prog (attachJob a j).err]) := by
          simp only [collectJob, hj, hlink, hreq, Bool.false_eq_true, if_false]
        obtain ⟨os', msgs', heq, hperm, hend⟩ := ih (k + 1) hres' ok _ hroom' hin'
        refine ⟨os', msgs', ?_, ?_, hend⟩
        · rw [hstep, heq, List.all_cons, hatt]
          simp [hreq]
        · simp only [List.filterMap_cons, hlink]
          exact hperm

/-! ## All of it -/

/-- A table of results read by index is the list of them. -/
theorem filterMap_range_getElem? {α β : Type} (l : List α) (f : α → Option β) :
    (List.range l.length).filterMap (fun i => (l[i]?).bind f) = l.filterMap f := by
  induction l with
  | nil => rfl
  | cons x l ih =>
    rw [List.length_cons, List.range_succ_eq_map, List.filterMap_cons, List.filterMap_map]
    have hrest : (fun i => ((x :: l)[i]?).bind f) ∘ Nat.succ = fun i => (l[i]?).bind f := rfl
    rw [hrest, ih]
    cases hx : f x with
    | none => simp [hx]
    | some y => simp [hx]

/-- What `parallel_for` leaves when it has returned. -/
theorem of_pforRun {β : Type} {len : ℕ} {parallel : Bool} {fn init : ℕ → β} {steps : List PForStep} {pool : Pool 64 β}
    (hlen : len ≤ 64 * 512)
    (h : pforRun (BitVec.ofNat 64 len) parallel fn (pforStart (BitVec.ofNat 64 len) parallel init) steps =
      some ⟨pool, .returned⟩) :
    pool.returned.Perm (List.range len) ∧ ∀ i < len, pool.table i = fn i := by
  have hn : (BitVec.ofNat 64 len).toNat = len := by
    rw [BitVec.toNat_ofNat, Nat.mod_eq_of_lt (by omega)]
  have hinv := (pforInv_start (BitVec.ofNat 64 len) parallel fn init).run (by rw [hn]; simp only [linkThreads]; omega) h
  obtain ⟨hperm, htable⟩ := hinv.returned rfl
  rw [hn] at hperm htable
  exact ⟨hperm, fun i hi => by rw [htable i, if_pos hi]⟩

theorem destroyLinks_perm {steps : List PForStep} {ls : List Link} (hlen : o.links.length ≤ 64 * 512)
    (h : destroyLinks steps o = some ls) : ls.Perm o.links := by
  simp only [destroyLinks] at h
  split at h
  · rename_i pool hrun
    obtain ⟨hperm, -⟩ := of_pforRun hlen hrun
    obtain rfl := Option.some.inj h
    have hlist := filterMap_range_getElem? o.links some
    simp only [Option.bind_fun_some, List.filterMap_some] at hlist
    have := hperm.filterMap fun i => o.links[i]?
    rw [hlist] at this
    exact this
  · cases h

theorem closeLinks_perm {scheds : List (List PForStep)} {os : List AttachInst} {ls : List Link}
    (hlen : ∀ o ∈ os, o.links.length ≤ 64 * 512) (h : closeLinks scheds os = some ls) :
    ls.Perm (os.flatMap AttachInst.links) := by
  induction os generalizing scheds ls with
  | nil =>
    simp only [closeLinks, Option.some.injEq] at h
    subst h
    rfl
  | cons o os ih =>
    rcases scheds with _ | ⟨steps, scheds⟩
    · simp [closeLinks] at h
    obtain ⟨ho, hos⟩ := List.forall_mem_cons.mp hlen
    simp only [closeLinks] at h
    split at h
    · rename_i ls₁ ls₂ h₁ h₂
      obtain rfl := Option.some.inj h
      rw [List.flatMap_cons]
      exact (destroyLinks_perm ho h₁).append (ih hos h₂)
    · cases h

theorem length_jobsFrom (k : ℕ) (os : List AttachInst) :
    (jobsFrom k os).length = (os.map fun o => (plainOf o.loaded).length).sum := by
  induction os generalizing k with
  | nil => rfl
  | cons o os ih =>
    rw [jobsFrom, List.length_append, List.length_map, ih, List.map_cons, List.sum_cons]
    rfl

/-- There are few programs in all objects together. -/
theorem length_jobs {os : List AttachInst} (hos : (os.map AttachInst.desc).Sublist objects)
    (h : ∀ o ∈ os, o.loaded.Sublist o.desc.programs) (k : ℕ) : (jobsFrom k os).length ≤ 64 * 512 := by
  have hle : (os.map fun o => (plainOf o.loaded).length).sum ≤
      ((os.map AttachInst.desc).map fun d => d.programs.length).sum := by
    rw [List.map_map]
    refine List.sum_le_sum fun o ho => ?_
    exact (List.length_filter_le _ _).trans (h o ho).length_le
  have hall : ((os.map AttachInst.desc).map fun d => d.programs.length).sum ≤
      (objects.map fun d => d.programs.length).sum :=
    (hos.map _).sum_le_sum (by simp)
  have hconst : (objects.map fun d => d.programs.length).sum ≤ 64 * 512 := by decide
  rw [length_jobsFrom]
  omega

/-- The instances behind the first loop have room for their jobs. -/
theorem roomFor_jobs {os os' : List AttachInst}
    (h : List.Forall₂ (fun o o' => Probed (plainOf o.loaded).length o o') os os') :
    RoomFor os' (jobsFrom 0 os') ∧ ∀ j ∈ jobsFrom 0 os', j.inst < os'.length := by
  refine ⟨?_, ?_⟩
  · intro i o' ho'
    obtain ⟨o, ho⟩ : ∃ o, os[i]? = some o := by
      have hi := (List.getElem?_eq_some_iff.mp ho').1
      rw [← h.length_eq] at hi
      exact ⟨_, List.getElem?_eq_getElem hi⟩
    have hp : Probed (plainOf o.loaded).length o o' := by
      obtain ⟨hi, rfl⟩ := List.getElem?_eq_some_iff.mp ho
      obtain ⟨hi', rfl⟩ := List.getElem?_eq_some_iff.mp ho'
      exact h.get hi hi'
    have hcount := countP_jobsFrom 0 os' i
    rw [ho', Option.elim_some, Nat.zero_add, hp.loaded] at hcount
    refine ⟨hp.inside, ?_, hp.bound⟩
    rw [hcount]
    exact hp.room
  · intro j hj
    obtain ⟨i, o', ho', hinst, -⟩ := mem_jobsFrom.mp hj
    have := (List.getElem?_eq_some_iff.mp ho').1
    omega

/-- The first loop changes neither the objects nor their programs. -/
theorem jobsFrom_probed {os os' : List AttachInst}
    (h : List.Forall₂ (fun o o' => Probed (plainOf o.loaded).length o o') os os') (k : ℕ) :
    jobsFrom k os' = jobsFrom k os := by
  induction h generalizing k with
  | nil => rfl
  | cons hp _ ih => rw [jobsFrom, jobsFrom, ih, hp.desc, hp.loaded]

/-- All jobs of required programs were attached. -/
theorem jobs_all_iff (os : List AttachInst) :
    ((jobsFrom 0 os).all fun j => !isRequired j.obj j.prog.name || j.attaches a) = true ↔
      ∀ o ∈ os, ∀ p ∈ o.loaded, isUsdt p = false → isRequired o.desc p.name = true → Attaches a o p := by
  rw [List.all_eq_true]
  constructor
  · intro h o ho p hp hu hreq
    obtain ⟨i, hi⟩ := List.mem_iff_getElem?.mp ho
    have hj : (⟨i, o.desc, p⟩ : AttachJob) ∈ jobsFrom 0 os :=
      mem_jobsFrom.mpr ⟨i, o, hi, (Nat.zero_add i).symm, rfl, List.mem_filter.mpr ⟨hp, by simp [hu]⟩⟩
    have hatt := h _ hj
    rw [Attaches, hu]
    simpa [hreq, AttachJob.attaches] using hatt
  · intro h j hj
    obtain ⟨i, o, hi, -, hobj, hprog⟩ := mem_jobsFrom.mp hj
    obtain ⟨hp, hu⟩ := List.mem_filter.mp hprog
    have hu' : isUsdt j.prog = false := by simpa using hu
    have hatt := h o (List.mem_iff_getElem?.mpr ⟨i, hi⟩) j.prog hp hu'
    cases hreq : isRequired j.obj j.prog.name with
    | false => rfl
    | true =>
      rw [hobj] at hreq
      have hplain := hatt hreq
      rw [Attaches, hu'] at hplain
      simpa [AttachJob.attaches, hobj] using hplain

/-- For every set of opened objects, every answer of libbpf and every interleaving of the threads: no link is written
behind the end of the array of its object, `attach_all` succeeds exactly when every required program can be attached,
and the links that `ntp_loader_close` destroys, in any interleaving, are the links that were made, each of them once. -/
theorem attach_all_then_close (a : Attacher) (parallel : Bool) (steps : List PForStep) (os : List AttachInst) (r : Attached)
    (hos : (os.map AttachInst.desc).Sublist objects) (hfresh : ∀ o ∈ os, Fresh o)
    (hrun : attachAll a parallel steps os = some r) :
    (∀ o ∈ r.insts, o.outside = false) ∧
      (r.ok = true ↔ ∀ o ∈ os, ∀ p ∈ o.loaded, isRequired o.desc p.name = true → Attaches a o p) ∧
      ∀ scheds ls, closeLinks scheds r.insts = some ls → ls.Perm r.made := by
  obtain ⟨ok, os', made, msgs, heq, hmade, hinv, hfor, hok⟩ := attachProbes_eq (a := a) hfresh
  simp only [attachAll, heq] at hrun
  cases ok with
  | false =>
    obtain rfl := Option.some.inj hrun
    refine ⟨fun o ho => (hinv o ho).1, ?_, ?_⟩
    · simp only [Bool.false_eq_true, false_iff] at hok ⊢
      exact fun h => hok fun o ho p hp _ hreq => h o ho p hp hreq
    · intro scheds ls hclose
      rw [hmade]
      exact closeLinks_perm (fun o ho => (hinv o ho).2) hclose
  | true =>
    have hprobed := hfor rfl
    obtain ⟨hroom, hin⟩ := roomFor_jobs hprobed
    have hjobs := jobsFrom_probed hprobed 0
    have hlen : (jobsFrom 0 os').length ≤ 64 * 512 := by
      rw [hjobs]
      exact length_jobs hos (fun o ho => (hfresh o ho).loaded) 0
    simp only at hrun
    split at hrun
    · rename_i pool hpool
      obtain ⟨hperm, htable⟩ := of_pforRun hlen hpool
      have hres : ∀ i j, (jobsFrom 0 os')[i]? = some j → pool.table (0 + i) = attachJob a j := by
        intro i j hj
        rw [Nat.zero_add, htable i (List.getElem?_eq_some_iff.mp hj).1, attachOne, hj, Option.elim_some]
      obtain ⟨os'', msgs', hfold, hlinks, hend⟩ := collect_eq (a := a) (jobsFrom 0 os') 0 hres true [] hroom hin
      rw [hfold] at hrun
      obtain rfl := Option.some.inj hrun
      refine ⟨?_, ?_, ?_⟩
      · intro o ho
        obtain ⟨i, hi⟩ := List.mem_iff_getElem?.mp ho
        exact (hend i o hi).1
      · rw [Bool.true_and, hjobs, jobs_all_iff]
        simp only [true_iff] at hok
        constructor
        · intro h o ho p hp hreq
          cases hu : isUsdt p with
          | true => exact hok o ho p hp hu hreq
          | false => exact h o ho p hp hu hreq
        · intro h o ho p hp _ hreq
          exact h o ho p hp hreq
      · intro scheds ls hclose
        have hbound : ∀ o ∈ os'', o.links.length ≤ 64 * 512 := by
          intro o ho
          obtain ⟨i, hi⟩ := List.mem_iff_getElem?.mp ho
          have := hend i o hi
          omega
        refine (closeLinks_perm hbound hclose).trans (hlinks.trans ?_)
        rw [hmade]
        refine List.Perm.append_left _ ?_
        have hlist := filterMap_range_getElem? (jobsFrom 0 os') fun j => (attachJob a j).link
        have hone : (fun i => (attachOne a (jobsFrom 0 os') i).link) =
            fun i => ((jobsFrom 0 os')[i]?).bind fun j => (attachJob a j).link := by
          funext i
          unfold attachOne
          cases (jobsFrom 0 os')[i]? <;> rfl
        rw [hone, ← hlist]
        exact (hperm.filterMap _).symm
    · cases hrun

/-- libbpf attaches everything, except to the third file. -/
def willing : Attacher := ⟨fun _ _ f => if f.2 = 2 then some enoent else none, fun _ _ => none⟩

/-- An SPDK host of NVMe/RDMA with its probe in two files, one of them given twice. -/
def twoFiles : AttachInst where
  desc := .spdkRdmaHost
  loaded := Object.spdkRdmaHost.programs
  usdtPaths := some [0x61#8, 0x2c#8, 0x62#8, 0x2c#8, 0x61#8]

theorem fresh_twoFiles : Fresh twoFiles := by
  refine ⟨List.Sublist.refl _, rfl, rfl, fun paths hp => ?_⟩
  obtain rfl := Option.some.inj hp
  decide

theorem attach_all_two_files :
    ∃ r, attachAll willing true [.thread 0] [twoFiles] = some r ∧ r.made.length = 2 ∧
      ∀ scheds ls, closeLinks scheds r.insts = some ls → ls.Perm r.made := by
  have hmade : (attachAll willing true [.thread 0] [twoFiles]).map (fun r => r.made.length) = some 2 := by
    decide +kernel
  obtain ⟨r, hr, hlen⟩ := Option.map_eq_some_iff.mp hmade
  have h := attach_all_then_close willing true [.thread 0] [twoFiles] r (by decide)
    (fun o ho => by rw [List.mem_singleton.mp ho]; exact fresh_twoFiles) hr
  exact ⟨r, hr, hlen, h.2.2⟩

end Ntprof.Loader
