import Ntprof.Proofs.OfflineProofs
import Ntprof.Lib.FifoBlocks

/-!
# Proofs: when the order of the files of a run matters

`load_run` pairs the `k`-th host record of a command id with its `k`-th target record, in the order in
which the files are given. A file brings a block of each: `idBlocks` are the blocks of one id, and the
order of the files shows exactly when these are not `OrderFree`.
-/

namespace Ntprof

open KeyedList FifoMatch

/-- The host and the target records of command `x`, file by file. -/
def idBlocks (x : CmdId) (files : List (List Rec)) : List (List HostRec × List TgtRec) :=
  files.map fun recs =>
    (under HostRec.id x (recs.filterMap Rec.host?), under TgtRec.id x (recs.filterMap Rec.target?))

/-- What `load_run` hands to `ntp_stats_add` for files with these records. -/
def handedOf (files : List (List Rec)) : List (HostRec × Option TgtRec) :=
  offline HostRec.id TgtRec.id ((files.flatMap id).filterMap Rec.target?)
    ((files.flatMap id).filterMap Rec.host?)

theorem under_flatMap {α β κ : Type} [DecidableEq κ] (key : β → κ) (c : κ) (l : List α) (f : α → List β) :
    under key c (l.flatMap f) = l.flatMap fun a => under key c (f a) :=
  List.filter_flatMap ..

theorem firsts_idBlocks (x : CmdId) (files : List (List Rec)) :
    firsts (idBlocks x files) = under HostRec.id x ((files.flatMap id).filterMap Rec.host?) := by
  rw [List.filterMap_flatMap, under_flatMap, firsts, idBlocks, List.flatMap_map]
  rfl

theorem seconds_idBlocks (x : CmdId) (files : List (List Rec)) :
    seconds (idBlocks x files) = under TgtRec.id x ((files.flatMap id).filterMap Rec.target?) := by
  rw [List.filterMap_flatMap, under_flatMap, seconds, idBlocks, List.flatMap_map]
  rfl

/-- The records of one command id are paired block by block. -/
theorem under_handedOf (x : CmdId) (files : List (List Rec)) :
    under (fun p => p.1.id) x (handedOf files) = pairedBlocks (idBlocks x files) := by
  rw [pairedBlocks, firsts_idBlocks, seconds_idBlocks]
  exact under_offline HostRec.id TgtRec.id x _ _

/-- Lists that agree up to order under every key agree up to order. -/
theorem perm_of_under_perm {α κ : Type} [DecidableEq α] [DecidableEq κ] (key : α → κ) {l l' : List α}
    (h : ∀ c, (under key c l).Perm (under key c l')) : l.Perm l' := by
  rw [List.perm_iff_count]
  intro a
  have hc := (h (key a)).count_eq a
  unfold under at hc
  rwa [List.count_filter (by simp), List.count_filter (by simp)] at hc

/-- A permutation of an image is the image of a permutation. -/
theorem exists_perm_map {α β : Type} {f : α → β} {l : List α} {l' : List β} (h : l'.Perm (l.map f)) :
    ∃ m : List α, m.Perm l ∧ m.map f = l' := by
  generalize hm : l.map f = b at h
  induction h generalizing l with
  | nil => exact ⟨l, .refl l, hm⟩
  | cons x hp ih =>
    cases l with
    | nil => cases hm
    | cons a l =>
      simp only [List.map_cons, List.cons.injEq] at hm
      obtain ⟨m, hml, hmf⟩ := ih hm.2
      exact ⟨a :: m, hml.cons a, by rw [List.map_cons, hm.1, hmf]⟩
  | swap x y r =>
    cases l with
    | nil => cases hm
    | cons a l =>
      cases l with
      | nil => simp at hm
      | cons b l =>
        simp only [List.map_cons, List.cons.injEq] at hm
        exact ⟨b :: a :: l, .swap a b l, by simp [hm.1, hm.2.1, hm.2.2]⟩
  | trans h₁ h₂ ih₁ ih₂ =>
    obtain ⟨m, hml, hmf⟩ := ih₂ hm
    obtain ⟨n, hnm, hnf⟩ := ih₁ hmf
    exact ⟨n, hnm.trans hml, hnf⟩

/-- No two records of one side are equal. -/
def DistinctRecs (files : List (List Rec)) : Prop :=
  ((files.flatMap id).filterMap Rec.host?).Nodup ∧ ((files.flatMap id).filterMap Rec.target?).Nodup

theorem handedOf_perm {files files' : List (List Rec)} (hfree : ∀ x, OrderFree (idBlocks x files))
    (hp : files'.Perm files) : (handedOf files').Perm (handedOf files) := by
  refine perm_of_under_perm (fun p => p.1.id) fun x => ?_
  rw [under_handedOf, under_handedOf]
  exact (hfree x).perm (hp.map _)

theorem orderFree_of_perm {files : List (List Rec)} (hd : DistinctRecs files)
    (hsame : ∀ files', files'.Perm files → (handedOf files').Perm (handedOf files)) (x : CmdId) :
    OrderFree (idBlocks x files) := by
  refine Settled.orderFree ⟨?_, ?_, ?_⟩
  · rw [firsts_idBlocks]
    exact hd.1.filter _
  · rw [seconds_idBlocks]
    exact hd.2.filter _
  · intro b₁ b₂ h₁ h₂ h t hm
    obtain ⟨f₁, p₁, rfl⟩ := exists_perm_map h₁
    obtain ⟨f₂, p₂, rfl⟩ := exists_perm_map h₂
    change Meets (idBlocks x f₁) h t at hm
    show Meets (idBlocks x f₂) h t
    have hperm := ((hsame f₁ p₁).trans (hsame f₂ p₂).symm).filter fun p => decide (p.1.id = x)
    change (under _ x _).Perm (under _ x _) at hperm
    rw [under_handedOf, under_handedOf] at hperm
    exact mem_pairedBlocks.1 (hperm.mem_iff.1 (mem_pairedBlocks.2 hm))

/-! ## `load_run` -/

section

variable {φ : Type} (read : φ → Option RecordFile)

/-- The records of the files. -/
def contents (files : List φ) : List (List Rec) :=
  files.map fun f => (read f).elim [] RecordFile.recs

theorem loadRun_handedOf {files : List φ} (hread : ∀ f ∈ files, (read f).isSome = true) (stats : Stats) :
    ∃ out, loadRun read files stats = some out ∧ out.handed = handedOf (contents read files) := by
  have hloaded : ∃ loaded : List RecordFile, files.map read = loaded.map some ∧
      contents read files = loaded.map RecordFile.recs := by
    induction files with
    | nil => exact ⟨[], rfl, rfl⟩
    | cons f files ih =>
      obtain ⟨loaded, h1, h2⟩ := ih fun g hg => hread g (List.mem_cons_of_mem _ hg)
      obtain ⟨g, hg⟩ := Option.isSome_iff_exists.1 (hread f List.mem_cons_self)
      unfold contents at h2
      exact ⟨g :: loaded, by simp [h1, hg], by simp [contents, hg, h2]⟩
  obtain ⟨loaded, h1, h2⟩ := hloaded
  obtain ⟨out, hout, hh⟩ := loadRun_handed h1 stats
  refine ⟨out, hout, ?_⟩
  rw [hh, h2, handedOf, List.flatMap_map]
  rfl

/-- Whatever the order of the files, `load_run` hands out the same pairs. -/
def SameInEveryOrder (files : List φ) (stats : Stats) : Prop :=
  ∀ files', files'.Perm files → ∃ out out', loadRun read files stats = some out ∧
    loadRun read files' stats = some out' ∧ out'.handed.Perm out.handed

theorem sameInEveryOrder_iff {files : List φ} (hread : ∀ f ∈ files, (read f).isSome = true)
    (stats : Stats) : SameInEveryOrder read files stats ↔
      ∀ files' : List (List Rec), files'.Perm (contents read files) →
        (handedOf files').Perm (handedOf (contents read files)) := by
  obtain ⟨out, hout, hh⟩ := loadRun_handedOf read hread stats
  have hof : ∀ files', files'.Perm files → ∃ out', loadRun read files' stats = some out' ∧
      out'.handed = handedOf (contents read files') := fun files' hp =>
    loadRun_handedOf read (fun f hf => hread f (hp.mem_iff.1 hf)) stats
  constructor
  · intro hs recs' hp
    obtain ⟨files', hp', rfl⟩ := exists_perm_map hp
    obtain ⟨o, o', ho, ho', hperm⟩ := hs files' hp'
    obtain ⟨out', hout', hh'⟩ := hof files' hp'
    rw [hout] at ho
    rw [hout'] at ho'
    cases ho
    cases ho'
    rw [hh, hh'] at hperm
    exact hperm
  · intro hs files' hp
    obtain ⟨out', hout', hh'⟩ := hof files' hp
    refine ⟨out, out', hout, hout', ?_⟩
    rw [hh, hh']
    exact hs _ (hp.map _)

end

/-- For files that can all be read: when for every command id there is nothing to pair, or every file
has as many host as target records of it, or its host records are in one file and its target records
are in one file, the order of the files does not matter. Where no two records of a side are equal, this
is the only case in which it does not. -/
theorem file_order_free_iff {φ : Type} (read : φ → Option RecordFile) (files : List φ) (stats : Stats)
    (hread : ∀ f ∈ files, (read f).isSome = true) :
    ((∀ x, OrderFree (idBlocks x (contents read files))) → SameInEveryOrder read files stats) ∧
    (DistinctRecs (contents read files) →
      (SameInEveryOrder read files stats ↔ ∀ x, OrderFree (idBlocks x (contents read files)))) := by
  have hiff := sameInEveryOrder_iff read hread stats
  have henough : (∀ x, OrderFree (idBlocks x (contents read files))) →
      SameInEveryOrder read files stats := fun hfree => hiff.2 fun _ hp => handedOf_perm hfree hp
  exact ⟨henough, fun hd => ⟨fun hs => orderFree_of_perm hd (hiff.1 hs), henough⟩⟩

/-- A read that was recorded on the host and on the target. -/
def oneCommand : List RecordFile :=
  [⟨{ role := 1 }, [.host { id := { cid := 1 } }]⟩, ⟨{ role := 2 }, [.target { id := { cid := 1 } }]⟩]

theorem orderFree_two_files {H T : Type} (hs : List H) (ts : List T) :
    OrderFree [(hs, []), ([], ts)] := by
  refine Or.inr (Or.inr (Or.inr ⟨?_, ?_⟩))
  · cases hs <;> simp
  · cases ts <;> simp

theorem file_order_free_iff_one_command :
    SameInEveryOrder some oneCommand (ntpStatsInit true true true) :=
  (file_order_free_iff some oneCommand (ntpStatsInit true true true) (by decide)).1 fun _ =>
    orderFree_two_files _ _

/-- Two host files with a command of one id each, and a target file with one of the two. -/
def recurringId (first second : HostRec) : List RecordFile :=
  [⟨{ role := 1 }, [.host first]⟩, ⟨{ role := 1 }, [.host second]⟩,
    ⟨{ role := 2 }, [.target { id := { cid := 1 } }]⟩]

/-- Which of the two host records gets the target record depends on the order of their files. -/
theorem recurring_id_depends_on_order :
    ¬ SameInEveryOrder some
      (recurringId { id := { cid := 1 }, bytes := 4096 } { id := { cid := 1 }, bytes := 8192 })
      (ntpStatsInit true true true) := by
  intro hs
  have hiff := (sameInEveryOrder_iff some (by decide) _).1 hs
  have hp := hiff [[.host { id := { cid := 1 }, bytes := 8192 }],
    [.host { id := { cid := 1 }, bytes := 4096 }], [.target { id := { cid := 1 } }]] (.swap _ _ _)
  have hm := hp.mem_iff (a := (({ id := { cid := 1 }, bytes := 8192 } : HostRec), none))
  revert hm
  decide

end Ntprof
