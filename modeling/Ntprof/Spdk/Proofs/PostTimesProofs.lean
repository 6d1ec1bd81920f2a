import Ntprof.Spdk.Times

/-!
# The times at which work requests were posted

A queue pair keeps the addresses of the times that the next posting stamps. The requests are freed and taken again
while their addresses are listed, so an entry may be of a command that is over. Here is which time a command ends up
with, from what happened since it began: nothing of an earlier command at the same address enters it.
-/

namespace Ntprof.Spdk

open Bpf

variable {ι : Type} [DecidableEq ι]

/-! ## What happens on a queue pair -/

/-- A command begins at the address `x`. -/
def PostOp.begins (x : ι) : PostOp ι → Bool
  | .begin y _ _ _ => decide (y = x)
  | _ => false

/-- The command at `x` ends. -/
def PostOp.ends (x : ι) : PostOp ι → Bool
  | .done y => decide (y = x)
  | _ => false

/-- The command at `x` queues some event. -/
def PostOp.queues (x : ι) : PostOp ι → Bool
  | .queue y _ _ => decide (y = x)
  | _ => false

/-- The command at `x` queues the event `ev`. -/
def PostOp.queuesEvent (x : ι) (ev : Event) : PostOp ι → Bool
  | .queue y e _ => decide (y = x) && decide (e = ev)
  | _ => false

/-- What is queued is posted. -/
def PostOp.posts : PostOp ι → Bool
  | .posted _ => true
  | _ => false

/-- The command at `x` stays the same one. -/
def PostOp.keeps (x : ι) (op : PostOp ι) : Bool := !op.begins x && !op.ends x

/-- The clock does not read 0, and the event of a posting is not the one that begins a command. -/
def PostOp.wellFormed (first : Event) : PostOp ι → Bool
  | .begin _ _ _ now => decide (now ≠ 0)
  | .queue _ ev now => decide (ev ≠ first) && decide (now ≠ 0)
  | .posted now => decide (now ≠ 0)
  | .done _ => true

/-- A queue pair after a run. -/
def postRun (first : Event) (q : RdmaQpair ι) (ops : List (PostOp ι)) : RdmaQpair ι := ops.foldl (postStep first) q

/-- A command queues a new event only after its previous one was posted. -/
def Disciplined (first : Event) (q : RdmaQpair ι) (ops : List (PostOp ι)) : Prop :=
  ∀ before x ev now between ev' now' after,
    ops = before ++ .queue x ev now :: (between ++ .queue x ev' now' :: after) →
    ((postRun first q before).times x).on → (postRun first q before).posts.length ≠ ntprofPosts →
    (∀ op ∈ between, op.keeps x) → ∃ op ∈ between, op.posts

/-- The time of the event `ev` of a command at `x` that began when the queue pair was `q`, after `ops`: of the first
posting after it was queued first, or when it was queued if no entry was left. -/
inductive PostingTime (first : Event) (q : RdmaQpair ι) (x : ι) (ev : Event) : List (PostOp ι) → U64 → Prop
  | unqueued {ops} : (∀ op ∈ ops, ¬ op.queuesEvent x ev) → PostingTime first q x ev ops 0
  | full {before after now} : (∀ op ∈ before, ¬ op.queuesEvent x ev) →
      (postRun first q before).posts.length = ntprofPosts →
      PostingTime first q x ev (before ++ .queue x ev now :: after) now
  | waiting {before after now} : (∀ op ∈ before, ¬ op.queuesEvent x ev) →
      (postRun first q before).posts.length ≠ ntprofPosts → (∀ op ∈ after, ¬ op.posts) →
      PostingTime first q x ev (before ++ .queue x ev now :: after) 0
  | posted {before between after now time} : (∀ op ∈ before, ¬ op.queuesEvent x ev) →
      (postRun first q before).posts.length ≠ ntprofPosts → (∀ op ∈ between, ¬ op.posts) →
      PostingTime first q x ev (before ++ .queue x ev now :: (between ++ .posted time :: after)) time

theorem postRun_append (first : Event) (q : RdmaQpair ι) (ops ops' : List (PostOp ι)) :
    postRun first q (ops ++ ops') = postRun first (postRun first q ops) ops' := List.foldl_append

theorem postRun_cons (first : Event) (q : RdmaQpair ι) (op : PostOp ι) (ops : List (PostOp ι)) :
    postRun first q (op :: ops) = postRun first (postStep first q op) ops := rfl

/-! ## The list -/

theorem ntprofPostLater_posts (q : RdmaQpair ι) (x : ι) (ev : Event) (now : U64) (h : q.posts.length ≤ ntprofPosts) :
    (ntprofPostLater q x ev now).posts.length ≤ ntprofPosts := by
  unfold ntprofPostLater
  split_ifs with hfull
  · exact h
  · rw [List.length_append, List.length_singleton]
    omega

theorem postStep_posts (first : Event) {q : RdmaQpair ι} (op : PostOp ι) (h : q.posts.length ≤ ntprofPosts) :
    (postStep first q op).posts.length ≤ ntprofPosts := by
  cases op with
  | begin x every cmd now => exact h
  | queue x ev now =>
    simp only [postStep]
    split_ifs
    · exact ntprofPostLater_posts q x ev now h
    · exact h
  | posted now => exact Nat.zero_le _
  | done x => exact h

/-- The list never exceeds its eight entries. -/
theorem postRun_posts (first : Event) {q : RdmaQpair ι} (h : q.posts.length ≤ ntprofPosts) (ops : List (PostOp ι)) :
    (postRun first q ops).posts.length ≤ ntprofPosts := by
  induction ops generalizing q with
  | nil => exact h
  | cons op ops ih => exact ih (postStep_posts first op h)

/-! ## One posting -/

theorem postOne_on (t : NtprofTimes) (now : U64) : (postOne t now).on = t.on := by
  simp only [postOne]
  split_ifs <;> rfl

theorem postOne_postEv (t : NtprofTimes) (now : U64) : (postOne t now).postEv = 0 := rfl

theorem postOne_unmarked {t : NtprofTimes} (h : t.postEv = 0) (now : U64) : postOne t now = t := by
  have hno : ¬ (t.on = true ∧ t.postEv ≠ 0 ∧ t.postEv.toNat - 1 < spdkTimes) := fun hh => hh.2.1 h
  obtain ⟨t, on, postEv⟩ := t
  subst h
  simp only [postOne, dif_neg hno]

/-- An address that is listed more than once is stamped once. -/
theorem foldl_postOne (posts : List ι) (times : ι → NtprofTimes) (now : U64) (x : ι) :
    posts.foldl (fun times y => Function.update times y (postOne (times y) now)) times x =
      if x ∈ posts then postOne (times x) now else times x := by
  induction posts generalizing times with
  | nil => rfl
  | cons y posts ih =>
    rw [List.foldl_cons, ih]
    by_cases hy : x = y
    · rw [hy, Function.update_self, postOne_unmarked (postOne_postEv ..), ite_self, if_pos List.mem_cons_self]
    · simp only [Function.update_of_ne hy, List.mem_cons, hy, false_or]

theorem ntprofPosted_times (q : RdmaQpair ι) (now : U64) (x : ι) :
    (ntprofPosted q now).times x = if x ∈ q.posts then postOne (q.times x) now else q.times x :=
  foldl_postOne q.posts q.times now x

/-- The event that `ntprof_post_later` marks. -/
def marks (ev : Event) : U8 := BitVec.ofNat 8 (ev.val + 1)

theorem marks_toNat (ev : Event) : (marks ev).toNat = ev.val + 1 := by
  rw [marks, BitVec.toNat_ofNat]
  have hlt : ev.val < 10 := ev.isLt
  exact Nat.mod_eq_of_lt (by omega)

theorem marks_ne_zero (ev : Event) : marks ev ≠ 0 := by
  intro h
  have := marks_toNat ev
  rw [h] at this
  cases this

theorem marks_injective {ev ev' : Event} (h : marks ev = marks ev') : ev = ev' := by
  have := marks_toNat ev
  rw [h, marks_toNat] at this
  exact Fin.ext (by omega)

/-- A posting stamps the event that is marked. -/
theorem postOne_marked {t : NtprofTimes} {ev : Event} (hon : t.on) (hmark : t.postEv = marks ev) (hzero : t.t ev = 0)
    (now : U64) : (postOne t now).t ev = now := by
  have hi : t.postEv.toNat - 1 = ev.val := by rw [hmark, marks_toNat, Nat.add_sub_cancel]
  have hmarked : t.on = true ∧ t.postEv ≠ 0 ∧ t.postEv.toNat - 1 < spdkTimes :=
    ⟨hon, hmark ▸ marks_ne_zero ev, hi ▸ ev.isLt⟩
  have hev : (⟨t.postEv.toNat - 1, hmarked.2.2⟩ : Event) = ev := Fin.ext hi
  simp only [postOne, dif_pos hmarked, hev, if_pos hzero]
  exact t.set_self ev now

/-- A posting leaves every other event as it is, and those that have a time. -/
theorem postOne_other {t : NtprofTimes} {ev : Event} (h : t.postEv ≠ marks ev ∨ t.t ev ≠ 0) (now : U64) :
    (postOne t now).t ev = t.t ev := by
  simp only [postOne]
  split_ifs with hmarked hzero
  · refine t.set_of_ne ?_ now
    rintro rfl
    rcases h with h | h
    · apply h
      apply BitVec.eq_of_toNat_eq
      have hpos : t.postEv.toNat ≠ 0 := fun h0 => hmarked.2.1 (BitVec.eq_of_toNat_eq h0)
      rw [marks_toNat]
      show t.postEv.toNat = t.postEv.toNat - 1 + 1
      omega
    · exact h hzero
  · rfl
  · rfl

/-! ## A command on its way -/

/-- The command at `x` has not queued `ev` yet. -/
structure Unqueued (x : ι) (ev : Event) (q : RdmaQpair ι) : Prop where
  on : (q.times x).on = true
  zero : (q.times x).t ev = 0
  unmarked : (q.times x).postEv ≠ marks ev

/-- The command at `x` has queued `ev`, and it is listed. -/
structure Waiting (x : ι) (ev : Event) (q : RdmaQpair ι) : Prop where
  on : (q.times x).on = true
  zero : (q.times x).t ev = 0
  marked : (q.times x).postEv = marks ev
  listed : x ∈ q.posts

/-- Steps of other commands leave a command's times as they are. -/
theorem postStep_other (first : Event) (q : RdmaQpair ι) (x : ι) {op : PostOp ι} (hkeep : op.keeps x)
    (hqueue : ¬ op.queues x) (hpost : ¬ op.posts) : (postStep first q op).times x = q.times x := by
  cases op with
  | begin y every cmd now =>
    have hy : x ≠ y := by
      rintro rfl
      simp [PostOp.keeps, PostOp.begins] at hkeep
    exact Function.update_of_ne hy _ _
  | queue y ev now =>
    have hy : x ≠ y := by
      rintro rfl
      simp [PostOp.queues] at hqueue
    simp only [postStep, ntprofPostLater]
    split_ifs
    · exact Function.update_of_ne hy _ _
    · exact Function.update_of_ne hy _ _
    · rfl
  | posted now => simp [PostOp.posts] at hpost
  | done y =>
    have hy : x ≠ y := by
      rintro rfl
      simp [PostOp.keeps, PostOp.ends] at hkeep
    exact Function.update_of_ne hy _ _

/-- What queueing does to the command's own times. -/
theorem postStep_queue (first : Event) {q : RdmaQpair ι} {x : ι} (hon : (q.times x).on) (ev : Event) (now : U64) :
    (postStep first q (.queue x ev now)).times x =
      if q.posts.length = ntprofPosts then ntprofStamp (q.times x) ev now
      else { q.times x with postEv := marks ev } := by
  simp only [postStep, if_pos hon, ntprofPostLater]
  split_ifs
  · exact Function.update_self ..
  · exact Function.update_self ..

theorem Unqueued.step {first : Event} {x : ι} {ev : Event} {q : RdmaQpair ι} (h : Unqueued x ev q) {op : PostOp ι}
    (hkeep : op.keeps x) (hqueue : ¬ op.queuesEvent x ev) : Unqueued x ev (postStep first q op) := by
  by_cases hpost : op.posts
  · cases op with
    | posted now =>
      have htimes := ntprofPosted_times q now x
      by_cases hx : x ∈ q.posts
      · rw [if_pos hx] at htimes
        refine ⟨?_, ?_, ?_⟩
        · exact (congrArg NtprofTimes.on htimes).trans ((postOne_on _ _).trans h.on)
        · show ((ntprofPosted q now).times x).t ev = 0
          rw [htimes, postOne_other (.inl h.unmarked)]
          exact h.zero
        · show ((ntprofPosted q now).times x).postEv ≠ marks ev
          rw [htimes, postOne_postEv]
          exact (marks_ne_zero ev).symm
      · rw [if_neg hx] at htimes
        exact ⟨by rw [postStep, htimes]; exact h.on, by rw [postStep, htimes]; exact h.zero,
          by rw [postStep, htimes]; exact h.unmarked⟩
    | _ => simp [PostOp.posts] at hpost
  · by_cases hq : op.queues x
    · cases op with
      | queue y ev' now =>
        obtain rfl : y = x := by simpa [PostOp.queues] using hq
        have hne : ev ≠ ev' := by
          rintro rfl
          simp [PostOp.queuesEvent] at hqueue
        have htimes := postStep_queue first h.on ev' now
        split_ifs at htimes
        · refine ⟨?_, ?_, ?_⟩
          · rw [htimes, ntprofStamp_on]
            exact h.on
          · rw [htimes, ntprofStamp_of_ne _ hne]
            exact h.zero
          · rw [htimes]
            unfold ntprofStamp
            split_ifs <;> exact h.unmarked
        · refine ⟨by rw [htimes]; exact h.on, by rw [htimes]; exact h.zero, ?_⟩
          rw [htimes]
          exact fun hmark => hne (marks_injective hmark).symm
      | _ => simp [PostOp.queues] at hq
    · have htimes := postStep_other first q x hkeep hq hpost
      exact ⟨htimes ▸ h.on, htimes ▸ h.zero, htimes ▸ h.unmarked⟩

theorem Waiting.step {first : Event} {x : ι} {ev : Event} {q : RdmaQpair ι} (h : Waiting x ev q) {op : PostOp ι}
    (hkeep : op.keeps x) (hqueue : ¬ op.queues x) (hpost : ¬ op.posts) : Waiting x ev (postStep first q op) := by
  have htimes := postStep_other first q x hkeep hqueue hpost
  have hlisted : x ∈ (postStep first q op).posts := by
    cases op with
    | begin y every cmd now => exact h.listed
    | queue y ev' now =>
      simp only [postStep, ntprofPostLater]
      split_ifs
      · exact h.listed
      · exact List.mem_append_left _ h.listed
      · exact h.listed
    | posted now => simp [PostOp.posts] at hpost
    | done y => exact h.listed
  exact ⟨htimes ▸ h.on, htimes ▸ h.zero, htimes ▸ h.marked, hlisted⟩

/-- The next posting stamps an event that waits. -/
theorem Waiting.posted {first : Event} {x : ι} {ev : Event} {q : RdmaQpair ι} (h : Waiting x ev q) (now : U64) :
    ((postStep first q (.posted now)).times x).t ev = now := by
  show ((ntprofPosted q now).times x).t ev = now
  rw [ntprofPosted_times, if_pos h.listed]
  exact postOne_marked h.on h.marked h.zero now

/-- A time stays as long as the command does. -/
theorem recorded_step {first : Event} {x : ι} {ev : Event} {q : RdmaQpair ι} (h : (q.times x).t ev ≠ 0) {op : PostOp ι}
    (hkeep : op.keeps x) : ((postStep first q op).times x).t ev = (q.times x).t ev := by
  by_cases hpost : op.posts
  · cases op with
    | posted now =>
      show ((ntprofPosted q now).times x).t ev = (q.times x).t ev
      rw [ntprofPosted_times]
      split_ifs
      · exact postOne_other (.inr h) now
      · rfl
    | _ => simp [PostOp.posts] at hpost
  · by_cases hq : op.queues x
    · cases op with
      | queue y ev' now =>
        obtain rfl : y = x := by simpa [PostOp.queues] using hq
        by_cases hon : (q.times y).on
        · rw [postStep_queue first hon]
          split_ifs
          · by_cases hev : ev = ev'
            · subst hev
              rw [ntprofStamp_self, if_neg h]
            · exact ntprofStamp_of_ne _ hev _
          · rfl
        · simp only [postStep, if_neg hon]
      | _ => simp [PostOp.queues] at hq
    · rw [postStep_other first q x hkeep hq hpost]

/-! ## Whole runs -/

theorem Unqueued.run {first : Event} {x : ι} {ev : Event} {q : RdmaQpair ι} (h : Unqueued x ev q)
    {ops : List (PostOp ι)} (hkeep : ∀ op ∈ ops, op.keeps x) (hqueue : ∀ op ∈ ops, ¬ op.queuesEvent x ev) :
    Unqueued x ev (postRun first q ops) := by
  induction ops generalizing q with
  | nil => exact h
  | cons op ops ih =>
    rw [List.forall_mem_cons] at hkeep hqueue
    exact ih (h.step hkeep.1 hqueue.1) hkeep.2 hqueue.2

theorem Waiting.run {first : Event} {x : ι} {ev : Event} {q : RdmaQpair ι} (h : Waiting x ev q)
    {ops : List (PostOp ι)} (hkeep : ∀ op ∈ ops, op.keeps x) (hqueue : ∀ op ∈ ops, ¬ op.queues x)
    (hpost : ∀ op ∈ ops, ¬ op.posts) : Waiting x ev (postRun first q ops) := by
  induction ops generalizing q with
  | nil => exact h
  | cons op ops ih =>
    rw [List.forall_mem_cons] at hkeep hqueue hpost
    exact ih (h.step hkeep.1 hqueue.1 hpost.1) hkeep.2 hqueue.2 hpost.2

theorem recorded_run {first : Event} {x : ι} {ev : Event} {q : RdmaQpair ι} (h : (q.times x).t ev ≠ 0)
    {ops : List (PostOp ι)} (hkeep : ∀ op ∈ ops, op.keeps x) :
    ((postRun first q ops).times x).t ev = (q.times x).t ev := by
  induction ops generalizing q with
  | nil => rfl
  | cons op ops ih =>
    rw [List.forall_mem_cons] at hkeep
    have hstep : ((postStep first q op).times x).t ev = (q.times x).t ev := recorded_step h hkeep.1
    rw [postRun_cons, ih (hstep ▸ h) hkeep.2, hstep]

/-- A sampled command begins without any time but the first one. -/
theorem unqueued_begin {first : Event} (q : RdmaQpair ι) (x : ι) {every : U32} {cmd : NvmeCmd}
    (hsampled : ntprofSampled every cmd) (now : U64) {ev : Event} (hev : ev ≠ first) :
    Unqueued x ev (postStep first q (.begin x every cmd now)) := by
  have htimes : (postStep first q (.begin x every cmd now)).times x = NtprofTimes.set { on := true } first now := by
    simp only [postStep, Function.update_self, ntprofBegin_sampled _ hsampled]
  refine ⟨by rw [htimes]; rfl, ?_, ?_⟩
  · rw [htimes]
    exact NtprofTimes.set_of_ne _ hev _
  · rw [htimes]
    exact (marks_ne_zero ev).symm

/-- Queueing marks the event, if an entry is left. -/
theorem Unqueued.queue {first : Event} {x : ι} {ev : Event} {q : RdmaQpair ι} (h : Unqueued x ev q)
    (hroom : q.posts.length ≠ ntprofPosts) (now : U64) : Waiting x ev (postStep first q (.queue x ev now)) := by
  have htimes := postStep_queue first h.on ev now
  rw [if_neg hroom] at htimes
  refine ⟨by rw [htimes]; exact h.on, by rw [htimes]; exact h.zero, by rw [htimes], ?_⟩
  simp only [postStep, if_pos h.on, ntprofPostLater, if_neg hroom]
  exact List.mem_append_right _ (List.mem_singleton.mpr rfl)

/-- Queueing stamps the event at once, if none is left. -/
theorem Unqueued.queue_full {first : Event} {x : ι} {ev : Event} {q : RdmaQpair ι} (h : Unqueued x ev q)
    (hfull : q.posts.length = ntprofPosts) (now : U64) : ((postStep first q (.queue x ev now)).times x).t ev = now := by
  rw [postStep_queue first h.on, if_pos hfull]
  exact ntprofStamp_zero h.zero now

/-- Until the next posting, a command with a listed entry queues nothing else. -/
theorem Disciplined.quiet {first : Event} {q : RdmaQpair ι} {before after : List (PostOp ι)} {x : ι} {ev : Event}
    {now : U64} (hd : Disciplined first q (before ++ .queue x ev now :: after))
    (hon : ((postRun first q before).times x).on) (hroom : (postRun first q before).posts.length ≠ ntprofPosts)
    (hkeep : ∀ op ∈ after, op.keeps x) {between rest : List (PostOp ι)} (hafter : after = between ++ rest)
    (hpost : ∀ op ∈ between, ¬ op.posts) : ∀ op ∈ between, ¬ op.queues x := by
  intro op hmem hq
  cases op with
  | queue y ev' now' =>
    obtain rfl : y = x := by simpa [PostOp.queues] using hq
    obtain ⟨b₁, b₂, rfl⟩ := List.append_of_mem hmem
    have hops : before ++ PostOp.queue y ev now :: after =
        before ++ .queue y ev now :: (b₁ ++ .queue y ev' now' :: (b₂ ++ rest)) := by
      rw [hafter, List.append_assoc, List.cons_append]
    have hkeep₁ : ∀ op ∈ b₁, op.keeps y := fun op hop =>
      hkeep op (by rw [hafter]; exact List.mem_append_left _ (List.mem_append_left _ hop))
    obtain ⟨op, hop, hpost'⟩ := hd before y ev now b₁ ev' now' (b₂ ++ rest) hops hon hroom hkeep₁
    exact hpost op (List.mem_append_left _ hop) hpost'
  | _ => simp [PostOp.queues] at hq

/-- An event that waits has no time before the next posting, and the time of that posting from then on. -/
theorem Waiting.outcome {first : Event} {x : ι} {ev : Event} {q : RdmaQpair ι} (h : Waiting x ev q)
    {ops : List (PostOp ι)} (hw : ∀ op ∈ ops, op.wellFormed first) (hkeep : ∀ op ∈ ops, op.keeps x)
    (hquiet : ∀ between rest, ops = between ++ rest → (∀ op ∈ between, ¬ op.posts) → ∀ op ∈ between, ¬ op.queues x) :
    ((∀ op ∈ ops, ¬ op.posts) ∧ ((postRun first q ops).times x).t ev = 0) ∨
      ∃ between time rest, ops = between ++ .posted time :: rest ∧ (∀ op ∈ between, ¬ op.posts) ∧
        ((postRun first q ops).times x).t ev = time := by
  cases hfind : ops.find? PostOp.posts with
  | none =>
    have hpost := List.find?_eq_none.mp hfind
    have hrun : Waiting x ev (postRun first q ops) :=
      h.run hkeep (hquiet ops [] (List.append_nil _).symm hpost) hpost
    exact .inl ⟨hpost, hrun.zero⟩
  | some op =>
    obtain ⟨hop, between, rest, rfl, hbetween⟩ := List.find?_eq_some_iff_append.mp hfind
    have hpost : ∀ op ∈ between, ¬ op.posts := fun op hop => by simpa using hbetween op hop
    rw [List.forall_mem_append, List.forall_mem_cons] at hkeep hw
    cases op with
    | posted time =>
      have hrun : Waiting x ev (postRun first q between) := h.run hkeep.1 (hquiet between _ rfl hpost) hpost
      have hstamped : ((postStep first (postRun first q between) (.posted time)).times x).t ev = time :=
        hrun.posted time
      have htime : time ≠ 0 := by simpa [PostOp.wellFormed] using hw.2.1
      refine .inr ⟨between, time, rest, rfl, hpost, ?_⟩
      rw [postRun_append, postRun_cons, recorded_run (by rw [hstamped]; exact htime) hkeep.2.2, hstamped]
    | _ => simp [PostOp.posts] at hop

/-- A command that began without the event gets its time as the run says. -/
theorem Unqueued.postingTime {first : Event} {x : ι} {ev : Event} {q : RdmaQpair ι} (h : Unqueued x ev q)
    {ops : List (PostOp ι)} (hd : Disciplined first q ops) (hw : ∀ op ∈ ops, op.wellFormed first)
    (hkeep : ∀ op ∈ ops, op.keeps x) : PostingTime first q x ev ops (((postRun first q ops).times x).t ev) := by
  -- Up to where the event is queued first, nothing stamps it.
  cases hfind : ops.find? (PostOp.queuesEvent x ev) with
  | none =>
    have hno := List.find?_eq_none.mp hfind
    rw [(h.run hkeep hno).zero]
    exact .unqueued hno
  | some op =>
    obtain ⟨hop, before, after, rfl, hbefore⟩ := List.find?_eq_some_iff_append.mp hfind
    cases op with
    | queue y e now =>
      obtain ⟨rfl, rfl⟩ : y = x ∧ e = ev := by simpa [PostOp.queuesEvent] using hop
      have hno : ∀ op ∈ before, ¬ op.queuesEvent y e := fun op hop => by simpa using hbefore op hop
      rw [List.forall_mem_append, List.forall_mem_cons] at hkeep hw
      have hun : Unqueued y e (postRun first q before) := h.run hkeep.1 hno
      rw [postRun_append, postRun_cons]
      by_cases hroom : (postRun first q before).posts.length = ntprofPosts
      · have hstamped : ((postStep first (postRun first q before) (.queue y e now)).times y).t e = now :=
          hun.queue_full hroom now
        have hnow : now ≠ 0 := by
          have := hw.2.1
          simp only [PostOp.wellFormed, Bool.and_eq_true, decide_eq_true_eq] at this
          exact this.2
        rw [recorded_run (by rw [hstamped]; exact hnow) hkeep.2.2, hstamped]
        exact .full hno hroom
      · have hwaiting : Waiting y e (postStep first (postRun first q before) (.queue y e now)) :=
          hun.queue hroom now
        rcases hwaiting.outcome hw.2.2 hkeep.2.2 (fun _ _ hafter => hd.quiet hun.on hroom hkeep.2.2 hafter) with
          ⟨hpost, hzero⟩ | ⟨between, time, rest, rfl, hpost, htime⟩
        · rw [hzero]
          exact .waiting hno hroom hpost
        · rw [htime]
          exact .posted hno hroom hpost
    | _ => simp [PostOp.queuesEvent] at hop

/-- A discipline holds from any point of a run on. -/
theorem Disciplined.suffix {first : Event} {q : RdmaQpair ι} {ops ops' : List (PostOp ι)}
    (hd : Disciplined first q (ops ++ ops')) : Disciplined first (postRun first q ops) ops' := by
  intro before x ev now between ev' now' after hops hon hroom
  rw [← postRun_append] at hon hroom
  refine hd (ops ++ before) x ev now between ev' now' after ?_ hon hroom
  rw [hops, List.append_assoc]

/-- Posting times: the list never exceeds its eight entries, and each event of a sampled command has the time of the
first posting after the command queued it first, or the time when it queued it if all entries were taken. A command
that queued nothing has no such time, whatever an earlier one at its address left in the list. -/
theorem posting_times {first : Event} {t₀ : ι → NtprofTimes} {ops : List (PostOp ι)}
    (hd : Disciplined first ⟨t₀, []⟩ ops) (hw : ∀ op ∈ ops, op.wellFormed first) :
    (postRun first ⟨t₀, []⟩ ops).posts.length ≤ ntprofPosts ∧
      ∀ before x every cmd now since, ops = before ++ .begin x every cmd now :: since → ntprofSampled every cmd →
        (∀ op ∈ since, op.keeps x) → ∀ ev, ev ≠ first →
          PostingTime first (postRun first ⟨t₀, []⟩ (before ++ [.begin x every cmd now])) x ev since
            (((postRun first ⟨t₀, []⟩ ops).times x).t ev) := by
  refine ⟨postRun_posts first (Nat.zero_le _) ops, ?_⟩
  rintro before x every cmd now since rfl hsampled hkeep ev hev
  have happend : before ++ .begin x every cmd now :: since = (before ++ [.begin x every cmd now]) ++ since := by
    rw [List.append_assoc, List.singleton_append]
  rw [happend] at hd hw ⊢
  have hun : Unqueued x ev (postRun first ⟨t₀, []⟩ (before ++ [.begin x every cmd now])) := by
    rw [postRun_append]
    exact unqueued_begin _ x hsampled now hev
  rw [postRun_append first _ (before ++ _) since]
  exact hun.postingTime hd.suffix (fun op hop => hw op (List.mem_append_right _ hop)) hkeep

/-- A run where each address queues at most once is disciplined. -/
theorem disciplined_of_single {first : Event} {q : RdmaQpair ι} {ops : List (PostOp ι)}
    (h : ∀ x, ops.countP (PostOp.queues x) ≤ 1) : Disciplined first q ops := by
  rintro before x ev now between ev' now' after rfl - - -
  have hcount := h x
  have hqueues : ∀ e t, PostOp.queues x (.queue x e t) = true := fun _ _ => decide_eq_true rfl
  rw [List.countP_append, List.countP_cons_of_pos (hqueues ev now), List.countP_append,
    List.countP_cons_of_pos (hqueues ev' now')] at hcount
  omega

/-- The command at `false` ends before its response is posted, and another one takes its place; the one at `true` is
posted. -/
def reusedPosts : List (PostOp Bool) :=
  [.begin false 1 ⟨2, 0, 1, 0, 0⟩ 5, .queue false 8 10, .done false, .begin false 1 ⟨2, 0, 1, 8, 0⟩ 11,
    .begin true 1 ⟨2, 1, 1, 0, 0⟩ 12, .queue true 8 15, .posted 20]

theorem posting_times_reused :
    Disciplined 1 ⟨fun _ => {}, []⟩ reusedPosts ∧ (∀ op ∈ reusedPosts, op.wellFormed 1) ∧
      (((postRun 1 ⟨fun _ => {}, []⟩ reusedPosts).times false).t 8 = 0) ∧
      PostingTime 1 (postRun 1 ⟨fun _ => {}, []⟩ (reusedPosts.take 5)) true 8 [.queue true 8 15, .posted 20]
        (((postRun 1 ⟨fun _ => {}, []⟩ reusedPosts).times true).t 8) := by
  have hd : Disciplined 1 ⟨fun _ => {}, []⟩ reusedPosts := disciplined_of_single (by decide)
  have hw : ∀ op ∈ reusedPosts, op.wellFormed 1 := by
    intro op hop
    simp only [reusedPosts, List.mem_cons, List.not_mem_nil, or_false] at hop
    rcases hop with rfl | rfl | rfl | rfl | rfl | rfl | rfl <;> rfl
  refine ⟨hd, hw, by decide +kernel, ?_⟩
  have hkeep : ∀ op ∈ [PostOp.queue true 8 15, .posted 20], op.keeps true := by
    intro op hop
    simp only [List.mem_cons, List.not_mem_nil, or_false] at hop
    rcases hop with rfl | rfl <;> rfl
  exact (posting_times hd hw).2 (reusedPosts.take 4) true 1 ⟨2, 1, 1, 0, 0⟩ 12 _ rfl (by decide +kernel) hkeep 8
    (by decide)

end Ntprof.Spdk
