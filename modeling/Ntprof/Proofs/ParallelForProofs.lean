import Ntprof.ParallelFor

/-!
# `parallel_for` calls its function once for every index

Whatever the threads do in between, and however many of them could be created.
-/

namespace Ntprof.Loader

open WorkSharing

variable {β : Type} {n : U64} {parallel : Bool} {fn init : ℕ → β} {s s' : PFor β} {a : PForStep} {k : ℕ}

/-- What holds of the threads at each place of the calling one. -/
def MainOk (nth : ℕ) (threads : List Phase) : MainPhase → Prop
  | .creating => threads.length ≤ nth ∧ threads[0]? = some .fetching
  | .working => ∃ ph, threads[0]? = some ph ∧ ph ≠ .ended
  | .joining k => k + 1 < threads.length ∧ ∀ j ≤ k, threads[j]? = some .ended
  | .returned => ∀ ph ∈ threads, ph = .ended

/-- The invariant of `parallel_for`. -/
structure PForInv (n : U64) (parallel : Bool) (fn init : ℕ → β) (s : PFor β) : Prop where
  pool : s.pool.Inv n fn init
  nonempty : s.pool.threads ≠ []
  bounded : s.pool.threads.length ≤ nthOf n parallel + 1
  main : MainOk (nthOf n parallel) s.pool.threads s.main

theorem nthOf_le (n : U64) (parallel : Bool) : nthOf n parallel ≤ linkThreads := by
  unfold nthOf
  split_ifs
  · exact Nat.min_le_right _ _
  · exact Nat.zero_le _

/-- What a step can be, with the pool of threads before and after it. -/
theorem pforStep_cases (h : pforStep n parallel fn s a = some s') :
    (s.main = .creating ∧ s' = ⟨s.pool.spawn, createNext (nthOf n parallel) (s.started + 1)⟩) ∨
    (s.main = .creating ∧ s' = { s with main := .working }) ∨
    (∃ pool, s.main = .working ∧ s.pool.step n fn 0 = some pool ∧
      s' = ⟨pool, if pool.threads[0]? = some .ended then joinNext s.started 0 else .working⟩) ∨
    (∃ k pool, s.pool.step n fn (k + 1) = some pool ∧ s' = { s with pool := pool }) ∨
    ∃ k, s.main = .joining k ∧ s.pool.threads[k + 1]? = some .ended ∧
      s' = { s with main := joinNext s.started (k + 1) } := by
  match a, h with
  | .create ok, h =>
    simp only [pforStep] at h
    split_ifs at h with hm hok
    · exact Or.inl ⟨hm, (Option.some.inj h).symm⟩
    · exact Or.inr (Or.inl ⟨hm, (Option.some.inj h).symm⟩)
  | .thread 0, h =>
    simp only [pforStep] at h
    split_ifs at h with hm
    obtain ⟨pool, hpool, hs⟩ := Option.map_eq_some_iff.mp h
    exact Or.inr (Or.inr (Or.inl ⟨pool, hm, hpool, hs.symm⟩))
  | .thread (k + 1), h =>
    obtain ⟨pool, hpool, hs⟩ := Option.map_eq_some_iff.mp h
    exact Or.inr (Or.inr (Or.inr (Or.inl ⟨k, pool, hpool, hs.symm⟩)))
  | .join, h =>
    simp only [pforStep] at h
    split at h
    · rename_i k hm
      split_ifs at h with hk
      exact Or.inr (Or.inr (Or.inr (Or.inr ⟨k, hm, hk, (Option.some.inj h).symm⟩)))
    · cases h

/-! ## The invariant -/

/-- A step of a thread leaves the others where they are, and one that has ended does not go on. -/
theorem threads_of_step {p p' : Pool 64 β} (h : p.step n fn k = some p') :
    (∃ ph, p.threads[k]? = some ph ∧ ph ≠ .ended) ∧ p'.threads.length = p.threads.length ∧
      ∀ j, j ≠ k → p'.threads[j]? = p.threads[j]? := by
  rcases step_cases h with ⟨hk, -, rfl⟩ | ⟨hk, -, rfl⟩ | ⟨i, hk, rfl⟩
  · exact ⟨⟨_, hk, by simp⟩, by simp, fun j hj => by rw [List.getElem?_set_ne hj.symm]⟩
  · exact ⟨⟨_, hk, by simp⟩, by simp, fun j hj => by rw [List.getElem?_set_ne hj.symm]⟩
  · exact ⟨⟨_, hk, by simp⟩, by simp, fun j hj => by rw [List.getElem?_set_ne hj.symm]⟩

/-- Threads that have ended stay so. -/
theorem ended_of_step {p p' : Pool 64 β} (h : p.step n fn k = some p') {j : ℕ} (hj : p.threads[j]? = some .ended) :
    p'.threads[j]? = some .ended := by
  obtain ⟨⟨ph, hk, hne⟩, -, hother⟩ := threads_of_step h
  have hjk : j ≠ k := by
    rintro rfl
    rw [hk, Option.some.injEq] at hj
    exact hne hj
  rw [hother j hjk]
  exact hj

/-- The place of the calling thread allows the steps of the other ones. -/
theorem MainOk.step_other {nth : ℕ} {p p' : Pool 64 β} {main : MainPhase} (h : MainOk nth p.threads main)
    (hstep : p.step n fn (k + 1) = some p') : MainOk nth p'.threads main := by
  obtain ⟨⟨ph, hk, hne⟩, hlen, hother⟩ := threads_of_step hstep
  have hzero : p'.threads[0]? = p.threads[0]? := hother 0 (by omega)
  cases main with
  | creating =>
    obtain ⟨hle, hmain⟩ := h
    exact ⟨by omega, by rw [hzero]; exact hmain⟩
  | working =>
    obtain ⟨ph', hmain, hne'⟩ := h
    exact ⟨ph', by rw [hzero]; exact hmain, hne'⟩
  | joining j =>
    obtain ⟨hj, hall⟩ := h
    exact ⟨by omega, fun i hi => ended_of_step hstep (hall i hi)⟩
  | returned => exact absurd (h ph (List.mem_of_getElem? hk)) hne

theorem mainOk_createNext {nth : ℕ} {threads : List Phase} (hmain : threads[0]? = some .fetching)
    (hlen : threads ≠ []) : MainOk nth threads (createNext nth (threads.length - 1)) := by
  have hpos := List.length_pos_of_ne_nil hlen
  unfold createNext
  split_ifs with hlt
  · exact ⟨by omega, hmain⟩
  · exact ⟨_, hmain, by simp⟩

theorem mainOk_joinNext {nth : ℕ} {threads : List Phase} (hall : ∀ j ≤ k, threads[j]? = some .ended) :
    MainOk nth threads (joinNext (threads.length - 1) k) := by
  unfold joinNext
  split_ifs with hlt
  · exact ⟨by omega, hall⟩
  · intro ph hmem
    obtain ⟨j, hj, rfl⟩ := List.mem_iff_getElem.mp hmem
    have := hall j (by omega)
    rw [List.getElem?_eq_getElem hj, Option.some.injEq] at this
    exact this

theorem pforInv_start (n : U64) (parallel : Bool) (fn init : ℕ → β) :
    PForInv n parallel fn init (pforStart n parallel init) where
  pool := inv_start n fn init
  nonempty := by simp [pforStart]
  bounded := by simp [pforStart]
  main := @mainOk_createNext _ [.fetching] rfl (by simp)

/-- Every step keeps the invariant, and leaves less to do. -/
theorem PForInv.step (h : PForInv n parallel fn init s) (hroom : n.toNat + linkThreads + 1 < 2 ^ 64)
    (hstep : pforStep n parallel fn s a = some s') : PForInv n parallel fn init s' := by
  have hnth := nthOf_le n parallel
  have hbound := h.bounded
  have hpool : n.toNat + s.pool.threads.length < 2 ^ 64 := by omega
  rcases pforStep_cases hstep with ⟨hm, rfl⟩ | ⟨hm, rfl⟩ | ⟨pool, hm, hp, rfl⟩ | ⟨k, pool, hp, rfl⟩ | ⟨k, hm, hk, rfl⟩
  · have hmain := h.main
    rw [hm] at hmain
    obtain ⟨hle, hzero⟩ := hmain
    have hzero' : s.pool.spawn.threads[0]? = some .fetching := by
      rw [Pool.spawn, List.getElem?_append_left (List.length_pos_of_ne_nil h.nonempty)]
      exact hzero
    have hlen : s.pool.spawn.threads.length = s.pool.threads.length + 1 := by simp [Pool.spawn]
    have hnext := @mainOk_createNext (nthOf n parallel) _ hzero' (by simp [Pool.spawn])
    refine ⟨h.pool.spawn, by simp [Pool.spawn], ?_, ?_⟩
    · show s.pool.spawn.threads.length ≤ _
      omega
    · have hstarted : s.started + 1 = s.pool.spawn.threads.length - 1 := by
        have := List.length_pos_of_ne_nil h.nonempty
        rw [hlen, PFor.started]
        omega
      rw [hstarted]
      exact hnext
  · have hmain := h.main
    rw [hm] at hmain
    exact ⟨h.pool, h.nonempty, h.bounded, _, hmain.2, by simp⟩
  · obtain ⟨⟨ph, hk, hne⟩, hlen, -⟩ := threads_of_step hp
    refine ⟨h.pool.step hpool hp, ?_, hlen ▸ hbound, ?_⟩
    · apply List.ne_nil_of_length_pos
      rw [hlen]
      exact List.length_pos_of_ne_nil h.nonempty
    · split_ifs with hended
      · rw [PFor.started, ← hlen]
        exact mainOk_joinNext fun j hj => by
          obtain rfl : j = 0 := by omega
          exact hended
      · have hpos : 0 < pool.threads.length := by
          rw [hlen]
          exact List.length_pos_of_ne_nil h.nonempty
        have hget := List.getElem?_eq_getElem hpos
        exact ⟨_, hget, fun heq => hended (by rw [hget, heq])⟩
  · obtain ⟨-, hlen, -⟩ := threads_of_step hp
    refine ⟨h.pool.step hpool hp, ?_, hlen ▸ hbound, h.main.step_other hp⟩
    apply List.ne_nil_of_length_pos
    rw [hlen]
    exact List.length_pos_of_ne_nil h.nonempty
  · have hmain := h.main
    rw [hm] at hmain
    refine ⟨h.pool, h.nonempty, h.bounded, mainOk_joinNext fun j hj => ?_⟩
    rcases Nat.lt_or_ge k j with hlt | hge
    · obtain rfl : j = k + 1 := by omega
      exact hk
    · exact hmain.2 j hge

theorem PForInv.run (h : PForInv n parallel fn init s) (hroom : n.toNat + linkThreads + 1 < 2 ^ 64)
    {steps : List PForStep} (hrun : pforRun n parallel fn s steps = some s') : PForInv n parallel fn init s' := by
  induction steps generalizing s with
  | nil =>
    obtain rfl := Option.some.inj hrun
    exact h
  | cons a as ih =>
    obtain ⟨t, ht, hrest⟩ := Option.bind_eq_some_iff.mp hrun
    exact ih (h.step hroom ht) hrest

/-! ## Every run ends -/

/-- A thread can go on until the calling one returns. -/
theorem PForInv.progress (h : PForInv n parallel fn init s) (hne : s.main ≠ .returned) :
    ∃ a s', pforStep n parallel fn s a = some s' := by
  have hmain := h.main
  match hm : s.main with
  | .creating => exact ⟨.create true, _, by simp only [pforStep, hm, if_true]; rfl⟩
  | .working =>
    rw [hm] at hmain
    obtain ⟨ph, hk, hnot⟩ := hmain
    obtain ⟨pool, hp⟩ : ∃ pool, s.pool.step n fn 0 = some pool := exists_step hk hnot
    exact ⟨.thread 0, _, by simp only [pforStep, hm, if_true, hp, Option.map_some]; rfl⟩
  | .joining k =>
    rw [hm] at hmain
    by_cases hended : s.pool.threads[k + 1]? = some .ended
    · exact ⟨.join, _, by simp only [pforStep, hm, hended, if_true]; rfl⟩
    · have hget := List.getElem?_eq_getElem hmain.1
      obtain ⟨pool, hp⟩ : ∃ pool, s.pool.step n fn (k + 1) = some pool :=
        exists_step hget fun heq => hended (by rw [hget, heq])
      exact ⟨.thread (k + 1), _, by simp only [pforStep, hp, Option.map_some]; rfl⟩
  | .returned => exact absurd hm hne

/-- What the calling thread has left to do beside its share of the calls. -/
def mainLeft (nth started : ℕ) : MainPhase → ℕ
  | .creating => (nth - started) + nth + 2
  | .working => nth + 1
  | .joining k => nth - k
  | .returned => 0

/-- What `parallel_for` has left to do. -/
def pforLeft (n : U64) (parallel : Bool) (s : PFor β) : ℕ :=
  s.pool.left n (nthOf n parallel + 1) + mainLeft (nthOf n parallel) s.started s.main

theorem mainLeft_createNext (nth started : ℕ) :
    mainLeft nth started (createNext nth started) ≤ (nth - started) + nth + 2 := by
  unfold createNext
  split_ifs
  · exact le_rfl
  · simp only [mainLeft]
    omega

theorem mainLeft_joinNext (nth started started' k : ℕ) : mainLeft nth started' (joinNext started k) ≤ nth - k := by
  unfold joinNext
  split_ifs
  · exact le_rfl
  · exact Nat.zero_le _

theorem PForInv.left_step (h : PForInv n parallel fn init s) (hroom : n.toNat + linkThreads + 1 < 2 ^ 64)
    (hstep : pforStep n parallel fn s a = some s') : pforLeft n parallel s' < pforLeft n parallel s := by
  have hnth := nthOf_le n parallel
  have hbound := h.bounded
  have hpos := List.length_pos_of_ne_nil h.nonempty
  have hroom' : n.toNat + (nthOf n parallel + 1) < 2 ^ 64 := by omega
  have hmain := h.main
  unfold pforLeft
  rcases pforStep_cases hstep with ⟨hm, rfl⟩ | ⟨hm, rfl⟩ | ⟨pool, hm, hp, rfl⟩ | ⟨k, pool, hp, rfl⟩ | ⟨k, hm, hk, rfl⟩
  · rw [hm] at hmain ⊢
    have hleft : s.pool.spawn.left n (nthOf n parallel + 1) = s.pool.left n (nthOf n parallel + 1) := by
      simp [Pool.left, Pool.open, Pool.spawn, Phase.index?]
    have hstarted : s.pool.spawn.threads.length - 1 = s.started + 1 := by
      simp only [Pool.spawn, PFor.started, List.length_append, List.length_singleton]
      omega
    have hlt : s.started < nthOf n parallel := by
      have := hmain.1
      unfold PFor.started
      omega
    have hnext := mainLeft_createNext (nthOf n parallel) (s.started + 1)
    simp only [PFor.started, hleft, hstarted, mainLeft] at *
    omega
  · rw [hm]
    simp only [mainLeft]
    omega
  · have hleft := Pool.left_step h.pool hbound hroom' hp
    rw [hm]
    split_ifs
    · have hjoin := mainLeft_joinNext (nthOf n parallel) s.started (pool.threads.length - 1) 0
      simp only [PFor.started, mainLeft] at *
      omega
    · simp only [mainLeft]
      omega
  · have hleft := Pool.left_step h.pool hbound hroom' hp
    obtain ⟨-, hlen, -⟩ := threads_of_step hp
    simp only [PFor.started, hlen]
    omega
  · rw [hm] at hmain ⊢
    have hjoin := mainLeft_joinNext (nthOf n parallel) s.started s.started (k + 1)
    have hk' := hmain.1
    simp only [PFor.started, mainLeft] at *
    omega

theorem PForInv.left_run (h : PForInv n parallel fn init s) (hroom : n.toNat + linkThreads + 1 < 2 ^ 64)
    {steps : List PForStep} (hrun : pforRun n parallel fn s steps = some s') :
    steps.length + pforLeft n parallel s' ≤ pforLeft n parallel s := by
  induction steps generalizing s with
  | nil =>
    obtain rfl := Option.some.inj hrun
    simp
  | cons a as ih =>
    obtain ⟨t, ht, hrest⟩ := Option.bind_eq_some_iff.mp hrun
    have hlt := h.left_step hroom ht
    have hle := ih (h.step hroom ht) hrest
    rw [List.length_cons]
    omega

/-! ## What `parallel_for` has done when it returns -/

/-- When `parallel_for` has returned, the function was called once for each index and all calls have returned. -/
theorem PForInv.returned (h : PForInv n parallel fn init s) (hret : s.main = .returned) :
    s.pool.returned.Perm (List.range n.toNat) ∧ ∀ i, s.pool.table i = if i < n.toNat then fn i else init i := by
  have hmain := h.main
  rw [hret] at hmain
  exact h.pool.finished h.nonempty hmain

/-- A loop that fills the places of a table. -/
theorem foldl_update_range (fn init : ℕ → β) (m i : ℕ) :
    (List.range m).foldl (fun table i => Function.update table i (fn i)) init i = if i < m then fn i else init i := by
  induction m with
  | zero => simp
  | succ m ih =>
    rw [List.range_succ, List.foldl_append, List.foldl_cons, List.foldl_nil]
    rcases Nat.lt_trichotomy i m with hlt | rfl | hgt
    · rw [Function.update_of_ne (by omega), ih, if_pos hlt, if_pos (by omega)]
    · rw [Function.update_self, if_pos (by omega)]
    · rw [Function.update_of_ne (by omega), ih, if_neg (by omega), if_neg (by omega)]

/-- In every interleaving of the threads, with any number of them created, no index is handed out twice or beyond the
end; the run ends after a bounded number of steps, can always go on until then, and when `parallel_for` returns the
function has been called exactly once for each index, as a loop would have done. -/
theorem parallel_for_agrees_with_loop (n : U64) (parallel : Bool) (fn init : ℕ → β) (steps : List PForStep) (s : PFor β)
    (hroom : n.toNat + linkThreads + 1 < 2 ^ 64)
    (hrun : pforRun n parallel fn (pforStart n parallel init) steps = some s) :
    s.pool.begun.Nodup ∧ (∀ i ∈ s.pool.begun, i < n.toNat) ∧
      steps.length ≤ 2 * n.toNat + 4 * linkThreads + 4 ∧
      (s.main ≠ .returned → ∃ a s', pforStep n parallel fn s a = some s') ∧
      (s.main = .returned →
        s.pool.returned.Perm (List.range n.toNat) ∧
        s.pool.table = (List.range n.toNat).foldl (fun table i => Function.update table i (fn i)) init) := by
  have hstart := pforInv_start n parallel fn init
  have hinv := hstart.run hroom hrun
  have hleft := hstart.left_run hroom hrun
  have hnth := nthOf_le n parallel
  refine ⟨?_, ?_, ?_, hinv.progress, ?_⟩
  · rw [hinv.pool.begun_eq]
    exact List.nodup_range
  · intro i hi
    rw [hinv.pool.begun_eq, List.mem_range] at hi
    have := hinv.pool.begun_le
    omega
  · have hcreate := mainLeft_createNext (nthOf n parallel) 0
    have hinit : pforLeft n parallel (pforStart n parallel init) =
        2 * (n.toNat + (nthOf n parallel + 1)) +
          mainLeft (nthOf n parallel) 0 (createNext (nthOf n parallel) 0) := by
      simp [pforLeft, pforStart, Pool.left, Pool.open, Phase.index?, PFor.started]
    omega
  · intro hret
    obtain ⟨hperm, htable⟩ := hinv.returned hret
    refine ⟨hperm, funext fun i => ?_⟩
    rw [htable i, foldl_update_range]

/-- Two indexes, one thread beside the calling one. -/
def twoThreads : List PForStep :=
  [.create true, .create false, .thread 1, .thread 0, .thread 1, .thread 0, .thread 1, .thread 0, .join]

theorem parallel_for_two_threads :
    ∃ s, pforRun 2 true (fun i => i) (pforStart 2 true fun _ => 0) twoThreads = some s ∧ s.main = .returned ∧
      s.pool.returned.Perm [0, 1] := by
  have hmain : (pforRun 2 true (fun i => i) (pforStart 2 true fun _ => 0) twoThreads).map PFor.main =
      some .returned := by decide +kernel
  obtain ⟨s, hs, hret⟩ := Option.map_eq_some_iff.mp hmain
  have h := parallel_for_agrees_with_loop 2 true (fun i => i) (fun _ => 0) twoThreads s (by decide) hs
  exact ⟨s, hs, hret, (h.2.2.2.2 hret).1⟩

end Ntprof.Loader
