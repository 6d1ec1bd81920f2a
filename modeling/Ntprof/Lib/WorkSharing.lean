import Mathlib.Data.BitVec
import Mathlib.Data.List.Perm.Basic
import Mathlib.Data.List.Count

/-!
# Sharing work by a counter

Threads take the indexes below `n` from a counter that they fetch and increment in one step, and call a function for
each index they get. The function fills the place of its index in a table. A thread whose index is not below `n` ends.
-/

namespace WorkSharing

/-- Where a thread is in its loop. -/
inductive Phase where
  | fetching
  /-- it is in the call for `i` -/
  | calling (i : ℕ)
  | ended
  deriving DecidableEq, Repr

/-- The index of the call that a thread is in. -/
def Phase.index? : Phase → Option ℕ
  | .calling i => some i
  | _ => none

/-- The counter, the threads and the table, and the indexes that calls have begun and returned for. -/
structure Pool (w : ℕ) (β : Type*) where
  next : BitVec w := 0
  threads : List Phase
  table : ℕ → β
  begun : List ℕ := []
  returned : List ℕ := []

variable {w : ℕ} {β : Type*} {n : BitVec w} {fn : ℕ → β} {p p' : Pool w β} {k : ℕ}

/-- The calls that threads are in. -/
def Pool.open (p : Pool w β) : List ℕ := p.threads.filterMap Phase.index?

/-- A step of thread `k`: it fetches an index, or its call returns. -/
def Pool.step (n : BitVec w) (fn : ℕ → β) (p : Pool w β) (k : ℕ) : Option (Pool w β) :=
  match p.threads[k]? with
  | none => none
  | some .ended => none
  | some .fetching =>
    if p.next < n then
      some { p with next := p.next + 1, threads := p.threads.set k (.calling p.next.toNat)
                    begun := p.begun ++ [p.next.toNat] }
    else some { p with next := p.next + 1, threads := p.threads.set k .ended }
  | some (.calling i) =>
    some { p with threads := p.threads.set k .fetching, table := Function.update p.table i (fn i)
                  returned := p.returned ++ [i] }

/-- One more thread. -/
def Pool.spawn (p : Pool w β) : Pool w β := { p with threads := p.threads ++ [.fetching] }

/-- What a step can be. -/
theorem step_cases (h : p.step n fn k = some p') :
    (p.threads[k]? = some .fetching ∧ p.next < n ∧
      p' = { p with next := p.next + 1, threads := p.threads.set k (.calling p.next.toNat)
                    begun := p.begun ++ [p.next.toNat] }) ∨
    (p.threads[k]? = some .fetching ∧ n ≤ p.next ∧
      p' = { p with next := p.next + 1, threads := p.threads.set k .ended }) ∨
    ∃ i, p.threads[k]? = some (.calling i) ∧
      p' = { p with threads := p.threads.set k .fetching, table := Function.update p.table i (fn i)
                    returned := p.returned ++ [i] } := by
  unfold Pool.step at h
  split at h
  · cases h
  · cases h
  · rename_i hk
    split_ifs at h with hlt
    · exact Or.inl ⟨hk, hlt, (Option.some.inj h).symm⟩
    · exact Or.inr (Or.inl ⟨hk, BitVec.not_lt.mp hlt, (Option.some.inj h).symm⟩)
  · rename_i i hk
    exact Or.inr (Or.inr ⟨i, hk, (Option.some.inj h).symm⟩)

/-- A thread that has not ended has a step. -/
theorem exists_step {ph : Phase} (hk : p.threads[k]? = some ph) (hne : ph ≠ .ended) :
    ∃ p', p.step n fn k = some p' := by
  unfold Pool.step
  rw [hk]
  cases ph with
  | fetching => by_cases hlt : p.next < n <;> simp [hlt]
  | calling i => simp
  | ended => exact absurd rfl hne

/-- The indexes are handed out in order, the calls that have not returned are those the threads are in, and a thread
has ended only when all indexes were handed out. -/
structure Pool.Inv (n : BitVec w) (fn init : ℕ → β) (p : Pool w β) : Prop where
  next_eq : p.next.toNat = p.begun.length + p.threads.count .ended
  begun_eq : p.begun = List.range p.begun.length
  begun_le : p.begun.length ≤ n.toNat
  ended : .ended ∈ p.threads → p.begun.length = n.toNat
  calls : (p.returned ++ p.open).Perm p.begun
  table_eq : ∀ i, p.table i = if i ∈ p.returned then fn i else init i

/-! ## One element of a list of threads -/

section Threads

variable {α γ : Type*}

/-- Setting an element changes the count by what comes and what goes. -/
theorem count_set_add [DecidableEq α] {l : List α} {k : ℕ} {a : α} (b x : α) (hk : l[k]? = some a) :
    (l.set k b).count x + (if a = x then 1 else 0) = l.count x + if b = x then 1 else 0 := by
  induction l generalizing k with
  | nil => simp at hk
  | cons y l ih =>
    cases k with
    | zero =>
      simp only [List.getElem?_cons_zero, Option.some.injEq] at hk
      subst hk
      rw [List.set_cons_zero, List.count_cons, List.count_cons]
      simp only [beq_iff_eq]
      omega
    | succ k =>
      rw [List.getElem?_cons_succ] at hk
      have hrest := ih hk
      rw [List.set_cons_succ, List.count_cons, List.count_cons]
      omega

/-- Setting an element replaces what it gives. -/
theorem perm_filterMap_set {l : List α} {k : ℕ} {a : α} (b : α) (f : α → Option γ) (hk : l[k]? = some a) :
    ((f a).toList ++ (l.set k b).filterMap f).Perm ((f b).toList ++ l.filterMap f) := by
  induction l generalizing k with
  | nil => simp at hk
  | cons y l ih =>
    have hcons : ∀ (z : α) (m : List α), (z :: m).filterMap f = (f z).toList ++ m.filterMap f := by
      intro z m
      cases hz : f z <;> simp [hz]
    cases k with
    | zero =>
      simp only [List.getElem?_cons_zero, Option.some.injEq] at hk
      subst hk
      rw [List.set_cons_zero, hcons, hcons]
      exact List.perm_append_comm_assoc ..
    | succ k =>
      rw [List.getElem?_cons_succ] at hk
      rw [List.set_cons_succ, hcons, hcons]
      have hfront := List.perm_append_comm_assoc (f a).toList (f y).toList ((l.set k b).filterMap f)
      have hback := List.perm_append_comm_assoc (f y).toList (f b).toList (l.filterMap f)
      exact (hfront.trans ((ih hk).append_left _)).trans hback

end Threads

/-! ## Steps keep the invariant -/

theorem inv_start (n : BitVec w) (fn init : ℕ → β) :
    Pool.Inv n fn init { threads := [.fetching], table := init } where
  next_eq := by simp
  begun_eq := by simp
  begun_le := by simp
  ended := by simp
  calls := by simp [Pool.open, Phase.index?]
  table_eq := by simp

theorem Pool.Inv.spawn {init : ℕ → β} (h : p.Inv n fn init) : p.spawn.Inv n fn init where
  next_eq := by
    have hcount : p.spawn.threads.count .ended = p.threads.count .ended := by simp [Pool.spawn]
    rw [hcount]
    exact h.next_eq
  begun_eq := h.begun_eq
  begun_le := h.begun_le
  ended := by
    intro hmem
    rcases List.mem_append.mp hmem with hmem | hmem
    · exact h.ended hmem
    · simp at hmem
  calls := by
    have hopen : p.spawn.open = p.open := by simp [Pool.open, Pool.spawn, Phase.index?]
    rw [hopen]
    exact h.calls
  table_eq := h.table_eq

/-- A thread that fetches has not ended. -/
theorem count_ended_lt (hk : p.threads[k]? = some .fetching) : p.threads.count .ended < p.threads.length := by
  have hset := count_set_add .ended .ended hk
  have hlen : (p.threads.set k .ended).count .ended ≤ (p.threads.set k .ended).length := List.count_le_length
  simp only [reduceCtorEq, if_false, if_true, List.length_set] at hset hlen
  omega

/-- The counter does not wrap while a thread fetches. -/
theorem Pool.Inv.next_succ {init : ℕ → β} (h : p.Inv n fn init) (hroom : n.toNat + p.threads.length < 2 ^ w)
    (hk : p.threads[k]? = some .fetching) : (p.next + 1).toNat = p.next.toNat + 1 := by
  have hcount := count_ended_lt hk
  have hle := h.begun_le
  have hnext := h.next_eq
  have hw : 0 < w := by
    rcases Nat.eq_zero_or_pos w with rfl | hw
    · rw [Nat.pow_zero] at hroom
      omega
    · exact hw
  have hone : (1 : BitVec w).toNat = 1 := BitVec.toNat_one hw
  rw [BitVec.toNat_add, hone, Nat.mod_eq_of_lt (by omega)]

/-- While indexes are left no thread has ended. -/
theorem Pool.Inv.none_ended {init : ℕ → β} (h : p.Inv n fn init) (hlt : p.next < n) :
    p.threads.count .ended = 0 := by
  rw [List.count_eq_zero]
  intro hmem
  have hfull := h.ended hmem
  have hnext := h.next_eq
  have : p.next.toNat < n.toNat := hlt
  omega

theorem Pool.Inv.step {init : ℕ → β} (h : p.Inv n fn init) (hroom : n.toNat + p.threads.length < 2 ^ w)
    (hstep : p.step n fn k = some p') : p'.Inv n fn init := by
  rcases step_cases hstep with ⟨hk, hlt, rfl⟩ | ⟨hk, hle, rfl⟩ | ⟨i, hk, rfl⟩
  · -- an index is handed out
    have hsucc := h.next_succ hroom hk
    have hnone := h.none_ended hlt
    have hnext : p.next.toNat = p.begun.length := by
      have := h.next_eq
      omega
    have hcount := count_set_add (.calling p.next.toNat) .ended hk
    have hopen := perm_filterMap_set (.calling p.next.toNat) Phase.index? hk
    refine ⟨?_, ?_, ?_, ?_, ?_, h.table_eq⟩
    · simp only [hsucc, List.length_append, List.length_cons, List.length_nil, reduceCtorEq, if_false] at hcount ⊢
      omega
    · rw [List.length_append, List.length_singleton, List.range_succ, ← h.begun_eq, hnext]
    · rw [List.length_append, List.length_singleton, ← hnext]
      exact hlt
    · intro hmem
      have hpos : 0 < (p.threads.set k (.calling p.next.toNat)).count .ended := List.count_pos_iff.mpr hmem
      simp only [reduceCtorEq, if_false] at hcount
      omega
    · have hperm : (p.returned ++ p.open ++ [p.next.toNat]).Perm (p.begun ++ [p.next.toNat]) := h.calls.append_right _
      refine List.Perm.trans ?_ hperm
      rw [List.append_assoc]
      refine List.Perm.append_left _ ?_
      exact hopen.trans List.perm_append_comm
  · -- the thread ends
    have hsucc := h.next_succ hroom hk
    have hfull : p.begun.length = n.toNat := by
      by_cases hmem : Phase.ended ∈ p.threads
      · exact h.ended hmem
      · have hnext := h.next_eq
        rw [List.count_eq_zero.mpr hmem] at hnext
        have hle' : n.toNat ≤ p.next.toNat := hle
        have := h.begun_le
        omega
    have hcount := count_set_add .ended .ended hk
    have hopen := perm_filterMap_set .ended Phase.index? hk
    refine ⟨?_, h.begun_eq, h.begun_le, fun _ => hfull, ?_, h.table_eq⟩
    · simp only [hsucc, reduceCtorEq, if_false, if_true] at hcount ⊢
      have := h.next_eq
      omega
    · exact (List.Perm.append_left _ hopen).trans h.calls
  · -- a call returns
    have hcount := count_set_add .fetching .ended hk
    have hopen := perm_filterMap_set .fetching Phase.index? hk
    refine ⟨?_, h.begun_eq, h.begun_le, ?_, ?_, ?_⟩
    · simp only [reduceCtorEq, if_false] at hcount ⊢
      have := h.next_eq
      omega
    · intro hmem
      refine h.ended (List.count_pos_iff.mp ?_)
      have hpos : 0 < (p.threads.set k .fetching).count .ended := List.count_pos_iff.mpr hmem
      simp only [reduceCtorEq, if_false] at hcount
      omega
    · rw [List.append_assoc]
      exact (List.Perm.append_left _ hopen).trans h.calls
    · intro j
      show Function.update p.table i (fn i) j = _
      by_cases hj : j = i
      · subst hj
        simp
      · rw [Function.update_of_ne hj, h.table_eq j]
        simp [hj]

/-! ## When all threads have ended -/

/-- Once all threads have ended, the function was called once for each index, and every call has returned. -/
theorem Pool.Inv.finished {init : ℕ → β} (h : p.Inv n fn init) (hne : p.threads ≠ [])
    (hall : ∀ ph ∈ p.threads, ph = .ended) :
    p.returned.Perm (List.range n.toNat) ∧ ∀ i, p.table i = if i < n.toNat then fn i else init i := by
  obtain ⟨ph, hph⟩ := List.exists_mem_of_ne_nil _ hne
  have hended : Phase.ended ∈ p.threads := by
    rw [← hall ph hph]
    exact hph
  have hopen : p.open = [] := by
    rw [Pool.open, List.filterMap_eq_nil_iff]
    intro a ha
    rw [hall a ha]
    rfl
  have hperm : p.returned.Perm (List.range n.toNat) := by
    have hcalls := h.calls
    rw [hopen, List.append_nil, h.begun_eq, h.ended hended] at hcalls
    exact hcalls
  refine ⟨hperm, fun i => ?_⟩
  rw [h.table_eq i]
  simp only [hperm.mem_iff, List.mem_range]

/-! ## Steps that are left -/

/-- What the threads have left to do, for at most `m` of them. -/
def Pool.left (n : BitVec w) (m : ℕ) (p : Pool w β) : ℕ :=
  2 * (n.toNat + m - p.next.toNat) + p.open.length

theorem Pool.left_step {init : ℕ → β} {m : ℕ} (h : p.Inv n fn init) (hm : p.threads.length ≤ m)
    (hroom : n.toNat + m < 2 ^ w) (hstep : p.step n fn k = some p') : p'.left n m < p.left n m := by
  have hroom' : n.toNat + p.threads.length < 2 ^ w := by omega
  have hnext := h.next_eq
  have hle := h.begun_le
  unfold Pool.left
  rcases step_cases hstep with ⟨hk, hlt, rfl⟩ | ⟨hk, hge, rfl⟩ | ⟨i, hk, rfl⟩
  · have hopen := (perm_filterMap_set (.calling p.next.toNat) Phase.index? hk).length_eq
    have hcount := count_ended_lt hk
    have hsucc := h.next_succ hroom' hk
    simp only [Phase.index?, Option.toList_none, List.nil_append, Option.toList_some, List.length_append,
      List.length_singleton] at hopen
    simp only [Pool.open, hsucc] at *
    omega
  · have hopen := (perm_filterMap_set .ended Phase.index? hk).length_eq
    have hcount := count_ended_lt hk
    have hsucc := h.next_succ hroom' hk
    simp only [Phase.index?, Option.toList_none, List.nil_append] at hopen
    simp only [Pool.open, hsucc] at *
    omega
  · have hopen := (perm_filterMap_set .fetching Phase.index? hk).length_eq
    simp only [Phase.index?, Option.toList_none, List.nil_append, Option.toList_some, List.length_append,
      List.length_singleton] at hopen
    simp only [Pool.open] at *
    omega

end WorkSharing
