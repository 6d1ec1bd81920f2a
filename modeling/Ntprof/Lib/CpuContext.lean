import Mathlib.Logic.Function.Basic
import Mathlib.Data.Nat.Notation

/-!
# Contexts of threads in per-CPU slots

Each CPU has one slot. A hook at the entry of a call may store a context in the slot of the CPU it runs
on, tagged with its thread; the hook at the exit clears the tag if it finds it on its own CPU. Threads
are preempted and move between CPUs at any time, so the two hooks of a call may run on different CPUs.

A run is followed together with the calls: which call each thread is in, and the entry of which call
stored what is in a slot.
-/

namespace CpuContext

variable {θ σ ε : Type*} [Zero θ] [DecidableEq θ]

/-- What a hook on thread `t` does on CPU `cpu`. -/
inductive Op (θ : Type*) where
  | enter (cpu : ℕ) (t : θ) (stores : Bool)
  | leave (cpu : ℕ) (t : θ)
  | other

/-- The tags of the slots after a hook. -/
def tagStep (tag : ℕ → θ) : Op θ → ℕ → θ
  | .enter cpu t stores => if stores then Function.update tag cpu t else tag
  | .leave cpu t => if tag cpu = t then Function.update tag cpu 0 else tag
  | .other => tag

/-- The calls of a run so far, numbered from 1 on. -/
structure Calls (θ : Type*) where
  count : ℕ := 0
  /-- the call that a thread is in -/
  inCall : θ → Option ℕ := fun _ => none
  /-- the call whose entry stored what is in the slot of a CPU -/
  storedBy : ℕ → ℕ := fun _ => 0

/-- The calls after a hook. -/
def Calls.next (m : Calls θ) : Op θ → Calls θ
  | .enter cpu t stores =>
    { count := m.count + 1
      inCall := Function.update m.inCall t (some (m.count + 1))
      storedBy := if stores then Function.update m.storedBy cpu (m.count + 1) else m.storedBy }
  | .leave _ t => { m with inCall := Function.update m.inCall t none }
  | .other => m

/-- A thread enters a call when it is in none. When it leaves, its tag is on no CPU but its own. No thread
has the id that marks a cleared slot. -/
def Op.Clean (tag : ℕ → θ) (m : Calls θ) : Op θ → Prop
  | .enter _ t _ => t ≠ 0 ∧ m.inCall t = none
  | .leave cpu t => t ≠ 0 ∧ ∀ c, c ≠ cpu → tag c ≠ t
  | .other => True

/-- Wherever a thread finds its tag, the entry of the call that it is in stored the context. -/
def Attributed (tag : ℕ → θ) (m : Calls θ) : Prop :=
  ∀ cpu, tag cpu ≠ 0 → m.inCall (tag cpu) = some (m.storedBy cpu)

theorem Attributed.step {tag : ℕ → θ} {m : Calls θ} {op : Op θ} (h : Attributed tag m)
    (hop : op.Clean tag m) : Attributed (tagStep tag op) (m.next op) := by
  intro cpu htag
  cases op with
  | enter c t stores =>
    obtain ⟨-, hnone⟩ := hop
    -- no slot carries the tag of a thread that is in no call
    have hfresh : ∀ i, tag i ≠ 0 → tag i ≠ t := by
      intro i hi heq
      have hcall := h i hi
      rw [heq, hnone] at hcall
      cases hcall
    have hold : tag cpu ≠ 0 →
        Function.update m.inCall t (some (m.count + 1)) (tag cpu) = some (m.storedBy cpu) := by
      intro hne
      rw [Function.update_of_ne (hfresh cpu hne)]
      exact h cpu hne
    cases stores with
    | false => exact hold htag
    | true =>
      simp only [tagStep, Calls.next, if_true] at htag ⊢
      by_cases hc : cpu = c
      · rw [hc, Function.update_self, Function.update_self, Function.update_self]
      · rw [Function.update_of_ne hc] at htag ⊢
        rw [Function.update_of_ne hc]
        exact hold htag
  | leave c t =>
    obtain ⟨-, hgone⟩ := hop
    simp only [tagStep, Calls.next] at htag ⊢
    have hold : tag cpu ≠ 0 → tag cpu ≠ t →
        Function.update m.inCall t none (tag cpu) = some (m.storedBy cpu) := by
      intro hne ht
      rw [Function.update_of_ne ht]
      exact h cpu hne
    split at htag <;> rename_i hfound
    · rw [if_pos hfound]
      by_cases hc : cpu = c
      · rw [hc, Function.update_self] at htag
        exact absurd rfl htag
      · rw [Function.update_of_ne hc] at htag ⊢
        exact hold htag (hgone cpu hc)
    · rw [if_neg hfound]
      refine hold htag fun ht => ?_
      by_cases hc : cpu = c
      · exact hfound (hc ▸ ht)
      · exact hgone cpu hc ht
  | other => exact h cpu htag

/-- A system that keeps such slots: the tags it keeps, and what each of its events does to them. -/
structure View (σ ε θ : Type*) [Zero θ] [DecidableEq θ] where
  step : σ → ε → σ
  tag : σ → ℕ → θ
  op : σ → ε → Op θ
  tag_step : ∀ s e, tag (step s e) = tagStep (tag s) (op s e)

namespace View

variable (v : View σ ε θ)

/-- A run of the system, with its calls. -/
def run (sm : σ × Calls θ) (es : List ε) : σ × Calls θ :=
  es.foldl (fun sm e => (v.step sm.1 e, sm.2.next (v.op sm.1 e))) sm

/-- Every event of a run is clean in the state it happens in. -/
def CleanRun (sm : σ × Calls θ) : List ε → Prop
  | [] => True
  | e :: es => (v.op sm.1 e).Clean (v.tag sm.1) sm.2 ∧
      CleanRun (v.step sm.1 e, sm.2.next (v.op sm.1 e)) es

theorem run_fst (sm : σ × Calls θ) (es : List ε) : (v.run sm es).1 = es.foldl v.step sm.1 := by
  induction es generalizing sm with
  | nil => rfl
  | cons e es ih => exact ih (v.step sm.1 e, sm.2.next (v.op sm.1 e))

theorem attributed_run {sm : σ × Calls θ} {es : List ε} (h : Attributed (v.tag sm.1) sm.2)
    (hes : v.CleanRun sm es) : Attributed (v.tag (v.run sm es).1) (v.run sm es).2 := by
  induction es generalizing sm with
  | nil => exact h
  | cons e es ih =>
    refine ih ?_ hes.2
    rw [v.tag_step]
    exact h.step hes.1

end View

end CpuContext
