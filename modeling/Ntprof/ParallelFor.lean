import Ntprof.Lib.WorkSharing
import Ntprof.Record

/-!
# Links from a few threads (`src/loader.c`)

`parallel_for` calls a function for every index below `n`, from up to `LINK_THREADS` threads and the calling one. The
threads are numbered, the calling one is 0. Any of them may make the next step.
-/

namespace Ntprof.Loader

open WorkSharing

/-- `LINK_THREADS`. -/
def linkThreads : ℕ := 16

/-- `nth` in `parallel_for`. -/
def nthOf (n : U64) (parallel : Bool) : ℕ := if parallel then min n.toNat linkThreads else 0

/-- Where the calling thread is in `parallel_for`. -/
inductive MainPhase where
  | creating
  | working
  | joining (k : ℕ)
  | returned
  deriving DecidableEq, Repr

/-- `struct pfor` with the threads that use it. -/
structure PFor (β : Type) where
  pool : Pool 64 β
  main : MainPhase

/-- `started`. -/
def PFor.started {β : Type} (s : PFor β) : ℕ := s.pool.threads.length - 1

/-- What happens next: `pthread_create` returns, a thread goes on in `pfor_worker`, or `pthread_join` returns. -/
inductive PForStep where
  | create (ok : Bool)
  | thread (k : ℕ)
  | join
  deriving DecidableEq, Repr

/-- The loop that creates threads goes on while there are fewer than `nth`. -/
def createNext (nth started : ℕ) : MainPhase := if started < nth then .creating else .working

/-- The loop that joins threads goes on while there are more. -/
def joinNext (started k : ℕ) : MainPhase := if k < started then .joining k else .returned

/-- `parallel_for` begins; `init` is what `arg` points to. -/
def pforStart {β : Type} (n : U64) (parallel : Bool) (init : ℕ → β) : PFor β where
  pool := { threads := [.fetching], table := init }
  main := createNext (nthOf n parallel) 0

/-- One step of `parallel_for` and its threads. -/
def pforStep {β : Type} (n : U64) (parallel : Bool) (fn : ℕ → β) (s : PFor β) : PForStep → Option (PFor β)
  | .create ok =>
    if s.main = .creating then
      if ok then some ⟨s.pool.spawn, createNext (nthOf n parallel) (s.started + 1)⟩
      else some { s with main := .working }
    else none
  | .thread 0 =>
    if s.main = .working then
      (s.pool.step n fn 0).map fun pool =>
        ⟨pool, if pool.threads[0]? = some .ended then joinNext s.started 0 else .working⟩
    else none
  | .thread (k + 1) => (s.pool.step n fn (k + 1)).map fun pool => { s with pool := pool }
  | .join =>
    match s.main with
    | .joining k =>
      if s.pool.threads[k + 1]? = some .ended then some { s with main := joinNext s.started (k + 1) } else none
    | _ => none

/-- A number of steps. -/
def pforRun {β : Type} (n : U64) (parallel : Bool) (fn : ℕ → β) (s : PFor β) : List PForStep → Option (PFor β)
  | [] => some s
  | a :: as => (pforStep n parallel fn s a).bind fun s => pforRun n parallel fn s as

end Ntprof.Loader
