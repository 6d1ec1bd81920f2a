import Ntprof.Lib.SlotTable

/-!
# Following the entries of a table of slots

An entry of a table gets a ticket when it starts. What a step did to an entry is read off the counters beside the
table and the number of entries handed over, and noted with the ticket that the slot holds. An entry then waits in
its slot until it is settled: nothing takes it out of the table without a counter saying so.
-/

namespace SlotTable

variable {ι κ R : Type*}

/-- How an entry ended. -/
inductive Fate where
  | emitted
  | dropped
  | replaced
  deriving DecidableEq, Repr

/-- What a step did to the entry in a slot, and whether another one started there. -/
structure Change where
  fates : List Fate
  started : Bool

/-- The tickets of a run so far, from 1 on. -/
structure Tickets (ι : Type*) where
  issued : ℕ := 0
  /-- the ticket of the last entry of each slot -/
  held : ι → ℕ := fun _ => 0
  settled : List (ℕ × Fate) := []

/-- The entry of a ticket has ended. -/
def Tickets.Settled (t : Tickets ι) (n : ℕ) : Prop := ∃ fate, (n, fate) ∈ t.settled

/-- A step that changed the entry in slot `i`. -/
def Tickets.next [DecidableEq ι] (t : Tickets ι) (i : ι) (c : Change) : Tickets ι :=
  { issued := if c.started then t.issued + 1 else t.issued
    held := if c.started then Function.update t.held i (t.issued + 1) else t.held
    settled := t.settled ++ c.fates.map fun fate => (t.held i, fate) }

/-- The change that the counters show, and the numbers of entries handed over before and after. -/
def Ledger.change [DecidableEq R] (l l' : Ledger R) (out out' : ℕ) : Change :=
  { fates := (if out' = out then [] else [.emitted]) ++ (if l'.dropped = l.dropped then [] else [.dropped]) ++
      (if l'.stale = l.stale then [] else [.replaced])
    started := decide (l'.sampled ≠ l.sampled) }

section Tickets

variable [DecidableEq ι] {t : Tickets ι} {n : ℕ} {i j : ι} {c : Change}

theorem Tickets.Settled.next (h : t.Settled n) (i : ι) (c : Change) : (t.next i c).Settled n := by
  obtain ⟨fate, hf⟩ := h
  exact ⟨fate, List.mem_append_left _ hf⟩

theorem Tickets.settled_next (hn : t.held i = n) (hc : c.fates ≠ []) : (t.next i c).Settled n := by
  obtain ⟨fate, hf⟩ := List.exists_mem_of_ne_nil _ hc
  refine ⟨fate, List.mem_append_right _ ?_⟩
  rw [← hn]
  exact List.mem_map_of_mem hf

theorem Tickets.held_next_of_ne (hj : j ≠ i) : (t.next i c).held j = t.held j := by
  unfold Tickets.next
  cases c.started with
  | true => exact Function.update_of_ne hj ..
  | false => rfl

theorem Tickets.held_next_quiet (hc : c.started = false) : (t.next i c).held = t.held := by
  simp [Tickets.next, hc]

end Tickets

section Waiting

variable [DecidableEq ι] [DecidableEq R] {owner owner' : ι → κ} {t : Tickets ι} {n out out' : ℕ} {i j : ι} {k : κ}
  {l l' : Ledger R}

/-- The entry with ticket `n`, that `k` owns, is in slot `i` or has been settled. -/
def Waiting (owner : ι → κ) (t : Tickets ι) (n : ℕ) (i : ι) (k : κ) : Prop :=
  t.Settled n ∨ (t.held i = n ∧ owner i = k)

/-- A step that neither starts nor ends an entry. -/
theorem Waiting.touched (h : Waiting owner t n i k) (howner : owner' = owner) (hl : l' = l) :
    Waiting owner' (t.next j (l.change l' out out)) n i k := by
  subst howner hl
  rcases h with h | ⟨hn, hk⟩
  · exact Or.inl (h.next _ _)
  · refine Or.inr ⟨?_, hk⟩
    rw [Tickets.held_next_quiet (by simp [Ledger.change])]
    exact hn

/-- The counters tell what became of the entry in the slot that a step is about. -/
theorem Waiting.changed [Zero κ] (h : Waiting owner t n i k) (hk0 : k ≠ 0)
    (howner : ∀ a, a ≠ j → owner' a = owner a) (hend : owner j ≠ 0 → (l.change l' out out').fates ≠ []) :
    Waiting owner' (t.next j (l.change l' out out')) n i k := by
  rcases h with h | ⟨hn, hk⟩
  · exact Or.inl (h.next _ _)
  · by_cases hij : i = j
    · subst hij
      exact Or.inl (Tickets.settled_next hn (hend (by rwa [hk])))
    · refine Or.inr ⟨?_, (howner i hij).trans hk⟩
      rw [Tickets.held_next_of_ne hij]
      exact hn

variable [AddCommGroupWithOne R] [NeZero (1 : R)]

theorem Ledger.fates_finish (l : Ledger R) (full : Bool) :
    (l.change (l.finish full) out (if full then out else out + 1)).fates ≠ [] := by
  cases full <;> simp [Ledger.change, Ledger.finish]

theorem Ledger.fates_start (l : Ledger R) : (l.change (l.start true) out out).fates ≠ [] := by
  simp [Ledger.change, Ledger.start]

/-- The entry in the slot ended before another one started there. -/
theorem Ledger.fates_finish_start (l : Ledger R) (full busy : Bool) :
    (l.change ((l.finish full).start busy) out (if full then out else out + 1)).fates ≠ [] := by
  cases full <;> cases busy <;> simp [Ledger.change, Ledger.finish, Ledger.start]

theorem Ledger.started_start (l : Ledger R) (busy : Bool) : (l.change (l.start busy) out out').started = true := by
  cases busy <;> simp [Ledger.change, Ledger.start]

theorem Ledger.started_finish_start (l : Ledger R) (full busy : Bool) :
    (l.change ((l.finish full).start busy) out out').started = true := by
  cases full <;> cases busy <;> simp [Ledger.change, Ledger.finish, Ledger.start]

end Waiting

end SlotTable
