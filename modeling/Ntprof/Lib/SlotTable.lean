import Mathlib.Data.Fintype.Card
import Mathlib.Data.Int.Cast.Defs
import Mathlib.Tactic.Abel

/-!
# Accounting for a table of slots

A table of slots holds entries under construction, each with an owner; a slot without one is free. An
entry starts in a free slot or replaces the one in its slot, and it is finished by handing it over or by
dropping it. Counters that are kept beside the table, modulo anything, then stay in balance with it.
-/

namespace SlotTable

variable {ι κ R : Type*} [Fintype ι] [Zero κ] [DecidableEq κ]

/-- The number of slots that have an owner. -/
def occupied (owner : ι → κ) : ℕ := (Finset.univ.filter fun i => owner i ≠ 0).card

theorem occupied_le_card (owner : ι → κ) : occupied owner ≤ Fintype.card ι :=
  Finset.card_le_univ _

theorem occupied_eq_zero {owner : ι → κ} (h : occupied owner = 0) (i : ι) : owner i = 0 := by
  by_contra hi
  have hmem : i ∈ Finset.univ.filter fun i => owner i ≠ 0 := by simp [hi]
  rw [Finset.card_eq_zero.mp h] at hmem
  simp at hmem

theorem occupied_all_free {owner : ι → κ} (h : ∀ i, owner i = 0) : occupied owner = 0 := by
  simp [occupied, h]

variable [DecidableEq ι]

theorem filter_update (owner : ι → κ) (i : ι) (k : κ) :
    (Finset.univ.filter fun j => Function.update owner i k j ≠ 0) =
      if k ≠ 0 then insert i (Finset.univ.filter fun j => owner j ≠ 0)
      else (Finset.univ.filter fun j => owner j ≠ 0).erase i := by
  ext j
  by_cases hj : j = i
  · subst hj
    by_cases hk : k = 0 <;> simp [hk]
  · by_cases hk : k = 0 <;> simp [hk, hj]

/-- A slot that was free gets an owner. -/
theorem occupied_take {owner : ι → κ} {i : ι} {k : κ} (hi : owner i = 0) (hk : k ≠ 0) :
    occupied (Function.update owner i k) = occupied owner + 1 := by
  rw [occupied, filter_update, if_pos hk, Finset.card_insert_of_notMem (by simp [hi])]
  rfl

/-- A slot passes from one owner to another. -/
theorem occupied_replace {owner : ι → κ} {i : ι} {k : κ} (hi : owner i ≠ 0) (hk : k ≠ 0) :
    occupied (Function.update owner i k) = occupied owner := by
  rw [occupied, filter_update, if_pos hk, Finset.insert_eq_of_mem (by simp [hi])]
  rfl

/-- A slot becomes free. -/
theorem occupied_release {owner : ι → κ} {i : ι} (hi : owner i ≠ 0) :
    occupied owner = occupied (Function.update owner i 0) + 1 := by
  rw [occupied, occupied, filter_update, if_neg (by simp),
    Finset.card_erase_add_one (by simp [hi])]

/-- The counters kept beside a table. -/
@[ext]
structure Ledger (R : Type*) where
  inflight : R
  sampled : R
  emitted : R
  dropped : R
  stale : R

variable [AddCommGroupWithOne R]

/-- An entry starts, in place of another one if `busy`. -/
def Ledger.start (l : Ledger R) (busy : Bool) : Ledger R :=
  if busy then { l with sampled := l.sampled + 1, stale := l.stale + 1 }
  else { l with sampled := l.sampled + 1, inflight := l.inflight + 1 }

/-- An entry is over: dropped if `full`, handed over otherwise. -/
def Ledger.finish (l : Ledger R) (full : Bool) : Ledger R :=
  if full then { l with inflight := l.inflight - 1, dropped := l.dropped + 1 }
  else { l with inflight := l.inflight - 1, emitted := l.emitted + 1 }

/-- The counters agree with the table. -/
structure Balanced (owner : ι → κ) (l : Ledger R) : Prop where
  inflight : l.inflight = occupied owner
  sampled : l.sampled = l.emitted + l.dropped + l.stale + occupied owner

namespace Balanced

variable {owner : ι → κ} {l : Ledger R}

theorem start (h : Balanced owner l) (i : ι) {k : κ} (hk : k ≠ 0) :
    Balanced (Function.update owner i k) (l.start (owner i ≠ 0)) := by
  by_cases hi : owner i = 0
  · constructor
    · simp [Ledger.start, hi, occupied_take hi hk, h.inflight]
    · simp [Ledger.start, hi, occupied_take hi hk, h.sampled, add_assoc]
  · constructor
    · simp [Ledger.start, hi, occupied_replace hi hk, h.inflight]
    · simp only [Ledger.start, ne_eq, hi, not_false_eq_true, decide_true, if_true,
        occupied_replace hi hk, h.sampled]
      abel

theorem finish (h : Balanced owner l) {i : ι} (hi : owner i ≠ 0) (full : Bool) :
    Balanced (Function.update owner i 0) (l.finish full) := by
  have hocc := occupied_release hi
  have hin := h.inflight
  have hs := h.sampled
  rw [hocc, Nat.cast_add, Nat.cast_one] at hin hs
  cases full <;> constructor
  · simp [Ledger.finish, hin]
  · simp only [Ledger.finish, Bool.false_eq_true, if_false, hs]
    abel
  · simp [Ledger.finish, hin]
  · simp only [Ledger.finish, if_true, hs]
    abel

omit [DecidableEq ι] in
/-- With nothing in flight, modulo something larger than the table, no slot has an owner. -/
theorem free_of_inflight (h : Balanced owner l) (hinj : ∀ n ≤ Fintype.card ι, (n : R) = 0 → n = 0)
    (h0 : l.inflight = 0) (i : ι) : owner i = 0 :=
  occupied_eq_zero (hinj _ (occupied_le_card owner) (h.inflight.symm.trans h0)) i

end Balanced

end SlotTable
