import Ntprof.Bpf.Proofs.MapProofs

/-!
# Counts that follow a map

The queue counts of either side: two counts for each queue, and a map of what is counted on them, each entry
with a flag for each count. An entry comes with its flags and leaves them bit by bit; the counts stay in step.
-/

namespace Ntprof.Bpf

open BpfMap

/-! ## Flags -/

theorem and_one_ne_zero (x : U32) : x &&& 1 ≠ 0 ↔ x.getLsbD 0 = true := by
  have h : x &&& BitVec.twoPow 32 0 = if x.getLsbD 0 then BitVec.twoPow 32 0 else 0#32 :=
    BitVec.and_twoPow x 0
  show x &&& BitVec.twoPow 32 0 ≠ 0 ↔ _
  rw [h]
  cases x.getLsbD 0 <;> decide

theorem and_two_ne_zero (x : U32) : x &&& 2 ≠ 0 ↔ x.getLsbD 1 = true := by
  have h : x &&& BitVec.twoPow 32 1 = if x.getLsbD 1 then BitVec.twoPow 32 1 else 0#32 :=
    BitVec.and_twoPow x 1
  show x &&& BitVec.twoPow 32 1 ≠ 0 ↔ _
  rw [h]
  cases x.getLsbD 1 <;> decide

/-- The two flags keep each other. -/
theorem and_both_one (x : U32) : x &&& (1 ||| 2) &&& 1 = x &&& 1 := BitVec.and_assoc ..

theorem and_both_two (x : U32) : x &&& (1 ||| 2) &&& 2 = x &&& 2 := BitVec.and_assoc ..

/-- Clearing `bits` clears the flags that are dropped, and no others. -/
theorem flag_dropped {bit : U32} (hbit : bit = 1 ∨ bit = 2) (flags bits : U32) :
    (decide (flags &&& bit ≠ 0)).toNat =
      (decide ((flags &&& ~~~bits) &&& bit ≠ 0)).toNat + (decide ((flags &&& bits) &&& bit ≠ 0)).toNat := by
  rcases hbit with rfl | rfl
  · simp only [and_one_ne_zero, BitVec.getLsbD_and, BitVec.getLsbD_not]
    cases flags.getLsbD 0 <;> cases bits.getLsbD 0 <;> decide
  · simp only [and_two_ne_zero, BitVec.getLsbD_and, BitVec.getLsbD_not]
    cases flags.getLsbD 1 <;> cases bits.getLsbD 1 <;> decide

/-! ## One count -/

section OneCount

variable {ν μ : Type} {queue : μ → U64} {flags : μ → U32} {get : ν → BitVec 32} {bit : U32}
  {stats : BpfMap U64 ν} {counted : BpfMap U64 μ} {k : U64} {c : μ} {u : ν → ν}

/-- The entry is counted on a queue under a flag. -/
def onQueue (queue : μ → U64) (flags : μ → U32) (bit : U32) (q : U64) (c : μ) : Bool :=
  decide (queue c = q) && decide (flags c &&& bit ≠ 0)

theorem onQueue_of_ne {q : U64} (h : queue c ≠ q) : onQueue queue flags bit q c = false := by
  simp [onQueue, h]

theorem onQueue_self : onQueue queue flags bit (queue c) c = decide (flags c &&& bit ≠ 0) := by
  simp [onQueue]

theorem sub_toNat (kept dropped : Bool) (x : BitVec 32) :
    x + BitVec.ofNat 32 kept.toNat - BitVec.ofNat 32 (kept.toNat + dropped.toNat) =
      if dropped then x - 1 else x := by
  cases kept
  · cases dropped <;> simp
  · cases dropped
    · simp
    · show x + 1 - 2 = x - 1
      bv_omega

/-- `bits` of an entry are dropped. -/
theorem inStep_clear (h : InStep get (onQueue queue flags bit) stats counted) (hok : counted.Ok)
    (hbit : bit = 1 ∨ bit = 2) (hc : counted.lookup k = some c) (bits : U32) {g : μ → μ}
    (hgq : queue (g c) = queue c) (hgf : flags (g c) = flags c &&& ~~~bits)
    (hu : ∀ v, get (u v) = if (flags c &&& bits) &&& bit ≠ 0 then get v - 1 else get v) :
    InStep get (onQueue queue flags bit) (stats.modify (queue c) u) (counted.modify k g) := by
  refine h.modify hok hc g ?_ ?_
  · intro q hq
    exact ⟨onQueue_of_ne (Ne.symm hq), onQueue_of_ne (by rw [hgq]; exact Ne.symm hq)⟩
  · intro v
    have hnew : onQueue queue flags bit (queue c) (g c) = decide ((flags c &&& ~~~bits) &&& bit ≠ 0) := by
      rw [← hgq, onQueue_self, hgf]
    have hdrop := flag_dropped hbit (flags c) bits
    rw [hu, hnew, onQueue_self, hdrop, sub_toNat]
    simp only [decide_eq_true_eq]

/-- An entry is forgotten, with all its flags. -/
theorem inStep_forget (h : InStep get (onQueue queue flags bit) stats counted) (hok : counted.Ok)
    (hc : counted.lookup k = some c)
    (hu : ∀ v, get (u v) = if flags c &&& bit ≠ 0 then get v - 1 else get v) :
    InStep get (onQueue queue flags bit) (stats.modify (queue c) u) (counted.delete k) := by
  refine h.delete hok hc ?_ ?_
  · intro q hq
    exact onQueue_of_ne (Ne.symm hq)
  · intro v
    have hsub := sub_toNat false (decide (flags c &&& bit ≠ 0)) (get v)
    rw [hu, onQueue_self]
    simp only [decide_eq_true_eq] at hsub
    rw [← hsub]
    simp

/-- A flag of an entry is set. -/
theorem inStep_raise (h : InStep get (onQueue queue flags bit) stats counted) (hok : counted.Ok)
    (hc : counted.lookup k = some c) {g : μ → μ} (hgq : queue (g c) = queue c)
    (hold : ∀ v, get (u v) = get v + BitVec.ofNat 32 (decide (flags (g c) &&& bit ≠ 0)).toNat -
      BitVec.ofNat 32 (decide (flags c &&& bit ≠ 0)).toNat) :
    InStep get (onQueue queue flags bit) (stats.modify (queue c) u) (counted.modify k g) := by
  refine h.modify hok hc g ?_ ?_
  · intro q hq
    exact ⟨onQueue_of_ne (Ne.symm hq), onQueue_of_ne (by rw [hgq]; exact Ne.symm hq)⟩
  · intro v
    have hnew : onQueue queue flags bit (queue c) (g c) = decide (flags (g c) &&& bit ≠ 0) := by
      rw [← hgq, onQueue_self]
    rw [hold, hnew, onQueue_self]

/-- An entry is counted. -/
theorem inStep_count (h : InStep get (onQueue queue flags bit) stats counted)
    (hc : counted.lookup k = none) (hroom : counted.full = false)
    (hu : ∀ v, get (u v) = get v + BitVec.ofNat 32 (decide (flags c &&& bit ≠ 0)).toNat) :
    InStep get (onQueue queue flags bit) (stats.modify (queue c) u) (counted.updateAny k c) := by
  refine h.insert hc hroom ?_ ?_
  · intro q hq
    exact onQueue_of_ne (Ne.symm hq)
  · intro v
    rw [hu, onQueue_self]

end OneCount

/-! ## Both counts of the queues -/

section BothCounts

variable {ν μ : Type} {fst snd : ν → BitVec 32} {queue : μ → U64} {flags : μ → U32}
  {stats : BpfMap U64 ν} {counted : BpfMap U64 μ} {k q : U64} {c : μ} {u : ν → ν}

/-- The two counts of each queue are the entries with the first and with the second flag, and each entry
is on a queue with counts. -/
structure Balanced (fst snd : ν → BitVec 32) (queue : μ → U64) (flags : μ → U32) (stats : BpfMap U64 ν)
    (counted : BpfMap U64 μ) : Prop where
  ok : counted.Ok
  first : InStep fst (onQueue queue flags 1) stats counted
  second : InStep snd (onQueue queue flags 2) stats counted
  held : ∀ e ∈ counted.entries, (stats.lookup (queue e.2)).isSome

theorem lookup_modify_isSome {q' : U64} (h : (stats.lookup q).isSome) :
    ((stats.modify q' u).lookup q).isSome := by
  rw [lookup_isSome, keys_modify, ← lookup_isSome]
  exact h

/-- An entry keeps its queue when it changes. -/
theorem held_modify (h : ∀ e ∈ counted.entries, (stats.lookup (queue e.2)).isSome) {q' : U64} {g : μ → μ}
    (hg : ∀ c, queue (g c) = queue c) :
    ∀ e ∈ (counted.modify k g).entries, ((stats.modify q' u).lookup (queue e.2)).isSome := by
  intro e he
  obtain ⟨e₀, he₀, rfl⟩ := mem_modify.mp he
  apply lookup_modify_isSome
  split_ifs
  · rw [hg]
    exact h e₀ he₀
  · exact h e₀ he₀

namespace Balanced

variable (h : Balanced fst snd queue flags stats counted)
include h

/-- `uncount` of some flags. -/
theorem clear (hc : counted.lookup k = some c) (bits : U32) {g : μ → μ} (hgq : ∀ c, queue (g c) = queue c)
    (hgf : flags (g c) = flags c &&& ~~~bits)
    (hfst : ∀ v, fst (u v) = if (flags c &&& bits) &&& 1 ≠ 0 then fst v - 1 else fst v)
    (hsnd : ∀ v, snd (u v) = if (flags c &&& bits) &&& 2 ≠ 0 then snd v - 1 else snd v) :
    Balanced fst snd queue flags (stats.modify (queue c) u) (counted.modify k g) where
  ok := h.ok.modify g
  first := inStep_clear h.first h.ok (Or.inl rfl) hc bits (hgq c) hgf hfst
  second := inStep_clear h.second h.ok (Or.inr rfl) hc bits (hgq c) hgf hsnd
  held := held_modify h.held hgq

/-- `uncount` of a request that is over. -/
theorem forget (hc : counted.lookup k = some c)
    (hfst : ∀ v, fst (u v) = if flags c &&& 1 ≠ 0 then fst v - 1 else fst v)
    (hsnd : ∀ v, snd (u v) = if flags c &&& 2 ≠ 0 then snd v - 1 else snd v) :
    Balanced fst snd queue flags (stats.modify (queue c) u) (counted.delete k) where
  ok := h.ok.delete
  first := inStep_forget h.first h.ok hc hfst
  second := inStep_forget h.second h.ok hc hsnd
  held e he := lookup_modify_isSome (h.held e (List.mem_filter.mp he).1)

/-- The second flag of an entry is set. -/
theorem raise (hc : counted.lookup k = some c) (hclear : ¬ flags c &&& 2 ≠ 0) {g : μ → μ}
    (hgq : ∀ c, queue (g c) = queue c) (hgf : flags (g c) = flags c ||| 2)
    (hfst : ∀ v, fst (u v) = fst v) (hsnd : ∀ v, snd (u v) = snd v + 1) :
    Balanced fst snd queue flags (stats.modify (queue c) u) (counted.modify k g) where
  ok := h.ok.modify g
  first := by
    refine inStep_raise h.first h.ok hc (hgq c) ?_
    intro v
    have hsame : decide ((flags c ||| 2) &&& 1 ≠ 0) = decide (flags c &&& 1 ≠ 0) := by
      simp only [and_one_ne_zero, BitVec.getLsbD_or]
      cases (flags c).getLsbD 0 <;> decide
    rw [hgf, hsame, hfst, BitVec.add_sub_cancel]
  second := by
    refine inStep_raise h.second h.ok hc (hgq c) ?_
    intro v
    have hset : decide ((flags c ||| 2) &&& 2 ≠ 0) = true := by
      simp only [and_two_ne_zero, BitVec.getLsbD_or]
      cases (flags c).getLsbD 1 <;> decide
    rw [hgf, hset, decide_eq_false hclear, hsnd]
    simp
  held := held_modify h.held hgq

/-- A new entry, on a queue with counts. -/
theorem count (hc : counted.lookup k = none) (hroom : counted.full = false)
    (hq : (stats.lookup (queue c)).isSome)
    (hfst : ∀ v, fst (u v) = fst v + BitVec.ofNat 32 (decide (flags c &&& 1 ≠ 0)).toNat)
    (hsnd : ∀ v, snd (u v) = snd v + BitVec.ofNat 32 (decide (flags c &&& 2 ≠ 0)).toNat) :
    Balanced fst snd queue flags (stats.modify (queue c) u) (counted.updateAny k c) where
  ok := by
    rw [updateAny_of_none hc]
    exact h.ok.updateNoExist
  first := inStep_count h.first hc hroom hfst
  second := inStep_count h.second hc hroom hsnd
  held := by
    rw [updateAny_of_none hc, updateNoExist_of_room hc hroom]
    intro e he
    rcases List.mem_append.mp he with he | he
    · exact lookup_modify_isSome (h.held e he)
    · rw [List.mem_singleton.mp he]
      exact lookup_modify_isSome hq

/-- A queue without counts has no entries. -/
theorem tally_eq_zero (bit : U32) (hq : stats.lookup q = none) :
    counted.tally (onQueue queue flags bit q) = 0 := by
  apply BpfMap.tally_eq_zero
  intro e he
  apply onQueue_of_ne
  rintro rfl
  have hsome := h.held e he
  rw [hq] at hsome
  exact absurd hsome (by simp)

/-- A queue gets counts. -/
theorem newQueue {z : ν} (hfst : fst z = 0) (hsnd : snd z = 0) :
    Balanced fst snd queue flags (stats.updateNoExist q z) counted where
  ok := h.ok
  first := h.first.newQueue hfst (h.tally_eq_zero 1)
  second := h.second.newQueue hsnd (h.tally_eq_zero 2)
  held e he := by
    have hsome := h.held e he
    rcases updateNoExist_cases stats q z with heq | ⟨-, -, heq⟩
    · rw [heq]
      exact hsome
    · rw [heq, lookup_isSome, List.map_append, List.mem_append]
      exact Or.inl (lookup_isSome.mp hsome)

end Balanced

end BothCounts

/-! ## The value of a count -/

/-- A count that is small enough is its tally. -/
theorem eq_ofNat_iff {n : Nat} (hn : n ≤ 65536) (x : BitVec 32) : x = BitVec.ofNat 32 n ↔ x.toInt = n := by
  have hval : (BitVec.ofNat 32 n).toInt = n := by
    rw [BitVec.toInt_eq_toNat_of_lt, BitVec.toNat_ofNat, Nat.mod_eq_of_lt (by omega)]
    rw [BitVec.toNat_ofNat, Nat.mod_eq_of_lt (by omega)]
    omega
  constructor
  · rintro rfl
    exact hval
  · intro h
    exact BitVec.eq_of_toInt_eq (h.trans hval.symm)

theorem inStep_iff {ν μ : Type} {get : ν → BitVec 32} {p : U64 → μ → Bool} {stats : BpfMap U64 ν}
    {counted : BpfMap U64 μ} (hok : counted.Ok) (hmax : counted.maxEntries = 65536) :
    InStep get p stats counted ↔ ∀ e ∈ stats.entries, (get e.2).toInt = counted.tally (p e.1) := by
  have hle : ∀ q, counted.tally (p q) ≤ 65536 := by
    intro q
    have htally := tally_le (m := counted) (p q)
    have hbound := hok.bound
    omega
  constructor
  · intro h e he
    exact (eq_ofNat_iff (hle e.1) _).mp (h e he)
  · intro h e he
    exact (eq_ofNat_iff (hle e.1) _).mpr (h e he)

/-- A count that went up without an entry is not the tally. -/
theorem not_inStep_of_lost {ν μ : Type} {get : ν → BitVec 32} {p : U64 → μ → Bool} {stats : BpfMap U64 ν}
    {counted : BpfMap U64 μ} {q : U64} {u : ν → ν} (h : InStep get p stats counted)
    (hq : (stats.lookup q).isSome) (hu : ∀ v, get (u v) = get v + 1) :
    ¬ InStep get p (stats.modify q u) counted := by
  intro h'
  obtain ⟨v, hv⟩ := Option.isSome_iff_exists.mp hq
  have hmem := mem_of_lookup hv
  have hmem' : (q, u v) ∈ (stats.modify q u).entries := mem_modify.mpr ⟨(q, v), hmem, if_pos rfl⟩
  have hold : get v = BitVec.ofNat 32 (counted.tally (p q)) := h _ hmem
  have hnew : get (u v) = BitVec.ofNat 32 (counted.tally (p q)) := h' _ hmem'
  rw [hu, hold] at hnew
  bv_omega

end Ntprof.Bpf
