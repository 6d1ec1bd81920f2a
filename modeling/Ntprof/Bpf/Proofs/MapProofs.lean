import Ntprof.Bpf.Common
import Mathlib.Data.List.Count
import Mathlib.Data.List.Nodup

/-!
# Hash maps

The rules of `BpfMap`: what its entries are after each operation, and how the number of entries with some
property changes.
-/

namespace Ntprof.Bpf.BpfMap

variable {κ ν : Type} [DecidableEq κ] {m : BpfMap κ ν} {k : κ} {v : ν}

/-- A key has at most one entry, and there are at most `maxEntries`. -/
structure Ok (m : BpfMap κ ν) : Prop where
  nodup : (m.entries.map Prod.fst).Nodup
  bound : m.entries.length ≤ m.maxEntries

/-! ## Lookups -/

theorem mem_of_lookup (h : m.lookup k = some v) : (k, v) ∈ m.entries := by
  unfold lookup at h
  obtain ⟨e, he, rfl⟩ := Option.map_eq_some_iff.mp h
  have hk : e.1 = k := by simpa using List.find?_some he
  rw [← hk]
  exact List.mem_of_find?_eq_some he

theorem lookup_eq_none : m.lookup k = none ↔ k ∉ m.entries.map Prod.fst := by
  unfold lookup
  rw [Option.map_eq_none_iff, List.find?_eq_none, List.mem_map]
  constructor
  · rintro h ⟨e, he, rfl⟩
    exact h e he (by simp)
  · intro h e he hek
    exact h ⟨e, he, by simpa using hek⟩

theorem lookup_isSome : (m.lookup k).isSome ↔ k ∈ m.entries.map Prod.fst := by
  rw [← Option.ne_none_iff_isSome, ne_eq, lookup_eq_none, not_not]

/-! ## Entries -/

@[simp] theorem keys_modify (f : ν → ν) : (m.modify k f).entries.map Prod.fst = m.entries.map Prod.fst := by
  unfold modify
  rw [List.map_map]
  apply List.map_congr_left
  intro e _
  show (if e.1 = k then (e.1, f e.2) else e).1 = e.1
  split_ifs <;> rfl

theorem mem_modify {f : ν → ν} {e : κ × ν} :
    e ∈ (m.modify k f).entries ↔ ∃ e₀ ∈ m.entries, (if e₀.1 = k then (e₀.1, f e₀.2) else e₀) = e :=
  List.mem_map

theorem updateNoExist_of_room (hk : m.lookup k = none) (hroom : m.full = false) :
    m.updateNoExist k v = { m with entries := m.entries ++ [(k, v)] } := by
  have hlt : m.entries.length < m.maxEntries := by
    simpa [full] using hroom
  rw [updateNoExist, if_pos ⟨by rw [hk]; rfl, hlt⟩]

theorem updateNoExist_of_full (hfull : m.full = true) : m.updateNoExist k v = m := by
  have hle : m.maxEntries ≤ m.entries.length := by
    simpa [full] using hfull
  rw [updateNoExist, if_neg (by rintro ⟨-, hlt⟩; omega)]

theorem updateNoExist_of_mem (hk : (m.lookup k).isSome) : m.updateNoExist k v = m := by
  rw [updateNoExist, if_neg]
  rintro ⟨hnone, -⟩
  rw [Option.isNone_iff_eq_none.mp hnone] at hk
  exact absurd hk (by simp)

/-- A new entry or none. -/
theorem updateNoExist_cases (m : BpfMap κ ν) (k : κ) (v : ν) :
    m.updateNoExist k v = m ∨
      m.lookup k = none ∧ m.full = false ∧
        m.updateNoExist k v = { m with entries := m.entries ++ [(k, v)] } := by
  cases hk : m.lookup k with
  | some w => exact Or.inl (updateNoExist_of_mem (by rw [hk]; rfl))
  | none =>
    cases hfull : m.full with
    | true => exact Or.inl (updateNoExist_of_full hfull)
    | false => exact Or.inr ⟨rfl, rfl, updateNoExist_of_room hk hfull⟩

theorem maxEntries_updateNoExist (m : BpfMap κ ν) (k : κ) (v : ν) :
    (m.updateNoExist k v).maxEntries = m.maxEntries := by
  unfold updateNoExist
  split_ifs <;> rfl

theorem keys_updateNoExist_subset {l : List κ} (h : m.entries.map Prod.fst ⊆ l) (hk : k ∈ l) :
    (m.updateNoExist k v).entries.map Prod.fst ⊆ l := by
  rcases updateNoExist_cases m k v with heq | ⟨-, -, heq⟩
  · rw [heq]
    exact h
  · rw [heq, List.map_append]
    exact List.append_subset.mpr ⟨h, by simpa using hk⟩

/-- Whether the key is there afterwards. -/
theorem lookup_updateNoExist_isSome (m : BpfMap κ ν) (k : κ) (v : ν) :
    ((m.updateNoExist k v).lookup k).isSome = ((m.lookup k).isSome || !m.full) := by
  cases hk : m.lookup k with
  | some w => simp [updateNoExist_of_mem (show (m.lookup k).isSome by rw [hk]; rfl), hk]
  | none =>
    cases hfull : m.full with
    | true => simp [updateNoExist_of_full hfull, hk]
    | false =>
      rw [updateNoExist_of_room hk hfull, Bool.eq_iff_iff, lookup_isSome]
      simp

theorem updateAny_of_none (hk : m.lookup k = none) : m.updateAny k v = m.updateNoExist k v := by
  rw [updateAny, if_neg (by rw [hk]; simp)]

theorem delete_modify (f : ν → ν) : (m.modify k f).delete k = m.delete k := by
  have hentries : (m.modify k f).entries.filter (fun e => e.1 ≠ k) = m.entries.filter fun e => e.1 ≠ k := by
    unfold modify
    rw [List.filter_map]
    have hf : ((fun e : κ × ν => decide (e.1 ≠ k)) ∘ fun e => if e.1 = k then (e.1, f e.2) else e) =
        fun e => decide (e.1 ≠ k) := by
      funext e
      by_cases he : e.1 = k <;> simp [he]
    rw [hf]
    conv_rhs => rw [← List.map_id (m.entries.filter _)]
    apply List.map_congr_left
    intro e he
    have hne : e.1 ≠ k := by simpa using (List.mem_filter.mp he).2
    rw [if_neg hne]
    rfl
  unfold delete
  rw [hentries]
  rfl

/-! ## The operations keep the map well formed -/

theorem Ok.modify (h : m.Ok) (f : ν → ν) : (m.modify k f).Ok where
  nodup := by
    rw [keys_modify]
    exact h.nodup
  bound := by
    show (m.entries.map _).length ≤ m.maxEntries
    rw [List.length_map]
    exact h.bound

theorem Ok.delete (h : m.Ok) : (m.delete k).Ok where
  nodup := h.nodup.sublist (List.filter_sublist.map Prod.fst)
  bound := (List.length_filter_le _ _).trans h.bound

theorem Ok.updateNoExist (h : m.Ok) : (m.updateNoExist k v).Ok := by
  rcases updateNoExist_cases m k v with heq | ⟨hk, hroom, heq⟩
  · rw [heq]
    exact h
  · have hlt : m.entries.length < m.maxEntries := by
      simpa [full] using hroom
    rw [heq]
    constructor
    · rw [List.map_append, List.nodup_append]
      refine ⟨h.nodup, by simp, ?_⟩
      rintro a ha b hb rfl
      rw [List.map_singleton, List.mem_singleton] at hb
      rw [hb] at ha
      exact lookup_eq_none.mp hk ha
    · show (m.entries ++ [(k, v)]).length ≤ m.maxEntries
      rw [List.length_append, List.length_singleton]
      omega

omit [DecidableEq κ] in
theorem ok_empty (n : Nat) : (⟨n, []⟩ : BpfMap κ ν).Ok := ⟨List.nodup_nil, Nat.zero_le n⟩

/-! ## Tallies -/

omit [DecidableEq κ] in
theorem tally_le (p : ν → Bool) : m.tally p ≤ m.entries.length := List.countP_le_length

omit [DecidableEq κ] in
theorem tally_eq_zero {p : ν → Bool} (h : ∀ e ∈ m.entries, p e.2 = false) : m.tally p = 0 := by
  unfold tally
  rw [List.countP_eq_zero]
  intro e he
  rw [h e he]
  decide

/-- The entry of a key and the entries of the other keys. -/
theorem Ok.split (h : m.Ok) (hk : m.lookup k = some v) :
    ∃ l₁ l₂, m.entries = l₁ ++ (k, v) :: l₂ ∧ (∀ e ∈ l₁, e.1 ≠ k) ∧ ∀ e ∈ l₂, e.1 ≠ k := by
  obtain ⟨l₁, l₂, heq⟩ := List.append_of_mem (mem_of_lookup hk)
  have hnd := h.nodup
  rw [heq, List.map_append, List.map_cons, List.nodup_append] at hnd
  obtain ⟨-, hright, hdisj⟩ := hnd
  refine ⟨l₁, l₂, heq, ?_, ?_⟩
  · intro e he
    exact hdisj e.1 (List.mem_map_of_mem he) k (by simp)
  · intro e he hek
    have hmem : e.1 ∈ l₂.map Prod.fst := List.mem_map_of_mem he
    rw [hek] at hmem
    exact (List.nodup_cons.mp hright).1 hmem

/-- A deleted entry is no longer counted. -/
theorem tally_delete (h : m.Ok) (hk : m.lookup k = some v) (p : ν → Bool) :
    (m.delete k).tally p + (p v).toNat = m.tally p := by
  obtain ⟨l₁, l₂, heq, h₁, h₂⟩ := h.split hk
  have hkeep : ∀ l : List (κ × ν), (∀ e ∈ l, e.1 ≠ k) → l.filter (fun e => e.1 ≠ k) = l := by
    intro l hl
    rw [List.filter_eq_self]
    intro e he
    exact decide_eq_true (hl e he)
  have hdel : (m.delete k).entries = l₁ ++ l₂ := by
    unfold delete
    rw [heq, List.filter_append, List.filter_cons_of_neg (by simp), hkeep l₁ h₁, hkeep l₂ h₂]
  unfold tally
  rw [hdel, heq, List.countP_append, List.countP_append, List.countP_cons]
  cases p v
  · simp
  · simp
    omega

/-- A deleted entry leaves room. -/
theorem full_delete (h : m.Ok) (hk : m.lookup k = some v) : (m.delete k).full = false := by
  have hall : ∀ m : BpfMap κ ν, m.tally (fun _ => true) = m.entries.length := by
    intro m
    exact congrFun List.countP_true m.entries
  have hlen := tally_delete h hk fun _ => true
  rw [hall, hall] at hlen
  have hbound := h.bound
  show decide (m.maxEntries ≤ (m.delete k).entries.length) = false
  apply decide_eq_false
  simp only [Bool.toNat_true] at hlen
  omega

/-- A changed entry is counted with its new value. -/
theorem tally_modify (h : m.Ok) (hk : m.lookup k = some v) (f : ν → ν) (p : ν → Bool) :
    (m.modify k f).tally p + (p v).toNat = m.tally p + (p (f v)).toNat := by
  obtain ⟨l₁, l₂, heq, h₁, h₂⟩ := h.split hk
  have hkeep : ∀ l : List (κ × ν), (∀ e ∈ l, e.1 ≠ k) →
      l.map (fun e => if e.1 = k then (e.1, f e.2) else e) = l := by
    intro l hl
    conv_rhs => rw [← List.map_id l]
    apply List.map_congr_left
    intro e he
    rw [if_neg (hl e he)]
    rfl
  have hmod : (m.modify k f).entries = l₁ ++ (k, f v) :: l₂ := by
    unfold modify
    rw [heq, List.map_append, List.map_cons, hkeep l₁ h₁, hkeep l₂ h₂, if_pos rfl]
  unfold tally
  rw [hmod, heq, List.countP_append, List.countP_append, List.countP_cons, List.countP_cons]
  cases p v <;> cases p (f v) <;> simp <;> omega

theorem tally_append (hk : m.lookup k = none) (hroom : m.full = false) (p : ν → Bool) :
    (m.updateNoExist k v).tally p = m.tally p + (p v).toNat := by
  rw [updateNoExist_of_room hk hroom]
  unfold tally
  show (m.entries ++ [(k, v)]).countP _ = _
  rw [List.countP_append, List.countP_singleton]
  cases p v <;> rfl

/-! ## Counters beside a map

`stats` has a counter for each queue, which is to be the number of entries of `counted` that `p` puts on
the queue. -/

section Counters

variable {μ : Type} {get : ν → BitVec 32} {p : κ → μ → Bool} {stats : BpfMap κ ν} {counted : BpfMap κ μ}
  {q : κ} {c : μ} {u : ν → ν}

/-- Each counter is the tally of its queue. -/
def InStep (get : ν → BitVec 32) (p : κ → μ → Bool) (stats : BpfMap κ ν) (counted : BpfMap κ μ) : Prop :=
  ∀ e ∈ stats.entries, get e.2 = BitVec.ofNat 32 (counted.tally (p e.1))

/-- One queue's counter changes as its tally does, and the other tallies do not change. -/
theorem InStep.change (h : InStep get p stats counted) {counted' : BpfMap κ μ} (up down : Nat)
    (hq : counted'.tally (p q) + down = counted.tally (p q) + up)
    (hother : ∀ q', q' ≠ q → counted'.tally (p q') = counted.tally (p q'))
    (hu : ∀ v, get (u v) = get v + BitVec.ofNat 32 up - BitVec.ofNat 32 down) :
    InStep get p (stats.modify q u) counted' := by
  intro e he
  obtain ⟨e₀, he₀, rfl⟩ := mem_modify.mp he
  by_cases hk : e₀.1 = q
  · rw [if_pos hk]
    show get (u e₀.2) = BitVec.ofNat 32 (counted'.tally (p e₀.1))
    have hsum : BitVec.ofNat 32 (counted'.tally (p q)) + BitVec.ofNat 32 down =
        BitVec.ofNat 32 (counted.tally (p q)) + BitVec.ofNat 32 up := by
      rw [← BitVec.ofNat_add, ← BitVec.ofNat_add, hq]
    rw [hu, h e₀ he₀, hk, ← hsum, BitVec.add_sub_cancel]
  · rw [if_neg hk, h e₀ he₀, hother e₀.1 hk]

/-- An entry of the queue `q` changes. -/
theorem InStep.modify (h : InStep get p stats counted) (hok : counted.Ok) {k : κ}
    (hc : counted.lookup k = some c) (g : μ → μ) (hp : ∀ q', q' ≠ q → p q' c = false ∧ p q' (g c) = false)
    (hu : ∀ v, get (u v) = get v + BitVec.ofNat 32 (p q (g c)).toNat - BitVec.ofNat 32 (p q c).toNat) :
    InStep get p (stats.modify q u) (counted.modify k g) := by
  refine h.change _ _ (tally_modify hok hc g (p q)) ?_ hu
  intro q' hq'
  have ht := tally_modify hok hc g (p q')
  rw [(hp q' hq').1, (hp q' hq').2] at ht
  exact ht

/-- An entry of the queue `q` is deleted. -/
theorem InStep.delete (h : InStep get p stats counted) (hok : counted.Ok) {k : κ}
    (hc : counted.lookup k = some c) (hp : ∀ q', q' ≠ q → p q' c = false)
    (hu : ∀ v, get (u v) = get v - BitVec.ofNat 32 (p q c).toNat) :
    InStep get p (stats.modify q u) (counted.delete k) := by
  refine h.change 0 _ (tally_delete hok hc (p q)) ?_ ?_
  · intro q' hq'
    have ht := tally_delete hok hc (p q')
    rw [hp q' hq'] at ht
    exact ht
  · intro v
    rw [hu]
    simp

/-- A new entry of the queue `q`. -/
theorem InStep.insert (h : InStep get p stats counted) {k : κ} (hc : counted.lookup k = none)
    (hroom : counted.full = false) (hp : ∀ q', q' ≠ q → p q' c = false)
    (hu : ∀ v, get (u v) = get v + BitVec.ofNat 32 (p q c).toNat) :
    InStep get p (stats.modify q u) (counted.updateAny k c) := by
  rw [updateAny_of_none hc]
  refine h.change _ 0 (tally_append hc hroom (p q)) ?_ ?_
  · intro q' hq'
    rw [tally_append hc hroom, hp q' hq']
    rfl
  · intro v
    rw [hu]
    simp

/-- A new queue, with no entries on it. -/
theorem InStep.newQueue (h : InStep get p stats counted) {z : ν} (hz : get z = 0)
    (hnone : stats.lookup q = none → counted.tally (p q) = 0) :
    InStep get p (stats.updateNoExist q z) counted := by
  rcases updateNoExist_cases stats q z with heq | ⟨hq, -, heq⟩
  · rw [heq]
    exact h
  · rw [heq]
    intro e he
    rcases List.mem_append.mp he with he | he
    · exact h e he
    · rw [List.mem_singleton.mp he, hnone hq]
      exact hz

end Counters

end Ntprof.Bpf.BpfMap
