import Mathlib.Data.List.Nodup
import Mathlib.Logic.Function.Basic
import Mathlib.Data.Fin.Basic

/-!
# Hash tables with chained buckets

A table of `n` chains holds buckets; a bucket's key determines its chain through `slot`. A chain is
walked from its head, a bucket of a new key goes to its end. `get` is the finite map the table
stands for, and there is one rule for each way to change a table: `get_put`, `get_del` and
`get_filterChains`.
-/

namespace Chains

variable {n : ℕ} {β κ : Type*} [DecidableEq κ] (key : β → κ) (slot : κ → Fin n)

/-- The bucket of `k` in a chain. -/
def find (k : κ) (chain : List β) : Option β := chain.find? fun b => key b = k

/-- Write `b` where its key is in the chain, or at the end. -/
def putChain (b : β) : List β → List β
  | [] => [b]
  | x :: chain => if key x = key b then b :: chain else x :: putChain b chain

/-- The bucket of `k` in the table. -/
def get (v : Fin n → List β) (k : κ) : Option β := find key k (v (slot k))

/-- Write the bucket `b`. -/
def put (v : Fin n → List β) (b : β) : Fin n → List β :=
  Function.update v (slot (key b)) (putChain key b (v (slot (key b))))

/-- Unlink the bucket of `k`. -/
def del (v : Fin n → List β) (k : κ) : Fin n → List β :=
  Function.update v (slot k) ((v (slot k)).eraseP fun b => key b = k)

/-- Every bucket is in the chain of its key, and no chain holds two buckets of one key. -/
structure Ok (v : Fin n → List β) : Prop where
  slot_eq : ∀ s, ∀ b ∈ v s, slot (key b) = s
  nodup : ∀ s, ((v s).map key).Nodup

/-! ## One chain -/

theorem find_key {k : κ} {chain : List β} {b : β} (h : find key k chain = some b) : key b = k := by
  simpa using List.find?_some h

theorem find_mem {k : κ} {chain : List β} {b : β} (h : find key k chain = some b) : b ∈ chain :=
  List.mem_of_find?_eq_some h

theorem find_none {k : κ} {chain : List β} :
    find key k chain = none ↔ k ∉ chain.map key := by
  simp [find, List.find?_eq_none]

theorem find_putChain (k : κ) (b : β) (chain : List β) :
    find key k (putChain key b chain) = if key b = k then some b else find key k chain := by
  induction chain with
  | nil => by_cases h : key b = k <;> simp [putChain, find, h]
  | cons x chain ih =>
    simp only [putChain]
    by_cases hx : key x = key b
    · simp only [hx, if_true]
      by_cases h : key b = k
      · simp [find, h]
      · have hxk : key x ≠ k := hx ▸ h
        simp [find, h, hxk]
    · simp only [hx, if_false]
      by_cases hxk : key x = k
      · have h : key b ≠ k := fun e => hx (hxk.trans e.symm)
        simp [find, hxk, h]
      · simp only [find, hxk, decide_false, Bool.false_eq_true, not_false_eq_true,
          List.find?_cons_of_neg] at ih ⊢
        exact ih

theorem mem_putChain {b x : β} {chain : List β} (h : x ∈ putChain key b chain) :
    x = b ∨ x ∈ chain := by
  induction chain with
  | nil => simpa [putChain] using h
  | cons y chain ih =>
    simp only [putChain] at h
    split_ifs at h
    · rcases List.mem_cons.1 h with h | h
      · exact Or.inl h
      · exact Or.inr (List.mem_cons_of_mem _ h)
    · rcases List.mem_cons.1 h with h | h
      · exact Or.inr (h ▸ List.mem_cons_self ..)
      · exact (ih h).imp_right (List.mem_cons_of_mem _)

theorem map_key_putChain (b : β) (chain : List β) :
    (putChain key b chain).map key =
      if key b ∈ chain.map key then chain.map key else chain.map key ++ [key b] := by
  induction chain with
  | nil => simp [putChain]
  | cons x chain ih =>
    simp only [putChain]
    by_cases hx : key x = key b
    · simp [hx]
    · have hx' : key b ≠ key x := fun e => hx e.symm
      simp only [hx, if_false, List.map_cons, ih, List.mem_cons, hx', false_or]
      split_ifs <;> simp

theorem nodup_putChain {b : β} {chain : List β} (h : (chain.map key).Nodup) :
    ((putChain key b chain).map key).Nodup := by
  rw [map_key_putChain]
  split_ifs with hm
  · exact h
  · exact List.nodup_append.2 ⟨h, List.nodup_singleton _, fun a ha c hc => by
      simp only [List.mem_singleton] at hc
      subst hc
      exact fun e => hm (e ▸ ha)⟩

theorem find_eraseP (k k' : κ) {chain : List β} (h : (chain.map key).Nodup) :
    find key k' (chain.eraseP fun b => key b = k) = if k = k' then none else find key k' chain := by
  induction chain with
  | nil => simp [find]
  | cons x chain ih =>
    simp only [List.map_cons, List.nodup_cons] at h
    by_cases hx : key x = k
    · simp only [hx, decide_true, List.eraseP_cons_of_pos]
      by_cases hk : k = k'
      · subst hk
        simp only [if_true]
        exact (find_none key).2 (hx ▸ h.1)
      · have hxk : key x ≠ k' := hx ▸ hk
        simp [find, hk, hxk]
    · simp only [hx, decide_false, Bool.false_eq_true, not_false_eq_true, List.eraseP_cons_of_neg]
      by_cases hxk : key x = k'
      · have hk : k ≠ k' := fun e => hx (hxk.trans e.symm)
        simp [find, hxk, hk]
      · simp only [find, hxk, decide_false, Bool.false_eq_true, not_false_eq_true,
          List.find?_cons_of_neg] at ih ⊢
        exact ih h.2

theorem nodup_eraseP (k : κ) {chain : List β} (h : (chain.map key).Nodup) :
    ((chain.eraseP fun b => key b = k).map key).Nodup :=
  h.sublist (List.eraseP_sublist.map key)

theorem find_filterMap {f : β → Option β} (hf : ∀ b b', f b = some b' → key b' = key b) (k : κ)
    {chain : List β} (h : (chain.map key).Nodup) :
    find key k (chain.filterMap f) = (find key k chain).bind f := by
  induction chain with
  | nil => rfl
  | cons x chain ih =>
    simp only [List.map_cons, List.nodup_cons] at h
    by_cases hx : key x = k
    · have hrest : find key k chain = none := (find_none key).2 (hx ▸ h.1)
      have hfind : find key k (x :: chain) = some x := by simp [find, hx]
      rw [hfind]
      cases hfx : f x with
      | none =>
        rw [List.filterMap_cons_none hfx, ih h.2, hrest]
        simp [hfx]
      | some y =>
        rw [List.filterMap_cons_some hfx]
        simp [find, hf x y hfx, hx, hfx]
    · have hfind : find key k (x :: chain) = find key k chain := by simp [find, hx]
      rw [hfind, ← ih h.2]
      cases hfx : f x with
      | none => rw [List.filterMap_cons_none hfx]
      | some y =>
        have hy : key y ≠ k := by rw [hf x y hfx]; exact hx
        rw [List.filterMap_cons_some hfx]
        simp [find, hy]

omit [DecidableEq κ] in
theorem nodup_filterMap {f : β → Option β} (hf : ∀ b b', f b = some b' → key b' = key b)
    {chain : List β} (h : (chain.map key).Nodup) : ((chain.filterMap f).map key).Nodup := by
  induction chain with
  | nil => simp
  | cons x chain ih =>
    simp only [List.map_cons, List.nodup_cons] at h
    cases hfx : f x with
    | none => rw [List.filterMap_cons_none hfx]; exact ih h.2
    | some y =>
      rw [List.filterMap_cons_some hfx, List.map_cons, List.nodup_cons]
      refine ⟨fun hy => h.1 ?_, ih h.2⟩
      obtain ⟨z, hz, hzy⟩ := List.mem_map.1 hy
      obtain ⟨w, hw, hwz⟩ := List.mem_filterMap.1 hz
      rw [hf x y hfx, hf w z hwz] at hzy
      exact hzy ▸ List.mem_map_of_mem hw

/-! ## The table -/

omit [DecidableEq κ] in
theorem ok_empty : Ok key slot fun _ : Fin n => ([] : List β) :=
  ⟨fun _ _ h => absurd h (List.not_mem_nil), fun _ => List.nodup_nil⟩

theorem get_key {v : Fin n → List β} {k : κ} {b : β} (h : get key slot v k = some b) : key b = k :=
  find_key key h

theorem get_mem {v : Fin n → List β} {k : κ} {b : β} (h : get key slot v k = some b) :
    b ∈ v (slot k) :=
  find_mem key h

theorem get_put {v : Fin n → List β} (b : β) (k : κ) :
    get key slot (put key slot v b) k = if key b = k then some b else get key slot v k := by
  unfold get put
  by_cases hs : slot k = slot (key b)
  · rw [hs, Function.update_self, find_putChain]
  · have hk : key b ≠ k := fun e => hs (e ▸ rfl)
    rw [Function.update_of_ne hs, if_neg hk]

theorem mem_put {v : Fin n → List β} {b x : β} {s : Fin n} (h : x ∈ put key slot v b s) :
    x = b ∨ x ∈ v s := by
  unfold put at h
  by_cases hs : s = slot (key b)
  · subst hs
    rw [Function.update_self] at h
    exact mem_putChain key h
  · rw [Function.update_of_ne hs] at h
    exact Or.inr h

theorem mem_del {v : Fin n → List β} {k : κ} {x : β} {s : Fin n} (h : x ∈ del key slot v k s) :
    x ∈ v s := by
  unfold del at h
  by_cases hs : s = slot k
  · subst hs
    rw [Function.update_self] at h
    exact List.mem_of_mem_eraseP h
  · rw [Function.update_of_ne hs] at h
    exact h

theorem Ok.put {v : Fin n → List β} (h : Ok key slot v) (b : β) :
    Ok key slot (put key slot v b) := by
  constructor
  · intro s x hx
    unfold Chains.put at hx
    by_cases hs : s = slot (key b)
    · subst hs
      rw [Function.update_self] at hx
      rcases mem_putChain key hx with rfl | hx
      · rfl
      · exact h.slot_eq _ x hx
    · rw [Function.update_of_ne hs] at hx
      exact h.slot_eq s x hx
  · intro s
    unfold Chains.put
    by_cases hs : s = slot (key b)
    · subst hs
      rw [Function.update_self]
      exact nodup_putChain key (h.nodup _)
    · rw [Function.update_of_ne hs]
      exact h.nodup s

theorem get_del {v : Fin n → List β} (h : Ok key slot v) (k k' : κ) :
    get key slot (del key slot v k) k' = if k = k' then none else get key slot v k' := by
  unfold get del
  by_cases hs : slot k' = slot k
  · rw [hs, Function.update_self, find_eraseP key k k' (h.nodup _)]
  · have hk : k ≠ k' := fun e => hs (e ▸ rfl)
    rw [Function.update_of_ne hs, if_neg hk]

theorem Ok.del {v : Fin n → List β} (h : Ok key slot v) (k : κ) : Ok key slot (del key slot v k) := by
  constructor
  · exact fun s x hx => h.slot_eq s x (mem_del key slot hx)
  · intro s
    unfold Chains.del
    by_cases hs : s = slot k
    · subst hs
      rw [Function.update_self]
      exact nodup_eraseP key k (h.nodup _)
    · rw [Function.update_of_ne hs]
      exact h.nodup s

theorem get_filterChains {v : Fin n → List β} (h : Ok key slot v) {f : β → Option β}
    (hf : ∀ b b', f b = some b' → key b' = key b) (k : κ) :
    get key slot (fun s => (v s).filterMap f) k = (get key slot v k).bind f :=
  find_filterMap key hf k (h.nodup _)

omit [DecidableEq κ] in
theorem Ok.filterChains {v : Fin n → List β} (h : Ok key slot v) {f : β → Option β}
    (hf : ∀ b b', f b = some b' → key b' = key b) : Ok key slot fun s => (v s).filterMap f := by
  refine ⟨fun s x hx => ?_, fun s => nodup_filterMap key hf (h.nodup s)⟩
  obtain ⟨y, hy, hyx⟩ := List.mem_filterMap.1 hx
  rw [hf y x hyx]
  exact h.slot_eq s y hy

omit [DecidableEq κ] in
/-- No two buckets of the whole table have one key. -/
theorem Ok.nodup_all {v : Fin n → List β} (h : Ok key slot v) :
    (((List.finRange n).flatMap v).map key).Nodup := by
  rw [List.map_flatMap, List.nodup_flatMap]
  refine ⟨fun s _ => h.nodup s, (List.nodup_finRange n).imp fun {s s'} hs => ?_⟩
  intro k hk hk'
  obtain ⟨b, hb, rfl⟩ := List.mem_map.1 hk
  obtain ⟨b', hb', hkk⟩ := List.mem_map.1 hk'
  exact hs ((h.slot_eq s b hb).symm.trans (hkk ▸ h.slot_eq s' b' hb'))

/-- A bucket of the table is the one its key leads to. -/
theorem Ok.get_of_mem {v : Fin n → List β} (h : Ok key slot v) {s : Fin n} {b : β} (hb : b ∈ v s) :
    get key slot v (key b) = some b := by
  unfold get
  rw [h.slot_eq s b hb]
  cases hf : find key (key b) (v s) with
  | none => exact absurd (List.mem_map_of_mem hb) ((find_none key).1 hf)
  | some x =>
    rw [List.inj_on_of_nodup_map (h.nodup s) (find_mem key hf) hb (find_key key hf)]

section Collect

variable {γ : Type*} {g : β → List γ} (keyOf : γ → κ)

/-- Collecting elements from the buckets of a chain, only the bucket of `k` gives elements under
`k`. -/
theorem filter_flatMap_chain (hg : ∀ b, ∀ x ∈ g b, keyOf x = key b) (k : κ) {chain : List β}
    (h : (chain.map key).Nodup) :
    (chain.flatMap g).filter (fun x => keyOf x = k) = (find key k chain).elim [] g := by
  induction chain with
  | nil => rfl
  | cons b chain ih =>
    simp only [List.map_cons, List.nodup_cons] at h
    rw [List.flatMap_cons, List.filter_append, ih h.2]
    by_cases hb : key b = k
    · have hrest : find key k chain = none := (find_none key).2 (hb ▸ h.1)
      have hself : (g b).filter (fun x => decide (keyOf x = k)) = g b :=
        List.filter_eq_self.2 fun x hx => by simp [hg b x hx, hb]
      rw [hself, hrest]
      simp [find, hb]
    · have hnil : (g b).filter (fun x => decide (keyOf x = k)) = [] :=
        List.filter_eq_nil_iff.2 fun x hx => by simp [hg b x hx, hb]
      rw [hnil]
      simp [find, hb]

theorem flatMap_single {ι : Type*} [DecidableEq ι] {l : List ι} (hl : l.Nodup) {i : ι} (hi : i ∈ l)
    {f : ι → List γ} (hf : ∀ j, j ≠ i → f j = []) : l.flatMap f = f i := by
  induction l with
  | nil => exact absurd hi List.not_mem_nil
  | cons j l ih =>
    rw [List.nodup_cons] at hl
    rw [List.flatMap_cons]
    by_cases hj : j = i
    · subst hj
      have hnil : l.flatMap f = [] := List.flatMap_eq_nil_iff.2 fun x hx =>
        hf x fun e => hl.1 (e ▸ hx)
      rw [hnil, List.append_nil]
    · rw [hf j hj, List.nil_append, ih hl.2 ((List.mem_cons.1 hi).resolve_left fun e => hj e.symm)]

/-- The same for the whole table, chain after chain. -/
theorem Ok.filter_flatMap {v : Fin n → List β} (h : Ok key slot v)
    (hg : ∀ b, ∀ x ∈ g b, keyOf x = key b) (k : κ) :
    ((List.finRange n).flatMap fun s => (v s).flatMap g).filter (fun x => keyOf x = k) =
      (get key slot v k).elim [] g := by
  rw [List.filter_flatMap, flatMap_single (List.nodup_finRange n) (List.mem_finRange (slot k)),
    filter_flatMap_chain key keyOf hg k (h.nodup _)]
  · rfl
  · intro s hs
    rw [filter_flatMap_chain key keyOf hg k (h.nodup s)]
    cases hf : find key k (v s) with
    | none => rfl
    | some b =>
      exact absurd ((find_key key hf) ▸ (h.slot_eq s b (find_mem key hf))).symm hs

end Collect

end Chains
