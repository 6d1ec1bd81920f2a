import Mathlib

/-!
# Tables of counts

A table with room for `cap` values, in the order in which they first came, each with how often it came. A value that
comes when the table is full is not counted.
-/

namespace CountTable

variable {α : Type} [DecidableEq α]

/-- One more `a`. -/
def bump (cap : ℕ) (t : List (α × ℕ)) (a : α) : List (α × ℕ) :=
  match t.findIdx? fun p => p.1 = a with
  | some i => t.modify i fun p => (p.1, p.2 + 1)
  | none => if t.length = cap then t else t ++ [(a, 1)]

/-- The different values of a list, in the order in which they first come. -/
def distinct (xs : List α) : List α := xs.eraseDups

/-- The first `cap` different values of a list, each with its count. -/
def table (cap : ℕ) (xs : List α) : List (α × ℕ) := ((distinct xs).take cap).map fun a => (a, xs.count a)

theorem mem_distinct {xs : List α} {a : α} : a ∈ distinct xs ↔ a ∈ xs := List.mem_eraseDups

theorem distinct_concat (xs : List α) (a : α) :
    distinct (xs ++ [a]) = if a ∈ xs then distinct xs else distinct xs ++ [a] := by
  rw [distinct, distinct, List.eraseDups_append]
  by_cases ha : a ∈ xs
  · simp [List.removeAll, ha]
  · simp [List.removeAll, ha, List.eraseDups_cons]

theorem nodup_distinct (xs : List α) : (distinct xs).Nodup := by
  induction xs using List.reverseRecOn with
  | nil => exact List.nodup_nil
  | append_singleton xs a ih =>
    rw [distinct_concat]
    split_ifs with ha
    · exact ih
    · rw [List.nodup_append]
      refine ⟨ih, List.nodup_singleton a, fun x hx y hy => ?_⟩
      rw [List.mem_singleton.mp hy]
      rintro rfl
      exact ha (mem_distinct.mp hx)

/-- Counts of values other than the last. -/
theorem count_concat (xs : List α) (a x : α) : (xs ++ [a]).count x = xs.count x + if x = a then 1 else 0 := by
  rw [List.count_append, List.count_singleton]
  by_cases hx : x = a
  · rw [if_pos hx, if_pos (beq_iff_eq.mpr hx.symm)]
  · rw [if_neg hx, if_neg fun h => hx (beq_iff_eq.mp h).symm]

/-- A value of the table that comes again. -/
theorem modify_table {ds : List α} (hnodup : ds.Nodup) (xs : List α) {a : α} {i : ℕ} (hi : i < ds.length)
    (ha : ds.get ⟨i, hi⟩ = a) :
    (ds.map fun x => (x, xs.count x)).modify i (fun p => (p.1, p.2 + 1)) = ds.map fun x => (x, (xs ++ [a]).count x) := by
  apply List.ext_getElem
  · rw [List.length_modify, List.length_map, List.length_map]
  · intro j hj hj'
    rw [List.length_map] at hj'
    rw [List.getElem_modify, List.getElem_map, List.getElem_map, count_concat]
    by_cases hij : i = j
    · subst hij
      have hself : ds[i] = a := ha
      rw [if_pos rfl, if_pos hself]
    · have hother : ds[j] ≠ a := by
        rw [← ha]
        intro h
        exact hij ((List.Nodup.getElem_inj_iff hnodup).mp h).symm
      rw [if_neg hij, if_neg hother, Nat.add_zero]

/-- A value that the table does not have changes no count. -/
theorem map_count_of_notMem {ds : List α} {a : α} (ha : a ∉ ds) (xs : List α) :
    (ds.map fun x => (x, (xs ++ [a]).count x)) = ds.map fun x => (x, xs.count x) := by
  apply List.map_congr_left
  intro x hx
  have hne : x ≠ a := fun h => ha (h ▸ hx)
  rw [count_concat, if_neg hne, Nat.add_zero]

theorem findIdx?_table_none {cap : ℕ} {xs : List α} {a : α} (ha : a ∉ (distinct xs).take cap) :
    (table cap xs).findIdx? (fun p => p.1 = a) = none := by
  rw [List.findIdx?_eq_none_iff]
  intro p hp
  obtain ⟨x, hx, rfl⟩ := List.mem_map.mp hp
  exact decide_eq_false fun h => ha (h ▸ hx)

/-- One more value. -/
theorem bump_table (cap : ℕ) (xs : List α) (a : α) : bump cap (table cap xs) a = table cap (xs ++ [a]) := by
  have hnodup := (nodup_distinct xs).sublist (List.take_sublist cap _)
  by_cases htake : a ∈ (distinct xs).take cap
  · have hmem : a ∈ xs := mem_distinct.mp (List.mem_of_mem_take htake)
    obtain ⟨i, hi⟩ : ∃ i, (table cap xs).findIdx? (fun p => p.1 = a) = some i := by
      rcases hfind : (table cap xs).findIdx? (fun p => p.1 = a) with _ | i
      · have hnone := List.findIdx?_eq_none_iff.mp hfind (a, xs.count a) (List.mem_map.mpr ⟨a, htake, rfl⟩)
        exact absurd rfl (of_decide_eq_false hnone)
      · exact ⟨i, hfind⟩
    obtain ⟨hlt, hat, -⟩ := List.findIdx?_eq_some_iff_getElem.mp hi
    have hlt' : i < ((distinct xs).take cap).length := by rwa [table, List.length_map] at hlt
    have hget : ((distinct xs).take cap).get ⟨i, hlt'⟩ = a := by
      have hfst := of_decide_eq_true hat
      simp only [table, List.getElem_map] at hfst
      exact hfst
    rw [bump, hi, table, table, distinct_concat, if_pos hmem]
    exact modify_table hnodup xs hlt' hget
  · rw [bump, findIdx?_table_none htake]
    by_cases hfull : (table cap xs).length = cap
    · -- the table is full, and stays as it is
      have hlen : ((distinct xs).take cap).length = cap := by rwa [table, List.length_map] at hfull
      have hle : cap ≤ (distinct xs).length := by
        rw [List.length_take] at hlen
        omega
      have hsame : (distinct (xs ++ [a])).take cap = (distinct xs).take cap := by
        rw [distinct_concat]
        split_ifs
        · rfl
        · rw [List.take_append_of_le_length hle]
      simp only [if_pos hfull]
      rw [table, table, hsame]
      exact (map_count_of_notMem htake xs).symm
    · -- there is room, so the table has every value so far
      have hlen : ((distinct xs).take cap).length ≠ cap := by rwa [table, List.length_map] at hfull
      have hlt : (distinct xs).length < cap := by
        rw [List.length_take] at hlen
        omega
      have hall : (distinct xs).take cap = distinct xs := List.take_of_length_le (by omega)
      have hnew : a ∉ xs := by
        rw [hall] at htake
        exact fun h => htake (mem_distinct.mpr h)
      have hone : (xs ++ [a]).count a = 1 := by
        rw [count_concat, if_pos rfl, List.count_eq_zero_of_not_mem hnew]
      have hnext : (distinct (xs ++ [a])).take cap = distinct xs ++ [a] := by
        rw [distinct_concat, if_neg hnew, List.take_of_length_le]
        rw [List.length_append, List.length_singleton]
        omega
      simp only [if_neg hfull]
      rw [table, table, hnext, hall, List.map_append, map_count_of_notMem (by rwa [hall] at htake), List.map_singleton,
        hone]

/-- The table of a list. -/
theorem foldl_bump (cap : ℕ) (xs : List α) : xs.foldl (bump cap) [] = table cap xs := by
  induction xs using List.reverseRecOn with
  | nil => simp [table, distinct]
  | append_singleton xs a ih => rw [List.foldl_append, ih, List.foldl_cons, List.foldl_nil, bump_table]

/-- The counts of a table with room for every value sum to the length of the list. -/
theorem sum_table {cap : ℕ} {xs : List α} (h : (distinct xs).length ≤ cap) :
    ((table cap xs).map Prod.snd).sum = xs.length := by
  have hperm : (distinct xs).Perm xs.dedup := by
    rw [List.perm_ext_iff_of_nodup (nodup_distinct xs) (List.nodup_dedup xs)]
    intro a
    rw [mem_distinct, List.mem_dedup]
  rw [table, List.take_of_length_le h, List.map_map, ← List.sum_map_count_dedup_eq_length xs]
  exact (hperm.map _).sum_eq

end CountTable
