import Mathlib.Data.List.Basic
import Mathlib.Data.List.Count
import Mathlib.Data.List.Perm.Basic

/-!
# Lists of keyed elements

Elements of a list are told apart by a key. `under key k l` is what `l` holds under the key `k`, in
order; the lemmas say what it becomes when the first element with some property is removed.
-/

namespace KeyedList

variable {α κ : Type*} [DecidableEq κ] (key : α → κ)

/-- The elements of `l` under the key `k`, in order. -/
def under (k : κ) (l : List α) : List α := l.filter fun a => key a = k

@[simp] theorem under_nil (k : κ) : under key k [] = [] := rfl

@[simp] theorem under_append (k : κ) (l l' : List α) :
    under key k (l ++ l') = under key k l ++ under key k l' :=
  List.filter_append ..

theorem under_singleton (k : κ) (a : α) : under key k [a] = if key a = k then [a] else [] := by
  by_cases h : key a = k <;> simp [under, h]

theorem mem_under {k : κ} {l : List α} {a : α} : a ∈ under key k l ↔ a ∈ l ∧ key a = k := by
  simp [under]

theorem under_filter (k : κ) (q : α → Bool) (l : List α) :
    under key k (l.filter q) = (under key k l).filter q := by
  unfold under
  rw [List.filter_filter, List.filter_filter]
  exact List.filter_congr fun a _ => Bool.and_comm _ _

/-- Removing an element under another key changes nothing under `k`. -/
theorem under_eraseP_of_ne {k : κ} {p : α → Bool} (hp : ∀ a, p a = true → key a ≠ k) (l : List α) :
    under key k (l.eraseP p) = under key k l := by
  induction l with
  | nil => rfl
  | cons a l ih =>
    by_cases ha : p a = true
    · simp [under, ha, hp a ha]
    · have hc : (a :: l).eraseP p = a :: l.eraseP p := List.eraseP_cons_of_neg ha
      unfold under at ih ⊢
      rw [hc, List.filter_cons, List.filter_cons, ih]

/-- Removing the first element with a property that only elements under `k` have. -/
theorem under_eraseP_of_eq {k : κ} {p : α → Bool} (hp : ∀ a, p a = true → key a = k) (l : List α) :
    under key k (l.eraseP p) = (under key k l).eraseP p := by
  have hpk : (fun a => p a && decide (key a = k)) = p := by
    funext a
    by_cases ha : p a = true
    · simp [ha, hp a ha]
    · simp [ha]
  unfold under
  rw [List.eraseP_filter, hpk]

/-- The first element with a property that only elements under `k` have is found under `k`. -/
theorem find?_under {k : κ} {p : α → Bool} (hp : ∀ a, p a = true → key a = k) (l : List α) :
    (under key k l).find? p = l.find? p := by
  have hpk : (fun a => decide (decide (key a = k) = true ∧ p a = true)) = p := by
    funext a
    by_cases ha : p a = true
    · simp [ha, hp a ha]
    · simp [ha]
  unfold under
  rw [List.find?_filter]
  exact congrFun (congrArg List.find? hpk) l

/-- Removing the first element under `k` drops the head of what is under `k`. -/
theorem under_eraseP_key (k : κ) (l : List α) :
    under key k (l.eraseP fun a => key a = k) = (under key k l).tail := by
  rw [under_eraseP_of_eq key (by simp)]
  cases h : under key k l with
  | nil => rfl
  | cons a t =>
    have ha : key a = k := ((mem_under key).1 (by rw [h]; exact List.mem_cons_self ..)).2
    simp [ha]

/-- If something is found, removing the first such element shortens the list by one. -/
theorem length_eraseP_of_find? {p : α → Bool} {l : List α} {a : α} (h : l.find? p = some a) :
    (l.eraseP p).length + 1 = l.length := by
  have hm := List.mem_of_find?_eq_some h
  have hp : p a = true := List.find?_some h
  rw [List.length_eraseP_of_mem hm hp]
  have := List.length_pos_of_mem hm
  omega

/-- If nothing is found, nothing is removed. -/
theorem eraseP_of_find?_none {p : α → Bool} {l : List α} (h : l.find? p = none) : l.eraseP p = l :=
  List.eraseP_of_forall_not fun a ha => List.find?_eq_none.1 h a ha

/-- What is found and what is left when it is removed make up the list. -/
theorem perm_find?_eraseP (p : α → Bool) (l : List α) : l.Perm ((l.find? p).toList ++ l.eraseP p) := by
  induction l with
  | nil => exact List.Perm.nil
  | cons a l ih =>
    by_cases ha : p a = true
    · simp [ha]
    · have hf : (a :: l).find? p = l.find? p := List.find?_cons_of_neg ha
      have he : (a :: l).eraseP p = a :: l.eraseP p := List.eraseP_cons_of_neg ha
      rw [hf, he]
      exact (ih.cons a).trans List.perm_middle.symm

omit [DecidableEq κ] in
/-- Removing the first element depends only on the property of the elements of the list. -/
theorem eraseP_congr {p q : α → Bool} {l : List α} (h : ∀ a ∈ l, p a = q a) :
    l.eraseP p = l.eraseP q := by
  induction l with
  | nil => rfl
  | cons a l ih =>
    rw [List.eraseP_cons, List.eraseP_cons, h a (List.mem_cons_self ..),
      ih fun b hb => h b (List.mem_cons_of_mem _ hb)]

/-- Lists that hold the same under every key are the same up to order. -/
theorem perm_of_under {l l' : List α} (h : ∀ k, under key k l = under key k l') : l.Perm l' := by
  classical
  refine List.perm_iff_count.2 fun a => ?_
  have hc : ∀ m : List α, m.count a = (under key (key a) m).count a := fun m => by
    unfold under
    rw [List.count_filter (by simp)]
  rw [hc l, hc l', h]

end KeyedList
