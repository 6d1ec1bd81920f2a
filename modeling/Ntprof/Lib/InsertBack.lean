import Mathlib.Data.List.DropRight
import Mathlib.Data.List.Perm.Basic

/-!
# Insertion from the back

One step of an insertion sort that grows a sorted list at its end: the new element passes the elements `p` at the
back, and stops behind the first one that is not.
-/

namespace InsertBack

variable {α : Type*} {p : α → Bool} {r : α → α → Prop}

/-- Puts `x` in front of the last elements of `l` that are `p`. -/
def insertBack (p : α → Bool) (x : α) (l : List α) : List α := l.rdropWhile p ++ x :: l.rtakeWhile p

@[simp] theorem insertBack_nil (x : α) : insertBack p x [] = [x] := by simp [insertBack]

/-- An element that is `p` is passed. -/
theorem insertBack_concat_pos {y : α} (hy : p y = true) (x : α) (l : List α) :
    insertBack p x (l ++ [y]) = insertBack p x l ++ [y] := by
  simp [insertBack, hy]

/-- An element that is not `p` is where the new one stops. -/
theorem insertBack_concat_neg {y : α} (hy : p y = false) (x : α) (l : List α) :
    insertBack p x (l ++ [y]) = l ++ [y, x] := by
  have hn : ¬ p y = true := by simp [hy]
  simp [insertBack, hn]

theorem insertBack_perm (x : α) (l : List α) : (insertBack p x l).Perm (x :: l) := by
  have h : (l.rdropWhile p ++ x :: l.rtakeWhile p).Perm (x :: (l.rdropWhile p ++ l.rtakeWhile p)) :=
    List.perm_middle
  rwa [List.rdropWhile_append_rtakeWhile] at h

/-- In a list where no `p` element comes before one that is not, exactly those that are not stay in front. -/
theorem not_of_mem_rdropWhile {l : List α} (hl : l.Pairwise fun a b => p a = true → p b = true) {y : α}
    (hy : y ∈ l.rdropWhile p) : p y = false := by
  induction l using List.reverseRecOn with
  | nil => simp at hy
  | append_singleton l z ih =>
    obtain ⟨hl', -, hz⟩ := List.pairwise_append.mp hl
    by_cases hpz : p z = true
    · rw [List.rdropWhile_concat_pos _ _ _ hpz] at hy
      exact ih hl' hy
    · rw [List.rdropWhile_concat_neg _ _ _ hpz] at hy
      rcases List.mem_append.mp hy with hy | hy
      · by_contra hpy
        exact hpz (hz y hy z (List.mem_singleton_self z) (by simpa using hpy))
      · rw [List.mem_singleton.mp hy]
        simpa using hpz

/-- The insertion keeps a list in order, where `p` tells on which side of `x` an element belongs. -/
theorem insertBack_pairwise {x : α} {l : List α} (hl : l.Pairwise r)
    (hmono : l.Pairwise fun a b => p a = true → p b = true) (hpos : ∀ y ∈ l, p y = true → r x y)
    (hneg : ∀ y ∈ l, p y = false → r y x) : (insertBack p x l).Pairwise r := by
  have happ : (l.rdropWhile p ++ l.rtakeWhile p).Pairwise r := by
    rwa [List.rdropWhile_append_rtakeWhile]
  obtain ⟨hfront, hback, hcross⟩ := List.pairwise_append.mp happ
  have hx : ∀ y ∈ l.rtakeWhile p, r x y := by
    intro y hy
    exact hpos y ((List.rtakeWhile_suffix p l).subset hy) (List.mem_rtakeWhile_imp hy)
  refine List.pairwise_append.mpr ⟨hfront, List.pairwise_cons.mpr ⟨hx, hback⟩, ?_⟩
  intro y hy z hz
  rcases List.mem_cons.mp hz with rfl | hz
  · exact hneg y ((List.rdropWhile_prefix p l).subset hy) (not_of_mem_rdropWhile hmono hy)
  · exact hcross y hy z hz

end InsertBack
