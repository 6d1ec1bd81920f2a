import Mathlib.Data.List.TakeWhile
import Mathlib.Data.List.Forall2

/-!
# Separated texts

Texts without a byte `c`, each with a `c` in front of it or behind it, can be told apart.
-/

namespace Separated

variable {α : Type} [DecidableEq α] {c : α}

/-- What follows a text without `c`: nothing, or a text that starts with `c`. -/
def Starts (c : α) (r : List α) : Prop := r = [] ∨ ∃ t, r = c :: t

theorem takeWhile_ne {f r : List α} (hf : c ∉ f) (hr : Starts c r) :
    (f ++ r).takeWhile (fun x => decide (x ≠ c)) = f ∧ (f ++ r).dropWhile (fun x => decide (x ≠ c)) = r := by
  have hall : ∀ x ∈ f, decide (x ≠ c) = true := by
    intro x hx
    exact decide_eq_true fun h => hf (h ▸ hx)
  rw [List.takeWhile_append_of_pos hall, List.dropWhile_append_of_pos hall]
  rcases hr with rfl | ⟨t, rfl⟩
  · exact ⟨List.append_nil f, rfl⟩
  · rw [List.takeWhile_cons, List.dropWhile_cons, if_neg (by simp), if_neg (by simp)]
    exact ⟨List.append_nil f, rfl⟩

/-- The first text and the rest. -/
theorem append_inj {f f' r r' : List α} (hf : c ∉ f) (hf' : c ∉ f') (hr : Starts c r) (hr' : Starts c r')
    (h : f ++ r = f' ++ r') : f = f' ∧ r = r' := by
  obtain ⟨htake, hdrop⟩ := takeWhile_ne hf hr
  obtain ⟨htake', hdrop'⟩ := takeWhile_ne hf' hr'
  rw [h] at htake hdrop
  exact ⟨htake.symm.trans htake', hdrop.symm.trans hdrop'⟩

omit [DecidableEq α] in
theorem starts_flatMap (fs : List (List α)) : Starts c (fs.flatMap (c :: ·)) := by
  cases fs with
  | nil => exact Or.inl rfl
  | cons f fs => exact Or.inr ⟨_, rfl⟩

/-- Texts that each have a separator in front. -/
theorem fields_inj {fs fs' : List (List α)} (hfs : ∀ f ∈ fs, c ∉ f) (hfs' : ∀ f ∈ fs', c ∉ f)
    (h : fs.flatMap (c :: ·) = fs'.flatMap (c :: ·)) : fs = fs' := by
  induction fs generalizing fs' with
  | nil =>
    cases fs' with
    | nil => rfl
    | cons f' fs' => cases h
  | cons f fs ih =>
    cases fs' with
    | nil => cases h
    | cons f' fs' =>
      rw [List.flatMap_cons, List.flatMap_cons, List.cons_append, List.cons_append] at h
      obtain ⟨rfl, hrest⟩ := append_inj (hfs f List.mem_cons_self) (hfs' f' List.mem_cons_self) (starts_flatMap fs)
        (starts_flatMap fs') (List.cons.inj h).2
      rw [ih (fun x hx => hfs x (List.mem_cons_of_mem _ hx)) (fun x hx => hfs' x (List.mem_cons_of_mem _ hx)) hrest]

/-- Lines that each have a separator behind. -/
theorem lines_inj {ls ls' : List (List α)} (hls : ∀ l ∈ ls, c ∉ l) (hls' : ∀ l ∈ ls', c ∉ l)
    (h : ls.flatMap (· ++ [c]) = ls'.flatMap (· ++ [c])) : ls = ls' := by
  induction ls generalizing ls' with
  | nil =>
    cases ls' with
    | nil => rfl
    | cons l' ls' => simp at h
  | cons l ls ih =>
    cases ls' with
    | nil => simp at h
    | cons l' ls' =>
      rw [List.flatMap_cons, List.flatMap_cons, List.append_assoc, List.append_assoc] at h
      obtain ⟨rfl, hrest⟩ := append_inj (hls l List.mem_cons_self) (hls' l' List.mem_cons_self) (Or.inr ⟨_, rfl⟩)
        (Or.inr ⟨_, rfl⟩) h
      rw [ih (fun x hx => hls x (List.mem_cons_of_mem _ hx)) (fun x hx => hls' x (List.mem_cons_of_mem _ hx))
        (List.cons.inj hrest).2]

end Separated
