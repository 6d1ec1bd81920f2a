import Mathlib.Algebra.Group.Nat.Defs
import Mathlib.Logic.Function.Iterate
import Mathlib.Tactic.Common

/-!
# Binary search with a fixed number of halvings

A predicate on positions holds up to some position and not after it. A halving narrows a range of positions
around that position; enough of them leave a range of length 0, whatever the predicate is.
-/

namespace Bisect

/-- One halving of the positions from `lo` to `hi`. -/
def halve (p : ℕ → Bool) (range : ℕ × ℕ) : ℕ × ℕ :=
  let mid := (range.1 + range.2) / 2
  if range.1 < range.2 then
    if p mid then (mid + 1, range.2) else (range.1, mid)
  else range

/-- A range around the position where `p` changes, among `n` positions. -/
structure Brackets (p : ℕ → Bool) (n : ℕ) (range : ℕ × ℕ) : Prop where
  le : range.1 ≤ range.2
  bound : range.2 ≤ n
  below : ∀ i < range.1, p i = true
  above : ∀ i, range.2 ≤ i → i < n → p i = false

variable {p : ℕ → Bool} {n : ℕ} {range : ℕ × ℕ}

theorem brackets_all (p : ℕ → Bool) (n : ℕ) : Brackets p n (0, n) where
  le := Nat.zero_le n
  bound := Nat.le_refl n
  below _ hi := absurd hi (Nat.not_lt_zero _)
  above _ hi hn := absurd hn (Nat.not_lt.mpr hi)

/-- What a halving can do. -/
theorem halve_cases (p : ℕ → Bool) (range : ℕ × ℕ) :
    (range.1 < range.2 ∧ p ((range.1 + range.2) / 2) = true ∧
      halve p range = ((range.1 + range.2) / 2 + 1, range.2)) ∨
    (range.1 < range.2 ∧ p ((range.1 + range.2) / 2) = false ∧
      halve p range = (range.1, (range.1 + range.2) / 2)) ∨
    (range.2 ≤ range.1 ∧ halve p range = range) := by
  by_cases hlt : range.1 < range.2
  · cases hp : p ((range.1 + range.2) / 2) with
    | true => exact Or.inl ⟨hlt, rfl, by simp [halve, hlt, hp]⟩
    | false => exact Or.inr (Or.inl ⟨hlt, rfl, by simp [halve, hlt, hp]⟩)
  · exact Or.inr (Or.inr ⟨Nat.not_lt.mp hlt, by simp [halve, hlt]⟩)

theorem halve_le (h : range.1 ≤ range.2) : (halve p range).1 ≤ (halve p range).2 := by
  rcases halve_cases p range with ⟨hlt, -, heq⟩ | ⟨hlt, -, heq⟩ | ⟨-, heq⟩
  · rw [heq]
    show (range.1 + range.2) / 2 + 1 ≤ range.2
    omega
  · rw [heq]
    show range.1 ≤ (range.1 + range.2) / 2
    omega
  · rw [heq]
    exact h

theorem halve_bound (h : range.2 ≤ n) : (halve p range).2 ≤ n := by
  rcases halve_cases p range with ⟨-, -, heq⟩ | ⟨hlt, -, heq⟩ | ⟨-, heq⟩
  · rw [heq]
    exact h
  · rw [heq]
    show (range.1 + range.2) / 2 ≤ n
    omega
  · rw [heq]
    exact h

/-- A halving leaves at most half of the range. -/
theorem halve_length (p : ℕ → Bool) (range : ℕ × ℕ) :
    (halve p range).2 - (halve p range).1 ≤ (range.2 - range.1) / 2 := by
  rcases halve_cases p range with ⟨hlt, -, heq⟩ | ⟨hlt, -, heq⟩ | ⟨hle, heq⟩
  · rw [heq]
    show range.2 - ((range.1 + range.2) / 2 + 1) ≤ _
    omega
  · rw [heq]
    show (range.1 + range.2) / 2 - range.1 ≤ _
    omega
  · rw [heq]
    omega

theorem Brackets.halve (h : Brackets p n range) (hp : ∀ i j, i ≤ j → j < n → p j = true → p i = true) :
    Brackets p n (halve p range) := by
  obtain ⟨hle, hbound, hbelow, habove⟩ := h
  refine ⟨halve_le hle, halve_bound hbound, ?_, ?_⟩
  · intro i hi
    rcases halve_cases p range with ⟨hlt, hmid, heq⟩ | ⟨-, -, heq⟩ | ⟨-, heq⟩
    · rw [heq] at hi
      exact hp i _ (Nat.le_of_lt_succ hi) (by omega) hmid
    · rw [heq] at hi
      exact hbelow i hi
    · rw [heq] at hi
      exact hbelow i hi
  · intro i hi hn
    rcases halve_cases p range with ⟨-, -, heq⟩ | ⟨-, hmid, heq⟩ | ⟨-, heq⟩
    · rw [heq] at hi
      exact habove i hi hn
    · rw [heq] at hi
      cases hpi : p i with
      | false => rfl
      | true => exact absurd (hp _ i hi hn hpi) (Bool.not_eq_true _ ▸ hmid)
    · rw [heq] at hi
      exact habove i hi hn

theorem Brackets.iterate (h : Brackets p n range) (hp : ∀ i j, i ≤ j → j < n → p j = true → p i = true) (k : ℕ) :
    Brackets p n ((Bisect.halve p)^[k] range) := by
  induction k with
  | zero => exact h
  | succ k ih =>
    rw [Function.iterate_succ_apply']
    exact ih.halve hp

theorem iterate_le (h : range.1 ≤ range.2) (k : ℕ) :
    ((halve p)^[k] range).1 ≤ ((halve p)^[k] range).2 := by
  induction k with
  | zero => exact h
  | succ k ih =>
    rw [Function.iterate_succ_apply']
    exact halve_le ih

theorem iterate_bound (h : range.2 ≤ n) (k : ℕ) : ((halve p)^[k] range).2 ≤ n := by
  induction k with
  | zero => exact h
  | succ k ih =>
    rw [Function.iterate_succ_apply']
    exact halve_bound ih

theorem iterate_length (p : ℕ → Bool) (range : ℕ × ℕ) (k : ℕ) :
    ((halve p)^[k] range).2 - ((halve p)^[k] range).1 ≤ (range.2 - range.1) / 2 ^ k := by
  induction k with
  | zero => simp
  | succ k ih =>
    rw [Function.iterate_succ_apply', Nat.pow_succ, ← Nat.div_div_eq_div_mul]
    exact Nat.le_trans (halve_length p _) (Nat.div_le_div_right ih)

/-- Enough halvings end with an empty range. -/
theorem iterate_ends (h : range.1 ≤ range.2) {k : ℕ} (hk : range.2 - range.1 < 2 ^ k) :
    ((halve p)^[k] range).1 = ((halve p)^[k] range).2 := by
  have hlen := iterate_length p range k
  rw [Nat.div_eq_of_lt hk] at hlen
  have hle := iterate_le (p := p) h k
  omega

end Bisect
