import Mathlib.Data.List.Infix

/-!
# Every state of a run

A run folds a step function over a list of events; its states are those after each prefix of the list.
-/

namespace PrefixRun

variable {σ ε : Type*} (step : σ → ε → σ)

/-- No event of the run is a bad one where it comes. -/
def avoids (bad : σ → ε → Bool) (s : σ) : List ε → Bool
  | [] => true
  | e :: es => !bad s e && avoids bad (step s e) es

/-- Where the good events keep an invariant and a bad one breaks the property that the invariant gives, the
property holds in every state of a run if and only if the run has no bad event. -/
theorem forall_prefix_iff {step : σ → ε → σ} {bad : σ → ε → Bool} {Inv P : σ → Prop}
    (hP : ∀ s, Inv s → P s) (hgood : ∀ s e, Inv s → bad s e = false → Inv (step s e))
    (hbad : ∀ s e, Inv s → bad s e = true → ¬ P (step s e)) {s : σ} (hs : Inv s) (es : List ε) :
    (∀ es', es' <+: es → P (es'.foldl step s)) ↔ avoids step bad s es = true := by
  induction es generalizing s with
  | nil =>
    constructor
    · intro _
      rfl
    · rintro - es' hes'
      rw [List.prefix_nil.mp hes']
      exact hP s hs
  | cons e es ih =>
    constructor
    · intro hall
      have he : bad s e = false := by
        by_contra hb
        exact hbad s e hs (by simpa using hb) (hall [e] (List.prefix_append [e] es))
      have hrest : avoids step bad (step s e) es = true := by
        apply (ih (hgood s e hs he)).mp
        intro es' hes'
        exact hall (e :: es') (List.cons_prefix_cons.mpr ⟨rfl, hes'⟩)
      rw [avoids, he, hrest]
      rfl
    · intro hav es' hes'
      rw [avoids, Bool.and_eq_true, Bool.not_eq_true'] at hav
      cases es' with
      | nil => exact hP s hs
      | cons e' es' =>
        obtain ⟨rfl, htail⟩ := List.cons_prefix_cons.mp hes'
        exact (ih (hgood s e' hs hav.1)).mpr hav.2 es' htail

end PrefixRun
