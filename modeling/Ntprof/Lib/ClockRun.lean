import Mathlib.Data.List.Pairwise

/-!
# Runs on a clock

Some events of a run carry the time at which they happen. Where that time never goes back, an invariant
that may speak of the current time is carried along the run.
-/

namespace ClockRun

variable {σ ε τ : Type*} [LE τ] [Std.IsPreorder τ]

/-- From `t` on, the times of the events that have one never go back. -/
def Forward (now : ε → Option τ) (t : τ) (es : List ε) : Prop := (t :: es.filterMap now).Pairwise (· ≤ ·)

/-- Every event of the run meets `ok` in the state it comes in. -/
def Every (step : σ → ε → σ) (ok : σ → ε → Prop) : σ → List ε → Prop
  | _, [] => True
  | s, e :: es => ok s e ∧ Every step ok (step s e) es

theorem Forward.step {now : ε → Option τ} {t : τ} {e : ε} {es : List ε} (h : Forward now t (e :: es)) :
    ∃ u, t ≤ u ∧ (∀ v, now e = some v → v = u) ∧ Forward now u es := by
  unfold Forward at h ⊢
  cases hn : now e with
  | none =>
    rw [List.filterMap_cons_none hn] at h
    exact ⟨t, Std.le_refl t, fun v hv => (by cases hv), h⟩
  | some u =>
    rw [List.filterMap_cons_some hn, List.pairwise_cons] at h
    exact ⟨u, h.1 u List.mem_cons_self, fun v hv => (Option.some.inj hv).symm, h.2⟩

/-- What holds at the start, goes on to hold as time passes, and is kept by every event at its time, holds
after the run. -/
theorem inv_run {step : σ → ε → σ} {ok : σ → ε → Prop} {now : ε → Option τ} {Inv : σ → τ → Prop}
    (hlater : ∀ s t u, t ≤ u → Inv s t → Inv s u)
    (hstep : ∀ s e t, Inv s t → ok s e → (∀ v, now e = some v → v = t) → Inv (step s e) t)
    {s : σ} {t : τ} {es : List ε} (hs : Inv s t) (hok : Every step ok s es) (hf : Forward now t es) :
    ∃ u, Inv (es.foldl step s) u := by
  induction es generalizing s t with
  | nil => exact ⟨t, hs⟩
  | cons e es ih =>
    obtain ⟨u, htu, hnow, hf'⟩ := hf.step
    exact ih (hstep s e u (hlater s t u htu hs) hok.1 hnow) hok.2 hf'

theorem every_of_forall {step : σ → ε → σ} {ok : σ → ε → Prop} {es : List ε} (h : ∀ s, ∀ e ∈ es, ok s e) (s : σ) :
    Every step ok s es := by
  induction es generalizing s with
  | nil => exact trivial
  | cons e es ih =>
    exact ⟨h s e List.mem_cons_self, ih (fun s e he => h s e (List.mem_cons_of_mem _ he)) _⟩

/-- Two conditions on every event of a run. -/
theorem Every.and {step : σ → ε → σ} {ok ok' : σ → ε → Prop} {s : σ} {es : List ε} (h : Every step ok s es)
    (h' : Every step ok' s es) : Every step (fun s e => ok s e ∧ ok' s e) s es := by
  induction es generalizing s with
  | nil => exact trivial
  | cons e es ih => exact ⟨⟨h.1, h'.1⟩, ih h.2 h'.2⟩

end ClockRun
