import Mathlib.Data.Fintype.Basic
import Mathlib.Data.List.Nodup
import Mathlib.Logic.Function.Basic

/-!
# Records in shared slots

Threads collect records in slots. A thread finds a record by looking into its slot, works on it, and lets it go; the
thread that sees the last end of a record hands it over and frees the slot. A thread that needs the slot takes it
away. None of this is locked: the rules below say what a thread does when no other one is in its way, and the
invariant says what holds as long as none is.
-/

namespace SharedSlots

/-- Where a thread is. -/
inductive Phase (K C : Type*) where
  | away
  /-- it has found the record `c` -/
  | uses (c : C)
  /-- it has seen the last end of `c` -/
  | wins (c : C)
  /-- it has found `c` and hands it over, because it has seen the last end, or because `c` is in its way -/
  | emits (own : Bool) (c : C)
  /-- it has handed over `c` -/
  | frees (own : Bool) (c : C)
  /-- it has given up what is in the slot `k` -/
  | takes (k : K)
  /-- the slot `k` is empty, and the thread fills it -/
  | fills (k : K)

/-- How a record ended: the thread with its last end handed it over, or one that needed the slot; or it was lost. -/
inductive Cause (F : Type*) where
  | own (f : F)
  | back (f : F)
  | stale
  deriving DecidableEq

/-- What the record was handed over as. -/
def Cause.fate {F : Type*} : Cause F → Option F
  | .own f => some f
  | .back f => some f
  | .stale => none

/-- One of its own threads has handed the record over. -/
def Cause.isOwn {F : Type*} : Cause F → Bool
  | .own _ => true
  | _ => false

theorem own_of_isOwn {C F : Type*} {closed : List (C × Cause F)} {c : C}
    (h : ∃ p ∈ closed, p.1 = c ∧ p.2.isOwn) : ∃ f, (c, .own f) ∈ closed := by
  obtain ⟨⟨c, x⟩, hmem, rfl, hx⟩ := h
  cases x with
  | own f => exact ⟨f, hmem⟩
  | _ => cases hx

/-- The slots, the threads, and what became of the records. -/
structure State (T K C E F : Type*) where
  /-- the record that is found in a slot -/
  live : K → Option C
  phase : T → Phase K C
  /-- the ends of a record that were seen -/
  seen : C → Finset E
  made : List C
  closed : List (C × Cause F)

variable {T K C E F : Type*}

/-- The thread is in the slot `k`. -/
@[grind =]
def Phase.In (slot : C → K) (k : K) : Phase K C → Prop
  | .away => False
  | .uses c => slot c = k
  | .wins _ => False
  | .emits _ c => slot c = k
  | .frees _ c => slot c = k
  | .takes k' => k' = k
  | .fills k' => k' = k

/-- The thread is in the slot `k` and wants it for itself. -/
@[grind =]
def Phase.Takes (slot : C → K) (k : K) : Phase K C → Prop
  | .emits own c => own = false ∧ slot c = k
  | .frees own c => own = false ∧ slot c = k
  | .takes k' => k' = k
  | .fills k' => k' = k
  | _ => False

/-- The thread has seen the last end of `c`. -/
@[grind =]
def Phase.Winner (c : C) : Phase K C → Prop
  | .wins c' => c' = c
  | .emits own c' => own = true ∧ c' = c
  | .frees own c' => own = true ∧ c' = c
  | _ => False

/-- The thread has to do with `c`. -/
@[grind =]
def Phase.About (c : C) : Phase K C → Prop
  | .uses c' => c' = c
  | .wins c' => c' = c
  | .emits _ c' => c' = c
  | .frees _ c' => c' = c
  | _ => False

namespace State

/-- The record `c` has ended. -/
def Closed (s : State T K C E F) (c : C) : Prop := c ∈ s.closed.map Prod.fst

/-! ## The rules -/

section Rules

variable [DecidableEq T] (s : State T K C E F) (t : T) (p : Phase K C) (c : C) (k : K) (own : Bool) (f : F)

/-- A thread goes on. -/
def go : State T K C E F := { s with phase := Function.update s.phase t p }

/-- A thread hands over a record. -/
def output : State T K C E F :=
  { s.go t (.frees own c) with closed := s.closed ++ [(c, if own then .own f else .back f)] }

/-- A thread gives up what is in a slot. -/
def take : State T K C E F :=
  { s.go t (.takes k) with closed := s.closed ++ (s.live k).toList.map fun c => (c, .stale) }

@[simp, grind =]
theorem phase_go (t' : T) : (s.go t p).phase t' = if t' = t then p else s.phase t' := Function.update_apply ..

@[simp, grind =] theorem live_go (k : K) : (s.go t p).live k = s.live k := rfl

@[simp, grind =] theorem seen_go (c : C) : (s.go t p).seen c = s.seen c := rfl

@[simp, grind =] theorem made_go : (s.go t p).made = s.made := rfl

@[simp, grind =] theorem closed_go : (s.go t p).Closed c ↔ s.Closed c := Iff.rfl

@[simp, grind =]
theorem phase_output (t' : T) : (s.output t c own f).phase t' = if t' = t then .frees own c else s.phase t' :=
  Function.update_apply ..

@[simp, grind =] theorem live_output (k : K) : (s.output t c own f).live k = s.live k := rfl

@[simp, grind =] theorem seen_output (c' : C) : (s.output t c own f).seen c' = s.seen c' := rfl

@[simp, grind =] theorem made_output : (s.output t c own f).made = s.made := rfl

@[simp, grind =]
theorem closed_output (c' : C) : (s.output t c own f).Closed c' ↔ s.Closed c' ∨ c' = c := by
  simp [Closed, output]

@[simp, grind =]
theorem phase_take (t' : T) : (s.take t k).phase t' = if t' = t then .takes k else s.phase t' :=
  Function.update_apply ..

@[simp, grind =] theorem live_take (k' : K) : (s.take t k).live k' = s.live k' := rfl

@[simp, grind =] theorem seen_take (c : C) : (s.take t k).seen c = s.seen c := rfl

@[simp, grind =] theorem made_take : (s.take t k).made = s.made := rfl

@[simp, grind =]
theorem closed_take (c : C) : (s.take t k).Closed c ↔ s.Closed c ∨ s.live k = some c := by
  cases hlive : s.live k <;> simp [Closed, take, hlive, eq_comm]

section Slots

variable [DecidableEq K]

/-- A thread frees a slot. -/
def free : State T K C E F := { s.go t .away with live := Function.update s.live k none }

/-- A thread empties a slot. -/
def unlink : State T K C E F := { s.go t (.fills k) with live := Function.update s.live k none }

/-- A thread makes the record `c` known in the slot `k`. -/
def publish : State T K C E F :=
  { s.go t .away with live := Function.update s.live k (some c), made := s.made ++ [c] }

@[simp, grind =]
theorem phase_free (t' : T) : (s.free t k).phase t' = if t' = t then .away else s.phase t' := Function.update_apply ..

@[simp, grind =]
theorem live_free (k' : K) : (s.free t k).live k' = if k' = k then none else s.live k' := Function.update_apply ..

@[simp, grind =] theorem seen_free (c : C) : (s.free t k).seen c = s.seen c := rfl

@[simp, grind =] theorem made_free : (s.free t k).made = s.made := rfl

@[simp, grind =] theorem closed_free (c : C) : (s.free t k).Closed c ↔ s.Closed c := Iff.rfl

@[simp, grind =]
theorem phase_unlink (t' : T) : (s.unlink t k).phase t' = if t' = t then .fills k else s.phase t' :=
  Function.update_apply ..

@[simp, grind =]
theorem live_unlink (k' : K) : (s.unlink t k).live k' = if k' = k then none else s.live k' := Function.update_apply ..

@[simp, grind =] theorem seen_unlink (c : C) : (s.unlink t k).seen c = s.seen c := rfl

@[simp, grind =] theorem made_unlink : (s.unlink t k).made = s.made := rfl

@[simp, grind =] theorem closed_unlink (c : C) : (s.unlink t k).Closed c ↔ s.Closed c := Iff.rfl

@[simp, grind =]
theorem phase_publish (t' : T) : (s.publish t c k).phase t' = if t' = t then .away else s.phase t' :=
  Function.update_apply ..

@[simp, grind =]
theorem live_publish (k' : K) : (s.publish t c k).live k' = if k' = k then some c else s.live k' :=
  Function.update_apply ..

@[simp, grind =] theorem seen_publish (c' : C) : (s.publish t c k).seen c' = s.seen c' := rfl

@[simp, grind =] theorem made_publish : (s.publish t c k).made = s.made ++ [c] := rfl

@[simp, grind =] theorem closed_publish (c' : C) : (s.publish t c k).Closed c' ↔ s.Closed c' := Iff.rfl

end Slots

section Ends

variable [DecidableEq C] [DecidableEq E] [Fintype E] (e : E)

/-- A thread sees an end of the record it has found. -/
def see : State T K C E F :=
  { s.go t (if insert e (s.seen c) = Finset.univ then .wins c else .away) with
    seen := Function.update s.seen c (insert e (s.seen c)) }

@[simp, grind =]
theorem phase_see (t' : T) : (s.see t c e).phase t' =
    if t' = t then (if insert e (s.seen c) = Finset.univ then .wins c else .away) else s.phase t' :=
  Function.update_apply ..

@[simp, grind =] theorem live_see (k : K) : (s.see t c e).live k = s.live k := rfl

@[simp, grind =]
theorem seen_see (c' : C) : (s.see t c e).seen c' = if c' = c then insert e (s.seen c) else s.seen c' :=
  Function.update_apply ..

@[simp, grind =] theorem made_see : (s.see t c e).made = s.made := rfl

@[simp, grind =] theorem closed_see (c' : C) : (s.see t c e).Closed c' ↔ s.Closed c' := Iff.rfl

end Ends

end Rules

end State

/-! ## The invariant -/

/-- No slot is taken while another thread is in it, and every record ends once. -/
structure Inv [Fintype E] (slot : C → K) (s : State T K C E F) : Prop where
  alone : ∀ t t' k, (s.phase t).Takes slot k → (s.phase t').In slot k → t' = t
  uses : ∀ t c, s.phase t = .uses c → s.live (slot c) = some c ∨ (s.live (slot c) = none ∧ s.seen c = Finset.univ)
  emits : ∀ t own c, s.phase t = .emits own c → s.live (slot c) = some c ∧ ¬ s.Closed c
  frees : ∀ t own c, s.phase t = .frees own c → s.live (slot c) = some c ∧ s.Closed c
  takes : ∀ t k c, s.phase t = .takes k → s.live k = some c → s.Closed c
  fills : ∀ t k, s.phase t = .fills k → s.live k = none
  live : ∀ k c, s.live k = some c → slot c = k ∧ c ∈ s.made
  leaving : ∀ k c, s.live k = some c → s.Closed c → ∃ t, (∃ own, s.phase t = .frees own c) ∨ s.phase t = .takes k
  kept : ∀ c ∈ s.made, s.Closed c ∨ s.live (slot c) = some c
  made : ∀ c, s.Closed c → c ∈ s.made
  once : (s.closed.map Prod.fst).Nodup
  winner : ∀ t c, (s.phase t).Winner c → s.seen c = Finset.univ
  unique : ∀ t t' c, (s.phase t).Winner c → (s.phase t').Winner c → t' = t
  fresh : ∀ c, c ∉ s.made → s.seen c = ∅ ∧ ∀ t, ¬ (s.phase t).About c
  full : ∀ c ∈ s.made, ¬ s.Closed c → s.seen c = Finset.univ → ∃ t, s.phase t = .wins c ∨ s.phase t = .emits true c
  ended : ∀ c f, (c, .own f) ∈ s.closed → s.seen c = Finset.univ

theorem inside {slot : C → K} {k : K} {p : Phase K C} (h : p.Takes slot k) : p.In slot k := by
  cases p <;> grind

namespace Inv

variable [Fintype E] {slot : C → K} {s : State T K C E F} {t : T} {c : C} {k : K} {e : E} {own : Bool}

/-- A record in a slot that no thread is about to empty has not ended. -/
theorem not_closed (h : Inv slot s) (hlive : s.live k = some c) (hfrees : ∀ t own, s.phase t ≠ .frees own c)
    (htakes : ∀ t, s.phase t ≠ .takes k) : ¬ s.Closed c := by
  intro hclosed
  obtain ⟨w, ⟨own, hw⟩ | hw⟩ := h.leaving k c hlive hclosed
  · exact hfrees w own hw
  · exact htakes w hw

/-- A thread in a slot works on the record there, unless that one has ended. -/
theorem whose (h : Inv slot s) (hin : (s.phase t).In slot k) (hlive : s.live k = some c) :
    s.Closed c ∨ s.phase t = .uses c ∨ ∃ own, s.phase t = .emits own c := by
  cases hphase : s.phase t with
  | away =>
    rw [hphase] at hin
    exact hin.elim
  | uses c' =>
    rw [hphase] at hin
    rcases h.uses t c' hphase with hlive' | ⟨hnone, -⟩
    · grind
    · grind
  | wins c' =>
    rw [hphase] at hin
    exact hin.elim
  | emits own c' =>
    rw [hphase] at hin
    have hlive' := (h.emits t own c' hphase).1
    grind
  | frees own c' =>
    rw [hphase] at hin
    obtain ⟨hlive', hclosed⟩ := h.frees t own c' hphase
    grind
  | takes k' =>
    rw [hphase] at hin
    exact .inl (h.takes t k c (by rw [hphase, hin]) hlive)
  | fills k' =>
    rw [hphase] at hin
    have hnone := h.fills t k' hphase
    grind

section Threads

variable [DecidableEq T]

/-- A thread goes on: it comes to nothing, to a record it uses, or to one it hands over. -/
theorem go {p : Phase K C} (h : Inv slot s)
    (hp : p = .away ∨ (∃ c, p = .uses c ∧ s.live (slot c) = some c) ∨
      ∃ own c, p = .emits own c ∧ s.live (slot c) = some c ∧ ¬ s.Closed c)
    (hin : ∀ k, p.In slot k → ∀ t' ≠ t, ¬ (s.phase t').Takes slot k)
    (hwants : ∀ k, p.Takes slot k → ∀ t' ≠ t, ¬ (s.phase t').In slot k)
    (hwins : ∀ c, p.Winner c → s.seen c = Finset.univ ∧ ∀ t' ≠ t, ¬ (s.phase t').Winner c)
    (hfrees : ∀ own c, s.phase t ≠ .frees own c) (htakes : ∀ k, s.phase t ≠ .takes k)
    (hfull : ∀ c ∈ s.made, ¬ s.Closed c → (s.phase t).Winner c → p = .emits true c) : Inv slot (s.go t p) where
  alone := by grind [h.alone]
  uses := by grind [h.uses]
  emits := by grind [h.emits]
  frees := by grind [h.frees]
  takes := by grind [h.takes]
  fills := by grind [h.fills]
  live := h.live
  leaving := by
    intro k' c' hl hc
    obtain ⟨w, hw⟩ := h.leaving k' c' hl hc
    exact ⟨w, by grind⟩
  kept := h.kept
  made := h.made
  once := h.once
  winner := by grind [h.winner]
  unique := by grind [h.unique]
  fresh := by grind [h.fresh, h.live]
  full := by
    intro c' hm hc hs
    obtain ⟨w, hw⟩ := h.full c' hm hc hs
    exact ⟨w, by grind⟩
  ended := h.ended

/-- A thread finds a record. -/
theorem find (h : Inv slot s) (ht : s.phase t = .away) (hlive : s.live (slot c) = some c)
    (hno : ∀ t', ¬ (s.phase t').Takes slot (slot c)) : Inv slot (s.go t (.uses c)) := by
  refine h.go (.inr (.inl ⟨c, rfl, hlive⟩)) ?_ ?_ ?_ ?_ ?_ ?_
  · rintro k rfl t' -
    exact hno t'
  all_goals grind

/-- A thread lets a record go. -/
theorem letGo (h : Inv slot s) (ht : s.phase t = .uses c) : Inv slot (s.go t .away) := by
  refine h.go (.inl rfl) ?_ ?_ ?_ ?_ ?_ ?_
  all_goals grind

/-- The record of a winner is gone. -/
theorem lose (h : Inv slot s) (ht : s.phase t = .wins c) (hlive : s.live (slot c) ≠ some c) :
    Inv slot (s.go t .away) := by
  refine h.go (.inl rfl) ?_ ?_ ?_ ?_ ?_ ?_
  on_goal 6 =>
    intro c' hmade hopen hwinner
    have hkept := h.kept c' hmade
    grind
  all_goals grind

/-- A winner finds its record. -/
theorem grab (h : Inv slot s) (ht : s.phase t = .wins c) (hlive : s.live (slot c) = some c)
    (hno : ∀ t', ¬ (s.phase t').Takes slot (slot c)) : Inv slot (s.go t (.emits true c)) := by
  have hwin : (s.phase t).Winner c := by rw [ht]; rfl
  have hseen := h.winner t c hwin
  have honly := fun t' => h.unique t t' c hwin
  have hopen : ¬ s.Closed c := by
    refine h.not_closed hlive ?_ ?_
    · grind
    · grind
  refine h.go (.inr (.inr ⟨true, c, rfl, hlive, hopen⟩)) ?_ ?_ ?_ ?_ ?_ ?_
  · rintro k rfl t' -
    exact hno t'
  all_goals grind

/-- A record is in the way of a thread. -/
theorem flush (h : Inv slot s) (ht : s.phase t = .away) (hlive : s.live (slot c) = some c)
    (hno : ∀ t', ¬ (s.phase t').In slot (slot c)) : Inv slot (s.go t (.emits false c)) := by
  have hopen : ¬ s.Closed c := by
    refine h.not_closed hlive ?_ ?_
    · grind
    · grind
  refine h.go (.inr (.inr ⟨false, c, rfl, hlive, hopen⟩)) ?_ ?_ ?_ ?_ ?_ ?_
  · rintro k rfl t' -
    exact fun htakes => hno t' (inside htakes)
  · rintro k ⟨-, rfl⟩ t' -
    exact hno t'
  all_goals grind

/-- A thread sees an end. -/
theorem see [DecidableEq C] [DecidableEq E] (h : Inv slot s) (ht : s.phase t = .uses c) (he : e ∉ s.seen c) :
    Inv slot (s.see t c e) := by
  have hnot : s.seen c ≠ Finset.univ := by
    intro hfull
    rw [hfull] at he
    exact he (Finset.mem_univ e)
  exact {
  alone := by grind [h.alone]
  uses := by grind [h.uses]
  emits := by grind [h.emits]
  frees := by grind [h.frees]
  takes := by grind [h.takes]
  fills := by grind [h.fills]
  live := h.live
  leaving := by
    intro k' c' hl hc
    obtain ⟨w, hw⟩ := h.leaving k' c' hl hc
    exact ⟨w, by grind⟩
  kept := h.kept
  made := h.made
  once := h.once
  winner := by grind [h.winner]
  unique := by grind [h.unique, h.winner]
  fresh := by grind [h.fresh]
  full := by
    intro c' hm hc hs
    by_cases hcc : c' = c
    · exact ⟨t, by grind⟩
    · obtain ⟨w, hw⟩ := h.full c' hm hc (by grind)
      exact ⟨w, by grind⟩
  ended := by
    intro c' f hmem
    have hseen := h.ended c' f hmem
    grind
  }

/-- A record is handed over. -/
theorem output {f : F} (h : Inv slot s) (ht : s.phase t = .emits own c) : Inv slot (s.output t c own f) := by
  obtain ⟨hlive, hopen⟩ := h.emits t own c ht
  have hmade := (h.live _ _ hlive).2
  have hin : (s.phase t).In slot (slot c) := by rw [ht]; rfl
  have hthey := fun t' htakes => h.alone t' t (slot c) htakes hin
  have hwe : own = false → ∀ t', (s.phase t').In slot (slot c) → t' = t := by
    rintro rfl t' hin'
    exact h.alone t t' (slot c) (by rw [ht]; exact ⟨rfl, rfl⟩) hin'
  have hwin : own = true → (s.phase t).Winner c := by
    rintro rfl
    rw [ht]
    exact ⟨rfl, rfl⟩
  have hseen := fun hown => h.winner t c (hwin hown)
  have honly := fun hown t' => h.unique t t' c (hwin hown)
  exact {
  alone := by grind [h.alone]
  uses := by grind [h.uses]
  emits := by grind [h.emits]
  frees := by grind [h.frees]
  takes := by grind [h.takes]
  fills := by grind [h.fills]
  live := h.live
  leaving := by
    intro k' c' hl hc
    by_cases hcc : c' = c
    · exact ⟨t, by grind⟩
    · obtain ⟨w, hw⟩ := h.leaving k' c' hl (by grind)
      exact ⟨w, by grind⟩
  kept := by grind [h.kept]
  made := by grind [h.made]
  once := by
    show ((s.closed ++ [_]).map Prod.fst).Nodup
    rw [List.map_append, List.map_singleton, List.nodup_append']
    exact ⟨h.once, List.nodup_singleton _, by simpa [State.Closed] using hopen⟩
  winner := by grind [h.winner]
  unique := by grind [h.unique]
  fresh := by grind [h.fresh]
  full := by
    intro c' hm hc hs
    obtain ⟨w, hw⟩ := h.full c' hm (by grind) hs
    exact ⟨w, by grind⟩
  ended := by
    intro c' f' hmem
    rcases List.mem_append.mp hmem with hmem | hmem
    · exact h.ended c' f' hmem
    · cases own <;> grind
  }

/-- A slot is freed. -/
theorem free [DecidableEq K] (h : Inv slot s) (ht : s.phase t = .frees own c) : Inv slot (s.free t (slot c)) := by
  obtain ⟨hlive, hclosed⟩ := h.frees t own c ht
  have hin : (s.phase t).In slot (slot c) := by rw [ht]; rfl
  have hthey := fun t' htakes => h.alone t' t (slot c) htakes hin
  have hwe : own = false → ∀ t', (s.phase t').In slot (slot c) → t' = t := by
    rintro rfl t' hin'
    exact h.alone t t' (slot c) (by rw [ht]; exact ⟨rfl, rfl⟩) hin'
  have honly : own = true → ∀ t', (s.phase t').Winner c → t' = t := by
    rintro rfl t' hwin
    exact h.unique t t' c (by rw [ht]; exact ⟨rfl, rfl⟩) hwin
  have hseen : own = true → s.seen c = Finset.univ := by
    rintro rfl
    exact h.winner t c (by rw [ht]; exact ⟨rfl, rfl⟩)
  have hother : ∀ t' own', s.phase t' = .frees own' c → t' = t := by
    intro t' own' ht'
    cases own with
    | false => exact hwe rfl t' (by rw [ht']; rfl)
    | true =>
      cases own' with
      | false => exact (hthey t' (by rw [ht']; exact ⟨rfl, rfl⟩)).symm
      | true => exact honly rfl t' (by rw [ht']; exact ⟨rfl, rfl⟩)
  exact {
  alone := by grind [h.alone]
  uses := by grind [h.uses]
  emits := by grind [h.emits]
  frees := by grind [h.frees]
  takes := by grind [h.takes]
  fills := by grind [h.fills]
  live := by grind [h.live]
  leaving := by
    intro k' c' hl hc
    obtain ⟨w, hw⟩ := h.leaving k' c' (by grind) hc
    have hslot := (h.live k' c' (by grind)).1
    exact ⟨w, by grind⟩
  kept := by grind [h.kept]
  made := h.made
  once := h.once
  winner := by grind [h.winner]
  unique := by grind [h.unique]
  fresh := by grind [h.fresh]
  full := by
    intro c' hm hc hs
    obtain ⟨w, hw⟩ := h.full c' hm hc hs
    exact ⟨w, by grind⟩
  ended := h.ended
  }

/-- What is in a slot is given up. -/
theorem take (h : Inv slot s) (ht : s.phase t = .away) (hno : ∀ t', ¬ (s.phase t').In slot k) :
    Inv slot (s.take t k) := by
  have hslot := h.live k
  have hopen : ∀ c, s.live k = some c → ¬ s.Closed c := by
    intro c hlive
    refine h.not_closed hlive ?_ ?_
    · grind
    · grind
  have hwants : ∀ t', ¬ (s.phase t').Takes slot k := fun t' htakes => hno t' (inside htakes)
  exact {
  alone := by grind [h.alone]
  uses := by grind [h.uses]
  emits := by grind [h.emits]
  frees := by grind [h.frees]
  takes := by grind [h.takes]
  fills := by grind [h.fills]
  live := h.live
  leaving := by
    intro k' c' hl hc
    by_cases hcc : s.live k = some c'
    · exact ⟨t, by grind [h.live]⟩
    · obtain ⟨w, hw⟩ := h.leaving k' c' hl (by grind)
      exact ⟨w, by grind⟩
  kept := by grind [h.kept]
  made := by grind [h.made]
  once := by
    show ((s.closed ++ (s.live k).toList.map fun c => (c, Cause.stale)).map Prod.fst).Nodup
    rw [List.map_append, List.nodup_append']
    cases hk : s.live k with
    | none => simpa using h.once
    | some c => exact ⟨h.once, List.nodup_singleton _, by simpa [State.Closed] using hopen c hk⟩
  winner := by grind [h.winner]
  unique := by grind [h.unique]
  fresh := by grind [h.fresh]
  full := by
    intro c' hm hc hs
    obtain ⟨w, hw⟩ := h.full c' hm (by grind) hs
    exact ⟨w, by grind⟩
  ended := by
    intro c' f' hmem
    rcases List.mem_append.mp hmem with hmem | hmem
    · exact h.ended c' f' hmem
    · obtain ⟨c'', -, heq⟩ := List.mem_map.mp hmem
      exact absurd (congrArg Prod.snd heq) (by simp)
  }

/-- A slot is emptied. -/
theorem unlink [DecidableEq K] (h : Inv slot s) (ht : s.phase t = .takes k) : Inv slot (s.unlink t k) := by
  have hgone := fun c => h.takes t k c ht
  have hthey : ∀ t', (s.phase t').In slot k → t' = t := fun t' => h.alone t t' k (by rw [ht]; rfl)
  have hwants : ∀ t', (s.phase t').Takes slot k → t' = t := fun t' htakes => hthey t' (inside htakes)
  exact {
  alone := by grind [h.alone]
  uses := by grind [h.uses]
  emits := by grind [h.emits]
  frees := by grind [h.frees]
  takes := by grind [h.takes]
  fills := by grind [h.fills]
  live := by grind [h.live]
  leaving := by
    intro k' c' hl hc
    obtain ⟨w, hw⟩ := h.leaving k' c' (by grind) hc
    exact ⟨w, by grind⟩
  kept := by grind [h.kept]
  made := h.made
  once := h.once
  winner := by grind [h.winner]
  unique := by grind [h.unique]
  fresh := by grind [h.fresh]
  full := by
    intro c' hm hc hs
    obtain ⟨w, hw⟩ := h.full c' hm hc hs
    exact ⟨w, by grind⟩
  ended := h.ended
  }

/-- A record is made known. -/
theorem publish [DecidableEq K] [Nonempty E] (h : Inv slot s) (ht : s.phase t = .fills (slot c)) (hc : c ∉ s.made) :
    Inv slot (s.publish t c (slot c)) := by
  have hempty := h.fills t _ ht
  have hthey : ∀ t', (s.phase t').In slot (slot c) → t' = t := fun t' => h.alone t t' (slot c) (by rw [ht]; rfl)
  have hnot : s.seen c ≠ Finset.univ := by
    rw [(h.fresh c hc).1]
    exact Finset.univ_nonempty.ne_empty.symm
  have hopen : ¬ s.Closed c := fun hclosed => hc (h.made c hclosed)
  exact {
  alone := by grind [h.alone]
  uses := by grind [h.uses]
  emits := by grind [h.emits]
  frees := by grind [h.frees]
  takes := by grind [h.takes]
  fills := by grind [h.fills]
  live := by grind [h.live]
  leaving := by
    intro k' c' hl hc
    obtain ⟨w, hw⟩ := h.leaving k' c' (by grind) hc
    exact ⟨w, by grind⟩
  kept := by grind [h.kept]
  made := by grind [h.made]
  once := h.once
  winner := by grind [h.winner]
  unique := by grind [h.unique]
  fresh := by grind [h.fresh]
  full := by
    intro c' hm hc hs
    obtain ⟨w, hw⟩ := h.full c' (by grind) hc hs
    exact ⟨w, by grind⟩
  ended := h.ended
  }

end Threads

end Inv

/-! ## Slots in use -/

/-- The thread has claimed the slot `k` for a new record. -/
@[grind =]
def Phase.Claims (k : K) : Phase K C → Prop
  | .takes k' => k' = k
  | .fills k' => k' = k
  | _ => False

/-- A record is in the slot, or a thread is about to put one there. -/
@[grind =]
def State.Busy (s : State T K C E F) (k : K) : Prop := s.live k ≠ none ∨ ∃ t, (s.phase t).Claims k

section Busy

variable {slot : C → K} {s s' : State T K C E F} {t : T} {c : C} {k : K} {own : Bool}

theorem takes_of_claims {p : Phase K C} (h : p.Claims k) : p.Takes slot k := by
  cases p <;> grind

/-- As long as slots keep their records, and threads their claims, the same slots are in use. -/
theorem busy_congr (hlive : s'.live k = s.live k) (hother : ∀ t' ≠ t, s'.phase t' = s.phase t')
    (hself : (s'.phase t).Claims k ↔ (s.phase t).Claims k) : s'.Busy k ↔ s.Busy k := by
  have hclaims : ∀ t', (s'.phase t').Claims k ↔ (s.phase t').Claims k := by
    intro t'
    by_cases ht : t' = t
    · rw [ht, hself]
    · rw [hother t' ht]
  simp only [State.Busy, hlive, hclaims]

variable [DecidableEq T]

/-- A slot that is freed was in use. -/
theorem Inv.busy_free [DecidableEq K] [Fintype E] (h : Inv slot s) (ht : s.phase t = .frees own c) :
    s.Busy (slot c) ∧ ¬ (s.free t (slot c)).Busy (slot c) := by
  have hlive := (h.frees t own c ht).1
  have hin : (s.phase t).In slot (slot c) := by rw [ht]; rfl
  have hthey := fun t' htakes => h.alone t' t (slot c) htakes hin
  refine ⟨.inl (by rw [hlive]; exact Option.some_ne_none c), ?_⟩
  rintro (hlive' | ⟨t', hclaims⟩)
  · simp at hlive'
  · rw [State.phase_free] at hclaims
    split_ifs at hclaims with hself
    · exact hclaims
    · exact hself (hthey t' (takes_of_claims hclaims)).symm

/-- A slot that is taken was in use if a record was in it. -/
theorem busy_take (hno : ∀ t', ¬ (s.phase t').In slot k) :
    (s.Busy k ↔ s.live k ≠ none) ∧ (s.take t k).Busy k := by
  constructor
  · constructor
    · rintro (hlive | ⟨t', hclaims⟩)
      · exact hlive
      · exact absurd (inside (takes_of_claims hclaims)) (hno t')
    · exact .inl
  · exact .inr ⟨t, by grind⟩

/-- A slot that is emptied for a new record stays in use. -/
theorem busy_unlink [DecidableEq K] (ht : s.phase t = .takes k) : s.Busy k ∧ (s.unlink t k).Busy k :=
  ⟨.inr ⟨t, by grind⟩, .inr ⟨t, by grind⟩⟩

/-- A slot that is filled stays in use. -/
theorem busy_publish [DecidableEq K] (ht : s.phase t = .fills k) : s.Busy k ∧ (s.publish t c k).Busy k :=
  ⟨.inr ⟨t, by grind⟩, .inl (by grind)⟩

end Busy

end SharedSlots
