import Ntprof.Lib.KeyedList
import Mathlib.Data.List.Induction

/-!
# Pairing two streams first in, first out

Elements of two streams belong together when their ids are equal, and ids recur. On line, the two
streams come interleaved: an element takes the oldest waiting element of the other stream with its id,
or waits itself. Off line, all of one stream waits before the other comes. Either way the `k`-th element
of an id in one stream meets the `k`-th element of that id in the other.
-/

namespace FifoMatch

open KeyedList

variable {H T κ : Type*} [DecidableEq κ] (idH : H → κ) (idT : T → κ)

/-- The elements of the two streams that wait, the oldest first. -/
structure State (H T : Type*) where
  hosts : List H
  targets : List T

/-- One element arrives. The pairs found so far are in order. -/
def arrive (s : State H T × List (H × T)) : H ⊕ T → State H T × List (H × T)
  | .inl h =>
    match s.1.targets.find? fun t => idT t = idH h with
    | some t => ({ s.1 with targets := s.1.targets.eraseP fun t => idT t = idH h }, s.2 ++ [(h, t)])
    | none => ({ s.1 with hosts := s.1.hosts ++ [h] }, s.2)
  | .inr t =>
    match s.1.hosts.find? fun h => idH h = idT t with
    | some h => ({ s.1 with hosts := s.1.hosts.eraseP fun h => idH h = idT t }, s.2 ++ [(h, t)])
    | none => ({ s.1 with targets := s.1.targets ++ [t] }, s.2)

/-- The interleaved streams arrive. -/
def online (evs : List (H ⊕ T)) : State H T × List (H × T) :=
  evs.foldl (arrive idH idT) (⟨[], []⟩, [])

/-- The elements of the first stream take their counterparts one after the other. -/
def offline (targets : List T) : List H → List (H × Option T)
  | [] => []
  | h :: hs =>
    (h, targets.find? fun t => idT t = idH h) ::
      offline (targets.eraseP fun t => idT t = idH h) hs

/-- The elements of one id: the `k`-th of one stream with the `k`-th of the other, if there is one. -/
def pairUp (hs : List H) (ts : List T) : List (H × Option T) :=
  (hs.zip ts).map (fun p => (p.1, some p.2)) ++ (hs.drop ts.length).map fun h => (h, none)

theorem pairUp_cons (h : H) (hs : List H) (ts : List T) :
    pairUp (h :: hs) ts = (h, ts.head?) :: pairUp hs ts.tail := by
  cases ts with
  | nil => simp [pairUp]
  | cons t ts => simp [pairUp]

/-- The elements with one id do not see the others. -/
theorem under_offline (c : κ) (hs : List H) (ts : List T) :
    under (fun p => idH p.1) c (offline idH idT ts hs) = pairUp (under idH c hs) (under idT c ts) := by
  induction hs generalizing ts with
  | nil => simp [offline, pairUp, under]
  | cons h hs ih =>
    have hcons : ∀ (l : List H), under idH c (h :: l) = if idH h = c then h :: under idH c l
        else under idH c l := fun l => by
      by_cases hc : idH h = c <;> simp [under, hc]
    have hcons' : ∀ (o : Option T) (l : List (H × Option T)),
        under (fun p => idH p.1) c ((h, o) :: l) =
          if idH h = c then (h, o) :: under (fun p => idH p.1) c l
          else under (fun p => idH p.1) c l := fun o l => by
      by_cases hc : idH h = c <;> simp [under, hc]
    rw [offline, hcons', hcons, ih]
    split_ifs with hc
    · subst hc
      rw [pairUp_cons, under_eraseP_key]
      congr 2
      exact List.head?_filter.symm
    · rw [under_eraseP_of_ne]
      intro t ht
      simp only [decide_eq_true_eq] at ht
      exact ht ▸ hc

/-- The first stream of the elements that arrived. -/
def lefts (evs : List (H ⊕ T)) : List H := evs.filterMap Sum.getLeft?

/-- The second stream of the elements that arrived. -/
def rights (evs : List (H ⊕ T)) : List T := evs.filterMap Sum.getRight?

/-- What holds on line, per id: the pairs found are the `k`-th with the `k`-th, and what waits is what
the other stream has not reached yet. -/
structure Paired (c : κ) (hs : List H) (ts : List T) (s : State H T × List (H × T)) : Prop where
  pairs : under (fun p => idH p.1) c s.2 = (under idH c hs).zip (under idT c ts)
  hosts : under idH c s.1.hosts = (under idH c hs).drop (under idT c ts).length
  targets : under idT c s.1.targets = (under idT c ts).drop (under idH c hs).length

section Step

variable {idH idT} {c : κ} {hs : List H} {ts : List T} {s : State H T × List (H × T)}

theorem zip_append_left_of_le {α β : Type*} {l : List α} {l' : List β} (h : l'.length ≤ l.length)
    (a : List α) : (l ++ a).zip l' = l.zip l' := by
  induction l' generalizing l with
  | nil => simp
  | cons b l' ih =>
    cases l with
    | nil => simp at h
    | cons x l => simpa using ih (by simpa using h)

theorem zip_append_right_of_le {α β : Type*} {l : List α} {l' : List β} (h : l.length ≤ l'.length)
    (b : List β) : l.zip (l' ++ b) = l.zip l' := by
  induction l generalizing l' with
  | nil => simp
  | cons a l ih =>
    cases l' with
    | nil => simp at h
    | cons x l' => simpa using ih (by simpa using h)

theorem zip_append_of_drop {α β : Type*} {l : List α} {l' rest : List β} {a : α} {b : β}
    (h : l'.drop l.length = b :: rest) : (l ++ [a]).zip l' = l.zip l' ++ [(a, b)] := by
  induction l generalizing l' with
  | nil =>
    simp only [List.length_nil, List.drop_zero] at h
    simp [h]
  | cons x l ih =>
    cases l' with
    | nil => simp at h
    | cons y l' => simpa using ih (by simpa using h)

theorem zip_append_of_drop' {α β : Type*} {l rest : List α} {l' : List β} {a : α} {b : β}
    (h : l.drop l'.length = a :: rest) : l.zip (l' ++ [b]) = l.zip l' ++ [(a, b)] := by
  induction l' generalizing l with
  | nil =>
    simp only [List.length_nil, List.drop_zero] at h
    simp [h]
  | cons y l' ih =>
    cases l with
    | nil => simp at h
    | cons x l => simpa using ih (by simpa using h)

/-- An element of another id changes nothing for `c`. -/
theorem Paired.arrive_ne (h : Paired idH idT c hs ts s) (e : H ⊕ T)
    (hne : Sum.elim idH idT e ≠ c) :
    Paired idH idT c (hs ++ e.getLeft?.toList) (ts ++ e.getRight?.toList) (arrive idH idT s e) := by
  cases e with
  | inl x =>
    replace hne : idH x ≠ c := hne
    have hu : under idH c (hs ++ [x]) = under idH c hs := by
      rw [under_append, under_singleton, if_neg hne, List.append_nil]
    simp only [Sum.getLeft?_inl, Option.toList_some, Sum.getRight?_inl, Option.toList_none,
      List.append_nil, arrive]
    cases hf : s.1.targets.find? (fun t => idT t = idH x) with
    | none =>
      refine ⟨by rw [hu]; exact h.pairs, ?_, by rw [hu]; exact h.targets⟩
      rw [hu, under_append, under_singleton, if_neg hne, List.append_nil]
      exact h.hosts
    | some t =>
      refine ⟨?_, by rw [hu]; exact h.hosts, ?_⟩
      · rw [hu, under_append, under_singleton, if_neg hne, List.append_nil]
        exact h.pairs
      · rw [hu, under_eraseP_of_ne, h.targets]
        intro t ht
        simp only [decide_eq_true_eq] at ht
        exact ht ▸ hne
  | inr x =>
    replace hne : idT x ≠ c := hne
    have hu : under idT c (ts ++ [x]) = under idT c ts := by
      rw [under_append, under_singleton, if_neg hne, List.append_nil]
    simp only [Sum.getLeft?_inr, Option.toList_some, Sum.getRight?_inr, Option.toList_none,
      List.append_nil, arrive]
    cases hf : s.1.hosts.find? (fun h => idH h = idT x) with
    | none =>
      refine ⟨by rw [hu]; exact h.pairs, by rw [hu]; exact h.hosts, ?_⟩
      rw [hu, under_append, under_singleton, if_neg hne, List.append_nil]
      exact h.targets
    | some y =>
      have hy : idH y ≠ c := by
        have := List.find?_some hf
        simp only [decide_eq_true_eq] at this
        exact this ▸ hne
      refine ⟨?_, ?_, by rw [hu]; exact h.targets⟩
      · rw [hu, under_append, under_singleton, if_neg hy, List.append_nil]
        exact h.pairs
      · rw [hu, under_eraseP_of_ne, h.hosts]
        intro h' ht
        simp only [decide_eq_true_eq] at ht
        exact ht ▸ hne

/-- An element of id `c` takes the oldest that waits for it, or waits. -/
theorem Paired.arrive_eq (h : Paired idH idT c hs ts s) (e : H ⊕ T) (heq : Sum.elim idH idT e = c) :
    Paired idH idT c (hs ++ e.getLeft?.toList) (ts ++ e.getRight?.toList) (arrive idH idT s e) := by
  subst heq
  cases e with
  | inl x =>
    simp only [Sum.elim_inl] at h ⊢
    have hu : under idH (idH x) (hs ++ [x]) = under idH (idH x) hs ++ [x] := by
      rw [under_append, under_singleton, if_pos rfl]
    have hhead : (s.1.targets.find? fun t => idT t = idH x) = (under idT (idH x) s.1.targets).head? :=
      List.head?_filter.symm
    simp only [Sum.getLeft?_inl, Option.toList_some, Sum.getRight?_inl, Option.toList_none,
      List.append_nil, arrive]
    rw [hhead, h.targets]
    cases hd : (under idT (idH x) ts).drop (under idH (idH x) hs).length with
    | nil =>
      have hle := List.drop_eq_nil_iff.1 hd
      have hnil := h.targets.trans hd
      simp only [List.head?_nil]
      refine ⟨?_, ?_, ?_⟩
      · rw [hu, zip_append_left_of_le hle]
        exact h.pairs
      · rw [hu, List.drop_append_of_le_length hle, ← h.hosts, under_append, under_singleton,
          if_pos rfl]
      · rw [hu, List.length_append]
        exact hnil.trans (List.drop_eq_nil_iff.2 (by omega)).symm
    | cons t rest =>
      simp only [List.head?_cons]
      refine ⟨?_, ?_, ?_⟩
      · rw [hu, zip_append_of_drop hd, ← h.pairs]
        simp [under_singleton]
      · have hlt : (under idH (idH x) hs).length < (under idT (idH x) ts).length := by
          by_contra hge
          rw [List.drop_eq_nil_iff.2 (by omega)] at hd
          cases hd
        rw [hu, List.drop_eq_nil_iff.2 (by rw [List.length_append]; exact hlt)]
        exact h.hosts.trans (List.drop_eq_nil_iff.2 (Nat.le_of_lt hlt))
      · rw [hu, under_eraseP_key, h.targets, List.length_append, List.tail_drop]
        rfl
  | inr x =>
    simp only [Sum.elim_inr] at h ⊢
    have hu : under idT (idT x) (ts ++ [x]) = under idT (idT x) ts ++ [x] := by
      rw [under_append, under_singleton, if_pos rfl]
    have hhead : (s.1.hosts.find? fun h => idH h = idT x) = (under idH (idT x) s.1.hosts).head? :=
      List.head?_filter.symm
    simp only [Sum.getLeft?_inr, Option.toList_some, Sum.getRight?_inr, Option.toList_none,
      List.append_nil, arrive]
    rw [hhead, h.hosts]
    cases hd : (under idH (idT x) hs).drop (under idT (idT x) ts).length with
    | nil =>
      have hle := List.drop_eq_nil_iff.1 hd
      have hnil := h.hosts.trans hd
      simp only [List.head?_nil]
      refine ⟨?_, ?_, ?_⟩
      · rw [hu, zip_append_right_of_le hle]
        exact h.pairs
      · rw [hu, List.length_append]
        exact hnil.trans (List.drop_eq_nil_iff.2 (by omega)).symm
      · rw [hu, List.drop_append_of_le_length hle, ← h.targets, under_append, under_singleton,
          if_pos rfl]
    | cons y rest =>
      have hy : idH y = idT x := by
        have hm : y ∈ under idH (idT x) hs := List.mem_of_mem_drop (hd ▸ List.mem_cons_self ..)
        exact ((mem_under idH).1 hm).2
      simp only [List.head?_cons]
      refine ⟨?_, ?_, ?_⟩
      · rw [hu, zip_append_of_drop' hd, ← h.pairs]
        simp [under_singleton, hy]
      · rw [hu, under_eraseP_key, h.hosts, List.length_append, List.tail_drop]
        rfl
      · have hlt : (under idT (idT x) ts).length < (under idH (idT x) hs).length := by
          by_contra hge
          rw [List.drop_eq_nil_iff.2 (by omega)] at hd
          cases hd
        rw [hu, List.drop_eq_nil_iff.2 (by rw [List.length_append]; exact hlt)]
        exact h.targets.trans (List.drop_eq_nil_iff.2 (Nat.le_of_lt hlt))

end Step

/-- Whatever the interleaving, what was paired and what waits is determined, per id, by the two
streams. -/
theorem online_paired (c : κ) (evs : List (H ⊕ T)) :
    Paired idH idT c (lefts evs) (rights evs) (online idH idT evs) := by
  induction evs using List.reverseRecOn with
  | nil => exact ⟨rfl, rfl, rfl⟩
  | append_singleton evs e ih =>
    have hl : lefts (evs ++ [e]) = lefts evs ++ e.getLeft?.toList := by
      cases e <;> simp [lefts]
    have hr : rights (evs ++ [e]) = rights evs ++ e.getRight?.toList := by
      cases e <;> simp [rights]
    have ho : online idH idT (evs ++ [e]) = arrive idH idT (online idH idT evs) e := by
      simp [online, List.foldl_append]
    rw [hl, hr, ho]
    by_cases hc : Sum.elim idH idT e = c
    · exact ih.arrive_eq e hc
    · exact ih.arrive_ne e hc

/-- On line, with what still waits at the end counted as unpaired, the pairs are those of the off line
pairing of the same streams. -/
theorem online_perm_offline (evs : List (H ⊕ T)) :
    List.Perm ((online idH idT evs).2.map (fun p => (p.1, some p.2)) ++
        (online idH idT evs).1.hosts.map fun h => (h, none))
      (offline idH idT (rights evs) (lefts evs)) := by
  refine perm_of_under (fun p => idH p.1) fun c => ?_
  have h := online_paired idH idT c evs
  rw [under_offline, pairUp, ← h.pairs, ← h.hosts, under_append]
  unfold under
  rw [List.filter_map, List.filter_map]
  rfl

end FifoMatch
