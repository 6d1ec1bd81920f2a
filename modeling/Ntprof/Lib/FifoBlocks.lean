import Ntprof.Lib.FifoMatch
import Mathlib.Data.List.Perm.Basic
import Mathlib.Data.List.Nodup

/-!
# Pairing two streams that come in blocks

Both streams of one id are cut into blocks, and the blocks can be put in any order before the `k`-th
element of the one stream is paired with the `k`-th of the other. `OrderFree` says when the order does
not matter: nothing to pair, or every block is paired within itself, or each stream is in one block.
-/

namespace FifoMatch

variable {H T : Type*}

/-- The first stream of the blocks. -/
def firsts (bs : List (List H × List T)) : List H := bs.flatMap Prod.fst

/-- The second stream of the blocks. -/
def seconds (bs : List (List H × List T)) : List T := bs.flatMap Prod.snd

/-- The pairs of the two streams. -/
def pairedBlocks (bs : List (List H × List T)) : List (H × Option T) := pairUp (firsts bs) (seconds bs)

/-- The order of the blocks does not show in the pairs. -/
def OrderFree (bs : List (List H × List T)) : Prop :=
  firsts bs = [] ∨ seconds bs = [] ∨ (∀ b ∈ bs, b.1.length = b.2.length) ∨
    ((bs.filter fun b => !b.1.isEmpty).length ≤ 1 ∧ (bs.filter fun b => !b.2.isEmpty).length ≤ 1)

theorem firsts_perm {bs bs' : List (List H × List T)} (h : bs'.Perm bs) : (firsts bs').Perm (firsts bs) :=
  h.flatMap_right _

theorem seconds_perm {bs bs' : List (List H × List T)} (h : bs'.Perm bs) :
    (seconds bs').Perm (seconds bs) :=
  h.flatMap_right _

/-! ## Orders that do not matter -/

theorem pairUp_nil_right (hs : List H) : pairUp hs ([] : List T) = hs.map fun h => (h, none) := by
  simp [pairUp]

theorem pairUp_append {h₁ h₂ : List H} {t₁ t₂ : List T} (h : h₁.length = t₁.length) :
    pairUp (h₁ ++ h₂) (t₁ ++ t₂) = pairUp h₁ t₁ ++ pairUp h₂ t₂ := by
  induction h₁ generalizing t₁ with
  | nil =>
    have h0 : t₁ = [] := List.length_eq_zero_iff.1 h.symm
    subst h0
    simp [pairUp]
  | cons x h₁ ih =>
    cases t₁ with
    | nil => simp at h
    | cons t t₁ =>
      simp only [List.length_cons, Nat.add_right_cancel_iff] at h
      rw [List.cons_append, List.cons_append, pairUp_cons, pairUp_cons]
      simp [ih h]

/-- Balanced blocks are paired within themselves. -/
theorem pairedBlocks_balanced {bs : List (List H × List T)} (hb : ∀ b ∈ bs, b.1.length = b.2.length) :
    pairedBlocks bs = bs.flatMap fun b => pairUp b.1 b.2 := by
  induction bs with
  | nil => simp [pairedBlocks, firsts, seconds, pairUp]
  | cons b bs ih =>
    have hrest := ih fun x hx => hb x (List.mem_cons_of_mem _ hx)
    rw [List.flatMap_cons, ← hrest, pairedBlocks, firsts, seconds, List.flatMap_cons, List.flatMap_cons,
      pairUp_append (hb b List.mem_cons_self)]
    rfl

theorem flatMap_filter_isEmpty {α β : Type*} (f : α → List β) (l : List α) :
    (l.filter fun a => !(f a).isEmpty).flatMap f = l.flatMap f := by
  induction l with
  | nil => rfl
  | cons a l ih =>
    by_cases ha : f a = []
    · simp [ha, ih]
    · simp [ha, ih]

/-- A stream that is in one block does not depend on the order of the blocks. -/
theorem flatMap_eq_of_perm {α β : Type*} {f : α → List β} {l l' : List α} (h : l'.Perm l)
    (h1 : (l.filter fun a => !(f a).isEmpty).length ≤ 1) : l'.flatMap f = l.flatMap f := by
  rw [← flatMap_filter_isEmpty f l', ← flatMap_filter_isEmpty f l]
  have hp := h.filter fun a => !(f a).isEmpty
  cases hl : l.filter fun a => !(f a).isEmpty with
  | nil =>
    rw [hl] at hp
    rw [hp.eq_nil]
  | cons a m =>
    have hm : m = [] := by
      rw [hl, List.length_cons] at h1
      exact List.length_eq_zero_iff.1 (by omega)
    subst hm
    rw [hl] at hp
    rw [List.perm_singleton.1 hp]

theorem OrderFree.perm {bs bs' : List (List H × List T)} (h : OrderFree bs) (hp : bs'.Perm bs) :
    (pairedBlocks bs').Perm (pairedBlocks bs) := by
  rcases h with h | h | h | ⟨h1, h2⟩
  · have h' : firsts bs' = [] := (h ▸ firsts_perm hp).eq_nil
    rw [pairedBlocks, pairedBlocks, h, h']
    simp [pairUp]
  · have h' : seconds bs' = [] := (h ▸ seconds_perm hp).eq_nil
    rw [pairedBlocks, pairedBlocks, h, h', pairUp_nil_right, pairUp_nil_right]
    exact (firsts_perm hp).map _
  · rw [pairedBlocks_balanced h, pairedBlocks_balanced fun b hb => h b (hp.mem_iff.1 hb)]
    exact hp.flatMap_right _
  · rw [pairedBlocks, pairedBlocks, firsts, seconds, flatMap_eq_of_perm hp h1, flatMap_eq_of_perm hp h2]
    rfl

/-! ## Orders that matter -/

/-- The two elements are at the same place in their streams. -/
def Meets (bs : List (List H × List T)) (h : H) (t : T) : Prop :=
  ∃ k : Nat, (firsts bs)[k]? = some h ∧ (seconds bs)[k]? = some t

theorem mem_pairUp {hs : List H} {ts : List T} {h : H} {t : T} :
    (h, some t) ∈ pairUp hs ts ↔ ∃ k : Nat, hs[k]? = some h ∧ ts[k]? = some t := by
  have hz : (h, some t) ∈ pairUp hs ts ↔ (h, t) ∈ hs.zip ts := by
    unfold pairUp
    rw [List.mem_append, List.mem_map, List.mem_map]
    constructor
    · rintro (⟨p, hp, he⟩ | ⟨x, -, he⟩)
      · simp only [Prod.mk.injEq, Option.some.injEq] at he
        obtain ⟨rfl, rfl⟩ := he
        exact hp
      · cases he
    · exact fun hp => Or.inl ⟨(h, t), hp, rfl⟩
  rw [hz, List.mem_iff_getElem?]
  simp [List.getElem?_zip_eq_some]

theorem mem_pairedBlocks {bs : List (List H × List T)} {h : H} {t : T} :
    (h, some t) ∈ pairedBlocks bs ↔ Meets bs h t := mem_pairUp

/-- Elements do not come twice, and who meets whom does not depend on the order of the blocks. -/
structure Settled (bs : List (List H × List T)) : Prop where
  nodup₁ : (firsts bs).Nodup
  nodup₂ : (seconds bs).Nodup
  same : ∀ b₁ b₂, b₁.Perm bs → b₂.Perm bs → ∀ h t, Meets b₁ h t → Meets b₂ h t

theorem firsts_swap (bs : List (List H × List T)) : firsts (bs.map Prod.swap) = seconds bs := by
  simp [firsts, seconds, List.flatMap_map]

theorem seconds_swap (bs : List (List H × List T)) : seconds (bs.map Prod.swap) = firsts bs := by
  simp [firsts, seconds, List.flatMap_map]

theorem meets_swap {bs : List (List H × List T)} {h : H} {t : T} :
    Meets (bs.map Prod.swap) t h ↔ Meets bs h t := by
  simp only [Meets, firsts_swap, seconds_swap]
  exact exists_congr fun k => and_comm

theorem Settled.swap {bs : List (List H × List T)} (hs : Settled bs) : Settled (bs.map Prod.swap) where
  nodup₁ := by rw [firsts_swap]; exact hs.nodup₂
  nodup₂ := by rw [seconds_swap]; exact hs.nodup₁
  same := by
    intro b₁ b₂ h₁ h₂ t h hm
    have hid : (bs.map Prod.swap).map Prod.swap = bs := by simp
    have h₁' : (b₁.map Prod.swap).Perm bs := hid ▸ h₁.map Prod.swap
    have h₂' : (b₂.map Prod.swap).Perm bs := hid ▸ h₂.map Prod.swap
    exact meets_swap.1 (hs.same _ _ h₁' h₂' h t (meets_swap.2 hm))

section Settled

variable {bs b₁ b₂ : List (List H × List T)} {h h' : H} {t t' : T}

theorem getElem?_inj_of_nodup {α : Type*} {l : List α} (hl : l.Nodup) {i j : Nat} {x : α}
    (hi : l[i]? = some x) (hj : l[j]? = some x) : i = j := by
  obtain ⟨h1, e1⟩ := List.getElem?_eq_some_iff.1 hi
  obtain ⟨h2, e2⟩ := List.getElem?_eq_some_iff.1 hj
  exact (List.Nodup.getElem_inj_iff hl).1 (e1.trans e2.symm)

theorem Settled.first_unique (hs : Settled bs) (p₁ : b₁.Perm bs) (p₂ : b₂.Perm bs)
    (m₁ : Meets b₁ h t) (m₂ : Meets b₂ h' t) : h = h' := by
  obtain ⟨i, hi, ti⟩ := hs.same b₁ b₂ p₁ p₂ h t m₁
  obtain ⟨j, hj, tj⟩ := m₂
  have hij := getElem?_inj_of_nodup ((seconds_perm p₂).nodup_iff.2 hs.nodup₂) ti tj
  subst hij
  exact Option.some.inj (hi.symm.trans hj)

theorem Settled.second_unique (hs : Settled bs) (p₁ : b₁.Perm bs) (p₂ : b₂.Perm bs)
    (m₁ : Meets b₁ h t) (m₂ : Meets b₂ h t') : t = t' := by
  obtain ⟨i, hi, ti⟩ := hs.same b₁ b₂ p₁ p₂ h t m₁
  obtain ⟨j, hj, tj⟩ := m₂
  have hij := getElem?_inj_of_nodup ((firsts_perm p₂).nodup_iff.2 hs.nodup₁) hi hj
  subst hij
  exact Option.some.inj (ti.symm.trans tj)

/-- Two blocks do not share an element. -/
theorem Settled.first_ne (hs : Settled bs) {i j : List H × List T} {l : List (List H × List T)}
    (hp : (i :: j :: l).Perm bs) (hi : h ∈ i.1) (hj : h' ∈ j.1) : h ≠ h' := by
  have hn : (firsts (i :: j :: l)).Nodup := (firsts_perm hp).nodup_iff.2 hs.nodup₁
  rw [firsts, List.flatMap_cons, List.flatMap_cons] at hn
  have hd := (List.nodup_append.1 hn).2.2
  exact hd h hi h' (List.mem_append_left _ hj)

theorem Settled.second_ne (hs : Settled bs) {i j : List H × List T} {l : List (List H × List T)}
    (hp : (i :: j :: l).Perm bs) (hi : t ∈ i.2) (hj : t' ∈ j.2) : t ≠ t' := by
  have hn : (seconds (i :: j :: l)).Nodup := (seconds_perm hp).nodup_iff.2 hs.nodup₂
  rw [seconds, List.flatMap_cons, List.flatMap_cons] at hn
  have hd := (List.nodup_append.1 hn).2.2
  exact hd t hi t' (List.mem_append_left _ hj)

end Settled

theorem exists_split {α : Type*} {l : List α} {n : Nat} (hn : n < l.length) :
    ∃ a x b, l = a ++ x :: b ∧ a.length = n :=
  ⟨l.take n, l[n], l.drop (n + 1), by rw [List.getElem_cons_drop, List.take_append_drop],
    by rw [List.length_take]; omega⟩

theorem exists_perm_cons {α : Type*} {l : List α} {a : α} (ha : a ∈ l) : ∃ m, (a :: m).Perm l := by
  obtain ⟨s, t, rfl⟩ := List.append_of_mem ha
  exact ⟨s ++ t, List.perm_middle.symm⟩

/-- With more than one block of the first stream, there is one besides `i`. -/
theorem exists_other {bs : List (List H × List T)} (h2 : 1 < (bs.filter fun b => !b.1.isEmpty).length)
    {i : List H × List T} {l : List (List H × List T)} (hp : (i :: l).Perm bs) :
    ∃ j m, j.1 ≠ [] ∧ (j :: m).Perm l := by
  have hlen := ((hp.filter fun b => !b.1.isEmpty).length_eq)
  have hpos : 0 < (l.filter fun b => !b.1.isEmpty).length := by
    rw [List.filter_cons] at hlen
    split_ifs at hlen
    · rw [List.length_cons] at hlen
      omega
    · omega
  obtain ⟨j, hj⟩ := List.exists_mem_of_length_pos hpos
  obtain ⟨hjl, hj1⟩ := List.mem_filter.1 hj
  obtain ⟨m, hm⟩ := exists_perm_cons hjl
  exact ⟨j, m, by simpa using hj1, hm⟩

/-- A block with elements of the second stream only would meet the first element of whichever block
of the first stream comes next to it. -/
theorem Settled.no_lone_second {bs : List (List H × List T)} (hs : Settled bs)
    (h2 : 1 < (bs.filter fun b => !b.1.isEmpty).length) {r : List H × List T} (hr : r ∈ bs)
    (hr1 : r.1 = []) : r.2 = [] := by
  by_contra hr2
  obtain ⟨t, ts, hrt⟩ := List.exists_cons_of_ne_nil hr2
  obtain ⟨l, hl⟩ := exists_perm_cons hr
  obtain ⟨p, m, hp1, hpm⟩ := exists_other h2 hl
  -- a second block of the first stream, besides `p`
  have hswap : (p :: r :: m).Perm bs := (List.Perm.swap r p m).trans ((hpm.cons r).trans hl)
  obtain ⟨q, n, hq1, hqn⟩ := exists_other h2 hswap
  have hqm : ∃ n, (q :: n).Perm m := by
    have hq : q ∈ r :: m := hqn.mem_iff.1 List.mem_cons_self
    rcases List.mem_cons.1 hq with rfl | hq
    · exact absurd hr1 hq1
    · exact exists_perm_cons hq
  obtain ⟨n, hn⟩ := hqm
  obtain ⟨x, xs, hpx⟩ := List.exists_cons_of_ne_nil hp1
  obtain ⟨y, ys, hqy⟩ := List.exists_cons_of_ne_nil hq1
  have o₁ : (r :: p :: q :: n).Perm bs := (((hn.cons p).trans hpm).cons r).trans hl
  have o₂ : (r :: q :: p :: n).Perm bs := ((List.Perm.swap p q n).cons r).trans o₁
  have m₁ : Meets (r :: p :: q :: n) x t :=
    ⟨0, by simp [firsts, hr1, hpx], by simp [seconds, hrt]⟩
  have m₂ : Meets (r :: q :: p :: n) y t :=
    ⟨0, by simp [firsts, hr1, hqy], by simp [seconds, hrt]⟩
  have hpq : (p :: q :: r :: n).Perm bs :=
    ((List.Perm.swap r q n).cons p).trans ((List.Perm.swap r p (q :: n)).trans o₁)
  exact hs.first_ne hpq (by simp [hpx]) (by simp [hqy]) (hs.first_unique o₁ o₂ m₁ m₂)

/-- Where a block is not balanced, the first stream is in one block. -/
theorem Settled.one_first {bs : List (List H × List T)} (hs : Settled bs) (hne : seconds bs ≠ [])
    {i : List H × List T} (hi : i ∈ bs) (hu : i.1.length ≠ i.2.length) :
    (bs.filter fun b => !b.1.isEmpty).length ≤ 1 := by
  by_contra h2
  have h2 : 1 < (bs.filter fun b => !b.1.isEmpty).length := by omega
  have hlone : ∀ b ∈ bs, b.1 = [] → b.2 = [] := fun b hb => hs.no_lone_second h2 hb
  obtain ⟨l, hl⟩ := exists_perm_cons hi
  have hmem : ∀ b ∈ l, b ∈ bs := fun b hb => hl.mem_iff.1 (List.mem_cons_of_mem _ hb)
  rcases Nat.lt_or_gt_of_ne hu with hlt | hgt
  · -- elements of the second stream are left over: they meet the first stream of the next block
    obtain ⟨a, t, b, hsplit, hlen⟩ := exists_split hlt
    obtain ⟨j, m, hj1, hjm⟩ := exists_other h2 hl
    obtain ⟨x, xs, hjx⟩ := List.exists_cons_of_ne_nil hj1
    have o₁ : (i :: j :: m).Perm bs := (hjm.cons i).trans hl
    have o₂ : (j :: i :: m).Perm bs := (List.Perm.swap i j m).trans o₁
    have m₁ : Meets (i :: j :: m) x t := ⟨i.1.length, by simp [firsts, hjx], by
      simp [seconds, hsplit, ← hlen]⟩
    cases hj2 : j.2 with
    | cons t' ts =>
      have m₂ : Meets (j :: i :: m) x t' := ⟨0, by simp [firsts, hjx], by simp [seconds, hj2]⟩
      exact hs.second_ne o₁ (by simp [hsplit]) (by simp [hj2]) (hs.second_unique o₁ o₂ m₁ m₂)
    | nil =>
      -- the next block has none of its own: put first, its element meets the first one here
      have hi1 : i.1 ≠ [] := by
        intro h0
        rw [hlone i hi h0, h0] at hlt
        exact Nat.lt_irrefl _ hlt
      obtain ⟨t', a', ha⟩ : ∃ t' a', a = t' :: a' := by
        refine List.exists_cons_of_ne_nil fun h0 => hi1 (List.length_eq_zero_iff.1 ?_)
        rw [← hlen, h0]
        rfl
      have m₂ : Meets (j :: i :: m) x t' :=
        ⟨0, by simp [firsts, hjx], by simp [seconds, hj2, hsplit, ha]⟩
      have heq := hs.second_unique o₁ o₂ m₁ m₂
      have hn : (seconds (i :: j :: m)).Nodup := (seconds_perm o₁).nodup_iff.2 hs.nodup₂
      rw [seconds, List.flatMap_cons] at hn
      have hin := (List.nodup_append.1 hn).1
      rw [hsplit, List.nodup_append] at hin
      exact hin.2.2 t' (by simp [ha]) t (by simp) heq.symm
  · -- elements of the first stream are left over
    obtain ⟨a, x, b, hsplit, hlen⟩ := exists_split hgt
    by_cases hother : ∃ j ∈ l, j.2 ≠ []
    · obtain ⟨j, hjl, hj2⟩ := hother
      obtain ⟨m, hjm⟩ := exists_perm_cons hjl
      obtain ⟨t, ts, hjt⟩ := List.exists_cons_of_ne_nil hj2
      have hj1 : j.1 ≠ [] := fun h0 => hj2 (hlone j (hmem j hjl) h0)
      obtain ⟨y, ys, hjy⟩ := List.exists_cons_of_ne_nil hj1
      have o₁ : (i :: j :: m).Perm bs := (hjm.cons i).trans hl
      have o₂ : (j :: i :: m).Perm bs := (List.Perm.swap i j m).trans o₁
      have m₁ : Meets (i :: j :: m) x t := ⟨i.2.length, by simp [firsts, hsplit, ← hlen], by
        simp [seconds, hjt]⟩
      have m₂ : Meets (j :: i :: m) y t := ⟨0, by simp [firsts, hjy], by simp [seconds, hjt]⟩
      exact hs.first_ne o₁ (by simp [hsplit]) (by simp [hjy]) (hs.first_unique o₁ o₂ m₁ m₂)
    · -- the second stream is all in this block
      have hnone : ∀ j ∈ l, j.2 = [] := fun j hj => by
        by_contra h0
        exact hother ⟨j, hj, h0⟩
      have hi2 : i.2 ≠ [] := by
        intro h0
        refine hne (List.Perm.eq_nil ((seconds_perm hl).symm.trans ?_))
        have hz : seconds (i :: l) = [] := by
          rw [seconds, List.flatMap_eq_nil_iff]
          intro b hb
          rcases List.mem_cons.1 hb with rfl | hb
          · exact h0
          · exact hnone b hb
        rw [hz]
      obtain ⟨t, ts, hit⟩ := List.exists_cons_of_ne_nil hi2
      obtain ⟨y, ys, hiy⟩ : ∃ y ys, i.1 = y :: ys :=
        List.exists_cons_of_ne_nil fun h0 => by simp [h0] at hgt
      obtain ⟨j, m, hj1, hjm⟩ := exists_other h2 hl
      obtain ⟨z, zs, hjz⟩ := List.exists_cons_of_ne_nil hj1
      have hj2 : j.2 = [] := hnone j (hjm.mem_iff.1 List.mem_cons_self)
      have o₁ : (i :: j :: m).Perm bs := (hjm.cons i).trans hl
      have o₂ : (j :: i :: m).Perm bs := (List.Perm.swap i j m).trans o₁
      have m₁ : Meets (i :: j :: m) y t := ⟨0, by simp [firsts, hiy], by simp [seconds, hit]⟩
      have m₂ : Meets (j :: i :: m) z t := ⟨0, by simp [firsts, hjz], by simp [seconds, hj2, hit]⟩
      exact hs.first_ne o₁ (by simp [hiy]) (by simp [hjz]) (hs.first_unique o₁ o₂ m₁ m₂)

/-- Where the order of the blocks does not show and no element comes twice, the blocks are free of
order. -/
theorem Settled.orderFree {bs : List (List H × List T)} (hs : Settled bs) : OrderFree bs := by
  by_cases h1 : firsts bs = []
  · exact Or.inl h1
  by_cases h2 : seconds bs = []
  · exact Or.inr (Or.inl h2)
  by_cases hb : ∀ b ∈ bs, b.1.length = b.2.length
  · exact Or.inr (Or.inr (Or.inl hb))
  · refine Or.inr (Or.inr (Or.inr ?_))
    push Not at hb
    obtain ⟨i, hi, hu⟩ := hb
    refine ⟨hs.one_first h2 hi hu, ?_⟩
    -- the other side by symmetry
    have hsw : seconds (bs.map Prod.swap) ≠ [] := by
      rw [seconds_swap]
      exact h1
    have hle := hs.swap.one_first hsw (i := i.swap) (List.mem_map_of_mem hi) (fun e => hu e.symm)
    rw [List.filter_map, List.length_map] at hle
    exact hle

end FifoMatch
