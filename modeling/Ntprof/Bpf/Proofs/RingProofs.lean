import Ntprof.Bpf.Spdk
import Ntprof.Lib.Bisect

/-!
# The lookup in a ring of times

A ring keeps the last 512 entries that its thread appended, each in the slot of its number modulo 512. The lookup
counts positions from the oldest kept entry, so that the times ascend although the buffer is rotated, and finds in
ten halvings where the times exceed the one it looks for.
-/

namespace Ntprof.Bpf

/-- The entries a thread appends, each after `spdk_ring_own`. -/
def ringRun (r : SpdkRing) (tid : U64) (es : List (U64 × U64)) : SpdkRing :=
  es.foldl (fun r e => spdkRingAdd (spdkRingOwn r tid) e.1 e.2) r

/-- The slot as thread `tid` takes it over, whatever is left in it. -/
def SpdkRing.takenBy (r : SpdkRing) (tid : U64) : SpdkRing := { r with tid := tid, n := 0 }

/-- The entries that a ring keeps. -/
def keptEntries (es : List (U64 × U64)) : List (U64 × U64) := es.drop (es.length - spdkRing)

/-- The value of the latest kept entry at or before `x`, or 0: a linear scan. -/
def latestAt (es : List (U64 × U64)) (x : U64) : U64 :=
  (((keptEntries es).filter fun e => decide (e.1 ≤ x)).getLast?.map Prod.snd).getD 0

/-! ## What is in the slots -/

theorem ringSlot_ofNat (k : ℕ) : (ringSlot (BitVec.ofNat 64 k)).val = k % spdkRing := by
  have hmask : (BitVec.ofNat 64 (spdkRing - 1)).toNat = 2 ^ 9 - 1 := rfl
  show (BitVec.ofNat 64 k &&& BitVec.ofNat 64 (spdkRing - 1)).toNat = k % spdkRing
  rw [BitVec.toNat_and, hmask, Nat.and_two_pow_sub_one_eq_mod, BitVec.toNat_ofNat]
  exact Nat.mod_mod_of_dvd k (by decide)

/-- The ring `r` of thread `tid` holds the last entries of `es`. -/
structure Holds (r : SpdkRing) (tid : U64) (es : List (U64 × U64)) : Prop where
  tid : r.tid = tid
  n : r.n = BitVec.ofNat 64 es.length
  slots : ∀ k e, es[k]? = some e → es.length ≤ k + spdkRing →
    r.t (ringSlot (BitVec.ofNat 64 k)) = e.1 ∧ r.v (ringSlot (BitVec.ofNat 64 k)) = e.2

theorem holds_takenBy (r : SpdkRing) (tid : U64) : Holds (r.takenBy tid) tid [] where
  tid := rfl
  n := rfl
  slots k e h := by simp at h

variable {r : SpdkRing} {tid x : U64} {es : List (U64 × U64)}

/-- Of the entries that stay, none is in the slot of the new one. -/
theorem ringSlot_ne {k n : ℕ} (hk : k < n) (hn : n + 1 ≤ k + spdkRing) :
    ringSlot (BitVec.ofNat 64 k) ≠ ringSlot (BitVec.ofNat 64 n) := by
  intro h
  have hval := congrArg Fin.val h
  rw [ringSlot_ofNat, ringSlot_ofNat] at hval
  unfold spdkRing at hval hn
  omega

theorem Holds.add (h : Holds r tid es) (e : U64 × U64) :
    Holds (spdkRingAdd (spdkRingOwn r tid) e.1 e.2) tid (es ++ [e]) := by
  have hown : spdkRingOwn r tid = r := by simp [spdkRingOwn, h.tid]
  rw [hown]
  refine ⟨h.tid, ?_, ?_⟩
  · show r.n + 1 = _
    rw [h.n, List.length_append, List.length_singleton, BitVec.ofNat_add]
    rfl
  · intro k e' hk hlast
    rw [List.length_append, List.length_singleton] at hlast
    show Function.update r.t (ringSlot r.n) e.1 _ = _ ∧ Function.update r.v (ringSlot r.n) e.2 _ = _
    rw [h.n]
    rcases Nat.lt_trichotomy k es.length with hlt | heq | hgt
    · have hne := ringSlot_ne hlt hlast
      rw [Function.update_of_ne hne, Function.update_of_ne hne]
      rw [List.getElem?_append_left hlt] at hk
      exact h.slots k e' hk (by omega)
    · subst heq
      rw [List.getElem?_concat_length, Option.some.injEq] at hk
      rw [Function.update_self, Function.update_self, hk]
      exact ⟨rfl, rfl⟩
    · have hnone : (es ++ [e])[k]? = none := List.getElem?_eq_none (by simp; omega)
      rw [hnone] at hk
      cases hk

theorem Holds.run (h : Holds r tid es) (es' : List (U64 × U64)) : Holds (ringRun r tid es') tid (es ++ es') := by
  induction es' generalizing r es with
  | nil =>
    rw [List.append_nil]
    exact h
  | cons e es' ih =>
    have hnext := ih (h.add e)
    rw [List.append_assoc, List.singleton_append] at hnext
    exact hnext

/-! ## The halvings -/

/-- A range of positions, as the words that the source computes with. -/
def wordRange (range : ℕ × ℕ) : U64 × U64 := (BitVec.ofNat 64 range.1, BitVec.ofNat 64 range.2)

/-- The test of a halving: the entry at a position is at or before `x`. -/
def atOrBefore (r : SpdkRing) (base x : U64) (i : ℕ) : Bool :=
  decide (r.t (ringSlot (base + BitVec.ofNat 64 i)) ≤ x)

theorem ofNat_lt {i j : ℕ} (hi : i ≤ spdkRing) (hj : j ≤ spdkRing) :
    BitVec.ofNat 64 i < BitVec.ofNat 64 j ↔ i < j := by
  unfold spdkRing at hi hj
  rw [BitVec.lt_def, BitVec.toNat_ofNat, BitVec.toNat_ofNat]
  omega

theorem ofNat_mid {i j : ℕ} (hi : i ≤ spdkRing) (hj : j ≤ spdkRing) :
    (BitVec.ofNat 64 i + BitVec.ofNat 64 j) / 2 = BitVec.ofNat 64 ((i + j) / 2) := by
  unfold spdkRing at hi hj
  have h2 : (2 : U64).toNat = 2 := rfl
  apply BitVec.eq_of_toNat_eq
  rw [BitVec.toNat_udiv, BitVec.toNat_add, BitVec.toNat_ofNat, BitVec.toNat_ofNat, BitVec.toNat_ofNat, h2]
  omega

theorem halve_wordRange (base : U64) {range : ℕ × ℕ} (hle : range.1 ≤ range.2) (hbound : range.2 ≤ spdkRing) :
    halve r base x (wordRange range) = wordRange (Bisect.halve (atOrBefore r base x) range) := by
  have hlo : range.1 ≤ spdkRing := Nat.le_trans hle hbound
  unfold halve
  simp only [wordRange, ofNat_lt hlo hbound, ofNat_mid hlo hbound]
  rcases Bisect.halve_cases (atOrBefore r base x) range with ⟨hlt, hp, heq⟩ | ⟨hlt, hp, heq⟩ | ⟨hge, heq⟩
  · rw [if_pos hlt, if_pos (of_decide_eq_true hp), heq, BitVec.ofNat_add]
    rfl
  · rw [if_pos hlt, if_neg (of_decide_eq_false hp), heq]
  · rw [if_neg (Nat.not_lt.mpr hge), heq]

theorem iterate_wordRange (base : U64) {n : ℕ} (hn : n ≤ spdkRing) (k : ℕ) :
    (halve r base x)^[k] (0, BitVec.ofNat 64 n) = wordRange ((Bisect.halve (atOrBefore r base x))^[k] (0, n)) := by
  induction k with
  | zero => rfl
  | succ k ih =>
    rw [Function.iterate_succ_apply', Function.iterate_succ_apply', ih]
    exact halve_wordRange base (Bisect.iterate_le (Nat.zero_le n) k) (Bisect.iterate_bound hn k)

/-- Ten halvings are enough for 512 positions. -/
theorem tenHalvings_end (p : ℕ → Bool) {n : ℕ} (hn : n ≤ spdkRing) :
    ((Bisect.halve p)^[10] (0, n)).1 = ((Bisect.halve p)^[10] (0, n)).2 := by
  have hlt : n - 0 < 2 ^ 10 := by
    unfold spdkRing at hn
    omega
  exact Bisect.iterate_ends (Nat.zero_le n) hlt

/-- The halvings of a lookup end with an empty range, whatever is in the ring. -/
theorem halvings_end (r : SpdkRing) (base x : U64) {n : ℕ} (hn : n ≤ spdkRing) :
    ((halve r base x)^[10] (0, BitVec.ofNat 64 n)).1 = ((halve r base x)^[10] (0, BitVec.ofNat 64 n)).2 := by
  rw [iterate_wordRange base hn]
  exact congrArg (BitVec.ofNat 64) (tenHalvings_end _ hn)

/-! ## The lookup -/

/-- The number of kept entries. -/
theorem length_keptEntries (es : List (U64 × U64)) : (keptEntries es).length = min es.length spdkRing := by
  unfold keptEntries
  rw [List.length_drop]
  omega

/-- The 64-bit count of the appended entries has not wrapped, or has counted 512 since. -/
def CountsKept (es : List (U64 × U64)) : Prop := es.length < 2 ^ 64 ∨ spdkRing ≤ es.length % 2 ^ 64

theorem Holds.count (h : Holds r tid es) (hc : CountsKept es) :
    (if r.n < BitVec.ofNat 64 spdkRing then r.n else BitVec.ofNat 64 spdkRing) =
      BitVec.ofNat 64 (keptEntries es).length := by
  have hring : (BitVec.ofNat 64 spdkRing).toNat = 512 := rfl
  have hlt : BitVec.ofNat 64 es.length < BitVec.ofNat 64 spdkRing ↔ es.length % 2 ^ 64 < 512 := by
    rw [BitVec.lt_def, hring, BitVec.toNat_ofNat]
  rw [length_keptEntries, h.n]
  unfold CountsKept spdkRing at hc
  by_cases hfew : es.length % 2 ^ 64 < 512
  · have hmin : min es.length spdkRing = es.length := by
      unfold spdkRing
      omega
    rw [if_pos (hlt.mpr hfew), hmin]
  · have hmin : min es.length spdkRing = spdkRing := by
      unfold spdkRing
      omega
    rw [if_neg (fun hl => hfew (hlt.mp hl)), hmin]

/-- The position `i` of the lookup is that of a kept entry. -/
theorem Holds.kept (h : Holds r tid es) {i : ℕ} {e : U64 × U64} (hi : (keptEntries es)[i]? = some e) :
    r.t (ringSlot (r.n - BitVec.ofNat 64 (keptEntries es).length + BitVec.ofNat 64 i)) = e.1 ∧
    r.v (ringSlot (r.n - BitVec.ofNat 64 (keptEntries es).length + BitVec.ofNat 64 i)) = e.2 := by
  have hlt : i < (keptEntries es).length := List.getElem?_eq_some_iff.mp hi |>.1
  rw [length_keptEntries] at hlt
  have hpos : r.n - BitVec.ofNat 64 (keptEntries es).length + BitVec.ofNat 64 i =
      BitVec.ofNat 64 (es.length - spdkRing + i) := by
    have hle : min es.length spdkRing < 2 ^ 64 := by
      unfold spdkRing
      omega
    have hsub : es.length - min es.length spdkRing = es.length - spdkRing := by omega
    rw [h.n, length_keptEntries, BitVec.ofNat_sub_ofNat_of_le _ _ hle (Nat.min_le_left _ _), hsub, BitVec.ofNat_add]
  rw [hpos]
  refine h.slots _ e ?_ (by omega)
  rw [← hi]
  unfold keptEntries
  rw [List.getElem?_drop]

theorem spdkRingFind_eq (hguard : ¬ (r.tid ≠ tid ∨ x = 0)) {n : U64}
    (hn : (if r.n < BitVec.ofNat 64 spdkRing then r.n else BitVec.ofNat 64 spdkRing) = n) :
    spdkRingFind r tid x =
      if ((halve r (r.n - n) x)^[10] (0, n)).1 ≠ 0 then
        r.v (ringSlot (r.n - n + ((halve r (r.n - n) x)^[10] (0, n)).1 - 1))
      else 0 := by
  subst hn
  unfold spdkRingFind
  rw [if_neg hguard]

/-- A ring that counts no entry has nothing to find. -/
theorem spdkRingFind_empty (h : r.n = 0) : spdkRingFind r tid x = 0 := by
  by_cases hguard : r.tid ≠ tid ∨ x = 0
  · unfold spdkRingFind
    rw [if_pos hguard]
  · have hn : (if r.n < BitVec.ofNat 64 spdkRing then r.n else BitVec.ofNat 64 spdkRing) = BitVec.ofNat 64 0 := by
      rw [h]
      rfl
    have hzero : ((Bisect.halve (atOrBefore r (r.n - BitVec.ofNat 64 0) x))^[10] (0, 0)).2 ≤ 0 :=
      Bisect.iterate_bound (Nat.le_refl 0) 10
    have hend := halvings_end r (r.n - BitVec.ofNat 64 0) x (Nat.zero_le spdkRing)
    rw [spdkRingFind_eq hguard hn, hend, iterate_wordRange _ (Nat.zero_le _), wordRange, Nat.le_zero.mp hzero]
    rfl

/-- A list whose first `k` elements satisfy `p` and whose others do not. -/
theorem filter_eq_take {α : Type} {p : α → Bool} {l : List α} {k : ℕ}
    (hbelow : ∀ i e, l[i]? = some e → i < k → p e = true) (habove : ∀ i e, l[i]? = some e → k ≤ i → p e = false) :
    l.filter p = l.take k := by
  have hsplit : l.filter p = (l.take k).filter p ++ (l.drop k).filter p := by
    rw [← List.filter_append, List.take_append_drop]
  have hfirst : (l.take k).filter p = l.take k := by
    refine List.filter_eq_self.mpr fun e he => ?_
    obtain ⟨i, hi⟩ := List.mem_iff_getElem?.mp he
    have hik : i < k := Nat.lt_of_lt_of_le (List.getElem?_eq_some_iff.mp hi).1 (List.length_take_le k l)
    rw [List.getElem?_take_of_lt hik] at hi
    exact hbelow i e hi hik
  have hrest : (l.drop k).filter p = [] := by
    refine List.filter_eq_nil_iff.mpr fun e he => ?_
    obtain ⟨i, hi⟩ := List.mem_iff_getElem?.mp he
    rw [List.getElem?_drop] at hi
    rw [habove (k + i) e hi (Nat.le_add_right k i)]
    exact Bool.false_ne_true
  rw [hsplit, hfirst, hrest, List.append_nil]

theorem Holds.find (h : Holds r tid es) (hsorted : es.Pairwise fun e e' => e.1 ≤ e'.1) (hc : CountsKept es)
    (hx : x ≠ 0) : spdkRingFind r tid x = latestAt es x := by
  have hm : (keptEntries es).length ≤ spdkRing := by
    rw [length_keptEntries]
    exact Nat.min_le_right _ _
  have hkept : (keptEntries es).Pairwise fun e e' => e.1 ≤ e'.1 := hsorted.drop
  generalize hbase : r.n - BitVec.ofNat 64 (keptEntries es).length = base
  have hentry : ∀ i e, (keptEntries es)[i]? = some e →
      r.t (ringSlot (base + BitVec.ofNat 64 i)) = e.1 ∧ r.v (ringSlot (base + BitVec.ofNat 64 i)) = e.2 := by
    intro i e hi
    rw [← hbase]
    exact h.kept hi
  have htest : ∀ i e, (keptEntries es)[i]? = some e → atOrBefore r base x i = decide (e.1 ≤ x) := by
    intro i e hi
    rw [atOrBefore, (hentry i e hi).1]
  -- the times ascend, so the test holds up to some position
  have hdown : ∀ i j, i ≤ j → j < (keptEntries es).length → atOrBefore r base x j = true →
      atOrBefore r base x i = true := by
    intro i j hij hj hp
    have hi : i < (keptEntries es).length := Nat.lt_of_le_of_lt hij hj
    rw [htest i _ (List.getElem?_eq_getElem hi)]
    rw [htest j _ (List.getElem?_eq_getElem hj)] at hp
    rcases Nat.lt_or_eq_of_le hij with hlt | rfl
    · have hle := List.pairwise_iff_getElem.mp hkept i j hi hj hlt
      exact decide_eq_true (BitVec.le_trans hle (of_decide_eq_true hp))
    · exact hp
  have hbr := (Bisect.brackets_all (atOrBefore r base x) (keptEntries es).length).iterate hdown 10
  have hends := tenHalvings_end (atOrBefore r base x) hm
  generalize hrange : (Bisect.halve (atOrBefore r base x))^[10] (0, (keptEntries es).length) = range at hbr hends
  have hfind : spdkRingFind r tid x =
      if BitVec.ofNat 64 range.1 ≠ 0 then r.v (ringSlot (base + BitVec.ofNat 64 range.1 - 1)) else 0 := by
    have hguard : ¬ (r.tid ≠ tid ∨ x = 0) := by
      rintro (htid | h0)
      · exact htid h.tid
      · exact hx h0
    rw [spdkRingFind_eq hguard (h.count hc), hbase, iterate_wordRange base hm, hrange]
    rfl
  have hfilter : ((keptEntries es).filter fun e => decide (e.1 ≤ x)) = (keptEntries es).take range.1 := by
    refine filter_eq_take ?_ ?_
    · intro i e hi hlo
      rw [← htest i e hi]
      exact hbr.below i hlo
    · intro i e hi hlo
      rw [← htest i e hi]
      exact hbr.above i (hends ▸ hlo) (List.getElem?_eq_some_iff.mp hi).1
  rw [hfind, latestAt, hfilter]
  have hle : range.1 ≤ (keptEntries es).length := Nat.le_trans hbr.le hbr.bound
  rcases Nat.eq_zero_or_pos range.1 with h0 | hpos
  · rw [h0]
    simp
  · have hne : BitVec.ofNat 64 range.1 ≠ 0 := by
      intro h0
      have hnat := congrArg BitVec.toNat h0
      rw [BitVec.toNat_ofNat, Nat.mod_eq_of_lt (by unfold spdkRing at hm; omega)] at hnat
      exact Nat.pos_iff_ne_zero.mp hpos hnat
    have hk : range.1 - 1 < (keptEntries es).length := by omega
    have hword : base + BitVec.ofNat 64 range.1 - 1 = base + BitVec.ofNat 64 (range.1 - 1) := by
      have hsucc : BitVec.ofNat 64 range.1 = BitVec.ofNat 64 (range.1 - 1) + 1 := by
        conv_lhs => rw [← Nat.sub_add_cancel hpos, BitVec.ofNat_add]
        rfl
      rw [hsucc, ← BitVec.add_assoc]
      exact BitVec.add_sub_cancel _ _
    rw [if_pos hne, hword, (hentry _ _ (List.getElem?_eq_getElem hk)).2, List.getLast?_take, if_neg (by omega),
      List.getElem?_eq_getElem hk]
    rfl

/-- While the 64-bit count of its entries has not wrapped, or once it has counted 512 again, a lookup in a thread's
ring gives what a linear scan over the last 512 entries gives, and its ten halvings end with an empty range in every
ring. -/
theorem ring_find_latest (r : SpdkRing) (tid x : U64) (es : List (U64 × U64))
    (hsorted : es.Pairwise fun e e' => e.1 ≤ e'.1) (hx : x ≠ 0) (hc : CountsKept es) :
    spdkRingFind (ringRun (r.takenBy tid) tid es) tid x = latestAt es x ∧
    ∀ (s : SpdkRing) (base : U64) (n : ℕ), n ≤ spdkRing →
      ((halve s base x)^[10] (0, BitVec.ofNat 64 n)).1 = ((halve s base x)^[10] (0, BitVec.ofNat 64 n)).2 := by
  have hrun := (holds_takenBy r tid).run es
  rw [List.nil_append] at hrun
  exact ⟨hrun.find hsorted hc hx, fun s base n hn => halvings_end s base x hn⟩

/-- A thousand entries, of which the last 512 are kept; two have each time. -/
def thousandEntries : List (U64 × U64) :=
  (List.range 1000).map fun i => (BitVec.ofNat 64 (i / 2 + 1), BitVec.ofNat 64 (i + 7))

theorem ring_find_latest_thousand :
    CountsKept thousandEntries ∧
    spdkRingFind (ringRun (({} : SpdkRing).takenBy 9) 9 thousandEntries) 9 400 = latestAt thousandEntries 400 ∧
    latestAt thousandEntries 400 = 806 := by
  have hsorted : thousandEntries.Pairwise fun e e' => e.1 ≤ e'.1 := by
    unfold thousandEntries
    rw [List.pairwise_map]
    refine List.Pairwise.imp_of_mem ?_ List.pairwise_lt_range
    intro i j hi hj hlt
    rw [List.mem_range] at hi hj
    show BitVec.ofNat 64 (i / 2 + 1) ≤ BitVec.ofNat 64 (j / 2 + 1)
    rw [BitVec.le_def, BitVec.toNat_ofNat, BitVec.toNat_ofNat]
    omega
  have hlen : thousandEntries.length = 1000 := by rw [thousandEntries, List.length_map, List.length_range]
  have hc : CountsKept thousandEntries := by
    refine Or.inl ?_
    rw [hlen]
    omega
  exact ⟨hc, (ring_find_latest {} 9 400 thousandEntries hsorted (by decide) hc).1, by decide +kernel⟩

/-- After 2^64 entries the count is 0, and the lookup finds none of the last 512. -/
theorem wrapped_count_forgets :
    (List.replicate (2 ^ 64) ((1 : U64), (5 : U64))).Pairwise (fun e e' => e.1 ≤ e'.1) ∧
    spdkRingFind (ringRun (({} : SpdkRing).takenBy 9) 9 (List.replicate (2 ^ 64) (1, 5))) 9 1 ≠
      latestAt (List.replicate (2 ^ 64) (1, 5)) 1 := by
  have hgen : ∀ n : ℕ, n % 2 ^ 64 = 0 → spdkRing ≤ n →
      spdkRingFind (ringRun (({} : SpdkRing).takenBy 9) 9 (List.replicate n (1, 5))) 9 1 = 0 ∧
      latestAt (List.replicate n (1, 5)) 1 = 5 := by
    intro n h0 hn
    constructor
    · have hrun := (holds_takenBy {} 9).run (List.replicate n ((1 : U64), (5 : U64)))
      rw [List.nil_append] at hrun
      have hcount : (ringRun (({} : SpdkRing).takenBy 9) 9 (List.replicate n (1, 5))).n = 0 := by
        rw [hrun.n, List.length_replicate]
        exact BitVec.eq_of_toNat_eq h0
      exact spdkRingFind_empty hcount
    · have hdrop : keptEntries (List.replicate n ((1 : U64), (5 : U64))) = List.replicate spdkRing (1, 5) := by
        have hkept : n - (n - spdkRing) = spdkRing := by omega
        rw [keptEntries, List.drop_replicate, List.length_replicate, hkept]
      have hne : spdkRing ≠ 0 := by decide
      rw [latestAt, hdrop, List.filter_replicate, if_pos (by decide), List.getLast?_replicate, if_neg hne]
      rfl
  have hlarge := hgen (2 ^ 64) (Nat.mod_self _) (by unfold spdkRing; omega)
  refine ⟨List.pairwise_replicate.mpr (Or.inr (BitVec.le_refl _)), ?_⟩
  rw [hlarge.1, hlarge.2]
  decide

end Ntprof.Bpf
