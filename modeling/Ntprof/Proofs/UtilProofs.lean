import Ntprof.Util

/-!
# Proofs: sizes

`parse_size` checks the range of the digits, and then shifts them by the unit. A size whose digits fit in 64 bits
but which itself does not is accepted as its low 64 bits.
-/

namespace Ntprof

/-! ## What a size is -/

/-- The unit a letter stands for: `k`, `m` or `g`, in either case. -/
def letterShift (c : U8) : Option ℕ :=
  if toLower c = 0x6b#8 then some 10
  else if toLower c = 0x6d#8 then some 20
  else if toLower c = 0x67#8 then some 30
  else none

/-- What may follow the digits: nothing, or a unit, or a unit and `b`. -/
def unitShift : List U8 → Option ℕ
  | [] => some 0
  | [u] => letterShift u
  | [u, b] => if toLower b = 0x62#8 then letterShift u else none
  | _ => none

/-- `s` is the digits `ds` with a unit of 2^k. -/
def SizeText (s ds : List U8) (k : ℕ) : Prop :=
  ∃ unit, s = ds ++ unit ∧ ds ≠ [] ∧ (∀ d ∈ ds, isDigit d = true) ∧ unitShift unit = some k

/-- `s` is a size, the number `n`. -/
def SizeIs (s : List U8) (n : ℕ) : Prop := ∃ ds k, SizeText s ds k ∧ n = digitsVal ds * 2 ^ k

/-- `parse_size` does with `s` what it is for. -/
structure ParsesExactly (s : List U8) (out : U64) : Prop where
  succeeds : (parseSize s out).1 = 0 ↔ ∃ n, SizeIs s n ∧ n < 2 ^ 64
  value : (parseSize s out).1 = 0 → SizeIs s (parseSize s out).2.toNat
  unchanged : (parseSize s out).1 ≠ 0 → (parseSize s out).2 = out

/-! ## Characters -/

theorem toLower_eq_zero {c : U8} (h : toLower c = 0) : c = 0 := by
  revert c
  decide

theorem not_isDigit_of_letterShift {c : U8} {k : ℕ} (h : letterShift c = some k) : isDigit c = false := by
  have hall : ∀ c : U8, letterShift c ≠ none → isDigit c = false := by decide
  exact hall c (by rw [h]; simp)

theorem not_isSpace_of_isDigit {c : U8} (h : isDigit c = true) : isSpace c = false := by
  revert c
  decide

theorem not_signed_of_isDigit {c : U8} (h : isDigit c = true) : (c == 0x2b#8 || c == 0x2d#8) = false := by
  revert c
  decide

/-! ## Digits and units -/

/-- A string that starts with a digit is read up to the first other character. -/
theorem strtoull_of_digit {s : List U8} (h : isDigit (s.headD 0) = true) :
    strtoull s =
      if 2 ^ 64 ≤ digitsVal (s.takeWhile isDigit) then (BitVec.allOnes 64, s.dropWhile isDigit, true)
      else (BitVec.ofNat 64 (digitsVal (s.takeWhile isDigit)), s.dropWhile isDigit, false) := by
  cases s with
  | nil => exact absurd h (by decide)
  | cons c s =>
    rw [List.headD_cons] at h
    obtain ⟨hplus, hminus⟩ := Bool.or_eq_false_iff.mp (not_signed_of_isDigit h)
    have hdrop : (c :: s).dropWhile isSpace = c :: s := by
      rw [List.dropWhile_cons, not_isSpace_of_isDigit h]
      rfl
    have hlen : ((c :: s).takeWhile isDigit).length ≠ 0 := by
      rw [List.takeWhile_cons, h]
      simp
    simp only [strtoull, hdrop, List.headD_cons, hplus, hminus, Bool.or_false, Bool.false_eq_true, if_false, hlen]

theorem applyUnit_cons {u : U8} (hu : u ≠ 0) (v : U64) (r : List U8) :
    applyUnit v (u :: r) = (letterShift u).map fun k => (v <<< k, r) := by
  have hlow : toLower u ≠ 0 := fun h => hu (toLower_eq_zero h)
  simp only [applyUnit, letterShift, List.headD_cons, List.drop_one, List.tail_cons, if_neg hlow]
  split
  · rfl
  · split
    · rfl
    · split <;> rfl

theorem parseUnit_cons {u : U8} (hu : u ≠ 0) (v out : U64) (r : List U8) :
    parseUnit v (u :: r) out =
      match letterShift u with
      | none => (-1, out)
      | some k => if (if toLower (r.headD 0) = 0x62#8 then r.drop 1 else r).headD 0 ≠ 0 then (-1, out)
        else (0, v <<< k) := by
  unfold parseUnit
  rw [applyUnit_cons hu]
  cases letterShift u <;> rfl

/-- After the digits, `parse_size` accepts a unit and shifts by it. -/
theorem parseUnit_eq {rest : List U8} (h0 : (0 : U8) ∉ rest) (v out : U64) :
    parseUnit v rest out = (unitShift rest).elim (-1, out) fun k => (0, v <<< k) := by
  match rest with
  | [] => simp [parseUnit, applyUnit, toLower, unitShift]
  | [u] =>
    have hu : u ≠ 0 := fun h => h0 (by simp [h])
    rw [parseUnit_cons hu, unitShift]
    cases letterShift u <;> rfl
  | [u, b] =>
    have hu : u ≠ 0 := fun h => h0 (by simp [h])
    have hb : b ≠ 0 := fun h => h0 (by simp [h])
    rw [parseUnit_cons hu, unitShift, List.headD_cons]
    by_cases hlow : toLower b = 0x62#8
    · rw [if_pos hlow, if_pos hlow]
      cases letterShift u <;> rfl
    · rw [if_neg hlow, if_neg hlow]
      cases letterShift u with
      | none => rfl
      | some k => exact if_pos hb
  | u :: b :: c :: r =>
    have hu : u ≠ 0 := fun h => h0 (by simp [h])
    have hb : b ≠ 0 := fun h => h0 (by simp [h])
    have hc : c ≠ 0 := fun h => h0 (by simp [h])
    rw [parseUnit_cons hu, unitShift, List.headD_cons]
    · cases letterShift u with
      | none => rfl
      | some k =>
        refine if_pos ?_
        split
        · exact hc
        · exact hb
    all_goals simp

/-! ## Sizes -/

theorem not_isDigit_of_unitShift {c : U8} {unit : List U8} {k : ℕ} (h : unitShift (c :: unit) = some k) :
    isDigit c = false := by
  match unit with
  | [] => exact not_isDigit_of_letterShift h
  | [b] =>
    rw [unitShift] at h
    split at h
    · exact not_isDigit_of_letterShift h
    · cases h
  | _ :: _ :: _ => simp [unitShift] at h

/-- The digits of a size are all that the string starts with. -/
theorem sizeText_iff {s ds : List U8} {k : ℕ} :
    SizeText s ds k ↔ ds = s.takeWhile isDigit ∧ ds ≠ [] ∧ unitShift (s.dropWhile isDigit) = some k := by
  constructor
  · rintro ⟨unit, rfl, hne, hds, hunit⟩
    have htake : unit.takeWhile isDigit = [] ∧ unit.dropWhile isDigit = unit := by
      cases unit with
      | nil => exact ⟨rfl, rfl⟩
      | cons c unit =>
        rw [List.takeWhile_cons, List.dropWhile_cons, not_isDigit_of_unitShift hunit]
        exact ⟨rfl, rfl⟩
    rw [List.takeWhile_append_of_pos hds, List.dropWhile_append_of_pos hds, htake.1, htake.2, List.append_nil]
    exact ⟨rfl, hne, hunit⟩
  · rintro ⟨rfl, hne, hunit⟩
    refine ⟨s.dropWhile isDigit, List.takeWhile_append_dropWhile.symm, hne, ?_, hunit⟩
    intro d hd
    exact List.all_eq_true.mp List.all_takeWhile d hd

theorem takeWhile_isDigit_ne_nil {s : List U8} : s.takeWhile isDigit ≠ [] ↔ isDigit (s.headD 0) = true := by
  cases s with
  | nil => decide
  | cons c s =>
    rw [List.takeWhile_cons, List.headD_cons]
    cases isDigit c <;> simp

/-- `parse_size` accepts a size whose digits are below 2^64, and shifts them by its unit. -/
theorem parseSize_of_sizeText {s ds : List U8} {k : ℕ} (h0 : (0 : U8) ∉ s) (h : SizeText s ds k)
    (hlt : digitsVal ds < 2 ^ 64) (out : U64) : parseSize s out = (0, BitVec.ofNat 64 (digitsVal ds) <<< k) := by
  obtain ⟨rfl, hne, hunit⟩ := sizeText_iff.mp h
  have hdigit := takeWhile_isDigit_ne_nil.mp hne
  have hrest : (0 : U8) ∉ s.dropWhile isDigit := fun hm => h0 (List.dropWhile_sublist _ |>.subset hm)
  unfold parseSize
  rw [strtoull_of_digit hdigit, if_neg (Nat.not_le.mpr hlt), hdigit]
  show parseUnit _ _ _ = _
  rw [parseUnit_eq hrest, hunit]
  rfl

/-- It accepts nothing else. -/
theorem parseSize_fails {s : List U8} (h0 : (0 : U8) ∉ s) (out : U64)
    (h : ∀ ds k, SizeText s ds k → 2 ^ 64 ≤ digitsVal ds) : parseSize s out = (-1, out) := by
  unfold parseSize
  cases hdigit : isDigit (s.headD 0) with
  | false => rfl
  | true =>
    have hrest : (0 : U8) ∉ s.dropWhile isDigit := fun hm => h0 (List.dropWhile_sublist _ |>.subset hm)
    rw [strtoull_of_digit hdigit]
    by_cases hlarge : 2 ^ 64 ≤ digitsVal (s.takeWhile isDigit)
    · rw [if_pos hlarge]
      rfl
    · rw [if_neg hlarge]
      show parseUnit _ _ _ = _
      rw [parseUnit_eq hrest]
      cases hunit : unitShift (s.dropWhile isDigit) with
      | none => rfl
      | some k =>
        have hsize : SizeText s (s.takeWhile isDigit) k :=
          sizeText_iff.mpr ⟨rfl, takeWhile_isDigit_ne_nil.mpr hdigit, hunit⟩
        exact absurd (h _ _ hsize) hlarge

theorem SizeText.unique {s ds ds' : List U8} {k k' : ℕ} (h : SizeText s ds k) (h' : SizeText s ds' k') :
    ds = ds' ∧ k = k' := by
  obtain ⟨hds, -, hk⟩ := sizeText_iff.mp h
  obtain ⟨hds', -, hk'⟩ := sizeText_iff.mp h'
  refine ⟨hds.trans hds'.symm, ?_⟩
  rw [hk] at hk'
  exact Option.some.inj hk'

theorem toNat_shiftLeft_of_lt {n k : ℕ} (h : n * 2 ^ k < 2 ^ 64) :
    (BitVec.ofNat 64 n <<< k).toNat = n * 2 ^ k := by
  have hn : n < 2 ^ 64 := Nat.lt_of_le_of_lt (Nat.le_mul_of_pos_right n (Nat.two_pow_pos k)) h
  rw [BitVec.toNat_shiftLeft, BitVec.toNat_ofNat, Nat.mod_eq_of_lt hn, Nat.shiftLeft_eq, Nat.mod_eq_of_lt h]

/-- `parse_size` is exact, but for a size whose digits are below 2^64 and which itself is not. -/
theorem parses_exactly_iff (s : CText) (out : U64) :
    ParsesExactly s.val out ↔
      ¬ ∃ ds k, SizeText s.val ds k ∧ digitsVal ds < 2 ^ 64 ∧ 2 ^ 64 ≤ digitsVal ds * 2 ^ k := by
  obtain ⟨s, h0⟩ := s
  constructor
  · rintro h ⟨ds, k, hsize, hlt, hlarge⟩
    have hret : (parseSize s out).1 = 0 := by rw [parseSize_of_sizeText h0 hsize hlt]
    obtain ⟨n, ⟨ds', k', hsize', rfl⟩, hn⟩ := h.succeeds.mp hret
    obtain ⟨rfl, rfl⟩ := hsize.unique hsize'
    exact absurd hn (Nat.not_lt.mpr hlarge)
  · intro h
    by_cases hsize : ∃ ds k, SizeText s ds k ∧ digitsVal ds < 2 ^ 64
    · obtain ⟨ds, k, hsize, hlt⟩ := hsize
      have hfits : digitsVal ds * 2 ^ k < 2 ^ 64 := Nat.not_le.mp fun hle => h ⟨ds, k, hsize, hlt, hle⟩
      have hparse := parseSize_of_sizeText h0 hsize hlt out
      refine ⟨⟨fun _ => ⟨_, ⟨ds, k, hsize, rfl⟩, hfits⟩, fun _ => by rw [hparse]⟩, ?_, ?_⟩
      · intro _
        rw [hparse]
        exact ⟨ds, k, hsize, toNat_shiftLeft_of_lt hfits⟩
      · intro hret
        exact absurd (by rw [hparse]) hret
    · have hparse := parseSize_fails h0 out fun ds k hs => Nat.not_lt.mp fun hlt => hsize ⟨ds, k, hs, hlt⟩
      refine ⟨⟨?_, ?_⟩, ?_, ?_⟩
      · intro hret
        rw [hparse] at hret
        cases hret
      · rintro ⟨n, ⟨ds, k, hs, rfl⟩, hn⟩
        have hle := Nat.le_mul_of_pos_right (digitsVal ds) (Nat.two_pow_pos k)
        exact absurd ⟨ds, k, hs, Nat.lt_of_le_of_lt hle hn⟩ hsize
      · intro hret
        rw [hparse] at hret
        cases hret
      · intro _
        rw [hparse]

/-- 2^34 g is 2^64, and is taken for 0. -/
theorem size_of_two_pow_64 : ¬ ParsesExactly (text "17179869184g") 7 := by
  intro h
  have hret : (parseSize (text "17179869184g") 7) = (0, 0) := by decide +kernel
  obtain ⟨n, ⟨ds, k, hsize, rfl⟩, hn⟩ := h.succeeds.mp (by rw [hret])
  have hsize' : SizeText (text "17179869184g") (text "17179869184") 30 := by
    refine ⟨text "g", by decide +kernel, by decide +kernel, by decide +kernel, by decide +kernel⟩
  obtain ⟨rfl, rfl⟩ := hsize.unique hsize'
  have hval : digitsVal (text "17179869184") * 2 ^ 30 = 2 ^ 64 := by decide +kernel
  rw [hval] at hn
  exact absurd hn (Nat.lt_irrefl _)

end Ntprof
