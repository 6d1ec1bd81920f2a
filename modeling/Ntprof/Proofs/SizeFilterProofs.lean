import Ntprof.Config

/-!
# Proofs: the size filter

The bounds of the sizes have 64 bits in the configuration and 32 bits in the filter. Exact sizes are checked to fit
where they are set; the bounds are not.
-/

namespace Ntprof

open Bpf (Filter ntpSizeMatches)

/-- The sizes that were given: the exact ones, the smallest and the largest one. -/
structure GivenSizes where
  sizes : List ℕ := []
  min : ℕ := 0
  max : ℕ := 0

/-- The size in a token of a list of sizes. -/
def tokenSize (tok : List U8) : ℕ := (parseSize (strip tok) 0).2.toNat

/-- Configurations that are made from the defaults by settings of sizes that were accepted, and what was given. -/
inductive SizeConfig : NtpConfig → GivenSizes → Prop
  | defaults : SizeConfig configDefaults {}
  | sizes {c : NtpConfig} {g : GivenSizes} (v : List U8) (h : SizeConfig c g)
      (accepted : (configSetSizes c v).1 = 0) :
      SizeConfig (configSetSizes c v).2 { g with sizes := (commaTokens v).map tokenSize }
  | minSize {c : NtpConfig} {g : GivenSizes} (v : List U8) (h : SizeConfig c g)
      (accepted : (apply c (text "Workload") (text "MIN_IO_SIZE") v).1 = 0) :
      SizeConfig (apply c (text "Workload") (text "MIN_IO_SIZE") v).2 { g with min := (parseSize v 0).2.toNat }
  | maxSize {c : NtpConfig} {g : GivenSizes} (v : List U8) (h : SizeConfig c g)
      (accepted : (apply c (text "Workload") (text "MAX_IO_SIZE") v).1 = 0) :
      SizeConfig (apply c (text "Workload") (text "MAX_IO_SIZE") v).2 { g with max := (parseSize v 0).2.toNat }

/-- A request of `b` bytes is one of those that were asked for. -/
def GivenSizes.Selects (g : GivenSizes) (b : ℕ) : Prop :=
  (g.sizes ≠ [] ∧ b ∈ g.sizes) ∨
    (g.sizes = [] ∧ (g.min = 0 ∨ g.min ≤ b) ∧ (g.max = 0 ∨ b ≤ g.max))

/-- The low 32 bits of the bounds select the same sizes as the bounds do. -/
def GivenSizes.FitFilter (g : GivenSizes) : Prop :=
  g.sizes ≠ [] ∨
    (g.min < 2 ^ 32 ∧ (g.max < 2 ^ 32 ∨ g.max % 2 ^ 32 = 0 ∨ g.max % 2 ^ 32 = 2 ^ 32 - 1)) ∨
    (2 ^ 32 ≤ g.min ∧ g.max % 2 ^ 32 ≠ 0 ∧ g.max % 2 ^ 32 < g.min % 2 ^ 32)

/-! ## What is in the configuration -/

/-- The configuration holds what was given. -/
structure HoldsSizes (c : NtpConfig) (g : GivenSizes) : Prop where
  count : c.nSizes = g.sizes.length
  bound : c.nSizes ≤ ntpMaxSizeFilters
  sizes : ∀ (i n : ℕ), g.sizes[i]? = some n → ∃ x : U32, c.sizes[i]? = some x ∧ x.toNat = n
  min : c.minSize.toNat = g.min
  max : c.maxSize.toNat = g.max

/-- A token that is accepted is a size of at most 32 bits, and there is room for it. -/
theorem setSizesLoop_cons {toks : List (List U8)} {tok : List U8} {sizes : Vector U32 ntpMaxSizeFilters} {n : ℕ}
    (h : (setSizesLoop sizes n (tok :: toks)).2.2 = 0) :
    n ≠ ntpMaxSizeFilters ∧ tokenSize tok < 2 ^ 32 ∧ setSizesLoop sizes n (tok :: toks) =
      setSizesLoop (sizes.setIfInBounds n (BitVec.ofNat 32 (tokenSize tok))) (n + 1) toks := by
  have hmax : (0xffffffff#64).toNat = 2 ^ 32 - 1 := rfl
  have hstep : setSizesLoop sizes n (tok :: toks) =
      if n = ntpMaxSizeFilters then (sizes, n, -1)
      else if (parseSize (strip tok) 0).1 ≠ 0 ∨ (parseSize (strip tok) 0).2 = 0 ∨
          0xffffffff#64 < (parseSize (strip tok) 0).2 then (sizes, n, -1)
      else setSizesLoop (sizes.setIfInBounds n ((parseSize (strip tok) 0).2.setWidth 32)) (n + 1) toks := rfl
  rw [hstep] at h ⊢
  by_cases hne : n = ntpMaxSizeFilters
  · rw [if_pos hne] at h
    cases h
  · rw [if_neg hne] at h ⊢
    by_cases hbad : (parseSize (strip tok) 0).1 ≠ 0 ∨ (parseSize (strip tok) 0).2 = 0 ∨
        0xffffffff#64 < (parseSize (strip tok) 0).2
    · rw [if_pos hbad] at h
      cases h
    · have hle : ¬ 0xffffffff#64 < (parseSize (strip tok) 0).2 := fun hlt => hbad (Or.inr (Or.inr hlt))
      rw [BitVec.lt_def, hmax, Nat.not_lt] at hle
      refine ⟨hne, ?_, ?_⟩
      · unfold tokenSize
        omega
      · rw [if_neg hbad]
        rfl

/-- What the loop of `config_set_sizes` leaves when it accepts its tokens. -/
theorem setSizesLoop_accepted {toks : List (List U8)} {sizes : Vector U32 ntpMaxSizeFilters} {n : ℕ}
    (hn : n ≤ ntpMaxSizeFilters) (h : (setSizesLoop sizes n toks).2.2 = 0) :
    (setSizesLoop sizes n toks).2.1 = n + toks.length ∧ n + toks.length ≤ ntpMaxSizeFilters ∧
    (∀ i, i < n → (setSizesLoop sizes n toks).1[i]? = sizes[i]?) ∧
    ∀ i s, (toks.map tokenSize)[i]? = some s →
      ∃ x : U32, (setSizesLoop sizes n toks).1[n + i]? = some x ∧ x.toNat = s := by
  induction toks generalizing sizes n with
  | nil => exact ⟨rfl, hn, fun _ _ => rfl, fun i s hs => by simp at hs⟩
  | cons tok toks ih =>
    obtain ⟨hne, hlt, heq⟩ := setSizesLoop_cons h
    have hroom : n + 1 ≤ ntpMaxSizeFilters := by omega
    rw [heq] at h ⊢
    obtain ⟨hcount, hbound, hbelow, hgiven⟩ := ih hroom h
    rw [List.length_cons]
    refine ⟨by omega, by omega, ?_, ?_⟩
    · intro i hi
      rw [hbelow i (by omega), Vector.getElem?_setIfInBounds_ne (by omega)]
    · intro i s hs
      cases i with
      | zero =>
        simp only [List.map_cons, List.getElem?_cons_zero, Option.some.injEq] at hs
        refine ⟨BitVec.ofNat 32 (tokenSize tok), ?_, ?_⟩
        · have hlast := hbelow n (Nat.lt_succ_self n)
          rw [Vector.getElem?_setIfInBounds_self_of_lt hroom] at hlast
          exact hlast
        · rw [BitVec.toNat_ofNat, Nat.mod_eq_of_lt hlt, hs]
      | succ i =>
        rw [List.map_cons, List.getElem?_cons_succ] at hs
        have hrest := hgiven i s hs
        rw [Nat.add_right_comm] at hrest
        exact hrest

theorem parseUnit_out (v : U64) (rest : List U8) :
    ∃ r : Option U64, ∀ out, parseUnit v rest out = r.elim (-1, out) fun x => (0, x) := by
  unfold parseUnit
  cases applyUnit v rest with
  | none => exact ⟨none, fun _ => rfl⟩
  | some p =>
    by_cases hend : (if toLower (p.2.headD 0) = 0x62#8 then p.2.drop 1 else p.2).headD 0 ≠ 0
    · exact ⟨none, fun _ => if_pos hend⟩
    · exact ⟨some p.1, fun _ => if_neg hend⟩

/-- `parse_size` does not read its out parameter, and writes it only on success. -/
theorem parseSize_out (s : List U8) :
    ∃ r : Option U64, ∀ out, parseSize s out = r.elim (-1, out) fun x => (0, x) := by
  unfold parseSize
  by_cases hdigit : (!isDigit (s.headD 0)) = true
  · exact ⟨none, fun _ => if_pos hdigit⟩
  · by_cases herr : (strtoull s).2.2 = true
    · refine ⟨none, fun out => ?_⟩
      rw [if_neg hdigit]
      exact if_pos herr
    · obtain ⟨r, hr⟩ := parseUnit_out (strtoull s).1 (strtoull s).2.1
      refine ⟨r, fun out => ?_⟩
      rw [if_neg hdigit, ← hr out]
      exact if_neg herr

theorem parseSize_value {s : List U8} {out : U64} (h : (parseSize s out).1 = 0) (out' : U64) :
    parseSize s out' = parseSize s out := by
  obtain ⟨r, hr⟩ := parseSize_out s
  rw [hr] at h
  rw [hr, hr]
  cases r with
  | none => cases h
  | some x => rfl

theorem sameText_self (s : List U8) : sameText s s = true := by simp [sameText]

theorem apply_minSize (c : NtpConfig) (v : List U8) :
    apply c (text "Workload") (text "MIN_IO_SIZE") v = stored (setSize v c.minSize) fun x => { c with minSize := x } := by
  have h₁ : sameText (text "MIN_IO_SIZE") (text "SESSION_NAME") = false := by decide +kernel
  have h₂ : sameText (text "MIN_IO_SIZE") (text "IO_TYPE") = false := by decide +kernel
  have h₃ : sameText (text "MIN_IO_SIZE") (text "IO_SIZE") = false := by decide +kernel
  simp [apply, sameText_self, h₁, h₂, h₃]

theorem apply_maxSize (c : NtpConfig) (v : List U8) :
    apply c (text "Workload") (text "MAX_IO_SIZE") v = stored (setSize v c.maxSize) fun x => { c with maxSize := x } := by
  have h₁ : sameText (text "MAX_IO_SIZE") (text "SESSION_NAME") = false := by decide +kernel
  have h₂ : sameText (text "MAX_IO_SIZE") (text "IO_TYPE") = false := by decide +kernel
  have h₃ : sameText (text "MAX_IO_SIZE") (text "IO_SIZE") = false := by decide +kernel
  have h₄ : sameText (text "MAX_IO_SIZE") (text "MIN_IO_SIZE") = false := by decide +kernel
  simp [apply, sameText_self, h₁, h₂, h₃, h₄]

theorem SizeConfig.holds {c : NtpConfig} {g : GivenSizes} (h : SizeConfig c g) : HoldsSizes c g := by
  induction h with
  | defaults => exact ⟨rfl, Nat.zero_le _, fun i n hn => by simp at hn, rfl, rfl⟩
  | sizes v _ accepted ih =>
    rename_i c g _
    have hret : (setSizesLoop c.sizes 0 (commaTokens v)).2.2 = 0 := accepted
    obtain ⟨hcount, hbound, -, hgiven⟩ := setSizesLoop_accepted (Nat.zero_le _) hret
    have hn : (configSetSizes c v).2.nSizes = (setSizesLoop c.sizes 0 (commaTokens v)).2.1 := if_pos hret
    refine ⟨?_, ?_, ?_, ih.min, ih.max⟩
    · rw [hn, hcount, Nat.zero_add, List.length_map]
    · rw [hn, hcount]
      exact hbound
    · intro i n hi
      have hx := hgiven i n hi
      rw [Nat.zero_add] at hx
      exact hx
  | minSize v _ accepted ih =>
    rename_i c g _
    rw [apply_minSize] at accepted ⊢
    refine ⟨ih.count, ih.bound, ih.sizes, ?_, ih.max⟩
    rw [parseSize_value accepted 0]
    rfl
  | maxSize v _ accepted ih =>
    rename_i c g _
    rw [apply_maxSize] at accepted ⊢
    refine ⟨ih.count, ih.bound, ih.sizes, ih.min, ?_⟩
    rw [parseSize_value accepted 0]
    rfl

/-! ## What the filter selects -/

section Filter

variable {c : NtpConfig} {g : GivenSizes} {hostSel : Option Filter} {realMinusMono : S64}

theorem HoldsSizes.nSizes (h : HoldsSizes c g) : (fillFilter c hostSel realMinusMono).nSizes.toNat = g.sizes.length := by
  have hle : c.nSizes < 2 ^ 8 := Nat.lt_of_le_of_lt h.bound (by decide)
  show (BitVec.ofNat 8 c.nSizes).toNat = _
  rw [BitVec.toNat_ofNat, Nat.mod_eq_of_lt hle, h.count]

theorem HoldsSizes.nSizes_eq_zero (h : HoldsSizes c g) :
    (fillFilter c hostSel realMinusMono).nSizes = 0 ↔ g.sizes = [] := by
  rw [← BitVec.toNat_inj, h.nSizes]
  exact List.length_eq_zero_iff

/-- With exact sizes, the filter selects those. -/
theorem HoldsSizes.matches_sizes (h : HoldsSizes c g) (hne : g.sizes ≠ []) (b : U32) :
    ntpSizeMatches (fillFilter c hostSel realMinusMono) b = true ↔ b.toNat ∈ g.sizes := by
  have hn : (fillFilter c hostSel realMinusMono).nSizes ≠ 0 := fun h0 => hne (h.nSizes_eq_zero.mp h0)
  have hget : ∀ i : Fin 16, i.val < g.sizes.length →
      c.sizes[i.val]? = some ((fillFilter c hostSel realMinusMono).sizes[i]) := by
    intro i hi
    have hmax : i.val < ntpMaxSizeFilters := i.isLt
    rw [← h.count] at hi
    rw [Vector.getElem?_eq_getElem hmax]
    simp [fillFilter, hi]
  rw [ntpSizeMatches, if_pos hn, List.any_eq_true]
  constructor
  · rintro ⟨i, -, hi⟩
    simp only [Bool.and_eq_true, decide_eq_true_eq, beq_iff_eq, h.nSizes] at hi
    obtain ⟨hlt, hb⟩ := hi
    obtain ⟨x, hx, hxn⟩ := h.sizes i _ (List.getElem?_eq_getElem hlt)
    rw [hget i hlt, hb, Option.some.injEq] at hx
    rw [hx, hxn]
    exact List.getElem_mem hlt
  · intro hm
    obtain ⟨i, hi⟩ := List.mem_iff_getElem?.mp hm
    have hlt : i < g.sizes.length := (List.getElem?_eq_some_iff.mp hi).1
    have hmax : i < 16 := by
      have hle := h.bound
      rw [h.count] at hle
      exact Nat.lt_of_lt_of_le hlt hle
    obtain ⟨x, hx, hxn⟩ := h.sizes i _ hi
    refine ⟨⟨i, hmax⟩, List.mem_finRange _, ?_⟩
    simp only [Bool.and_eq_true, decide_eq_true_eq, beq_iff_eq, h.nSizes]
    refine ⟨hlt, ?_⟩
    rw [hget ⟨i, hmax⟩ hlt, Option.some.injEq] at hx
    rw [hx]
    exact BitVec.eq_of_toNat_eq hxn

/-- Without exact sizes, the filter compares with the low 32 bits of the bounds. -/
theorem HoldsSizes.matches_bounds (h : HoldsSizes c g) (hnil : g.sizes = []) (b : U32) :
    ntpSizeMatches (fillFilter c hostSel realMinusMono) b = true ↔
      (g.min % 2 ^ 32 = 0 ∨ g.min % 2 ^ 32 ≤ b.toNat) ∧ (g.max % 2 ^ 32 = 0 ∨ b.toNat ≤ g.max % 2 ^ 32) := by
  have hmin : (fillFilter c hostSel realMinusMono).minBytes.toNat = g.min % 2 ^ 32 := by
    rw [← h.min]
    exact BitVec.toNat_setWidth ..
  have hmax : (fillFilter c hostSel realMinusMono).maxBytes.toNat = g.max % 2 ^ 32 := by
    rw [← h.max]
    exact BitVec.toNat_setWidth ..
  have hn : ¬ (fillFilter c hostSel realMinusMono).nSizes ≠ 0 := fun h0 => h0 (h.nSizes_eq_zero.mpr hnil)
  have hzero : ∀ x : U32, x ≠ 0 ↔ x.toNat ≠ 0 := by
    intro x
    rw [Ne, ← BitVec.toNat_inj]
    rfl
  rw [ntpSizeMatches, if_neg hn]
  split
  · rename_i hlow
    rw [hzero, BitVec.lt_def, hmin] at hlow
    simp only [Bool.false_eq_true, false_iff]
    omega
  · rename_i hlow
    rw [hzero, BitVec.lt_def, hmin] at hlow
    split
    · rename_i hhigh
      rw [hzero, BitVec.lt_def, hmax] at hhigh
      simp only [Bool.false_eq_true, false_iff]
      omega
    · rename_i hhigh
      rw [hzero, BitVec.lt_def, hmax] at hhigh
      simp only [true_iff]
      omega

end Filter

/-- Comparing with the low 32 bits of the bounds comes to the same for every size exactly if the bounds fit the
filter. -/
theorem low_bounds_iff (min max : ℕ) :
    (∀ b : U32, ((min % 2 ^ 32 = 0 ∨ min % 2 ^ 32 ≤ b.toNat) ∧ (max % 2 ^ 32 = 0 ∨ b.toNat ≤ max % 2 ^ 32)) ↔
      ((min = 0 ∨ min ≤ b.toNat) ∧ (max = 0 ∨ b.toNat ≤ max))) ↔
    (min < 2 ^ 32 ∧ (max < 2 ^ 32 ∨ max % 2 ^ 32 = 0 ∨ max % 2 ^ 32 = 2 ^ 32 - 1)) ∨
      (2 ^ 32 ≤ min ∧ max % 2 ^ 32 ≠ 0 ∧ max % 2 ^ 32 < min % 2 ^ 32) := by
  constructor
  · intro h
    by_cases hmin : min < 2 ^ 32
    · refine Or.inl ⟨hmin, ?_⟩
      -- the largest size is at or above the minimum
      have hlast := h (BitVec.allOnes 32)
      have hones : (BitVec.allOnes 32).toNat = 2 ^ 32 - 1 := rfl
      rw [hones] at hlast
      omega
    · refine Or.inr ⟨Nat.not_lt.mp hmin, ?_⟩
      -- no size is at or above the minimum, so the filter must not select its own one
      have hlow := h (BitVec.ofNat 32 min)
      have hto : (BitVec.ofNat 32 min).toNat = min % 2 ^ 32 := BitVec.toNat_ofNat ..
      rw [hto] at hlow
      omega
  · intro h b
    have hb := b.isLt
    omega

/-- For every configuration made of accepted settings, the filter selects the sizes that were given exactly if exact
sizes were given or the low 32 bits of the two bounds select what the bounds do. -/
theorem size_filter_iff (c : NtpConfig) (g : GivenSizes) (h : SizeConfig c g) (hostSel : Option Filter)
    (realMinusMono : S64) :
    (∀ b : U32, ntpSizeMatches (fillFilter c hostSel realMinusMono) b = true ↔ g.Selects b.toNat) ↔ g.FitFilter := by
  have hh := h.holds
  by_cases hnil : g.sizes = []
  · have hsel : ∀ b : U32, g.Selects b.toNat ↔ (g.min = 0 ∨ g.min ≤ b.toNat) ∧ (g.max = 0 ∨ b.toNat ≤ g.max) := by
      intro b
      simp [GivenSizes.Selects, hnil]
    simp only [hh.matches_bounds hnil, hsel, low_bounds_iff, GivenSizes.FitFilter, hnil, ne_eq, not_true_eq_false,
      false_or]
  · have hsel : ∀ b : U32, g.Selects b.toNat ↔ b.toNat ∈ g.sizes := by
      intro b
      simp [GivenSizes.Selects, hnil]
    simp only [hh.matches_sizes hnil, hsel, GivenSizes.FitFilter, hnil, ne_eq, not_false_eq_true, true_or,
      implies_true]

/-- Two exact sizes. -/
theorem size_filter_iff_exact :
    SizeConfig (configSetSizes configDefaults (text "4K, 128k")).2 { sizes := [4096, 131072] } ∧
    ∀ b : U32, ntpSizeMatches (fillFilter (configSetSizes configDefaults (text "4K, 128k")).2 none 0) b = true ↔
      GivenSizes.Selects { sizes := [4096, 131072] } b.toNat := by
  have hc : SizeConfig (configSetSizes configDefaults (text "4K, 128k")).2 { sizes := [4096, 131072] } := by
    have htok : (commaTokens (text "4K, 128k")).map tokenSize = [4096, 131072] := by decide +kernel
    have hstep := SizeConfig.sizes (text "4K, 128k") .defaults (by decide +kernel)
    rw [htok] at hstep
    exact hstep
  exact ⟨hc, (size_filter_iff _ _ hc none 0).mpr (Or.inl (by simp))⟩

/-- A minimum of 4 GiB becomes none, so that requests of 4 KiB are recorded. -/
theorem minimum_of_4g_is_lost :
    let c := (apply configDefaults (text "Workload") (text "MIN_IO_SIZE") (text "4g")).2
    SizeConfig c { min := 2 ^ 32 } ∧ ntpSizeMatches (fillFilter c none 0) 4096 = true ∧
      ¬ GivenSizes.Selects { min := 2 ^ 32 } 4096 := by
  refine ⟨?_, by decide +kernel, by simp [GivenSizes.Selects]⟩
  have hval : (parseSize (text "4g") 0).2.toNat = 2 ^ 32 := by decide +kernel
  have hstep := SizeConfig.minSize (text "4g") .defaults (by decide +kernel)
  rw [hval] at hstep
  exact hstep

end Ntprof
