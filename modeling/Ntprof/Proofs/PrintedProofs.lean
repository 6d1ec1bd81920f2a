import Ntprof.Proofs.UtilProofs

/-!
# Numbers that were printed

What `printf` writes for a number is read back as that number, up to the first byte that is not a digit.
-/

namespace Ntprof

theorem toNat_of_isDigit {c : Char} (h : c.isDigit = true) : 48 ≤ c.toNat ∧ c.toNat ≤ 57 := by
  obtain ⟨hlow, hhigh⟩ := (Bool.and_eq_true _ _).mp h
  exact ⟨of_decide_eq_true hlow, of_decide_eq_true hhigh⟩

theorem toNat_digitByte {c : Char} (h : c.isDigit = true) : (BitVec.ofNat 8 c.toNat).toNat = c.toNat := by
  have hc := toNat_of_isDigit h
  rw [BitVec.toNat_ofNat]
  exact Nat.mod_eq_of_lt (by omega)

theorem isDigit_unsignedText {n : ℕ} {c : U8} (h : c ∈ unsignedText n) : isDigit c = true := by
  rw [unsignedText, List.mem_map] at h
  obtain ⟨d, hd, rfl⟩ := h
  have hdigit := Nat.isDigit_of_mem_toDigits (by omega) (by omega) hd
  have hd := toNat_of_isDigit hdigit
  rw [isDigit, Bool.and_eq_true, decide_eq_true_eq, decide_eq_true_eq, BitVec.le_def, BitVec.le_def,
    toNat_digitByte hdigit]
  exact hd

theorem unsignedText_ne_nil (n : ℕ) : unsignedText n ≠ [] := by
  rw [unsignedText, Ne, List.map_eq_nil_iff]
  exact Nat.toDigits_ne_nil

/-- The value of the digits. -/
theorem digitsVal_unsignedText (n : ℕ) : digitsVal (unsignedText n) = n := by
  have hfold : ∀ (cs : List Char) (m : ℕ), (∀ c ∈ cs, c.isDigit = true) →
      (cs.map fun c => BitVec.ofNat 8 c.toNat).foldl (fun n d => 10 * n + (d - 0x30#8).toNat) m =
        Nat.ofDigitChars 10 cs m := by
    intro cs
    induction cs with
    | nil => exact fun m _ => rfl
    | cons c cs ih =>
      intro m hcs
      have hc := hcs c List.mem_cons_self
      have hval : (BitVec.ofNat 8 c.toNat - 0x30#8).toNat = c.toNat - '0'.toNat := by
        have hrange := toNat_of_isDigit hc
        have hbyte := toNat_digitByte hc
        have hzero : '0'.toNat = 48 := rfl
        rw [BitVec.toNat_sub_of_le (by rw [BitVec.le_def, hbyte]; exact hrange.1), hbyte, hzero]
        rfl
      rw [List.map_cons, List.foldl_cons, Nat.ofDigitChars_cons, hval]
      exact ih _ fun d hd => hcs d (List.mem_cons_of_mem _ hd)
  rw [digitsVal, unsignedText, hfold _ _ fun c hc => Nat.isDigit_of_mem_toDigits (by omega) (by omega) hc]
  exact Nat.ofDigitChars_ten_toDigits

/-- The byte behind a number does not belong to it. -/
def EndsNumber (rest : List U8) : Prop := isDigit (rest.headD 0) = false

theorem takeWhile_unsignedText {rest : List U8} (h : EndsNumber rest) (n : ℕ) :
    (unsignedText n ++ rest).takeWhile isDigit = unsignedText n ∧ (unsignedText n ++ rest).dropWhile isDigit = rest := by
  have hall : ∀ c ∈ unsignedText n, isDigit c = true := fun c hc => isDigit_unsignedText hc
  rw [List.takeWhile_append_of_pos hall, List.dropWhile_append_of_pos hall]
  cases rest with
  | nil => simp
  | cons c rest =>
    have hc : ¬ isDigit c = true := by
      rw [Bool.not_eq_true]
      exact h
    rw [List.takeWhile_cons_of_neg hc, List.dropWhile_cons_of_neg hc, List.append_nil]
    exact ⟨rfl, rfl⟩

/-- A number of at most 64 bits is read back. -/
theorem strtoull_unsignedText {n : ℕ} (hn : n < 2 ^ 64) {rest : List U8} (h : EndsNumber rest) :
    strtoull (unsignedText n ++ rest) = (BitVec.ofNat 64 n, rest, false) := by
  have hhead : isDigit ((unsignedText n ++ rest).headD 0) = true := by
    rcases hd : unsignedText n with _ | ⟨c, cs⟩
    · exact absurd hd (unsignedText_ne_nil n)
    · exact isDigit_unsignedText (n := n) (by rw [hd]; exact List.mem_cons_self)
  obtain ⟨htake, hdrop⟩ := takeWhile_unsignedText h n
  rw [strtoull_of_digit hhead, htake, hdrop, digitsVal_unsignedText, if_neg (by omega)]

end Ntprof
