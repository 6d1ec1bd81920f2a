import Mathlib.Data.BitVec
import Mathlib.Tactic.Ring

/-!
# Words in memory

A word is stored least significant byte first. `field w o m` is the word of `w` bits at offset `o` of
the bytes `m`; the lemmas say how it is found in bytes that are put together from parts.
-/

namespace Bytes

/-- The `n` bytes of a word, the least significant one first. -/
def leBytes : (n : Nat) → BitVec (8 * n) → List (BitVec 8)
  | 0, _ => []
  | n + 1, x => x.setWidth 8 :: leBytes n ((x >>> 8).setWidth (8 * n))

/-- The number the bytes stand for. -/
def leNat : List (BitVec 8) → Nat
  | [] => 0
  | b :: bs => b.toNat + 256 * leNat bs

/-- The word of `w` bits at offset `o`. -/
def field (w o : Nat) (m : List (BitVec 8)) : BitVec w := BitVec.ofNat w (leNat ((m.drop o).take (w / 8)))

/-- The `n` bytes at offset `o`. -/
def chars (n o : Nat) (m : List (BitVec 8)) : Vector (BitVec 8) n := Vector.ofFn fun i => m.getD (o + i) 0

@[simp] theorem length_leBytes (n : Nat) (x : BitVec (8 * n)) : (leBytes n x).length = n := by
  induction n with
  | zero => rfl
  | succ n ih => rw [leBytes, List.length_cons, ih]

theorem leNat_leBytes (n : Nat) (x : BitVec (8 * n)) : leNat (leBytes n x) = x.toNat := by
  induction n with
  | zero =>
    have hx : x.toNat < 2 ^ (8 * 0) := x.isLt
    rw [leBytes, leNat]
    omega
  | succ n ih =>
    have hx : x.toNat < 2 ^ (8 * (n + 1)) := x.isLt
    have hpow : 2 ^ (8 * (n + 1)) = 256 * 2 ^ (8 * n) := by ring
    rw [leBytes, leNat, ih, BitVec.toNat_setWidth, BitVec.toNat_setWidth, BitVec.toNat_ushiftRight,
      Nat.shiftRight_eq_div_pow, Nat.mod_eq_of_lt (a := x.toNat / 2 ^ 8)]
    · omega
    · omega

theorem leBytes_one (x : BitVec 8) : leBytes 1 x = [x] := by
  rw [leBytes, leBytes, BitVec.setWidth_eq]

theorem leBytes_zero (n : Nat) : leBytes n 0 = List.replicate n 0 := by
  induction n with
  | zero => rfl
  | succ n ih =>
    rw [leBytes, List.replicate_succ]
    have hlow : (0 : BitVec (8 * (n + 1))).setWidth 8 = 0 := by simp
    have hrest : ((0 : BitVec (8 * (n + 1))) >>> 8).setWidth (8 * n) = 0 := by simp
    rw [hlow, hrest, ih]

/-- The word that was stored is read. -/
theorem field_leBytes (n : Nat) (x : BitVec (8 * n)) (m : List (BitVec 8)) :
    field (8 * n) 0 (leBytes n x ++ m) = x := by
  have htake : (leBytes n x ++ m).take (8 * n / 8) = leBytes n x := by
    rw [Nat.mul_div_cancel_left n (by omega), List.take_left' (length_leBytes n x)]
  rw [field, List.drop_zero, htake, leNat_leBytes, BitVec.ofNat_toNat, BitVec.setWidth_eq]

theorem field8_leBytes (x : BitVec 8) (m : List (BitVec 8)) : field 8 0 (leBytes 1 x ++ m) = x :=
  field_leBytes 1 x m

theorem field16_leBytes (x : BitVec 16) (m : List (BitVec 8)) : field 16 0 (leBytes 2 x ++ m) = x :=
  field_leBytes 2 x m

theorem field32_leBytes (x : BitVec 32) (m : List (BitVec 8)) : field 32 0 (leBytes 4 x ++ m) = x :=
  field_leBytes 4 x m

theorem field64_leBytes (x : BitVec 64) (m : List (BitVec 8)) : field 64 0 (leBytes 8 x ++ m) = x :=
  field_leBytes 8 x m

/-- What stands before the offset does not matter. -/
theorem field_append_right {w o : Nat} {a m : List (BitVec 8)} (h : a.length ≤ o) :
    field w o (a ++ m) = field w (o - a.length) m := by
  rw [field, field, List.drop_append, List.drop_eq_nil_of_le h, List.nil_append]

/-- What stands at the offset is read. -/
theorem field_append_at {w o : Nat} {a m : List (BitVec 8)} (h : a.length = o) :
    field w o (a ++ m) = field w 0 m := by
  rw [field_append_right (by omega), h, Nat.sub_self]

theorem chars_append_right {n o : Nat} {a m : List (BitVec 8)} (h : a.length ≤ o) :
    chars n o (a ++ m) = chars n (o - a.length) m := by
  unfold chars
  congr 1
  funext i
  rw [List.getD_eq_getElem?_getD, List.getD_eq_getElem?_getD, List.getElem?_append_right (by omega),
    Nat.sub_add_comm h]

theorem chars_toList {n : Nat} (v : Vector (BitVec 8) n) (m : List (BitVec 8)) :
    chars n 0 (v.toList ++ m) = v := by
  apply Vector.ext
  intro i hi
  rw [chars, Vector.getElem_ofFn, List.getD_eq_getElem?_getD, Nat.zero_add,
    List.getElem?_append_left (by simpa using hi), Vector.getElem?_toList, Vector.getElem?_eq_getElem hi,
    Option.getD_some]

/-- The words of an array, one after the other. -/
theorem field_flatMap {ι : Type} (n : Nat) (f : ι → BitVec (8 * n)) (l : List ι) (m : List (BitVec 8))
    {k : Nat} {i : ι} (hk : l[k]? = some i) :
    field (8 * n) (n * k) (l.flatMap (fun i => leBytes n (f i)) ++ m) = f i := by
  induction l generalizing k with
  | nil => simp at hk
  | cons j l ih =>
    rw [List.flatMap_cons, List.append_assoc]
    cases k with
    | zero =>
      simp only [List.getElem?_cons_zero, Option.some.injEq] at hk
      rw [Nat.mul_zero, field_leBytes, hk]
    | succ k =>
      rw [List.getElem?_cons_succ] at hk
      rw [field_append_right (by rw [length_leBytes, Nat.mul_succ]; omega), length_leBytes, Nat.mul_succ,
        Nat.add_sub_cancel, ih hk]

theorem length_flatMap_leBytes {ι : Type} (n : Nat) (f : ι → BitVec (8 * n)) (l : List ι) :
    (l.flatMap fun i => leBytes n (f i)).length = n * l.length := by
  induction l with
  | nil => rfl
  | cons i l ih =>
    rw [List.flatMap_cons, List.length_append, ih, length_leBytes, List.length_cons]
    ring

/-- The first `k` words of an array with zeros behind them are an array whose other words are 0. -/
theorem take_flatMap_leBytes {ι : Type} (n : Nat) {f g : ι → BitVec (8 * n)} (l : List ι) (k : Nat)
    (hf : ∀ i ∈ l.take k, g i = f i) (hz : ∀ i ∈ l.drop k, g i = 0) :
    (l.flatMap fun i => leBytes n (f i)).take (n * k) ++ List.replicate (n * (l.length - k)) 0 =
      l.flatMap fun i => leBytes n (g i) := by
  induction l generalizing k with
  | nil => simp
  | cons j l ih =>
    cases k with
    | zero =>
      have hj : g j = 0 := hz j (by simp)
      have hrest := ih 0 (by simp) (fun i hi => hz i (List.mem_cons_of_mem j hi))
      rw [Nat.mul_zero, List.take_zero, List.nil_append, Nat.sub_zero] at hrest ⊢
      rw [List.flatMap_cons, ← hrest, hj, leBytes_zero, List.replicate_append_replicate, List.length_cons]
      congr 1
      ring
    | succ k =>
      have hj : g j = f j := hf j (by simp)
      have hrest := ih k (fun i hi => hf i (by rw [List.take_succ_cons]; exact List.mem_cons_of_mem j hi)) hz
      have htake : (leBytes n (f j) ++ l.flatMap fun i => leBytes n (f i)).take (n * (k + 1)) =
          leBytes n (f j) ++ (l.flatMap fun i => leBytes n (f i)).take (n * k) := by
        rw [List.take_append, length_leBytes, Nat.mul_succ, Nat.add_sub_cancel,
          List.take_of_length_le (by rw [length_leBytes]; omega)]
      rw [List.flatMap_cons, List.flatMap_cons, htake, hj, ← hrest, List.append_assoc, List.length_cons,
        Nat.add_sub_add_right]

/-- The same for an array in the middle of a structure, cut in the array. -/
theorem take_array {ι : Type} (n : Nat) {f g : ι → BitVec (8 * n)} (l : List ι) (k z : Nat)
    (front back : List (BitVec 8)) (hk : k ≤ l.length) (hf : ∀ i ∈ l.take k, g i = f i)
    (hz : ∀ i ∈ l.drop k, g i = 0) :
    (front ++ (l.flatMap (fun i => leBytes n (f i)) ++ back)).take (front.length + n * k) ++
        List.replicate (n * (l.length - k) + z) 0 =
      front ++ (l.flatMap (fun i => leBytes n (g i)) ++ List.replicate z 0) := by
  have hle : n * k ≤ (l.flatMap fun i => leBytes n (f i)).length := by
    rw [length_flatMap_leBytes]
    exact Nat.mul_le_mul_left n hk
  rw [List.take_length_add_append, List.take_append_of_le_length hle, ← List.replicate_append_replicate,
    List.append_assoc, ← List.append_assoc ((l.flatMap _).take _), take_flatMap_leBytes n l k hf hz]

end Bytes
