import Mathlib.Algebra.Group.Nat.Defs
import Mathlib.Data.List.Nodup
import Mathlib.Tactic.Common

/-!
# JSON texts

The grammar of JSON over bytes, with the value that a text denotes. Bytes from 0x80 on stand for themselves in a
string. A list of elements or of members grows at its end, as a program writes it.
-/

namespace Json

/-- A byte. -/
abbrev Byte := BitVec 8

/-- A JSON value: a number is its text, a string and a key are the bytes they stand for. -/
inductive Value where
  | null
  | bool (b : Bool)
  | num (t : List Byte)
  | str (s : List Byte)
  | arr (vs : List Value)
  | obj (ms : List (List Byte × Value))

/-- No object in a value has a key twice. -/
inductive DistinctKeys : Value → Prop
  | null : DistinctKeys .null
  | bool (b : Bool) : DistinctKeys (.bool b)
  | num (t : List Byte) : DistinctKeys (.num t)
  | str (s : List Byte) : DistinctKeys (.str s)
  | arr {vs : List Value} : (∀ v ∈ vs, DistinctKeys v) → DistinctKeys (.arr vs)
  | obj {ms : List (List Byte × Value)} : (ms.map Prod.fst).Nodup → (∀ m ∈ ms, DistinctKeys m.2) → DistinctKeys (.obj ms)

/-! ## White space and numbers -/

/-- White space between tokens. -/
def IsSpace (w : List Byte) : Prop := ∀ c ∈ w, c = 0x20#8 ∨ c = 0x09#8 ∨ c = 0x0a#8 ∨ c = 0x0d#8

instance (w : List Byte) : Decidable (IsSpace w) := List.decidableBAll _ w

theorem IsSpace.append {w w' : List Byte} (h : IsSpace w) (h' : IsSpace w') : IsSpace (w ++ w') := by
  intro c hc
  rcases List.mem_append.mp hc with hc | hc
  · exact h c hc
  · exact h' c hc

/-- A decimal digit. -/
def IsDigit (c : Byte) : Prop := 0x30#8 ≤ c ∧ c ≤ 0x39#8

instance (c : Byte) : Decidable (IsDigit c) := inferInstanceAs (Decidable (_ ∧ _))

/-- One digit or more. -/
def IsDigits (ds : List Byte) : Prop := ds ≠ [] ∧ ∀ c ∈ ds, IsDigit c

/-- The integer part of a number: no digit 0 before another one. -/
def IsInt (ds : List Byte) : Prop := IsDigits ds ∧ (ds.head? = some 0x30#8 → ds.length = 1)

/-- The fraction of a number, if it has one. -/
def IsFraction (f : List Byte) : Prop := f = [] ∨ ∃ ds, f = 0x2e#8 :: ds ∧ IsDigits ds

/-- The exponent of a number, if it has one. -/
def IsExponent (e : List Byte) : Prop :=
  e = [] ∨ ∃ c sign ds, e = c :: (sign ++ ds) ∧ (c = 0x65#8 ∨ c = 0x45#8) ∧
    (sign = [] ∨ sign = [0x2b#8] ∨ sign = [0x2d#8]) ∧ IsDigits ds

/-- A number. -/
def IsNumber (t : List Byte) : Prop :=
  ∃ sign int frac exp, t = sign ++ (int ++ (frac ++ exp)) ∧ (sign = [] ∨ sign = [0x2d#8]) ∧ IsInt int ∧
    IsFraction frac ∧ IsExponent exp

/-! ## Strings -/

/-- The value of a hexadecimal digit. -/
def hexVal (c : Byte) : Option ℕ :=
  if 0x30#8 ≤ c ∧ c ≤ 0x39#8 then some (c.toNat - 0x30)
  else if 0x61#8 ≤ c ∧ c ≤ 0x66#8 then some (c.toNat - 0x61 + 10)
  else if 0x41#8 ≤ c ∧ c ≤ 0x46#8 then some (c.toNat - 0x41 + 10)
  else none

/-- The value of four hexadecimal digits. -/
def hex4 (a b c d : Byte) : Option ℕ := do
  let a ← hexVal a
  let b ← hexVal b
  let c ← hexVal c
  let d ← hexVal d
  pure (((a * 16 + b) * 16 + c) * 16 + d)

/-- The bytes of a code point. -/
def utf8 (n : ℕ) : List Byte :=
  let tail (k : ℕ) : Byte := BitVec.ofNat 8 (0x80 + n / 64 ^ k % 64)
  if n < 0x80 then [BitVec.ofNat 8 n]
  else if n < 0x800 then [BitVec.ofNat 8 (0xc0 + n / 64), tail 0]
  else if n < 0x10000 then [BitVec.ofNat 8 (0xe0 + n / 64 ^ 2), tail 1, tail 0]
  else [BitVec.ofNat 8 (0xf0 + n / 64 ^ 3), tail 2, tail 1, tail 0]

/-- The byte that a short escape stands for. -/
def shortEscape (c : Byte) : Option Byte :=
  if c = 0x22#8 ∨ c = 0x5c#8 ∨ c = 0x2f#8 then some c
  else if c = 0x62#8 then some 0x08#8
  else if c = 0x66#8 then some 0x0c#8
  else if c = 0x6e#8 then some 0x0a#8
  else if c = 0x72#8 then some 0x0d#8
  else if c = 0x74#8 then some 0x09#8
  else none

/-- What the text between two quotes stands for, if it is that of a string: a quote, a backslash and the bytes below
0x20 are escaped, and a surrogate stands only in a pair. -/
def unescape : List Byte → Option (List Byte)
  | [] => some []
  | c :: s =>
    if c = 0x5c#8 then
      match s with
      | [] => none
      | e :: s =>
        if e = 0x75#8 then
          match s with
          | a :: b :: c :: d :: s =>
            match hex4 a b c d with
            | none => none
            | some n =>
              if 0xd800 ≤ n ∧ n < 0xdc00 then
                match s with
                | b₁ :: u₁ :: a :: b :: c :: d :: s =>
                  match hex4 a b c d with
                  | none => none
                  | some m =>
                    if b₁ = 0x5c#8 ∧ u₁ = 0x75#8 ∧ 0xdc00 ≤ m ∧ m < 0xe000 then
                      (unescape s).map (utf8 (0x10000 + (n - 0xd800) * 0x400 + (m - 0xdc00)) ++ ·)
                    else none
                | _ => none
              else if 0xdc00 ≤ n ∧ n < 0xe000 then none
              else (unescape s).map (utf8 n ++ ·)
          | _ => none
        else
          match shortEscape e with
          | none => none
          | some x => (unescape s).map (x :: ·)
    else if c < 0x20#8 ∨ c = 0x22#8 then none
    else (unescape s).map (c :: ·)

/-- A byte that stands for itself. -/
theorem unescape_plain {c : Byte} (hback : c ≠ 0x5c#8) (hplain : ¬ (c < 0x20#8 ∨ c = 0x22#8)) (s : List Byte) :
    unescape (c :: s) = (unescape s).map (c :: ·) := by
  rw [unescape.eq_def]
  simp only [if_neg hback, if_neg hplain]

theorem unescape_short {e x : Byte} (hu : e ≠ 0x75#8) (he : shortEscape e = some x) (s : List Byte) :
    unescape (0x5c#8 :: e :: s) = (unescape s).map (x :: ·) := by
  rw [unescape.eq_def]
  simp only [if_true, if_neg hu, he]

/-- A code point that is not a surrogate. -/
theorem unescape_code {a b c d : Byte} {n : ℕ} (h : hex4 a b c d = some n) (hn : n < 0xd800) (s : List Byte) :
    unescape (0x5c#8 :: 0x75#8 :: a :: b :: c :: d :: s) = (unescape s).map (utf8 n ++ ·) := by
  have hhigh : ¬ (0xd800 ≤ n ∧ n < 0xdc00) := by omega
  have hlow : ¬ (0xdc00 ≤ n ∧ n < 0xe000) := by omega
  rw [unescape.eq_def]
  simp only [if_true, h, if_neg hhigh, if_neg hlow]

/-- A text that is the same with and without escapes. -/
def Plain (t : List Byte) : Prop := ∀ c ∈ t, 0x20#8 ≤ c ∧ c ≠ 0x22#8 ∧ c ≠ 0x5c#8

instance (t : List Byte) : Decidable (Plain t) := List.decidableBAll _ t

theorem Plain.append {t t' : List Byte} (h : Plain t) (h' : Plain t') : Plain (t ++ t') := by
  intro c hc
  rcases List.mem_append.mp hc with hc | hc
  · exact h c hc
  · exact h' c hc

theorem Plain.unescape {t : List Byte} (h : Plain t) : unescape t = some t := by
  induction t with
  | nil => rfl
  | cons c t ih =>
    obtain ⟨⟨hle, hquote, hback⟩, hrest⟩ := List.forall_mem_cons.mp h
    have hplain : ¬ (c < 0x20#8 ∨ c = 0x22#8) := by
      rintro (hlt | heq)
      · exact absurd hlt (BitVec.not_lt.mpr hle)
      · exact hquote heq
    rw [unescape_plain hback hplain, ih hrest]
    rfl

/-- A text in quotes. -/
def quoted (body : List Byte) : List Byte := 0x22#8 :: (body ++ [0x22#8])

/-! ## Values -/

mutual

/-- The value that a text denotes. -/
inductive Denotes : List Byte → Value → Prop
  | null : Denotes [0x6e#8, 0x75#8, 0x6c#8, 0x6c#8] .null
  | true : Denotes [0x74#8, 0x72#8, 0x75#8, 0x65#8] (.bool true)
  | false : Denotes [0x66#8, 0x61#8, 0x6c#8, 0x73#8, 0x65#8] (.bool false)
  | num {t : List Byte} : IsNumber t → Denotes t (.num t)
  | str {body s : List Byte} : unescape body = some s → Denotes (quoted body) (.str s)
  | arrEmpty {w : List Byte} : IsSpace w → Denotes (0x5b#8 :: (w ++ [0x5d#8])) (.arr [])
  | arr {t : List Byte} {vs : List Value} : Elements t vs → Denotes (0x5b#8 :: (t ++ [0x5d#8])) (.arr vs)
  | objEmpty {w : List Byte} : IsSpace w → Denotes (0x7b#8 :: (w ++ [0x7d#8])) (.obj [])
  | obj {t : List Byte} {ms : List (List Byte × Value)} : Members t ms → Denotes (0x7b#8 :: (t ++ [0x7d#8])) (.obj ms)

/-- An element of an array, with the white space around it. -/
inductive Element : List Byte → Value → Prop
  | mk {w t w' : List Byte} {v : Value} : IsSpace w → Denotes t v → IsSpace w' → Element (w ++ (t ++ w')) v

/-- The elements of an array that is not empty. -/
inductive Elements : List Byte → List Value → Prop
  | one {t : List Byte} {v : Value} : Element t v → Elements t [v]
  | snoc {ts t : List Byte} {vs : List Value} {v : Value} :
      Elements ts vs → Element t v → Elements (ts ++ 0x2c#8 :: t) (vs ++ [v])

/-- A member of an object, with the white space around it and in it. -/
inductive Member : List Byte → List Byte × Value → Prop
  | mk {w body key w₁ t : List Byte} {v : Value} : IsSpace w → unescape body = some key → IsSpace w₁ → Element t v →
      Member (w ++ (quoted body ++ (w₁ ++ 0x3a#8 :: t))) (key, v)

/-- The members of an object that is not empty. -/
inductive Members : List Byte → List (List Byte × Value) → Prop
  | one {t : List Byte} {m : List Byte × Value} : Member t m → Members t [m]
  | snoc {ts t : List Byte} {ms : List (List Byte × Value)} {m : List Byte × Value} :
      Members ts ms → Member t m → Members (ts ++ 0x2c#8 :: t) (ms ++ [m])

end

/-- A whole text: a value, with white space around it. -/
def IsText (t : List Byte) (v : Value) : Prop := Element t v

/-! ## White space at the end -/

theorem Element.space {t w : List Byte} {v : Value} (h : Element t v) (hw : IsSpace w) : Element (t ++ w) v := by
  obtain ⟨h₁, hd, h₂⟩ := h
  rw [List.append_assoc, List.append_assoc]
  exact .mk h₁ hd (h₂.append hw)

theorem Elements.space {t w : List Byte} {vs : List Value} (h : Elements t vs) (hw : IsSpace w) :
    Elements (t ++ w) vs := by
  cases h with
  | one h => exact .one (h.space hw)
  | snoc hs h =>
    rw [List.append_assoc, List.cons_append]
    exact .snoc hs (h.space hw)

theorem Member.space {t w : List Byte} {m : List Byte × Value} (h : Member t m) (hw : IsSpace w) :
    Member (t ++ w) m := by
  obtain ⟨h₀, hk, h₁, he⟩ := h
  simp only [List.append_assoc, List.cons_append]
  exact .mk h₀ hk h₁ (he.space hw)

theorem Members.space {t w : List Byte} {ms : List (List Byte × Value)} (h : Members t ms) (hw : IsSpace w) :
    Members (t ++ w) ms := by
  cases h with
  | one h => exact .one (h.space hw)
  | snoc hs h =>
    rw [List.append_assoc, List.cons_append]
    exact .snoc hs (h.space hw)

end Json
