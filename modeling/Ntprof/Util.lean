import Ntprof.Record

/-!
# Text helpers (`src/util.c`)

A string is the list of its bytes: reading at its end gives the byte 0, and a pointer into it is the rest of the
list. The character classes are those of the C locale. An out parameter is an argument and a result.
-/

namespace Ntprof

/-- The bytes of a text of the source. -/
def text (s : String) : List U8 := s.toList.map fun c => BitVec.ofNat 8 c.toNat

/-- A string: none of its bytes is 0. -/
abbrev CText := { s : List U8 // (0 : U8) ∉ s }

/-- The string in a buffer. -/
def textOf (buf : List U8) : List U8 := buf.takeWhile (· ≠ 0)

/-- `isdigit`. -/
def isDigit (c : U8) : Bool := decide (0x30#8 ≤ c) && decide (c ≤ 0x39#8)

/-- `isspace`. -/
def isSpace (c : U8) : Bool := c == 0x20#8 || (decide (0x09#8 ≤ c) && decide (c ≤ 0x0d#8))

/-- `tolower`. -/
def toLower (c : U8) : U8 := if 0x41#8 ≤ c ∧ c ≤ 0x5a#8 then c + 0x20#8 else c

/-- `!strcasecmp(a, b)`. -/
def sameText (a b : List U8) : Bool := a.map toLower == b.map toLower

/-- The number that unsignedText digits denote. -/
def digitsVal (ds : List U8) : ℕ := ds.foldl (fun n d => 10 * n + (d - 0x30#8).toNat) 0

/-- `strtoull(s, &end, 10)`, and `strtoul`: the value, the rest at `end`, and whether `errno` was set. -/
def strtoull (s : List U8) : U64 × List U8 × Bool :=
  let t := s.dropWhile isSpace
  let signed := t.headD 0 == 0x2b#8 || t.headD 0 == 0x2d#8
  let u := if signed then t.drop 1 else t
  let ds := u.takeWhile isDigit
  if ds.length = 0 then (0, s, false)
  else if 2 ^ 64 ≤ digitsVal ds then (BitVec.allOnes 64, u.dropWhile isDigit, true)
  else
    let v := BitVec.ofNat 64 (digitsVal ds)
    (if t.headD 0 == 0x2d#8 then -v else v, u.dropWhile isDigit, false)

/-- The unit in `parse_size`: the value with it and the rest after it, if it is one. -/
def applyUnit (v : U64) (rest : List U8) : Option (U64 × List U8) :=
  let c := toLower (rest.headD 0)
  if c = 0 then some (v, rest)
  else if c = 0x6b#8 then some (v <<< 10, rest.drop 1)
  else if c = 0x6d#8 then some (v <<< 20, rest.drop 1)
  else if c = 0x67#8 then some (v <<< 30, rest.drop 1)
  else none

/-- `parse_size`, after the digits. -/
def parseUnit (v : U64) (rest : List U8) (out : U64) : Int × U64 :=
  match applyUnit v rest with
  | none => (-1, out)
  | some (v, rest) =>
    let rest := if toLower (rest.headD 0) = 0x62#8 then rest.drop 1 else rest
    if rest.headD 0 ≠ 0 then (-1, out) else (0, v)

/-- `parse_size`. -/
def parseSize (s : List U8) (out : U64) : Int × U64 :=
  if !isDigit (s.headD 0) then (-1, out)
  else
    let (v, rest, err) := strtoull s
    if err then (-1, out) else parseUnit v rest out

/-- `parse_bool`. -/
def parseBool (s : List U8) (out : Bool) : Int × Bool :=
  if sameText s (text "true") || sameText s (text "yes") || s == text "1" then (0, true)
  else if sameText s (text "false") || sameText s (text "no") || s == text "0" then (0, false)
  else (-1, out)

/-- A string without white space at both ends. -/
def trimmed (s : List U8) : List U8 := ((s.dropWhile isSpace).reverse.dropWhile isSpace).reverse

/-- A string starts and ends with one kind of quotes. -/
def inQuotes (s : List U8) : Bool :=
  decide (2 ≤ s.length) && (s.headD 0 == 0x22#8 || s.headD 0 == 0x27#8) && s.getLastD 0 == s.headD 0

/-- `strip`: without white space at both ends, and then without one pair of quotes. -/
def strip (s : List U8) : List U8 :=
  let s := trimmed s
  if inQuotes s then (s.drop 1).dropLast else s

/-- What `strip` leaves at its argument, but for white space in front: it ends the string there in place. -/
def leftByStrip (s : List U8) : List U8 :=
  let s := trimmed s
  if inQuotes s then s.dropLast else s

/-- `%u` and `%llu` of `printf`. -/
def unsignedText (n : ℕ) : List U8 := (Nat.toDigits 10 n).map fun c => BitVec.ofNat 8 c.toNat

end Ntprof
