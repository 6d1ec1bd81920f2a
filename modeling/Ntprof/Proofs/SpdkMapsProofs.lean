import Ntprof.SpdkProcs

/-!
# The text of `/proc/PID/maps`

Every line that the kernel prints for a mapping of a file is read back: its address, its offset and its path, which may
have blanks in it.
-/

namespace Ntprof.Spdk

/-! ## Hexadecimal numbers -/

/-- A number in hexadecimal digits, at least eight: `%08lx` and `%08llx`. -/
def hexText (n : ℕ) : List U8 :=
  ((Nat.toDigits 16 n).leftpad 8 '0').map fun c => BitVec.ofNat 8 c.toNat

/-- The value of hexadecimal digits behind those of `n`. -/
theorem hexVal_append (ds es : List U8) :
    hexVal (ds ++ es) = es.foldl (fun n d => 16 * n + (hexDigitVal d).getD 0) (hexVal ds) := by
  rw [hexVal, List.foldl_append]
  rfl

theorem hexDigitVal_digitChar : ∀ d < 16, hexDigitVal (BitVec.ofNat 8 (Nat.digitChar d).toNat) = some d := by decide

/-- The bytes of hexadecimal digits. -/
theorem toDigits_spec (n : ℕ) :
    (∀ c ∈ Nat.toDigits 16 n, isHex (BitVec.ofNat 8 c.toNat) = true) ∧
      hexVal ((Nat.toDigits 16 n).map fun c => BitVec.ofNat 8 c.toNat) = n := by
  induction n using Nat.strong_induction_on with
  | _ n ih =>
    by_cases hn : n < 16
    · rw [Nat.toDigits_of_lt_base hn]
      have hval := hexDigitVal_digitChar n hn
      refine ⟨fun c hc => ?_, ?_⟩
      · rw [List.mem_singleton.mp hc, isHex, hval]
        rfl
      · simp [hexVal, hval]
    · have hmod : n % 16 < 16 := Nat.mod_lt _ (by omega)
      have hval := hexDigitVal_digitChar (n % 16) hmod
      obtain ⟨hhex, hrec⟩ := ih (n / 16) (by omega)
      rw [Nat.toDigits_of_base_le (by omega) (by omega)]
      refine ⟨fun c hc => ?_, ?_⟩
      · rcases List.mem_append.mp hc with hc | hc
        · exact hhex c hc
        · rw [List.mem_singleton.mp hc, isHex, hval]
          rfl
      · rw [List.map_append, hexVal_append, hrec, List.map_singleton, List.foldl_cons, List.foldl_nil, hval,
          Option.getD_some]
        omega

theorem hexVal_zeros (k : ℕ) (ds : List U8) : hexVal (List.replicate k 0x30#8 ++ ds) = hexVal ds := by
  have hzero : hexVal (List.replicate k 0x30#8) = 0 := by
    induction k with
    | zero => rfl
    | succ k ih =>
      rw [List.replicate_succ', hexVal_append, ih]
      rfl
  rw [hexVal_append, hzero]
  rfl

theorem hexText_eq (n : ℕ) :
    hexText n = List.replicate (8 - (Nat.toDigits 16 n).length) 0x30#8 ++
      (Nat.toDigits 16 n).map fun c => BitVec.ofNat 8 c.toNat := by
  rw [hexText, List.leftpad, List.map_append, List.map_replicate]
  rfl

theorem hexVal_hexText (n : ℕ) : hexVal (hexText n) = n := by
  rw [hexText_eq, hexVal_zeros, (toDigits_spec n).2]

theorem isHex_hexText {n : ℕ} {c : U8} (h : c ∈ hexText n) : isHex c = true := by
  rw [hexText_eq, List.mem_append] at h
  rcases h with h | h
  · rw [List.eq_of_mem_replicate h]
    rfl
  · obtain ⟨d, hd, rfl⟩ := List.mem_map.mp h
    exact (toDigits_spec n).1 d hd

/-- There are at least two digits. -/
theorem hexText_cons (n : ℕ) : ∃ c d ds, hexText n = c :: d :: ds := by
  have hlen : 8 ≤ (hexText n).length := by
    rw [hexText, List.length_map, List.length_leftpad]
    exact le_max_left _ _
  rcases h : hexText n with _ | ⟨c, _ | ⟨d, ds⟩⟩
  · rw [h, List.length_nil] at hlen
    omega
  · rw [h, List.length_singleton] at hlen
    omega
  · exact ⟨c, d, ds, rfl⟩

/-- What is read for a hexadecimal digit is neither blank nor a sign, and not an `x`. -/
theorem isHex_facts : ∀ c : U8, isHex c = true → isSpace c = false ∧ c ≠ 0x2b#8 ∧ c ≠ 0x2d#8 ∧ toLower c ≠ 0x78#8 := by
  decide

/-! ## What `sscanf` reads -/

/-- Blanks before a text that does not start with one are skipped. -/
theorem dropWhile_blanks {blanks : List U8} (hb : ∀ c ∈ blanks, isSpace c = true) {c : U8} (hc : isSpace c = false)
    (rest : List U8) : (blanks ++ c :: rest).dropWhile isSpace = c :: rest := by
  rw [List.dropWhile_append_of_pos hb, List.dropWhile_cons_of_neg (by rw [hc]; exact Bool.false_ne_true)]

/-- `%llx` reads a hexadecimal number that another byte ends. -/
theorem scanHex_hexText {blanks : List U8} (hb : ∀ c ∈ blanks, isSpace c = true) (v : U64) {e : U8}
    (he : isHex e = false) (rest : List U8) :
    scanHex (blanks ++ (hexText v.toNat ++ e :: rest)) = some (v, e :: rest) := by
  have hstop : ¬ isHex e = true := by
    rw [he]
    exact Bool.false_ne_true
  have htake : (hexText v.toNat ++ e :: rest).takeWhile isHex = hexText v.toNat := by
    rw [List.takeWhile_append_of_pos fun _ h => isHex_hexText h, List.takeWhile_cons_of_neg hstop, List.append_nil]
  have hdrop : (hexText v.toNat ++ e :: rest).dropWhile isHex = e :: rest := by
    rw [List.dropWhile_append_of_pos fun _ h => isHex_hexText h, List.dropWhile_cons_of_neg hstop]
  have hval := hexVal_hexText v.toNat
  obtain ⟨c, d, ds, hcons⟩ := hexText_cons v.toNat
  have hc := isHex_facts c (isHex_hexText (n := v.toNat) (by rw [hcons]; exact List.mem_cons_self))
  have hd := isHex_facts d
    (isHex_hexText (n := v.toNat) (by rw [hcons]; exact List.mem_cons_of_mem _ List.mem_cons_self))
  have hblank : (blanks ++ (hexText v.toNat ++ e :: rest)).dropWhile isSpace = hexText v.toNat ++ e :: rest := by
    rw [hcons]
    exact dropWhile_blanks hb hc.1 _
  -- neither a sign nor `0x` is in front of the digits
  have hhead : (hexText v.toNat ++ e :: rest).headD 0 = c := by rw [hcons]; rfl
  have hsecond : ((hexText v.toNat ++ e :: rest).drop 1).headD 0 = d := by rw [hcons]; rfl
  have hplus : (c == 0x2b#8) = false := beq_eq_false_iff_ne.mpr hc.2.1
  have hminus : (c == 0x2d#8) = false := beq_eq_false_iff_ne.mpr hc.2.2.1
  have hlen : (hexText v.toNat).length ≠ 0 := by
    rw [hcons]
    exact Nat.succ_ne_zero _
  have hlt : ¬ 2 ^ 64 ≤ v.toNat := Nat.not_le.mpr v.isLt
  simp only [scanHex, hblank, hhead, hplus, hminus, Bool.or_false, Bool.false_eq_true, if_false, hsecond, hd.2.2.2,
    and_false, htake, hdrop, hval, hlen, hlt, BitVec.ofNat_toNat, BitVec.setWidth_eq]

/-- A word: not empty, and no blank in it. -/
def IsWord (w : List U8) : Prop := w ≠ [] ∧ ∀ c ∈ w, isSpace c = false

/-- `%*s` skips a word that a blank ends. -/
theorem skipWord_word {blanks : List U8} (hb : ∀ c ∈ blanks, isSpace c = true) {w : List U8} (hw : IsWord w) {e : U8}
    (he : isSpace e = true) (rest : List U8) : skipWord (blanks ++ (w ++ e :: rest)) = some (e :: rest) := by
  have hall : ∀ c ∈ w, (!isSpace c) = true := fun c hc => by rw [hw.2 c hc]; rfl
  have hstop : ¬ (!isSpace e) = true := by
    rw [he]
    exact Bool.false_ne_true
  have htake : (w ++ e :: rest).takeWhile (fun c => !isSpace c) = w := by
    rw [List.takeWhile_append_of_pos hall, List.takeWhile_cons, if_neg hstop, List.append_nil]
  have hdrop : (w ++ e :: rest).dropWhile (fun c => !isSpace c) = e :: rest := by
    rw [List.dropWhile_append_of_pos hall, List.dropWhile_cons, if_neg hstop]
  have hblank : (blanks ++ (w ++ e :: rest)).dropWhile isSpace = w ++ e :: rest := by
    obtain ⟨c, cs, hcons⟩ := List.exists_cons_of_ne_nil hw.1
    rw [hcons]
    exact dropWhile_blanks hb (hw.2 c (by rw [hcons]; exact List.mem_cons_self)) _
  have hlen : w.length ≠ 0 := fun h => hw.1 (List.eq_nil_of_length_eq_zero h)
  simp only [skipWord, hblank, htake, hdrop, hlen, if_false]

/-! ## The lines -/

/-- A line of `/proc/PID/maps`: the region, `perms`, `offset`, `dev` and `inode`, and behind `pad` more blanks the name,
which an anonymous region does not have. -/
structure Region where
  start : U64
  stop : U64
  perms : List U8
  offset : U64
  dev : List U8
  inode : List U8
  pad : ℕ
  name : List U8

/-- The line as the kernel prints it. -/
def Region.line (r : Region) : List U8 :=
  hexText r.start.toNat ++ 0x2d#8 :: (hexText r.stop.toNat ++ 0x20#8 :: (r.perms ++ 0x20#8 :: (hexText r.offset.toNat ++
    0x20#8 :: (r.dev ++ 0x20#8 :: (r.inode ++ 0x20#8 :: (List.replicate r.pad 0x20#8 ++ (r.name ++ [0x0a#8])))))))

/-- What the kernel prints: words, and a name that does not start with a blank and has no newline in it. -/
structure Region.Printed (r : Region) : Prop where
  perms : IsWord r.perms
  dev : IsWord r.dev
  inode : IsWord r.inode
  head : ∀ c cs, r.name = c :: cs → isSpace c = false
  line : ∀ c ∈ r.name, c ≠ 0x0a#8
  short : r.name.length < pathMax

/-- The mapping of a region. -/
def Region.mapping (r : Region) : Mapping := { start := r.start, offset := r.offset, path := r.name }

/-- A region of a file: its name is a path. -/
def Region.isFile (r : Region) : Bool := r.name.headD 0 = 0x2f#8

theorem one_blank : ∀ c ∈ [0x20#8], isSpace c = true := by decide

theorem no_blanks : ∀ c ∈ ([] : List U8), isSpace c = true := by
  intro c hc
  cases hc

/-- What is left of a line behind the inode. -/
theorem name_of_rest {r : Region} (h : r.Printed) :
    (((0x20#8 :: (List.replicate r.pad 0x20#8 ++ (r.name ++ [0x0a#8]))).dropWhile isSpace).takeWhile
      fun c => c ≠ 0x0a#8).take (pathMax - 1) = r.name := by
  have hblanks : ∀ c ∈ 0x20#8 :: List.replicate r.pad 0x20#8, isSpace c = true := by
    intro c hc
    rcases List.mem_cons.mp hc with rfl | hc
    · rfl
    · rw [List.eq_of_mem_replicate hc]
      rfl
  rw [← List.cons_append]
  rcases hname : r.name with _ | ⟨c, cs⟩
  · -- the newline is one more blank
    rw [List.dropWhile_append_of_pos hblanks]
    rfl
  · have hline : ∀ d ∈ c :: cs, decide (d ≠ 0x0a#8) = true := by
      intro d hd
      exact decide_eq_true (h.line d (by rw [hname]; exact hd))
    have hshort : (c :: cs).length ≤ pathMax - 1 := by
      have := h.short
      rw [hname] at this
      omega
    have hdrop := dropWhile_blanks hblanks (h.head c cs hname) (cs ++ [0x0a#8])
    rw [← List.cons_append] at hdrop
    rw [hdrop, List.takeWhile_append_of_pos hline, List.takeWhile_cons, if_neg (by decide), List.append_nil,
      List.take_of_length_le hshort]

/-- `sscanf` reads a line back. -/
theorem scanMapping_line {r : Region} (h : r.Printed) :
    scanMapping r.line = if r.name.length = 0 then none else some r.mapping := by
  have hminus : isHex 0x2d#8 = false := by decide
  have hspace : isHex 0x20#8 = false := by decide
  have hstart := scanHex_hexText no_blanks r.start hminus
  have hstop := scanHex_hexText no_blanks r.stop hspace
  have hperms := skipWord_word one_blank h.perms (e := 0x20#8) rfl
  have hoffset := scanHex_hexText one_blank r.offset hspace
  have hdev := skipWord_word one_blank h.dev (e := 0x20#8) rfl
  have hinode := skipWord_word one_blank h.inode (e := 0x20#8) rfl
  simp only [List.nil_append, List.singleton_append] at hstart hstop hperms hoffset hdev hinode
  simp only [scanMapping, Region.line, hstart, Option.bind_eq_bind, Option.bind_some, List.headD_cons, List.drop_succ_cons,
    List.drop_zero, if_true, hstop, hperms, hoffset, hdev, hinode, name_of_rest h]
  rfl

/-- The mappings of files among the regions. -/
def fileMappings (rs : List Region) : List Mapping := (rs.filter Region.isFile).map Region.mapping

/-- `maps_read` reads the regions of files, all of them and in their order. -/
theorem mapsRead_lines {rs : List Region} (h : ∀ r ∈ rs, r.Printed) :
    mapsRead (rs.map Region.line) = fileMappings rs := by
  induction rs with
  | nil => rfl
  | cons r rs ih =>
    have hrec := ih fun x hx => h x (List.mem_cons_of_mem _ hx)
    have hscan := scanMapping_line (h r List.mem_cons_self)
    rw [mapsRead, List.map_cons, fileMappings]
    by_cases hname : r.name.length = 0
    · have hfile : ¬ r.isFile = true := by
        rw [Region.isFile, List.eq_nil_of_length_eq_zero hname]
        decide
      rw [if_pos hname] at hscan
      rw [List.filterMap_cons_none hscan, List.filter_cons_of_neg hfile]
      exact hrec
    · rw [if_neg hname] at hscan
      rw [List.filterMap_cons_some hscan]
      by_cases hfile : r.isFile = true
      · have hhead : decide (r.mapping.path.headD 0 = 0x2f#8) = true := hfile
        rw [List.filter_cons_of_pos hfile, List.map_cons]
        rw [List.filter_cons, if_pos hhead]
        exact congrArg (r.mapping :: ·) hrec
      · have hhead : ¬ decide (r.mapping.path.headD 0 = 0x2f#8) = true := hfile
        rw [List.filter_cons_of_neg hfile]
        rw [List.filter_cons, if_neg hhead]
        exact hrec

end Ntprof.Spdk
