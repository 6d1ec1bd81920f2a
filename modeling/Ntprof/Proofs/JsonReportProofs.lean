import Ntprof.JsonReport
import Ntprof.Proofs.ModelProofs
import Mathlib.Data.List.TakeWhile
import Mathlib.Data.Nat.Digits.Lemmas
import Mathlib.Algebra.Order.Round

/-!
# The JSON report is JSON

The text of the report denotes an object that holds what the report is about. Its parts are built in the order in
which they are written: members and elements are added at the end of what is there.
-/

namespace Ntprof

open Json (Value Denotes Element Elements Member Members IsSpace IsText DistinctKeys quoted unescape)

/-! ## Strings -/

theorem hex4_jsonByte : ∀ c : U8, c < 0x20#8 →
    Json.hex4 (hexDigit 0) (hexDigit 0) (hexDigit (c.toNat / 16)) (hexDigit (c.toNat % 16)) = some c.toNat := by
  decide

/-- Unescaping takes one byte of a string after another. -/
theorem unescape_jsonByte (c : U8) (s : List U8) : unescape (jsonByte c ++ s) = (unescape s).map (c :: ·) := by
  by_cases hquote : c = 0x22#8 ∨ c = 0x5c#8
  · rw [jsonByte, if_pos hquote]
    rcases hquote with rfl | rfl <;> exact Json.unescape_short (by decide) rfl s
  · by_cases hcontrol : c < 0x20#8
    · have hlt : c.toNat < 0x20 := hcontrol
      have hutf : Json.utf8 c.toNat = [c] := by
        rw [Json.utf8, if_pos (by omega), BitVec.ofNat_toNat, BitVec.setWidth_eq]
      rw [jsonByte, if_neg hquote, if_pos hcontrol]
      refine (Json.unescape_code (hex4_jsonByte c hcontrol) (by omega) s).trans ?_
      rw [hutf]
      rfl
    · have hplain : ¬ (c < 0x20#8 ∨ c = 0x22#8) := by
        rintro (h | h)
        · exact hcontrol h
        · exact hquote (.inl h)
      rw [jsonByte, if_neg hquote, if_neg hcontrol]
      exact Json.unescape_plain (fun h => hquote (.inr h)) hplain s

/-- Nothing of a string is lost. -/
theorem unescape_jsonBody (s : List U8) : unescape (jsonBody s) = some (textOf s) := by
  induction s with
  | nil => rfl
  | cons c s ih =>
    rw [jsonBody]
    by_cases hc : c = 0
    · rw [if_pos hc, hc, textOf, List.takeWhile_cons_of_neg (by simp)]
      rfl
    · have htext : textOf (c :: s) = c :: textOf s := List.takeWhile_cons_of_pos (by simpa using hc)
      rw [if_neg hc, unescape_jsonByte, ih, htext]
      rfl

theorem denotes_jsonStr {s : List U8} (h : textOf s = s) : Denotes (jsonStr s) (.str s) := by
  have hbody := unescape_jsonBody s
  rw [h] at hbody
  exact .str hbody

/-- A quote that no backslash escapes. -/
def bareQuote : List U8 → Bool
  | [] => false
  | c :: s =>
    if c = 0x5c#8 then
      match s with
      | [] => false
      | _ :: s => bareQuote s
    else c == 0x22#8 || bareQuote s

theorem bareQuote_plain {c : U8} (hback : c ≠ 0x5c#8) (hquote : c ≠ 0x22#8) (s : List U8) :
    bareQuote (c :: s) = bareQuote s := by
  rw [bareQuote.eq_def]
  simp only [if_neg hback, beq_eq_false_iff_ne.mpr hquote, Bool.false_or]

theorem bareQuote_escaped (e : U8) (s : List U8) : bareQuote (0x5c#8 :: e :: s) = bareQuote s := by
  rw [bareQuote.eq_def]
  simp only [if_true]

theorem hexDigit_plain : ∀ n < 16, hexDigit n ≠ 0x5c#8 ∧ hexDigit n ≠ 0x22#8 ∧ 0x20#8 ≤ hexDigit n := by decide

theorem bareQuote_jsonByte (c : U8) (s : List U8) : bareQuote (jsonByte c ++ s) = bareQuote s := by
  by_cases hquote : c = 0x22#8 ∨ c = 0x5c#8
  · rw [jsonByte, if_pos hquote]
    exact bareQuote_escaped c s
  · by_cases hcontrol : c < 0x20#8
    · have hlt : c.toNat < 0x20 := hcontrol
      have hzero := hexDigit_plain 0 (by omega)
      have hhi := hexDigit_plain (c.toNat / 16) (by omega)
      have hlo := hexDigit_plain (c.toNat % 16) (by omega)
      rw [jsonByte, if_neg hquote, if_pos hcontrol]
      refine (bareQuote_escaped _ _).trans ?_
      show bareQuote (hexDigit 0 :: hexDigit 0 :: hexDigit (c.toNat / 16) :: hexDigit (c.toNat % 16) :: s) = _
      rw [bareQuote_plain hzero.1 hzero.2.1, bareQuote_plain hzero.1 hzero.2.1, bareQuote_plain hhi.1 hhi.2.1,
        bareQuote_plain hlo.1 hlo.2.1]
    · rw [jsonByte, if_neg hquote, if_neg hcontrol]
      exact bareQuote_plain (fun h => hquote (.inr h)) (fun h => hquote (.inl h)) s

theorem bareQuote_jsonBody (s : List U8) : bareQuote (jsonBody s) = false := by
  induction s with
  | nil => rfl
  | cons c s ih =>
    rw [jsonBody]
    split_ifs
    · rfl
    · rw [bareQuote_jsonByte, ih]

theorem le_of_mem_jsonByte {c x : U8} (h : x ∈ jsonByte c) : 0x20#8 ≤ x := by
  unfold jsonByte at h
  split_ifs at h with hquote hcontrol
  · simp only [List.mem_cons, List.not_mem_nil, or_false] at h
    rcases hquote with rfl | rfl <;> rcases h with rfl | rfl <;> decide
  · have hlt : c.toNat < 0x20 := hcontrol
    rcases List.mem_append.mp h with h | h
    · have hescape : ∀ y ∈ text "\\u", 0x20#8 ≤ y := by decide
      exact hescape x h
    · simp only [List.mem_cons, List.not_mem_nil, or_false] at h
      rcases h with rfl | rfl | rfl | rfl
      · exact (hexDigit_plain 0 (by omega)).2.2
      · exact (hexDigit_plain 0 (by omega)).2.2
      · exact (hexDigit_plain _ (by omega)).2.2
      · exact (hexDigit_plain _ (by omega)).2.2
  · rw [List.mem_singleton.mp h]
    exact BitVec.not_lt.mp hcontrol

theorem le_of_mem_jsonBody {s : List U8} {x : U8} (h : x ∈ jsonBody s) : 0x20#8 ≤ x := by
  induction s with
  | nil => exact absurd h List.not_mem_nil
  | cons c s ih =>
    rw [jsonBody] at h
    split_ifs at h
    · exact absurd h List.not_mem_nil
    · rcases List.mem_append.mp h with h | h
      · exact le_of_mem_jsonByte h
      · exact ih h

/-! ## Members and loops -/

/-- A value with white space before it. -/
theorem element_after {w t : List U8} {v : Value} (hw : IsSpace w) (h : Denotes t v) : Element (w ++ t) v := by
  have h' : Element (w ++ (t ++ [])) v := .mk hw h (by decide)
  rwa [List.append_nil] at h'

/-- A character of the source that is the same with and without escapes. -/
def plainChar (c : Char) : Bool := decide (0x20 ≤ c.toNat) && decide (c.toNat < 0x80) && c != '"' && c != '\\'

theorem plain_ofList {l : List Char} (h : l.all plainChar) : (String.ofList l).toList.all plainChar := by
  rw [String.toList_ofList]
  exact h

theorem plain_text {s : String} (h : s.toList.all plainChar) : Json.Plain (text s) := by
  intro x hx
  obtain ⟨c, hc, rfl⟩ := List.mem_map.mp hx
  have hplain := List.all_eq_true.mp h c hc
  simp only [plainChar, Bool.and_eq_true, decide_eq_true_eq, bne_iff_ne] at hplain
  obtain ⟨⟨⟨hlow, hhigh⟩, hquote⟩, hback⟩ := hplain
  have hnat : (BitVec.ofNat 8 c.toNat).toNat = c.toNat := by
    rw [BitVec.toNat_ofNat]
    omega
  have hne : ∀ d : Char, c ≠ d → BitVec.ofNat 8 c.toNat = BitVec.ofNat 8 d.toNat → ¬ d.toNat < 0x80 := by
    intro d hd heq hlt
    have hval := congrArg BitVec.toNat heq
    rw [hnat, BitVec.toNat_ofNat, Nat.mod_eq_of_lt (by omega)] at hval
    exact hd (Char.toNat_inj.mp hval)
  refine ⟨?_, fun h => hne '"' hquote h (by decide), fun h => hne '\\' hback h (by decide)⟩
  rw [BitVec.le_def, hnat]
  exact hlow

/-- A member as the report writes it: a key in quotes, a colon, one space, and the value. -/
theorem member_of {w key t : List U8} {v : Value} (hw : IsSpace w) (hkey : Json.Plain key) (h : Denotes t v) :
    Member (w ++ (quoted key ++ 0x3a#8 :: 0x20#8 :: t)) (key, v) := by
  have h' : Element ([0x20#8] ++ t) v := element_after (by decide) h
  rw [List.singleton_append] at h'
  exact .mk hw hkey.unescape (by decide : IsSpace []) h'

theorem member_key (w : List U8) (key : String) {t : List U8} {v : Value} (hw : IsSpace w)
    (hkey : key.toList.all plainChar) (h : Denotes t v) :
    Member (w ++ (quoted (text key) ++ 0x3a#8 :: 0x20#8 :: t)) (text key, v) := member_of hw (plain_text hkey) h

theorem space_nil : IsSpace [] := by decide

theorem space_one : IsSpace [0x20#8] := by decide

variable {α : Type}

/-- Members that are written one after another, each with its comma. -/
theorem members_flatMap {write : α → List U8} {member : α → List U8 × Value} {ts : List U8}
    {ms : List (List U8 × Value)} (hm : Members ts ms) (as : List α) (h : ∀ a ∈ as, Member (write a) (member a)) :
    Members (ts ++ as.flatMap fun a => 0x2c#8 :: write a) (ms ++ as.map member) := by
  induction as generalizing ts ms with
  | nil =>
    rw [List.flatMap_nil, List.map_nil, List.append_nil, List.append_nil]
    exact hm
  | cons a as ih =>
    obtain ⟨ha, has⟩ := List.forall_mem_cons.mp h
    have hrest := ih (.snoc hm ha) has
    rw [List.append_assoc, List.append_assoc] at hrest
    exact hrest

/-- Those of `as` that a loop writes. -/
def kept (write : α → Option (List U8)) (as : List α) : List α := as.filter fun a => (write a).isSome

section Loop

variable {write : α → Option (List U8)} {a : α} {t : List U8}

theorem kept_cons_none (h : write a = none) (as : List α) : kept write (a :: as) = kept write as :=
  List.filter_cons_of_neg (by rw [h]; decide)

theorem kept_cons_some (h : write a = some t) (as : List α) : kept write (a :: as) = a :: kept write as :=
  List.filter_cons_of_pos (by rw [h]; rfl)

theorem jsonLoop_cons_none (h : write a = none) (first : Bool) (as : List α) :
    jsonLoop write first (a :: as) = jsonLoop write first as := by
  rw [jsonLoop, h]

theorem jsonLoop_cons_first (h : write a = some t) (as : List α) :
    jsonLoop write true (a :: as) = t ++ jsonLoop write false as := by
  rw [jsonLoop, h]
  rfl

theorem jsonLoop_cons_next (h : write a = some t) (as : List α) :
    jsonLoop write false (a :: as) = 0x2c#8 :: (t ++ jsonLoop write false as) := by
  rw [jsonLoop, h]
  rfl

end Loop

theorem members_jsonLoop {write : α → Option (List U8)} {member : α → List U8 × Value}
    (h : ∀ a t, write a = some t → Member t (member a)) {ts : List U8} {ms : List (List U8 × Value)}
    (hm : Members ts ms) (as : List α) :
    Members (ts ++ jsonLoop write false as) (ms ++ (kept write as).map member) := by
  induction as generalizing ts ms with
  | nil =>
    rw [jsonLoop, kept, List.filter_nil, List.map_nil, List.append_nil, List.append_nil]
    exact hm
  | cons a as ih =>
    cases ha : write a with
    | none =>
      rw [jsonLoop_cons_none ha, kept_cons_none ha]
      exact ih hm
    | some t =>
      have hrest := ih (.snoc hm (h a t ha))
      rw [List.append_assoc, List.append_assoc] at hrest
      rw [jsonLoop_cons_next ha, kept_cons_some ha]
      exact hrest

/-- An object that a loop writes, however many members it skips. -/
theorem denotes_obj_jsonLoop {write : α → Option (List U8)} {member : α → List U8 × Value}
    (h : ∀ a t, write a = some t → Member t (member a)) (as : List α) :
    Denotes (0x7b#8 :: (jsonLoop write true as ++ [0x7d#8])) (.obj ((kept write as).map member)) := by
  induction as with
  | nil => exact .objEmpty (by decide : IsSpace [])
  | cons a as ih =>
    cases ha : write a with
    | none =>
      rw [jsonLoop_cons_none ha, kept_cons_none ha]
      exact ih
    | some t =>
      rw [jsonLoop_cons_first ha, kept_cons_some ha]
      exact .obj (members_jsonLoop h (.one (h a t ha)) as)

theorem elements_jsonLoop {write : α → List U8} {value : α → Value} (h : ∀ a, Element (write a) (value a))
    {ts : List U8} {vs : List Value} (hv : Elements ts vs) (as : List α) :
    Elements (ts ++ jsonLoop (fun a => some (write a)) false as) (vs ++ as.map value) := by
  induction as generalizing ts vs with
  | nil =>
    simp only [jsonLoop, List.map_nil, List.append_nil]
    exact hv
  | cons a as ih =>
    have hrest := ih (.snoc hv (h a))
    rw [List.append_assoc, List.append_assoc] at hrest
    exact hrest

/-- An array that a loop writes, with white space before its end. -/
theorem denotes_arr_jsonLoop {write : α → List U8} {value : α → Value} (h : ∀ a, Element (write a) (value a))
    (as : List α) {w : List U8} (hw : IsSpace w) :
    Denotes (0x5b#8 :: (jsonLoop (fun a => some (write a)) true as ++ w ++ [0x5d#8])) (.arr (as.map value)) := by
  cases as with
  | nil => exact .arrEmpty hw
  | cons a as => exact .arr ((elements_jsonLoop h (.one (h a)) as).space hw)

/-! ## What the report denotes -/

variable (P : Printf)

/-- The members of a summary. -/
def summaryMembers (m : Summary) : List (List U8 × Value) :=
  [(text "n", .num (P.unsigned m.n)), (text "mean_ns", .num (P.fixed 1 m.mean)),
    (text "min_ns", .num (P.signed m.min.toInt)), (text "max_ns", .num (P.signed m.max.toInt))] ++
    ntpQuantileNames.zipIdx.map fun p => (text p.1 ++ text "_ns", .num (P.signed (m.q.getD p.2 0).toInt))

/-- The members of a component. -/
def compMembers (rate : ℚ) (c : Comp) (m : Summary) : List (List U8 × Value) :=
  [(text "stage", .str (text (ntpComps c).stage)), (text "description", .str (text (ntpComps c).desc)),
    (text "occupancy", .num (P.fixed 3 (rate * m.mean / 1000000000))), (text "summary", .obj (summaryMembers P m))]

/-- A component of a group. -/
def compMember (rate : ℚ) (g : Group) (c : Comp) : List U8 × Value :=
  (text (ntpComps c).name, .obj (compMembers P rate c (ntpSummarize (g.comp c)).2))

/-- A stage or a queue length of a group. -/
def samplesMember (name : String) (v : List S64) : List U8 × Value :=
  (text name, .obj (summaryMembers P (ntpSummarize v).2))

/-- The members of a group. -/
def groupMembers (s : Stats) (g : Group) : List (List U8 × Value) :=
  [(text "type",
      .str (if g.key.isWrite < 0 then text "any" else if g.key.isWrite ≠ 0 then text "write" else text "read")),
    (text "bytes", .num (P.unsigned g.key.bytes.toNat)), (text "session", .str (cString g.key.session)),
    (text "records", .num (P.unsigned g.records)), (text "joined", .num (P.unsigned g.joined)),
    (text "incomplete_host", .num (P.unsigned g.badHost)), (text "incomplete_target", .num (P.unsigned g.badTarget)),
    (text "post_estimated", .num (P.unsigned g.postEstimated)),
    (text "rate_per_s", .num (P.fixed 1 (ntpGroupRate s g))),
    (text "components", .obj ((kept (jsonComp P (ntpGroupRate s g) g) Comp.all).map
      (compMember P (ntpGroupRate s g) g))),
    (text "stages", .obj ((kept (fun st => jsonSamples P (ntpStageKeys st) (g.stage st)) Stage.all).map
      fun st => samplesMember P (ntpStageKeys st) (g.stage st))),
    (text "queues", .obj ((kept (fun q => jsonSamples P (ntpQueueNames q) (g.queue q)) QueueMetric.all).map
      fun q => samplesMember P (ntpQueueNames q) (g.queue q)))]

/-- What the report says about the run. -/
def metaMembers (hdr : FileHeader) : List (List U8 × Value) :=
  [(text "host", .str (cString hdr.hostname)), (text "kernel", .str (cString hdr.kernel)),
    (text "sample_every", .num (P.unsigned hdr.sampleEvery.toNat)),
    (text "start_realtime_ns", .num (P.unsigned hdr.startRealNs.toNat))]

/-- What the report says about the throughput. -/
def tputMember (t : Tput) : List U8 × Value :=
  (text "throughput",
    .obj [(text "seconds", .num (P.fixed 3 t.seconds)), (text "read_ios", .num (P.unsigned t.readIos.toNat)),
      (text "read_bytes", .num (P.unsigned t.readBytes.toNat)), (text "write_ios", .num (P.unsigned t.writeIos.toNat)),
      (text "write_bytes", .num (P.unsigned t.writeBytes.toNat)), (text "estimated", .bool t.estimated)])

/-- The members of the report. -/
def reportMembers (s : Stats) (hdr : Option FileHeader) (tput : Option Tput) : List (List U8 × Value) :=
  [(text "tool", .str (text "ntprof"))] ++ hdr.elim [] (metaMembers P) ++ tput.toList.map (tputMember P) ++
    [(text "groups", .arr (s.groups.map fun g => .obj (groupMembers P s g)))]

/-! ## Summaries -/

theorem denotes_unsigned (n : ℕ) : Denotes (P.unsigned n) (.num (P.unsigned n)) := .num (P.unsigned_number n)

theorem denotes_signed (z : ℤ) : Denotes (P.signed z) (.num (P.signed z)) := .num (P.signed_number z)

theorem denotes_fixed (digits : ℕ) (x : ℚ) : Denotes (P.fixed digits x) (.num (P.fixed digits x)) :=
  .num (P.fixed_number digits x)

theorem plain_quantileNames : ∀ p ∈ ntpQuantileNames.zipIdx, p.1.toList.all plainChar := by decide

theorem denotes_jsonSummary (m : Summary) : Denotes (jsonSummary P m) (.obj (summaryMembers P m)) := by
  have hn := member_key [] "n" space_nil (plain_ofList rfl) (denotes_unsigned P m.n)
  have hmean := member_key [0x20#8] "mean_ns" space_one (plain_ofList rfl) (denotes_fixed P 1 m.mean)
  have hmin := member_key [0x20#8] "min_ns" space_one (plain_ofList rfl) (denotes_signed P m.min.toInt)
  have hmax := member_key [0x20#8] "max_ns" space_one (plain_ofList rfl) (denotes_signed P m.max.toInt)
  have hq : ∀ p ∈ ntpQuantileNames.zipIdx,
      Member ([0x20#8] ++ (quoted (text p.1 ++ text "_ns") ++ 0x3a#8 :: 0x20#8 :: P.signed (m.q.getD p.2 0).toInt))
        (text p.1 ++ text "_ns", .num (P.signed (m.q.getD p.2 0).toInt)) := by
    intro p hp
    have hkey : Json.Plain (text p.1 ++ text "_ns") :=
      (plain_text (plain_quantileNames p hp)).append (plain_text (by decide))
    exact member_of space_one hkey (denotes_signed P _)
  have hall := Denotes.obj (members_flatMap (.snoc (.snoc (.snoc (.one hn) hmean) hmin) hmax) _ hq)
  have hloop : (fun p : String × ℕ => text ", \"" ++ text p.1 ++ text "_ns\": " ++ P.signed (m.q.getD p.2 0).toInt) =
      fun p => 0x2c#8 :: ([0x20#8] ++ (quoted (text p.1 ++ text "_ns") ++
        0x3a#8 :: 0x20#8 :: P.signed (m.q.getD p.2 0).toInt)) := by
    funext p
    simp only [quoted, List.append_assoc, List.cons_append]
    rfl
  have htext : jsonSummary P m = text "\x7b\"n\": " ++ P.unsigned m.n ++ text ", \"mean_ns\": " ++
      P.fixed 1 m.mean ++ text ", \"min_ns\": " ++ P.signed m.min.toInt ++ text ", \"max_ns\": " ++
      P.signed m.max.toInt ++ (ntpQuantileNames.zipIdx.flatMap fun p =>
        text ", \"" ++ text p.1 ++ text "_ns\": " ++ P.signed (m.q.getD p.2 0).toInt) ++ text "\x7d" := rfl
  rw [htext, hloop]
  simp only [quoted, List.append_assoc, List.cons_append, List.nil_append] at hall ⊢
  exact hall

/-! ## Components, stages and queue lengths -/

/-- A text of the source holds no byte 0. -/
theorem textOf_text {s : String} (h : s.toList.all plainChar) : textOf (text s) = text s := by
  refine List.takeWhile_eq_self_iff.mpr fun c hc => ?_
  have hle := (plain_text h c hc).1
  rw [decide_eq_true_eq]
  rintro rfl
  exact absurd hle (by decide)

theorem plain_ntpComps (c : Comp) : (ntpComps c).name.toList.all plainChar ∧ (ntpComps c).stage.toList.all plainChar ∧
    (ntpComps c).desc.toList.all plainChar := by
  cases c <;> exact ⟨plain_ofList rfl, plain_ofList rfl, plain_ofList rfl⟩

theorem denotes_comp (rate : ℚ) (c : Comp) (m : Summary) :
    Denotes (text "\x7b\"stage\": \"" ++ text (ntpComps c).stage ++ text "\", \"description\": " ++
      jsonStr (text (ntpComps c).desc) ++ text ", \"occupancy\": " ++ P.fixed 3 (rate * m.mean / 1000000000) ++
      text ", \"summary\": " ++ jsonSummary P m ++ text "\x7d") (.obj (compMembers P rate c m)) := by
  obtain ⟨-, hplain, hdesc⟩ := plain_ntpComps c
  have hstage := member_key [] "stage" space_nil (plain_ofList rfl) (.str (plain_text hplain).unescape)
  have hdescription := member_key [0x20#8] "description" space_one (plain_ofList rfl) (denotes_jsonStr (textOf_text hdesc))
  have hoccupancy := member_key [0x20#8] "occupancy" space_one (plain_ofList rfl)
    (denotes_fixed P 3 (rate * m.mean / 1000000000))
  have hsummary := member_key [0x20#8] "summary" space_one (plain_ofList rfl) (denotes_jsonSummary P m)
  have hobj := Denotes.obj (.snoc (.snoc (.snoc (.one hstage) hdescription) hoccupancy) hsummary)
  simp only [quoted, List.append_assoc, List.cons_append, List.nil_append] at hobj ⊢
  exact hobj

/-- A member in a line of its own. -/
theorem member_line {name : String} {t : List U8} {v : Value} (hname : name.toList.all plainChar) (h : Denotes t v) :
    Member (text "\n       \"" ++ text name ++ text "\": " ++ t) (text name, v) := by
  have hm := member_key (text "\n       ") name (by decide) hname h
  simp only [quoted, List.append_assoc, List.cons_append, List.nil_append] at hm ⊢
  exact hm

theorem member_jsonComp (rate : ℚ) (g : Group) (c : Comp) (t : List U8) (h : jsonComp P rate g c = some t) :
    Member t (compMember P rate g c) := by
  simp only [jsonComp] at h
  split_ifs at h
  obtain rfl := Option.some.inj h
  have hm := member_line (plain_ntpComps c).1 (denotes_comp P rate c (ntpSummarize (g.comp c)).2)
  simp only [List.append_assoc] at hm ⊢
  exact hm

theorem member_jsonSamples {name : String} (v : List S64) (hname : name.toList.all plainChar) (t : List U8)
    (h : jsonSamples P name v = some t) : Member t (samplesMember P name v) := by
  simp only [jsonSamples] at h
  split_ifs at h
  obtain rfl := Option.some.inj h
  exact member_line hname (denotes_jsonSummary P _)

theorem plain_ntpStageKeys (st : Stage) : (ntpStageKeys st).toList.all plainChar := by
  cases st <;> exact plain_ofList rfl

theorem plain_ntpQueueNames (q : QueueMetric) : (ntpQueueNames q).toList.all plainChar := by
  cases q <;> exact plain_ofList rfl

/-! ## Groups -/

theorem textOf_cString {n : ℕ} (buf : Vector U8 n) : textOf (cString buf) = cString buf := List.takeWhile_idem

/-- The first members of a group, without the space before the first one. -/
theorem members_key (g : Group) :
    Members (text "\"type\": " ++ jsonStr (if g.key.isWrite < 0 then text "any"
        else if g.key.isWrite ≠ 0 then text "write" else text "read") ++ text ", \"bytes\": " ++
        P.unsigned g.key.bytes.toNat ++ text ", \"session\": " ++ jsonStr (cString g.key.session))
      [(text "type", .str (if g.key.isWrite < 0 then text "any"
        else if g.key.isWrite ≠ 0 then text "write" else text "read")),
        (text "bytes", .num (P.unsigned g.key.bytes.toNat)), (text "session", .str (cString g.key.session))] := by
  have hname : textOf (if g.key.isWrite < 0 then text "any" else if g.key.isWrite ≠ 0 then text "write"
      else text "read") = if g.key.isWrite < 0 then text "any" else if g.key.isWrite ≠ 0 then text "write"
      else text "read" := by
    split_ifs <;> exact textOf_text rfl
  have htype := member_key [] "type" space_nil (plain_ofList rfl) (denotes_jsonStr hname)
  have hbytes := member_key [0x20#8] "bytes" space_one (plain_ofList rfl) (denotes_unsigned P g.key.bytes.toNat)
  have hsession := member_key [0x20#8] "session" space_one (plain_ofList rfl) (denotes_jsonStr (textOf_cString g.key.session))
  have hm := Members.snoc (.snoc (.one htype) hbytes) hsession
  simp only [quoted, List.append_assoc, List.cons_append, List.nil_append] at hm ⊢
  exact hm

/-- The counts of a group. -/
theorem members_counts (s : Stats) (g : Group) {ts : List U8} {ms : List (List U8 × Value)} (h : Members ts ms) :
    Members (ts ++ (text ", \"records\": " ++ P.unsigned g.records ++ text ", \"joined\": " ++ P.unsigned g.joined ++
        text ", \"incomplete_host\": " ++ P.unsigned g.badHost ++ text ", \"incomplete_target\": " ++
        P.unsigned g.badTarget ++ text ", \"post_estimated\": " ++ P.unsigned g.postEstimated ++
        text ", \"rate_per_s\": " ++ P.fixed 1 (ntpGroupRate s g)))
      (ms ++ [(text "records", .num (P.unsigned g.records)), (text "joined", .num (P.unsigned g.joined)),
        (text "incomplete_host", .num (P.unsigned g.badHost)),
        (text "incomplete_target", .num (P.unsigned g.badTarget)),
        (text "post_estimated", .num (P.unsigned g.postEstimated)),
        (text "rate_per_s", .num (P.fixed 1 (ntpGroupRate s g)))]) := by
  have hrecords := member_key [0x20#8] "records" space_one (plain_ofList rfl) (denotes_unsigned P g.records)
  have hjoined := member_key [0x20#8] "joined" space_one (plain_ofList rfl) (denotes_unsigned P g.joined)
  have hhost := member_key [0x20#8] "incomplete_host" space_one (plain_ofList rfl) (denotes_unsigned P g.badHost)
  have htarget := member_key [0x20#8] "incomplete_target" space_one (plain_ofList rfl) (denotes_unsigned P g.badTarget)
  have hposted := member_key [0x20#8] "post_estimated" space_one (plain_ofList rfl) (denotes_unsigned P g.postEstimated)
  have hrate := member_key [0x20#8] "rate_per_s" space_one (plain_ofList rfl) (denotes_fixed P 1 (ntpGroupRate s g))
  have hm := Members.snoc (.snoc (.snoc (.snoc (.snoc (.snoc h hrecords) hjoined) hhost) htarget) hposted) hrate
  simp only [quoted, List.append_assoc, List.cons_append, List.nil_append] at hm ⊢
  exact hm

/-- The three objects of a group. -/
theorem members_objects (rate : ℚ) (g : Group) {ts : List U8} {ms : List (List U8 × Value)} (h : Members ts ms) :
    Members (ts ++ (text ",\n     \"components\": \x7b" ++ jsonLoop (jsonComp P rate g) true Comp.all ++
        text "\x7d,\n     \"stages\": \x7b" ++
        jsonLoop (fun st => jsonSamples P (ntpStageKeys st) (g.stage st)) true Stage.all ++
        text "\x7d,\n     \"queues\": \x7b" ++
        jsonLoop (fun q => jsonSamples P (ntpQueueNames q) (g.queue q)) true QueueMetric.all ++ text "\x7d"))
      (ms ++ [(text "components", .obj ((kept (jsonComp P rate g) Comp.all).map (compMember P rate g))),
        (text "stages", .obj ((kept (fun st => jsonSamples P (ntpStageKeys st) (g.stage st)) Stage.all).map
          fun st => samplesMember P (ntpStageKeys st) (g.stage st))),
        (text "queues", .obj ((kept (fun q => jsonSamples P (ntpQueueNames q) (g.queue q)) QueueMetric.all).map
          fun q => samplesMember P (ntpQueueNames q) (g.queue q)))]) := by
  have hspace : IsSpace (text "\n     ") := by decide
  have hcomps := member_key (text "\n     ") "components" hspace (plain_ofList rfl)
    (denotes_obj_jsonLoop (member_jsonComp P rate g) Comp.all)
  have hstages := member_key (text "\n     ") "stages" hspace (plain_ofList rfl)
    (denotes_obj_jsonLoop (fun st => member_jsonSamples P (g.stage st) (plain_ntpStageKeys st)) Stage.all)
  have hqueues := member_key (text "\n     ") "queues" hspace (plain_ofList rfl)
    (denotes_obj_jsonLoop (fun q => member_jsonSamples P (g.queue q) (plain_ntpQueueNames q)) QueueMetric.all)
  have hm := Members.snoc (.snoc (.snoc h hcomps) hstages) hqueues
  simp only [quoted, List.append_assoc, List.cons_append, List.nil_append] at hm ⊢
  exact hm

theorem element_jsonGroup (s : Stats) (g : Group) : Element (jsonGroup P s g) (.obj (groupMembers P s g)) := by
  have hopen : text "\n    \x7b\"type\": " = text "\n    " ++ 0x7b#8 :: text "\"type\": " := rfl
  have hclose : text "\x7d\x7d" = text "\x7d" ++ [0x7d#8] := rfl
  have hobj := Denotes.obj (members_objects P (ntpGroupRate s g) g (members_counts P s g (members_key P g)))
  have helement := element_after (by decide : IsSpace (text "\n    ")) hobj
  delta jsonGroup
  simp only [hopen, hclose, List.append_assoc, List.cons_append] at helement ⊢
  exact helement

/-! ## The whole report -/

/-- What the report says about the run, and the comma and the newline after it. -/
theorem members_meta (hdr : FileHeader) {ts : List U8} {ms : List (List U8 × Value)} (h : Members ts ms) :
    ∃ ts', Members ts' (ms ++ metaMembers P hdr) ∧
      ts ++ (text ",\n" ++ jsonMeta P hdr) = ts' ++ text ",\n" := by
  have hspace : IsSpace (text "\n  ") := by decide
  have hhost := member_key (text "\n  ") "host" hspace (plain_ofList rfl) (denotes_jsonStr (textOf_cString hdr.hostname))
  have hkernel := member_key (text "\n  ") "kernel" hspace (plain_ofList rfl) (denotes_jsonStr (textOf_cString hdr.kernel))
  have hevery := member_key (text "\n  ") "sample_every" hspace (plain_ofList rfl)
    (denotes_unsigned P hdr.sampleEvery.toNat)
  have hstart := member_key (text "\n  ") "start_realtime_ns" hspace (plain_ofList rfl)
    (denotes_unsigned P hdr.startRealNs.toNat)
  have hm := Members.snoc (.snoc (.snoc (.snoc h hhost) hkernel) hevery) hstart
  simp only [List.append_assoc, List.cons_append, List.nil_append] at hm
  refine ⟨_, hm, ?_⟩
  simp only [jsonMeta, quoted, List.append_assoc, List.cons_append]
  rfl

theorem denotes_bool (b : Bool) : Denotes (if b then text "true" else text "false") (.bool b) := by
  cases b with
  | true => exact .true
  | false => exact .false

/-- What the report says about the throughput, and the comma and the newline after it. -/
theorem members_tput (t : Tput) {ts : List U8} {ms : List (List U8 × Value)} (h : Members ts ms) :
    ∃ ts', Members ts' (ms ++ [tputMember P t]) ∧ ts ++ (text ",\n" ++ jsonTput P t) = ts' ++ text ",\n" := by
  have hseconds := member_key [] "seconds" space_nil (plain_ofList rfl) (denotes_fixed P 3 t.seconds)
  have hreads := member_key [0x20#8] "read_ios" space_one (plain_ofList rfl) (denotes_unsigned P t.readIos.toNat)
  have hread := member_key [0x20#8] "read_bytes" space_one (plain_ofList rfl) (denotes_unsigned P t.readBytes.toNat)
  have hwrites := member_key [0x20#8] "write_ios" space_one (plain_ofList rfl) (denotes_unsigned P t.writeIos.toNat)
  have hwrite := member_key [0x20#8] "write_bytes" space_one (plain_ofList rfl) (denotes_unsigned P t.writeBytes.toNat)
  have hestimated := member_key [0x20#8] "estimated" space_one (plain_ofList rfl) (denotes_bool t.estimated)
  have hobj := Denotes.obj
    (.snoc (.snoc (.snoc (.snoc (.snoc (.one hseconds) hreads) hread) hwrites) hwrite) hestimated)
  have htput := member_key (text "\n  ") "throughput" (by decide) (plain_ofList rfl) hobj
  refine ⟨_, .snoc h htput, ?_⟩
  simp only [jsonTput, quoted, List.append_assoc, List.cons_append]
  rfl

/-- The report is one object, with all that it is about. -/
theorem isText_jsonText (s : Stats) (hdr : Option FileHeader) (tput : Option Tput) :
    IsText (jsonText P s hdr tput) (.obj (reportMembers P s hdr tput)) := by
  have htool := Members.one (member_key (text "\n  ") "tool" (by decide) (plain_ofList rfl)
    (denotes_jsonStr (textOf_text (plain_ofList rfl : "ntprof".toList.all plainChar))))
  -- The optional parts: each one leaves a comma and a newline behind it.
  obtain ⟨ts₁, hm₁, ht₁⟩ : ∃ ts', Members ts' ([(text "tool", .str (text "ntprof"))] ++ hdr.elim [] (metaMembers P)) ∧
      text "\n  \"tool\": \"ntprof\",\n" ++ hdr.elim [] (jsonMeta P) = ts' ++ text ",\n" := by
    cases hdr with
    | none => exact ⟨_, htool, rfl⟩
    | some hdr => exact members_meta P hdr htool
  obtain ⟨ts₂, hm₂, ht₂⟩ : ∃ ts', Members ts' ([(text "tool", .str (text "ntprof"))] ++
      hdr.elim [] (metaMembers P) ++ tput.toList.map (tputMember P)) ∧
      ts₁ ++ (text ",\n" ++ tput.elim [] (jsonTput P)) = ts' ++ text ",\n" := by
    cases tput with
    | none => exact ⟨ts₁, by rw [Option.toList_none, List.map_nil, List.append_nil]; exact hm₁, rfl⟩
    | some t => exact members_tput P t hm₁
  have hgroups := member_key (text "\n  ") "groups" (by decide) (plain_ofList rfl)
    (denotes_arr_jsonLoop (fun g => element_jsonGroup P s g) s.groups (by decide : IsSpace (text "\n  ")))
  have hobj := Denotes.obj ((Members.snoc hm₂ hgroups).space (by decide : IsSpace (text "\n")))
  have htext := Element.mk space_nil hobj (by decide : IsSpace (text "\n"))
  have hjoin : jsonText P s hdr tput = 0x7b#8 :: ((ts₂ ++ text ",\n") ++ (text "  \"groups\": [" ++
      (jsonLoop (fun g => some (jsonGroup P s g)) true s.groups ++ text "\n  ]\n\x7d\n"))) := by
    rw [← ht₂, ← List.append_assoc ts₁, ← ht₁]
    simp only [jsonText, List.append_assoc]
    rfl
  rw [hjoin]
  simp only [reportMembers, quoted, List.append_assoc, List.cons_append, List.nil_append] at htext ⊢
  exact htext

/-! ## No key twice -/

theorem chars_text {s : String} (h : s.toList.all plainChar) :
    (text s).map (fun b => Char.ofNat b.toNat) = s.toList := by
  rw [text, List.map_map]
  refine (List.map_congr_left fun c hc => ?_).trans (List.map_id _)
  have hplain := List.all_eq_true.mp h c hc
  simp only [plainChar, Bool.and_eq_true, decide_eq_true_eq] at hplain
  show Char.ofNat (BitVec.ofNat 8 c.toNat).toNat = c
  rw [BitVec.toNat_ofNat, Nat.mod_eq_of_lt (by omega), Char.ofNat_toNat]

theorem nodup_text {names : List String} (hplain : ∀ s ∈ names, s.toList.all plainChar) (h : names.Nodup) :
    (names.map text).Nodup := by
  refine List.Nodup.map_on (fun s hs t ht heq => ?_) h
  have hchars := congrArg (List.map fun b : U8 => Char.ofNat b.toNat) heq
  rw [chars_text (hplain s hs), chars_text (hplain t ht)] at hchars
  exact String.toList_inj.mp hchars

/-- An object with the keys `names`. -/
theorem distinctKeys_obj {ms : List (List U8 × Value)} (names : List String) (hkeys : ms.map Prod.fst = names.map text)
    (hplain : ∀ s ∈ names, s.toList.all plainChar) (hnodup : names.Nodup) (h : ∀ m ∈ ms, DistinctKeys m.2) :
    DistinctKeys (.obj ms) := by
  refine .obj ?_ h
  rw [hkeys]
  exact nodup_text hplain hnodup

/-- What a loop skips does not matter. -/
theorem distinctKeys_kept {name : α → String} {value : α → Value} (write : α → Option (List U8)) (as : List α)
    (hplain : ∀ a, (name a).toList.all plainChar) (hnodup : (as.map name).Nodup) (h : ∀ a, DistinctKeys (value a)) :
    DistinctKeys (.obj ((kept write as).map fun a => (text (name a), value a))) := by
  refine distinctKeys_obj ((kept write as).map name) ?_ ?_ ?_ ?_
  · rw [List.map_map, List.map_map]
    rfl
  · intro s hs
    obtain ⟨a, -, rfl⟩ := List.mem_map.mp hs
    exact hplain a
  · exact hnodup.sublist (List.filter_sublist.map name)
  · intro m hm
    obtain ⟨a, -, rfl⟩ := List.mem_map.mp hm
    exact h a

theorem distinctKeys_summary (m : Summary) : DistinctKeys (.obj (summaryMembers P m)) := by
  refine distinctKeys_obj ["n", "mean_ns", "min_ns", "max_ns", "p10_ns", "p50_ns", "p70_ns", "p80_ns", "p90_ns",
    "p95_ns", "p99_ns", "p99.9_ns"] rfl (by decide) (by simp) ?_
  intro x hx
  rcases List.mem_append.mp hx with hx | hx
  · simp only [List.mem_cons, List.not_mem_nil, or_false] at hx
    rcases hx with rfl | rfl | rfl | rfl <;> exact .num _
  · obtain ⟨p, -, rfl⟩ := List.mem_map.mp hx
    exact .num _

theorem distinctKeys_comp (rate : ℚ) (g : Group) (c : Comp) : DistinctKeys (compMember P rate g c).2 := by
  refine distinctKeys_obj ["stage", "description", "occupancy", "summary"] rfl (by decide) (by simp) ?_
  simp only [compMembers, List.forall_mem_cons]
  exact ⟨.str _, .str _, .num _, distinctKeys_summary P _, List.forall_mem_nil _⟩

theorem nodup_ntpComps : (Comp.all.map fun c => (ntpComps c).name).Nodup := by simp [Comp.all, ntpComps]

theorem nodup_ntpStageKeys : (Stage.all.map ntpStageKeys).Nodup := by simp [Stage.all, ntpStageKeys]

theorem nodup_ntpQueueNames : (QueueMetric.all.map ntpQueueNames).Nodup := by simp [QueueMetric.all, ntpQueueNames]

theorem distinctKeys_group (s : Stats) (g : Group) : DistinctKeys (.obj (groupMembers P s g)) := by
  have hcomps := distinctKeys_kept (jsonComp P (ntpGroupRate s g) g) Comp.all (fun c => (plain_ntpComps c).1)
    nodup_ntpComps (distinctKeys_comp P (ntpGroupRate s g) g)
  have hstages := distinctKeys_kept (fun st => jsonSamples P (ntpStageKeys st) (g.stage st)) Stage.all
    plain_ntpStageKeys nodup_ntpStageKeys fun st => distinctKeys_summary P (ntpSummarize (g.stage st)).2
  have hqueues := distinctKeys_kept (fun q => jsonSamples P (ntpQueueNames q) (g.queue q)) QueueMetric.all
    plain_ntpQueueNames nodup_ntpQueueNames fun q => distinctKeys_summary P (ntpSummarize (g.queue q)).2
  refine distinctKeys_obj ["type", "bytes", "session", "records", "joined", "incomplete_host", "incomplete_target",
    "post_estimated", "rate_per_s", "components", "stages", "queues"] rfl (by decide) (by simp) ?_
  simp only [groupMembers, List.forall_mem_cons]
  exact ⟨.str _, .num _, .str _, .num _, .num _, .num _, .num _, .num _, .num _, hcomps, hstages, hqueues,
    List.forall_mem_nil _⟩

theorem distinctKeys_tput (t : Tput) : DistinctKeys (tputMember P t).2 := by
  refine distinctKeys_obj ["seconds", "read_ios", "read_bytes", "write_ios", "write_bytes", "estimated"] rfl (by decide)
    (by simp) ?_
  simp only [List.forall_mem_cons]
  exact ⟨.num _, .num _, .num _, .num _, .num _, .bool _, List.forall_mem_nil _⟩

/-- The keys of the report, with those of the parts that it has. -/
def reportKeys (hdr : Option FileHeader) (tput : Option Tput) : List String :=
  ["tool"] ++ hdr.elim [] (fun _ => ["host", "kernel", "sample_every", "start_realtime_ns"]) ++
    tput.elim [] (fun _ => ["throughput"]) ++ ["groups"]

theorem reportMembers_keys (s : Stats) (hdr : Option FileHeader) (tput : Option Tput) :
    (reportMembers P s hdr tput).map Prod.fst = (reportKeys hdr tput).map text := by
  cases hdr <;> cases tput <;> rfl

/-- Whatever parts the report has, its keys are among these. -/
theorem reportKeys_sublist (hdr : Option FileHeader) (tput : Option Tput) :
    (reportKeys hdr tput).Sublist
      ["tool", "host", "kernel", "sample_every", "start_realtime_ns", "throughput", "groups"] := by
  have hmeta : (hdr.elim [] fun _ => ["host", "kernel", "sample_every", "start_realtime_ns"]).Sublist
      ["host", "kernel", "sample_every", "start_realtime_ns"] := by
    cases hdr with
    | none => exact List.nil_sublist _
    | some hdr => exact List.Sublist.refl _
  have htput : (tput.elim [] fun _ => ["throughput"]).Sublist ["throughput"] := by
    cases tput with
    | none => exact List.nil_sublist _
    | some t => exact List.Sublist.refl _
  exact (((List.Sublist.refl ["tool"]).append hmeta).append htput).append (List.Sublist.refl ["groups"])

theorem distinctKeys_report (s : Stats) (hdr : Option FileHeader) (tput : Option Tput) :
    DistinctKeys (.obj (reportMembers P s hdr tput)) := by
  have hplain : ∀ s ∈ ["tool", "host", "kernel", "sample_every", "start_realtime_ns", "throughput", "groups"],
      s.toList.all plainChar := by decide
  refine distinctKeys_obj (reportKeys hdr tput) (reportMembers_keys P s hdr tput)
    (fun name hname => hplain name ((reportKeys_sublist hdr tput).mem hname))
    (List.Nodup.sublist (reportKeys_sublist hdr tput) (by simp)) ?_
  intro m hm
  simp only [reportMembers, List.mem_append, List.mem_singleton] at hm
  rcases hm with ((rfl | hm) | hm) | rfl
  · exact .str _
  · cases hdr with
    | none => exact absurd hm List.not_mem_nil
    | some hdr =>
      simp only [Option.elim_some, metaMembers, List.mem_cons, List.not_mem_nil, or_false] at hm
      rcases hm with rfl | rfl | rfl | rfl
      · exact .str _
      · exact .str _
      · exact .num _
      · exact .num _
  · obtain ⟨t, -, rfl⟩ := List.mem_map.mp hm
    exact distinctKeys_tput P t
  · refine .arr fun v hv => ?_
    obtain ⟨g, -, rfl⟩ := List.mem_map.mp hv
    exact distinctKeys_group P s g

/-! ## The numbers of the C library -/

/-- A number in decimal. -/
def decimal (n : ℕ) : List U8 :=
  if n = 0 then [0x30#8] else (Nat.digits 10 n).reverse.map fun d => BitVec.ofNat 8 (0x30 + d)

/-- The last `k` digits of `n`, with zeros in front. -/
def decimalTail (k n : ℕ) : List U8 := (List.range k).map fun i => BitVec.ofNat 8 (0x30 + n / 10 ^ (k - 1 - i) % 10)

theorem toNat_digit {d : ℕ} (h : d < 10) : (BitVec.ofNat 8 (0x30 + d)).toNat = 0x30 + d := by
  rw [BitVec.toNat_ofNat]
  omega

theorem isDigit_ofNat {d : ℕ} (h : d < 10) : Json.IsDigit (BitVec.ofNat 8 (0x30 + d)) := by
  rw [Json.IsDigit, BitVec.le_def, BitVec.le_def, toNat_digit h]
  show 0x30 ≤ 0x30 + d ∧ 0x30 + d ≤ 0x39
  omega

theorem isInt_decimal (n : ℕ) : Json.IsInt (decimal n) := by
  by_cases hn : n = 0
  · rw [decimal, if_pos hn]
    exact ⟨⟨by decide, by decide⟩, fun _ => rfl⟩
  · have hnil : Nat.digits 10 n ≠ [] := Nat.digits_ne_nil_iff_ne_zero.mpr hn
    rw [decimal, if_neg hn]
    refine ⟨⟨by simpa using hnil, ?_⟩, fun hhead => ?_⟩
    · intro c hc
      obtain ⟨d, hd, rfl⟩ := List.mem_map.mp hc
      exact isDigit_ofNat (Nat.digits_lt_base (by decide) (List.mem_reverse.mp hd))
    · -- The first digit that is written is the last one of `Nat.digits`.
      have hlast := Nat.getLast_digit_ne_zero 10 hn
      have hlt : (Nat.digits 10 n).getLast hnil < 10 := Nat.digits_lt_base (by decide) (List.getLast_mem hnil)
      rw [List.head?_map, List.head?_reverse, List.getLast?_eq_getLast_of_ne_nil hnil, Option.map_some] at hhead
      have hval := congrArg BitVec.toNat (Option.some.inj hhead)
      rw [toNat_digit hlt] at hval
      change 0x30 + (Nat.digits 10 n).getLast hnil = 0x30 at hval
      omega

theorem isFraction_decimalTail (k n : ℕ) : Json.IsFraction (if k = 0 then [] else 0x2e#8 :: decimalTail k n) := by
  split_ifs with hk
  · exact .inl rfl
  · refine .inr ⟨_, rfl, ?_, ?_⟩
    · simpa [decimalTail] using hk
    · intro c hc
      obtain ⟨i, -, rfl⟩ := List.mem_map.mp hc
      exact isDigit_ofNat (Nat.mod_lt _ (by decide))

/-- A minus sign before the numbers below zero. -/
def minus (negative : Bool) : List U8 := if negative then [0x2d#8] else []

theorem minus_cases (negative : Bool) : minus negative = [] ∨ minus negative = [0x2d#8] := by
  cases negative with
  | false => exact .inl rfl
  | true => exact .inr rfl

/-- The conversions of the C library in the default locale, rounding to the nearest. -/
def decimalPrintf : Printf where
  unsigned := decimal
  signed z := minus (decide (z < 0)) ++ decimal z.natAbs
  fixed digits x :=
    let n := (round (|x| * 10 ^ digits)).natAbs
    minus (decide (x < 0)) ++
      (decimal (n / 10 ^ digits) ++ (if digits = 0 then [] else 0x2e#8 :: decimalTail digits n))
  unsigned_number n := ⟨[], decimal n, [], [], by simp, .inl rfl, isInt_decimal n, .inl rfl, .inl rfl⟩
  signed_number z := ⟨_, decimal z.natAbs, [], [], by rw [List.append_nil, List.append_nil], minus_cases _,
    isInt_decimal _, .inl rfl, .inl rfl⟩
  fixed_number digits x := ⟨_, _, _, [], by rw [List.append_nil], minus_cases _, isInt_decimal _,
    isFraction_decimalTail digits _, .inl rfl⟩

/-! ## The report as a whole -/

/-- A string of C is what `json_str` reads of it. -/
theorem textOf_val (s : CText) : textOf s.val = s.val := by
  refine List.takeWhile_eq_self_iff.mpr fun c hc => ?_
  rw [decide_eq_true_eq]
  rintro rfl
  exact s.property hc

/-- The report is one JSON object, in which no object has a key twice, and no string of it is cut or changed. -/
theorem json_report_well_formed (P : Printf) (s : Stats) (hdr : Option FileHeader) (tput : Option Tput) :
    (∃ t ms, (ntpReportJson P true true s hdr tput).2.2 = some t ∧ IsText t (.obj ms) ∧ DistinctKeys (.obj ms)) ∧
      ∀ str : CText, ∃ body, jsonStr str.val = quoted body ∧ unescape body = some str.val ∧ bareQuote body = false ∧
        ∀ c ∈ body, 0x20#8 ≤ c := by
  constructor
  · exact ⟨jsonText P s hdr tput, reportMembers P s hdr tput, rfl, isText_jsonText P s hdr tput,
      distinctKeys_report P s hdr tput⟩
  · intro str
    have hunescape := unescape_jsonBody str.val
    rw [textOf_val str] at hunescape
    exact ⟨jsonBody str.val, rfl, hunescape, bareQuote_jsonBody str.val, fun c hc => le_of_mem_jsonBody hc⟩

/-- A name with a quote, a backslash and a newline. -/
def oddName : CText := ⟨[0x61, 0x22, 0x5c, 0x0a], by decide⟩

/-- The statistics of two reads, on a disk of that name and on another one; only the first is joined. -/
def oddStats : Stats :=
  statsRun (ntpStatsInit false false true)
    [({ exampleReadHost with disk := toCharArray ntpDiskNameLen oddName.val }, some exampleReadTarget),
      ({ exampleReadHost with disk := toCharArray ntpDiskNameLen nvmeText }, none)]

/-- The report on these groups, with the numbers of the C library. -/
theorem json_report_well_formed_two_groups :
    (oddStats.groups.map fun g => (cString g.key.session, (g.stage .s2).length, (g.stage .s6).length)) =
        [(oddName.val, 1, 1), (nvmeText, 1, 0)] ∧
      (∃ t ms,
        (ntpReportJson decimalPrintf true true oddStats (some { hostname := toCharArray 64 oddName.val })
          (some ⟨1 / 3, 2, 8192, 0, 0, false⟩)).2.2 = some t ∧ IsText t (.obj ms) ∧ DistinctKeys (.obj ms)) ∧
      ∃ body, jsonStr oddName.val = quoted body ∧ unescape body = some oddName.val ∧ bareQuote body = false ∧
        ∀ c ∈ body, 0x20#8 ≤ c := by
  have h := json_report_well_formed decimalPrintf oddStats (some { hostname := toCharArray 64 oddName.val })
    (some ⟨1 / 3, 2, 8192, 0, 0, false⟩)
  exact ⟨by decide +kernel, h.1, h.2 oddName⟩

end Ntprof
