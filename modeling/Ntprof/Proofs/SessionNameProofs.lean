import Mathlib.Data.List.TakeWhile
import Ntprof.Proofs.StatsProofs

/-!
# Session names

`ntp_session_name` drops the path from the name of a path device. A name has at most one such reading, since each run
of digits ends at a byte that is not one; a name that was shortened, by the path or by the end of the buffer, has
none. The bytes behind the name in a group's key are 0, so keys are equal exactly when their names are.
-/

namespace Ntprof

/-! ## Runs of digits -/

/-- Two runs that start alike and end within what they have in common are one run. -/
theorem run_unique {α : Type*} {p : α → Bool} {a a' : List α} {x x' : α} {u u' : List α}
    (ha : ∀ d ∈ a, p d = true) (ha' : ∀ d ∈ a', p d = true) (hx : p x = false) (hx' : p x' = false)
    (h : a' ++ x' :: u' <+: a ++ x :: u) : a' = a ∧ x' = x := by
  induction a generalizing a' with
  | nil =>
    cases a' with
    | nil => exact ⟨rfl, (List.cons_prefix_cons.mp h).1⟩
    | cons d a' =>
      obtain ⟨rfl, -⟩ := List.cons_prefix_cons.mp h
      rw [ha' d List.mem_cons_self] at hx
      cases hx
  | cons d a ih =>
    cases a' with
    | nil =>
      obtain ⟨rfl, -⟩ := List.cons_prefix_cons.mp h
      rw [ha x' List.mem_cons_self] at hx'
      cases hx'
    | cons d' a' =>
      obtain ⟨rfl, htail⟩ := List.cons_prefix_cons.mp h
      obtain ⟨rfl, rfl⟩ := ih (fun e he => ha e (List.mem_cons_of_mem _ he))
        (fun e he => ha' e (List.mem_cons_of_mem _ he)) htail
      exact ⟨rfl, rfl⟩

/-- What is left behind a run. -/
theorem dropWhile_run {α : Type*} {p : α → Bool} {a : List α} {x : α} (ha : ∀ d ∈ a, p d = true)
    (hx : p x = false) (u : List α) : (a ++ x :: u).dropWhile p = x :: u := by
  rw [List.dropWhile_append_of_pos ha, List.dropWhile_cons_of_neg (by simp [hx])]

/-! ## Names of path devices -/

/-- `'c'` and `'n'`. -/
def cByte : U8 := 0x63
def nByte : U8 := 0x6e

/-- A run of at least one decimal digit. -/
@[ext] structure Numeral where
  digits : List U8
  nonempty : digits ≠ []
  isDigit : ∀ d ∈ digits, isDigit d = true
  deriving DecidableEq

/-- `nvme<a>c<b>n<c>`: the device of one path to a namespace. -/
def pathName (a b c : Numeral) : List U8 := nvmeText ++ a.digits ++ cByte :: (b.digits ++ nByte :: c.digits)

/-- `nvme<a>n<c>`: the device of a namespace. -/
def nsName (a c : Numeral) : List U8 := nvmeText ++ a.digits ++ nByte :: c.digits

/-- A name from which `ntp_session_name` drops `c<b>`; the digits of `a` may be missing, and anything may stand in
`rest`. -/
structure HasPath (disk a b rest : List U8) : Prop where
  eq : disk = nvmeText ++ a ++ cByte :: (b ++ nByte :: rest)
  digits : ∀ d ∈ a, isDigit d = true
  path : b ≠ []
  pathDigits : ∀ d ∈ b, isDigit d = true

theorem hasPath_pathName (a b c : Numeral) : HasPath (pathName a b c) a.digits b.digits c.digits :=
  ⟨rfl, a.isDigit, b.nonempty, b.isDigit⟩

theorem isDigit_cByte : isDigit cByte = false := rfl

theorem isDigit_nByte : isDigit nByte = false := rfl

theorem sessionText_of_hasPath {disk a b rest : List U8} (h : HasPath disk a b rest) :
    sessionText disk = nvmeText ++ a ++ nByte :: rest := by
  obtain ⟨rfl, ha, hne, hb⟩ := h
  have hprefix : nvmeText.isPrefixOf (nvmeText ++ a ++ cByte :: (b ++ nByte :: rest)) = true := by
    rw [List.isPrefixOf_iff_prefix, List.append_assoc]
    exact List.prefix_append _ _
  have hc : ((nvmeText ++ a ++ cByte :: (b ++ nByte :: rest)).drop 4).dropWhile isDigit =
      cByte :: (b ++ nByte :: rest) := by
    rw [List.append_assoc]
    exact dropWhile_run ha isDigit_cByte _
  have hn : (b ++ nByte :: rest).dropWhile isDigit = nByte :: rest := dropWhile_run hb isDigit_nByte rest
  have hany : ((b ++ nByte :: rest).head?.any isDigit) = true := by
    obtain ⟨d, b', rfl⟩ := List.exists_cons_of_ne_nil hne
    exact hb d List.mem_cons_self
  have htake : (nvmeText ++ a ++ cByte :: (b ++ nByte :: rest)).take
      ((nvmeText ++ a ++ cByte :: (b ++ nByte :: rest)).length - (cByte :: (b ++ nByte :: rest)).length) =
      nvmeText ++ a := by
    rw [List.length_append, Nat.add_sub_cancel_right, List.take_left']
    rfl
  simp only [sessionText, if_pos hprefix, hc, List.drop_one, List.tail_cons, hn, htake]
  rw [if_pos ⟨rfl, hany, rfl⟩]

/-- A name that is not read so stays as it is. -/
theorem sessionText_cases (disk : List U8) :
    (∃ a b rest, HasPath disk a b rest) ∨ sessionText disk = disk := by
  simp only [sessionText]
  split_ifs with hnvme hpath
  · left
    obtain ⟨u, rfl⟩ := List.isPrefixOf_iff_prefix.mp hnvme
    obtain ⟨hc, hany, hn⟩ := hpath
    have hu : (nvmeText ++ u).drop 4 = u := rfl
    rw [hu] at hc hany hn
    obtain ⟨v, hv⟩ := List.head?_eq_some_iff.mp hc
    rw [hv, List.drop_one, List.tail_cons] at hany hn
    obtain ⟨rest, hrest⟩ := List.head?_eq_some_iff.mp hn
    refine ⟨u.takeWhile isDigit, v.takeWhile isDigit, rest, ?_, ?_, ?_, ?_⟩
    · have hsplit : u = u.takeWhile isDigit ++ cByte :: (v.takeWhile isDigit ++ nByte :: rest) :=
        calc u = u.takeWhile isDigit ++ u.dropWhile isDigit := List.takeWhile_append_dropWhile.symm
          _ = u.takeWhile isDigit ++ cByte :: v := by rw [hv]; rfl
          _ = u.takeWhile isDigit ++ cByte :: (v.takeWhile isDigit ++ v.dropWhile isDigit) := by
            rw [List.takeWhile_append_dropWhile]
          _ = u.takeWhile isDigit ++ cByte :: (v.takeWhile isDigit ++ nByte :: rest) := by rw [hrest]; rfl
      rw [List.append_assoc, ← hsplit]
    · intro d hd
      exact List.mem_takeWhile_imp hd
    · -- the first byte of `v` is a digit
      cases v with
      | nil => simp at hany
      | cons d v =>
        have hd : isDigit d = true := hany
        rw [List.takeWhile_cons_of_pos hd]
        exact List.cons_ne_nil _ _
    · intro d hd
      exact List.mem_takeWhile_imp hd
  · exact .inr rfl
  · exact .inr rfl

/-- What begins like a session name has no path in it, so it is one. -/
theorem sessionText_eq_self {t disk : List U8} (ht : t <+: sessionText disk) : sessionText t = t := by
  rcases sessionText_cases t with ⟨a', b', rest', hpath'⟩ | hsame
  · exfalso
    rcases sessionText_cases disk with ⟨a, b, rest, hpath⟩ | hsame
    · -- behind the digits stands `'n'`, not `'c'`
      rw [sessionText_of_hasPath hpath, hpath'.eq, List.append_assoc, List.append_assoc,
        List.prefix_append_right_inj] at ht
      have hbytes := (run_unique hpath.digits hpath'.digits isDigit_nByte isDigit_cByte ht).2
      exact absurd hbytes (by decide)
    · -- the name itself would have the path
      rw [hsame] at ht
      obtain ⟨more, hmore⟩ := ht
      have hpath : HasPath disk a' b' (rest' ++ more) := by
        refine ⟨?_, hpath'.digits, hpath'.path, hpath'.pathDigits⟩
        rw [← hmore, hpath'.eq]
        simp
      have hlen := congrArg List.length hsame
      rw [sessionText_of_hasPath hpath, hpath.eq] at hlen
      simp only [List.length_append, List.length_cons] at hlen
      omega
  · exact hsame

/-- A session name is the session name of itself. -/
theorem sessionName_idem (len : ℕ) (disk : List U8) : sessionName len (sessionName len disk) = sessionName len disk := by
  have hself : sessionText (sessionName len disk) = sessionName len disk :=
    sessionText_eq_self (List.take_prefix (len - 1) (sessionText disk))
  rw [sessionName, hself, sessionName, List.take_take, Nat.min_self]

/-! ## Character arrays -/

/-- A string fills the front of its array, and the rest is 0. -/
theorem toList_toCharArray (n : ℕ) (t : List U8) :
    (toCharArray n t).toList = t.take (n - 1) ++ List.replicate (n - (t.take (n - 1)).length) 0 := by
  apply List.ext_getElem
  · simp
  · intro i hi hi'
    have hin : i < n := by simpa using hi
    have hget : (toCharArray n t).toList[i] = if i + 1 < n then t.getD i 0 else 0 := by
      simp [toCharArray]
    rw [hget, List.getElem_append]
    split_ifs with h1 h2 h2
    · rw [List.length_take] at h2
      rw [List.getElem_take, List.getD_eq_getElem?_getD, List.getElem?_eq_getElem (by omega)]
      rfl
    · rw [List.length_take] at h2
      rw [List.getElem_replicate, List.getD_eq_getElem?_getD, List.getElem?_eq_none (by omega)]
      rfl
    · rw [List.length_take] at h2
      omega
    · rw [List.getElem_replicate]

theorem cString_toCharArray {n : ℕ} {t : List U8} (ht : (0 : U8) ∉ t) : cString (toCharArray n t) = t.take (n - 1) := by
  have hpos : ∀ c ∈ t.take (n - 1), decide (c ≠ 0) = true := by
    intro c hc
    have hne : c ≠ 0 := by
      rintro rfl
      exact ht (List.mem_of_mem_take hc)
    simpa using hne
  rw [cString, toList_toCharArray, List.takeWhile_append_of_pos hpos]
  simp

theorem zero_notMem_cString {n : ℕ} (buf : Vector U8 n) : (0 : U8) ∉ cString buf := by
  intro h0
  have hne := List.mem_takeWhile_imp h0
  simp at hne

theorem zero_notMem_sessionText {disk : List U8} (hd : (0 : U8) ∉ disk) : (0 : U8) ∉ sessionText disk := by
  rcases sessionText_cases disk with ⟨a, b, rest, hpath⟩ | hsame
  · rw [sessionText_of_hasPath hpath]
    rw [hpath.eq] at hd
    simp only [List.mem_append, List.mem_cons, not_or] at hd ⊢
    tauto
  · rwa [hsame]

/-- The string in the array that `ntp_session_name` fills. -/
theorem cString_ntpSessionName (d : Vector U8 ntpDiskNameLen) :
    cString (ntpSessionName d) = sessionName ntpDiskNameLen (cString d) := by
  rw [ntpSessionName, cString_toCharArray (zero_notMem_sessionText (zero_notMem_cString d)), sessionName]

/-- The arrays are equal when the strings in them are. -/
theorem ntpSessionName_inj (d d' : Vector U8 ntpDiskNameLen) :
    ntpSessionName d = ntpSessionName d' ↔ cString (ntpSessionName d) = cString (ntpSessionName d') := by
  constructor
  · intro h
    rw [h]
  · intro h
    rw [cString_ntpSessionName, cString_ntpSessionName, sessionName, sessionName] at h
    rw [← Vector.toList_inj, ntpSessionName, ntpSessionName, toList_toCharArray, toList_toCharArray, h]

/-! ## Groups -/

/-- The keys of the groups. -/
def keysOf (s : Stats) : List GroupKey := s.groups.map Group.key

/-- `group_for` returns the first place of the record's key, which is the end if there is none. -/
theorem groupFor_place (s : Stats) (h : HostRec) : (groupFor s h).2 = (keysOf s).idxOf (groupKey s h) := by
  have hplace : (keysOf s).idxOf (groupKey s h) = s.groups.findIdx fun g => g.key = groupKey s h := by
    rw [keysOf, List.idxOf, List.findIdx_map]
    rfl
  cases hf : s.groups.findIdx? fun g => g.key = groupKey s h with
  | some i => rw [groupFor_found hf, hplace, (List.findIdx?_eq_some_iff_findIdx_eq.mp hf).2]
  | none => rw [groupFor_new hf, hplace, List.findIdx?_eq_none_iff_findIdx_eq.mp hf]

theorem keysOf_add (s : Stats) (h : HostRec) (t : Option TgtRec) :
    keysOf (ntpStatsAdd s h t) =
      if groupKey s h ∈ keysOf s then keysOf s else keysOf s ++ [groupKey s h] := by
  cases hf : s.groups.findIdx? fun g => g.key = groupKey s h with
  | some i =>
    obtain ⟨hi, hkey, -⟩ := List.findIdx?_eq_some_iff_getElem.1 hf
    have hmem : groupKey s h ∈ keysOf s := List.mem_map.mpr ⟨_, List.getElem_mem hi, by simpa using hkey⟩
    rw [if_pos hmem, keysOf, ntpStatsAdd_groups_found t hf, map_key_modify, keysOf]
  | none =>
    have hmem : groupKey s h ∉ keysOf s := by
      intro hm
      obtain ⟨g, hg, hkey⟩ := List.mem_map.mp hm
      have hne := List.findIdx?_eq_none_iff.mp hf g hg
      simp [hkey] at hne
    rw [if_neg hmem, keysOf, ntpStatsAdd_groups_new t hf, List.map_append]
    simp [keysOf, addRec_key]

/-- A record leaves the keys where they are, and its own is among them. -/
theorem keysOf_prefix_add (s : Stats) (h : HostRec) (t : Option TgtRec) :
    keysOf s <+: keysOf (ntpStatsAdd s h t) ∧ groupKey s h ∈ keysOf (ntpStatsAdd s h t) := by
  rw [keysOf_add]
  split_ifs with hmem
  · exact ⟨List.prefix_refl _, hmem⟩
  · exact ⟨List.prefix_append _ _, by simp⟩

theorem keysOf_prefix_run (s : Stats) (recs : List (HostRec × Option TgtRec)) :
    keysOf s <+: keysOf (statsRun s recs) := by
  induction recs generalizing s with
  | nil => exact List.prefix_refl _
  | cons r recs ih => exact (keysOf_prefix_add s r.1 r.2).1.trans (ih (ntpStatsAdd s r.1 r.2))

theorem groupKey_statsRun (s : Stats) (recs : List (HostRec × Option TgtRec)) (h : HostRec) :
    groupKey (statsRun s recs) h = groupKey s h := by
  induction recs generalizing s with
  | nil => rfl
  | cons r recs ih => exact (ih (ntpStatsAdd s r.1 r.2)).trans (groupKey_ntpStatsAdd s r.1 r.2 h)

/-- Whatever is added between two records, they have one group exactly when they have one key. -/
theorem groupFor_same_iff (s : Stats) (h : HostRec) (t : Option TgtRec) (recs : List (HostRec × Option TgtRec))
    (h' : HostRec) :
    (groupFor (statsRun (ntpStatsAdd s h t) recs) h').2 = (groupFor s h).2 ↔ groupKey s h = groupKey s h' := by
  have hkey' : groupKey (statsRun (ntpStatsAdd s h t) recs) h' = groupKey s h' :=
    (groupKey_statsRun _ recs h').trans (groupKey_ntpStatsAdd s h t h')
  obtain ⟨-, hmem⟩ := keysOf_prefix_add s h t
  have hrun := keysOf_prefix_run (ntpStatsAdd s h t) recs
  -- the place of the first record's key stays the same
  have hadd : (keysOf s).idxOf (groupKey s h) = (keysOf (ntpStatsAdd s h t)).idxOf (groupKey s h) := by
    rw [keysOf_add]
    split_ifs with hin
    · rfl
    · rw [List.idxOf_append_of_notMem hin, List.idxOf_eq_length hin]
      simp
  rw [groupFor_place, groupFor_place, hkey', hadd, hrun.idxOf_eq_of_mem hmem, eq_comm,
    List.idxOf_inj (hrun.subset hmem)]

/-- Records of equal type and size have one key exactly when their disks have one session name. -/
theorem groupKey_eq_iff {s : Stats} (hs : s.bySession = true) {h h' : HostRec}
    (hwrite : h.hdr.has ntpFWrite = h'.hdr.has ntpFWrite) (hbytes : h.bytes = h'.bytes) :
    groupKey s h = groupKey s h' ↔ cString (ntpSessionName h.disk) = cString (ntpSessionName h'.disk) := by
  rw [← ntpSessionName_inj]
  simp [groupKey, hwrite, hbytes, hs]

/-! ## Session names of path devices -/

theorem length_nsName_le (a b c : Numeral) : (nsName a c).length ≤ (pathName a b c).length := by
  simp only [nsName, pathName, List.length_append, List.length_cons]
  omega

theorem nsName_inj {a c a' c' : Numeral} : nsName a c = nsName a' c' ↔ a = a' ∧ c = c' := by
  constructor
  · intro h
    have h' : a.digits ++ nByte :: c.digits = a'.digits ++ nByte :: c'.digits := by
      rw [nsName, nsName, List.append_assoc, List.append_assoc] at h
      exact List.append_cancel_left h
    have hprefix : a.digits ++ nByte :: c.digits <+: a'.digits ++ nByte :: c'.digits := by
      rw [h']
    obtain ⟨ha, -⟩ := run_unique a'.isDigit a.isDigit isDigit_nByte isDigit_nByte hprefix
    rw [ha] at h'
    have hc : c.digits = c'.digits := List.tail_eq_of_cons_eq (List.append_cancel_left h')
    exact ⟨Numeral.ext ha, Numeral.ext hc⟩
  · rintro ⟨rfl, rfl⟩
    rfl

theorem sessionName_pathName {len : ℕ} {a b c : Numeral} (hlen : (pathName a b c).length < len) :
    sessionName len (pathName a b c) = nsName a c := by
  have hle := length_nsName_le a b c
  rw [sessionName, sessionText_of_hasPath (hasPath_pathName a b c)]
  exact List.take_of_length_le (by rw [nsName] at hle; omega)

/-- The name of a namespace is the session name of one of its paths. -/
theorem sessionName_nsName {len : ℕ} {a c : Numeral} (hlen : (nsName a c).length < len) :
    sessionName len (nsName a c) = nsName a c := by
  have hself : sessionText (nsName a c) = nsName a c := by
    refine @sessionText_eq_self (nsName a c) (pathName a a c) ?_
    rw [sessionText_of_hasPath (hasPath_pathName a a c)]
    exact List.prefix_refl _
  rw [sessionName, hself]
  exact List.take_of_length_le (by omega)

/-- Session names identify namespaces, not paths. The name of a path device becomes that of the namespace, which stays
as it is, so two path devices get one session exactly when the numbers of the subsystem and the namespace are the same.
A session name is the session name of itself, for every string and every buffer. Records of equal type and size are in
one group exactly when the session names of their disks are equal, whatever was added before and between them. -/
theorem session_names_identify_namespaces :
    (∀ (a b c : Numeral) (d : Vector U8 ntpDiskNameLen), (pathName a b c).length ≤ 31 → cString d = pathName a b c →
      cString (ntpSessionName d) = nsName a c) ∧
    (∀ (a c : Numeral) (d : Vector U8 ntpDiskNameLen), (nsName a c).length ≤ 31 → cString d = nsName a c →
      cString (ntpSessionName d) = nsName a c) ∧
    (∀ (a b c a' b' c' : Numeral) (d d' : Vector U8 ntpDiskNameLen), (pathName a b c).length ≤ 31 →
      (pathName a' b' c').length ≤ 31 → cString d = pathName a b c → cString d' = pathName a' b' c' →
      (cString (ntpSessionName d) = cString (ntpSessionName d') ↔ a = a' ∧ c = c')) ∧
    (∀ (len : ℕ) (disk : CText), sessionName len (sessionName len disk) = sessionName len disk) ∧
    (∀ d : Vector U8 ntpDiskNameLen, cString (ntpSessionName d) = sessionName ntpDiskNameLen (cString d) ∧
      ntpSessionName (ntpSessionName d) = ntpSessionName d) ∧
    ∀ (s : Stats) (h : HostRec) (t : Option TgtRec) (recs : List (HostRec × Option TgtRec)) (h' : HostRec),
      s.bySession = true → h.hdr.has ntpFWrite = h'.hdr.has ntpFWrite → h.bytes = h'.bytes →
      ((groupFor (statsRun (ntpStatsAdd s h t) recs) h').2 = (groupFor s h).2 ↔
        cString (ntpSessionName h.disk) = cString (ntpSessionName h'.disk)) := by
  have hpath : ∀ (a b c : Numeral) (d : Vector U8 ntpDiskNameLen), (pathName a b c).length ≤ 31 →
      cString d = pathName a b c → cString (ntpSessionName d) = nsName a c := by
    intro a b c d hlen hd
    rw [cString_ntpSessionName, hd]
    exact sessionName_pathName (Nat.lt_succ_of_le hlen)
  refine ⟨hpath, ?_, ?_, fun len disk => sessionName_idem len disk, ?_, ?_⟩
  · intro a c d hlen hd
    rw [cString_ntpSessionName, hd]
    exact sessionName_nsName (Nat.lt_succ_of_le hlen)
  · intro a b c a' b' c' d d' hlen hlen' hd hd'
    rw [hpath a b c d hlen hd, hpath a' b' c' d' hlen' hd', nsName_inj]
  · intro d
    refine ⟨cString_ntpSessionName d, ?_⟩
    rw [ntpSessionName_inj, cString_ntpSessionName, cString_ntpSessionName, sessionName_idem]
  · intro s h t recs h' hs hwrite hbytes
    rw [groupFor_same_iff, groupKey_eq_iff hs hwrite hbytes]

/-- The numeral of one digit. -/
def Numeral.one (d : U8) (hd : Ntprof.isDigit d = true) : Numeral :=
  ⟨[d], List.cons_ne_nil d [], List.forall_mem_singleton.mpr hd⟩

/-- A record of a disk. -/
def diskRecord (disk : List U8) : HostRec := { disk := toCharArray ntpDiskNameLen disk }

/-- Two paths to one namespace: `nvme3c5n1` and `nvme3c6n1`. -/
def twoPaths : HostRec × HostRec :=
  (diskRecord (pathName (.one 0x33 rfl) (.one 0x35 rfl) (.one 0x31 rfl)),
    diskRecord (pathName (.one 0x33 rfl) (.one 0x36 rfl) (.one 0x31 rfl)))

theorem session_names_identify_namespaces_twoPaths :
    cString (ntpSessionName twoPaths.1.disk) = [0x6e, 0x76, 0x6d, 0x65, 0x33, 0x6e, 0x31] ∧
      (groupFor (ntpStatsAdd (ntpStatsInit true true true) twoPaths.1 none) twoPaths.2).2 =
        (groupFor (ntpStatsInit true true true) twoPaths.1).2 := by
  obtain ⟨hpath, -, hone, -, -, hgroup⟩ := session_names_identify_namespaces
  have hsame := (hone (.one 0x33 rfl) (.one 0x35 rfl) (.one 0x31 rfl) (.one 0x33 rfl) (.one 0x36 rfl) (.one 0x31 rfl)
    twoPaths.1.disk twoPaths.2.disk (by decide) (by decide) (by decide) (by decide)).mpr ⟨rfl, rfl⟩
  exact ⟨hpath (.one 0x33 rfl) (.one 0x35 rfl) (.one 0x31 rfl) twoPaths.1.disk (by decide) (by decide),
    (hgroup (ntpStatsInit true true true) twoPaths.1 none [] twoPaths.2 rfl rfl rfl).mpr hsame⟩

end Ntprof
