import Ntprof.SessionFilter
import Ntprof.Proofs.PrintedProofs
import Ntprof.Proofs.SessionNameProofs

/-!
# The session that is profiled

The commands that the host hooks take are those on the controllers of the session's path devices, and the reports name
these devices by the session.
-/

namespace Ntprof

open Bpf (Filter ctrlMatches)

/-! ## The mask -/

theorem ctrlMatches_eq (f : Filter) (inst : U32) :
    ctrlMatches f inst = (!f.ctrlFilter || (decide (inst.toNat ≤ 255) && WordSet.contains f.ctrlMask inst.toNat)) := by
  by_cases hle : inst.toNat ≤ 255
  · have hgt : ¬ 255 < inst := by
      rw [BitVec.lt_def]
      exact Nat.not_lt.mpr hle
    have hword : ((inst >>> 6) &&& 3).toNat = inst.toNat / 64 := by
      rw [BitVec.toNat_and, BitVec.toNat_ushiftRight, Nat.shiftRight_eq_div_pow]
      have hthree : (3 : U32).toNat = 2 ^ 2 - 1 := rfl
      rw [hthree, Nat.and_two_pow_sub_one_eq_mod]
      omega
    have hbit : (inst &&& 63).toNat = inst.toNat % 64 := by
      have hmask : (63 : U32).toNat = 2 ^ 6 - 1 := rfl
      rw [BitVec.toNat_and, hmask, Nat.and_two_pow_sub_one_eq_mod]
    rw [ctrlMatches, hword, hbit, decide_eq_false hgt, decide_eq_true hle]
    rfl
  · have hgt : 255 < inst := by
      rw [BitVec.lt_def]
      exact Nat.lt_of_not_le hle
    rw [ctrlMatches, decide_eq_true hgt, decide_eq_false hle]
    rfl

/-- What the loop over the path devices has found after some controllers. -/
theorem pathLoop_spec (fs : Sysfs) (subsys ns : U32) (ctrls : List ℕ) (hlt : ∀ k ∈ ctrls, k < 256) :
    (∀ i, WordSet.contains (ctrls.foldl (pathLoop fs subsys ns) (Vector.replicate 4 0, false)).1 i = true ↔
        i ∈ ctrls ∧ fs.present (pathDevice subsys i ns) = true) ∧
      ((ctrls.foldl (pathLoop fs subsys ns) (Vector.replicate 4 0, false)).2 = true ↔
        ∃ k ∈ ctrls, fs.present (pathDevice subsys k ns) = true) := by
  induction ctrls using List.reverseRecOn with
  | nil =>
    refine ⟨fun i => ?_, by simp⟩
    rw [List.foldl_nil, WordSet.contains_empty]
    simp
  | append_singleton ctrls k ih =>
    obtain ⟨hmask, hany⟩ := ih fun i hi => hlt i (List.mem_append_left _ hi)
    rw [List.foldl_append, List.foldl_cons, List.foldl_nil, pathLoop]
    by_cases hk : fs.present (pathDevice subsys k ns) = true
    · rw [if_pos hk]
      constructor
      · intro i
        rw [WordSet.contains_insert (hlt k (by simp)), hmask, List.mem_append, List.mem_singleton]
        constructor
        · rintro (rfl | ⟨hi, hpresent⟩)
          · exact ⟨Or.inr rfl, hk⟩
          · exact ⟨Or.inl hi, hpresent⟩
        · rintro ⟨hi | rfl, hpresent⟩
          · exact Or.inr ⟨hi, hpresent⟩
          · exact Or.inl rfl
      · exact ⟨fun _ => ⟨k, by simp, hk⟩, fun _ => rfl⟩
    · rw [if_neg hk]
      constructor
      · intro i
        rw [hmask, List.mem_append, List.mem_singleton]
        constructor
        · rintro ⟨hi, hpresent⟩
          exact ⟨Or.inl hi, hpresent⟩
        · rintro ⟨hi | rfl, hpresent⟩
          · exact ⟨hi, hpresent⟩
          · exact absurd hpresent hk
      · rw [hany]
        constructor
        · rintro ⟨i, hi, hpresent⟩
          exact ⟨i, List.mem_append_left _ hi, hpresent⟩
        · rintro ⟨i, hi, hpresent⟩
          rcases List.mem_append.mp hi with hi | hi
          · exact ⟨i, hi, hpresent⟩
          · rw [List.mem_singleton.mp hi] at hpresent
            exact absurd hpresent hk

/-! ## What is selected -/

/-- The controller has a path device of the namespace. -/
def HasPathDevice (fs : Sysfs) (subsys ns : U32) (ctrl : ℕ) : Prop :=
  ctrl < 256 ∧ fs.present (pathDevice subsys ctrl ns) = true

/-- The controller carries the I/O of the namespace: through a path device, or, where there is none, by its name. -/
def Carries (fs : Sysfs) (subsys ns : U32) (ctrl : ℕ) : Prop :=
  HasPathDevice fs subsys ns ctrl ∨ ((∀ k, ¬ HasPathDevice fs subsys ns k) ∧ ctrl = subsys.toNat)

/-- The id of the namespace, as the system has it, or as its name has it. -/
def namespaceId (fs : Sysfs) (session : List U8) (ns : U32) : U32 := (readSysfsU32 fs (nsidFile session)).getD ns

/-- The command runs on a controller of the namespace that the session names, and is for this namespace; the session
`all` names every one. -/
def OnSession (fs : Sysfs) (session : List U8) (inst nsid : U32) : Prop :=
  session = text "all" ∨ ∃ subsys ns, scanNamespace session = some (subsys, ns) ∧ inst.toNat < 256 ∧
    Carries fs subsys ns inst.toNat ∧ (namespaceId fs session ns = 0 ∨ nsid = namespaceId fs session ns)

/-- The filter that `resolve_session` makes for a namespace. -/
theorem resolveSession_eq (fs : Sysfs) {session : List U8} {subsys ns : U32} (hall : session ≠ text "all")
    (hscan : scanNamespace session = some (subsys, ns)) :
    ((∀ k, ¬ HasPathDevice fs subsys ns k) ∧ 255 < subsys.toNat ∧ resolveSession fs session = none) ∨
      (¬ ((∀ k, ¬ HasPathDevice fs subsys ns k) ∧ 255 < subsys.toNat) ∧
        ∃ mask, resolveSession fs session =
            some { ctrlFilter := true, ctrlMask := mask, nsid := namespaceId fs session ns } ∧
          ∀ i, i < 256 → (WordSet.contains mask i = true ↔ Carries fs subsys ns i)) := by
  obtain ⟨hmask, hany⟩ := pathLoop_spec fs subsys ns (List.range 256) fun k hk => List.mem_range.mp hk
  simp only [List.mem_range] at hmask hany
  simp only [resolveSession, if_neg hall, hscan]
  rcases hloop : (List.range 256).foldl (pathLoop fs subsys ns) (Vector.replicate 4 0, false) with ⟨mask, any⟩
  rw [hloop] at hmask hany
  rcases any with _ | _
  · have hnone : ∀ k, ¬ HasPathDevice fs subsys ns k := fun k hk => Bool.false_ne_true (hany.mpr ⟨k, hk⟩)
    by_cases hbig : 255 < subsys
    · left
      exact ⟨hnone, BitVec.lt_def.mp hbig, if_pos ⟨rfl, hbig⟩⟩
    · right
      have hle : subsys.toNat ≤ 255 := Nat.not_lt.mp fun h => hbig (BitVec.lt_def.mpr h)
      refine ⟨fun h => Nat.not_lt.mpr hle h.2, WordSet.insert mask subsys.toNat, ?_, ?_⟩
      · rw [if_neg fun h => hbig h.2]
        rfl
      intro i hi
      rw [WordSet.contains_insert (by omega), hmask, Carries]
      constructor
      · rintro (rfl | hpath)
        · exact Or.inr ⟨hnone, rfl⟩
        · exact Or.inl hpath
      · rintro (hpath | ⟨-, rfl⟩)
        · exact Or.inr hpath
        · exact Or.inl rfl
  · right
    obtain ⟨k, hk⟩ := hany.mp rfl
    refine ⟨fun h => h.1 k hk, mask, ?_, ?_⟩
    · rw [if_neg fun h => by simp at h]
      rfl
    intro i hi
    rw [hmask, Carries]
    constructor
    · exact Or.inl
    · rintro (hpath | ⟨hnone, -⟩)
      · exact hpath
      · exact absurd hk (hnone k)

/-- A session for which there is no filter: its name is not that of a namespace, or it has no path device and its
number is not that of a controller. -/
theorem resolveSession_none_iff (fs : Sysfs) (session : List U8) :
    resolveSession fs session = none ↔ session ≠ text "all" ∧ (scanNamespace session = none ∨
      ∃ subsys ns, scanNamespace session = some (subsys, ns) ∧
        (∀ k, ¬ HasPathDevice fs subsys ns k) ∧ 255 < subsys.toNat) := by
  by_cases hall : session = text "all"
  · rw [resolveSession, if_pos hall]
    simp [hall]
  rcases hscan : scanNamespace session with _ | ⟨subsys, ns⟩
  · rw [resolveSession, if_neg hall, hscan]
    simp [hall]
  · rcases resolveSession_eq fs hall hscan with ⟨hnone, hbig, hres⟩ | ⟨hok, mask, hres, hmask⟩
    · exact ⟨fun _ => ⟨hall, Or.inr ⟨subsys, ns, rfl, hnone, hbig⟩⟩, fun _ => hres⟩
    · rw [hres]
      constructor
      · intro h
        cases h
      · rintro ⟨-, h | ⟨subsys', ns', h, hnone⟩⟩
        · cases h
        · cases h
          exact absurd hnone hok

/-- The tests of the hooks with the filter of a session. -/
theorem ctrl_nsid_iff {fs : Sysfs} {session : List U8} {sel : Filter} (h : resolveSession fs session = some sel)
    (inst nsid : U32) :
    (ctrlMatches sel inst && (sel.nsid == 0 || nsid == sel.nsid)) = true ↔ OnSession fs session inst nsid := by
  by_cases hall : session = text "all"
  · rw [resolveSession, if_pos hall] at h
    cases h
    exact ⟨fun _ => Or.inl hall, fun _ => rfl⟩
  rcases hscan : scanNamespace session with _ | ⟨subsys, ns⟩
  · rw [resolveSession, if_neg hall, hscan] at h
    cases h
  · rcases resolveSession_eq fs hall hscan with ⟨-, -, hres⟩ | ⟨-, mask, hres, hmask⟩
    · rw [hres] at h
      cases h
    · rw [hres, Option.some.injEq] at h
      subst h
      rw [ctrlMatches_eq, Bool.and_eq_true, Bool.not_true, Bool.false_or, Bool.and_eq_true, decide_eq_true_eq,
        Bool.or_eq_true, beq_iff_eq, beq_iff_eq]
      constructor
      · rintro ⟨⟨hle, hbit⟩, hnsid⟩
        exact Or.inr ⟨subsys, ns, hscan, by omega, (hmask _ (by omega)).mp hbit, hnsid⟩
      · rintro (hsame | ⟨subsys', ns', hscan', hlt, hcarries, hnsid⟩)
        · exact absurd hsame hall
        · rw [hscan] at hscan'
          cases hscan'
          exact ⟨⟨by omega, (hmask _ hlt).mpr hcarries⟩, hnsid⟩

/-- Whatever the session is and whatever devices there are: either the recording fails, which it does exactly for a name
that is not that of a namespace or that has no path device and no controller of its number, or the host hooks record
those commands of the right type, size and sample that run on a controller of the session and are for its namespace. -/
theorem session_selects_its_commands (fs : Sysfs) (c : NtpConfig) (realMinusMono : S64) :
    (resolveSession fs c.session = none ↔ c.session ≠ text "all" ∧ (scanNamespace c.session = none ∨
      ∃ subsys ns, scanNamespace c.session = some (subsys, ns) ∧
        (∀ k, ¬ HasPathDevice fs subsys ns k) ∧ 255 < subsys.toNat)) ∧
    ∀ sel, resolveSession fs c.session = some sel → ∀ (a : Bpf.SetupArgs) (cmd : Bpf.NvmeCmd),
      Bpf.setupSampled (fillFilter c (some sel) realMinusMono) a cmd = true ↔
        Bpf.ntpTypeMatches (fillFilter c (some sel) realMinusMono) cmd.opcode = true ∧
        Bpf.ntpSampled (fillFilter c (some sel) realMinusMono) cmd.commandId cmd.slba cmd.length = true ∧
        Bpf.ntpSizeMatches (fillFilter c (some sel) realMinusMono) a.dataLen = true ∧
        OnSession fs c.session a.inst cmd.nsid := by
  refine ⟨resolveSession_none_iff fs c.session, fun sel hsel a cmd => ?_⟩
  rw [← ctrl_nsid_iff hsel a.inst cmd.nsid, Bpf.setupSampled, Bool.and_assoc, Bool.and_eq_true, Bool.and_eq_true,
    Bool.and_eq_true, and_assoc, and_assoc]
  rfl

/-- The namespace `nvme0n1`, with the id 7, and its path devices on the controllers 1 and 65. -/
def twoControllers : Sysfs where
  present path := decide (path = pathDevice 0 1 1 ∨ path = pathDevice 0 65 1)
  read path := if path = nsidFile (text "nvme0n1") then some (text "7\n") else none

/-- The first hook sees a read of this namespace on this controller, and takes it. -/
def takesRead (sel : Filter) (inst nsid : U32) : Bool :=
  Bpf.setupSampled (fillFilter { session := text "nvme0n1" } (some sel) 0) { rq := ⟨1, by decide⟩, cmd := none, inst := inst }
    { opcode := ntpNvmeCmdRead, commandId := 5, nsid := nsid, slba := 0, length := 0 }

theorem session_selects_two_controllers :
    ∃ sel, resolveSession twoControllers (text "nvme0n1") = some sel ∧ takesRead sel 1 7 = true ∧
      takesRead sel 65 7 = true ∧ takesRead sel 0 7 = false ∧ takesRead sel 1 1 = false := by
  obtain ⟨hnone, hsome⟩ := session_selects_its_commands twoControllers { session := text "nvme0n1" } 0
  have hscan : scanNamespace (text "nvme0n1") = some (0, 1) := by decide +kernel
  have hid : namespaceId twoControllers (text "nvme0n1") 1 = 7 := by decide +kernel
  have hone : HasPathDevice twoControllers 0 1 1 := ⟨by decide, by decide +kernel⟩
  have hlast : HasPathDevice twoControllers 0 1 65 := ⟨by decide, by decide +kernel⟩
  have hfirst : ¬ HasPathDevice twoControllers 0 1 0 := by
    rintro ⟨-, h⟩
    revert h
    decide +kernel
  have hon : ∀ inst nsid : U32, OnSession twoControllers (text "nvme0n1") inst nsid ↔
      inst.toNat < 256 ∧ HasPathDevice twoControllers 0 1 inst.toNat ∧ nsid = 7 := by
    intro inst nsid
    constructor
    · rintro (hall | ⟨subsys, ns, hscan', hlt, hcarries, hnsid⟩)
      · exact absurd hall (by decide +kernel)
      · rw [hscan] at hscan'
        obtain ⟨rfl, rfl⟩ := Prod.mk.inj (Option.some.inj hscan')
        rw [hid] at hnsid
        rcases hcarries with hpath | ⟨hno, -⟩
        · exact ⟨hlt, hpath, hnsid.resolve_left (by decide)⟩
        · exact absurd hone (hno 1)
    · rintro ⟨hlt, hpath, rfl⟩
      exact Or.inr ⟨0, 1, hscan, hlt, Or.inl hpath, Or.inr hid.symm⟩
  rcases hres : resolveSession twoControllers (text "nvme0n1") with _ | sel
  · obtain ⟨-, hbad | ⟨subsys, ns, hscan', hno, -⟩⟩ := hnone.mp hres
    · rw [hscan] at hbad
      cases hbad
    · rw [hscan] at hscan'
      obtain ⟨rfl, rfl⟩ := Prod.mk.inj (Option.some.inj hscan')
      exact absurd hone (hno 1)
  · have htakes : ∀ inst nsid : U32, takesRead sel inst nsid = true ↔
        inst.toNat < 256 ∧ HasPathDevice twoControllers 0 1 inst.toNat ∧ nsid = 7 := by
      intro inst nsid
      rw [takesRead, hsome sel hres, hon]
      exact ⟨fun h => h.2.2.2, fun h => ⟨rfl, rfl, rfl, h⟩⟩
    refine ⟨sel, rfl, (htakes 1 7).mpr ⟨by decide, hone, rfl⟩, (htakes 65 7).mpr ⟨by decide, hlast, rfl⟩, ?_, ?_⟩
    · rw [← Bool.not_eq_true, htakes]
      exact fun h => hfirst h.2.1
    · rw [← Bool.not_eq_true, htakes]
      exact fun h => absurd h.2.2 (by decide)

/-! ## The name of the session -/

/-- The digits of a number. -/
def numeralOf (n : ℕ) : Numeral := ⟨unsignedText n, unsignedText_ne_nil n, fun _ h => isDigit_unsignedText h⟩

theorem pathDeviceName_eq (subsys : U32) (ctrl : ℕ) (ns : U32) :
    pathDeviceName subsys ctrl ns = pathName (numeralOf subsys.toNat) (numeralOf ctrl) (numeralOf ns.toNat) := by
  simp only [pathDeviceName, pathName, numeralOf, List.append_assoc]
  rfl

theorem length_unsignedText_le {n k : ℕ} (hk : 0 < k) (h : n < 10 ^ k) : (unsignedText n).length ≤ k := by
  rw [unsignedText, List.length_map]
  exact (Nat.length_toDigits_le_iff (by omega) hk).mpr h

theorem length_pathDeviceName_le (subsys ns : U32) {ctrl : ℕ} (h : ctrl < 256) :
    (pathDeviceName subsys ctrl ns).length ≤ 31 := by
  have hsub := length_unsignedText_le (by omega) (show subsys.toNat < 10 ^ 10 by omega)
  have hns := length_unsignedText_le (by omega) (show ns.toNat < 10 ^ 10 by omega)
  have hctrl := length_unsignedText_le (by omega) (show ctrl < 10 ^ 3 by omega)
  have hnvme : nvmeText.length = 4 := rfl
  simp only [pathDeviceName, List.length_append, List.length_cons, List.length_nil]
  omega

theorem scanUint_unsignedText (x : U32) {rest : List U8} (h : EndsNumber rest) :
    scanUint (unsignedText x.toNat ++ rest) = some (x, rest) := by
  have hpos : 0 < (unsignedText x.toNat).length := List.length_pos_iff.mpr (unsignedText_ne_nil _)
  have hlen : ¬ rest.length = (unsignedText x.toNat ++ rest).length := by
    rw [List.length_append]
    omega
  simp only [scanUint, strtoull_unsignedText (show x.toNat < 2 ^ 64 by omega) h, if_neg hlen, Option.some.injEq,
    Prod.mk.injEq, and_true]
  apply BitVec.eq_of_toNat_eq
  rw [BitVec.toNat_setWidth, BitVec.toNat_ofNat]
  omega

/-- The name of a namespace is read back. -/
theorem scanNamespace_nsName (subsys ns : U32) :
    scanNamespace (nsName (numeralOf subsys.toNat) (numeralOf ns.toNat)) = some (subsys, ns) := by
  have hfirst : EndsNumber (nByte :: unsignedText ns.toNat) := rfl
  have hlast : scanUint (unsignedText ns.toNat) = some (ns, []) := by
    have h : scanUint (unsignedText ns.toNat ++ []) = some (ns, []) := scanUint_unsignedText ns rfl
    rwa [List.append_nil] at h
  have htake : (nsName (numeralOf subsys.toNat) (numeralOf ns.toNat)).take 4 = nvmeText := rfl
  have hdrop : (nsName (numeralOf subsys.toNat) (numeralOf ns.toNat)).drop 4 =
      unsignedText subsys.toNat ++ nByte :: unsignedText ns.toNat := rfl
  rw [scanNamespace, if_neg (not_not.mpr htake), hdrop, scanUint_unsignedText subsys hfirst]
  simp only [List.headD_cons, List.drop_one, List.tail_cons, hlast]
  rfl

/-- A command on a path device of a namespace, when this namespace is the session: there is a filter, it takes the
command, and the report names the device by the session. -/
theorem path_commands_are_the_session (fs : Sysfs) (subsys ns : U32) (ctrl : ℕ)
    (hpath : HasPathDevice fs subsys ns ctrl) (d : Vector U8 ntpDiskNameLen)
    (hd : cString d = pathDeviceName subsys ctrl ns) (session : List U8)
    (hsession : session = nsName (numeralOf subsys.toNat) (numeralOf ns.toNat)) :
    (∃ sel, resolveSession fs session = some sel ∧ ∀ nsid, nsid = namespaceId fs session ns →
      (ctrlMatches sel (BitVec.ofNat 32 ctrl) && (sel.nsid == 0 || nsid == sel.nsid)) = true) ∧
    cString (ntpSessionName d) = session := by
  have hscan : scanNamespace session = some (subsys, ns) := by
    rw [hsession]
    exact scanNamespace_nsName subsys ns
  have hinst : (BitVec.ofNat 32 ctrl).toNat = ctrl := by
    have hlt := hpath.1
    rw [BitVec.toNat_ofNat]
    omega
  constructor
  · rcases hres : resolveSession fs session with _ | sel
    · obtain ⟨-, hnone | ⟨subsys', ns', hscan', hnone, -⟩⟩ := (resolveSession_none_iff fs session).mp hres
      · rw [hscan] at hnone
        cases hnone
      · rw [hscan] at hscan'
        cases hscan'
        exact absurd hpath (hnone ctrl)
    · refine ⟨sel, rfl, fun nsid hnsid => (ctrl_nsid_iff hres _ nsid).mpr ?_⟩
      right
      refine ⟨subsys, ns, hscan, ?_, ?_, Or.inr hnsid⟩
      · rw [hinst]
        exact hpath.1
      · rw [hinst]
        exact Or.inl hpath
  · have hlen := length_pathDeviceName_le subsys ns hpath.1
    rw [pathDeviceName_eq] at hd hlen
    rw [cString_ntpSessionName, hd, hsession]
    exact sessionName_pathName (Nat.lt_succ_of_le hlen)

/-- `nvme0c1n1`, for the session `nvme0n1`. -/
theorem path_commands_are_the_session_one :
    (∃ sel, resolveSession ⟨fun _ => true, fun _ => none⟩ (text "nvme0n1") = some sel ∧ ∀ nsid, nsid = 1 →
      (ctrlMatches sel 1 && (sel.nsid == 0 || nsid == sel.nsid)) = true) ∧
    cString (ntpSessionName (toCharArray _ (pathDeviceName 0 1 1))) = text "nvme0n1" :=
  path_commands_are_the_session ⟨fun _ => true, fun _ => none⟩ 0 1 1 ⟨by decide, rfl⟩
    (toCharArray _ (pathDeviceName 0 1 1)) (by decide) (text "nvme0n1") (by decide)

end Ntprof
