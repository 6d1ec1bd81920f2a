import Ntprof.Programs

/-!
# Which programs are loaded

The search in the sorted symbols finds exactly the symbols of the kernel. What `select_programs` decides about a program
depends only on its hook and its flavour, so that the entry and the exit of a hook are loaded together.
-/

namespace Ntprof.Loader

/-! ## Symbols -/

theorem strcmpLe_cons (x y : U8) (a b : List U8) :
    strcmpLe (x :: a) (y :: b) = true ↔ x.toNat < y.toNat ∨ (x = y ∧ strcmpLe a b = true) := by
  by_cases hxy : x = y
  · subst hxy
    simp [strcmpLe]
  · have hlt : x < y ↔ x.toNat < y.toNat := BitVec.lt_def
    simp [strcmpLe, hxy, hlt]

theorem strcmpLe_trans {a b c : List U8} (hab : strcmpLe a b = true) (hbc : strcmpLe b c = true) :
    strcmpLe a c = true := by
  induction a generalizing b c with
  | nil => rfl
  | cons x a ih =>
    rcases b with _ | ⟨y, b⟩
    · simp [strcmpLe] at hab
    rcases c with _ | ⟨z, c⟩
    · simp [strcmpLe] at hbc
    rw [strcmpLe_cons] at hab hbc ⊢
    rcases hab with hxy | ⟨rfl, hab⟩
    · rcases hbc with hyz | ⟨rfl, -⟩
      · exact Or.inl (by omega)
      · exact Or.inl hxy
    · rcases hbc with hyz | ⟨rfl, hbc⟩
      · exact Or.inl hyz
      · exact Or.inr ⟨rfl, ih hab hbc⟩

theorem strcmpLe_total (a b : List U8) : (strcmpLe a b || strcmpLe b a) = true := by
  induction a generalizing b with
  | nil => rfl
  | cons x a ih =>
    rcases b with _ | ⟨y, b⟩
    · rfl
    rw [Bool.or_eq_true, strcmpLe_cons, strcmpLe_cons]
    rcases Nat.lt_trichotomy x.toNat y.toNat with hlt | heq | hgt
    · exact Or.inl (Or.inl hlt)
    · obtain rfl := BitVec.eq_of_toNat_eq heq
      rcases Bool.or_eq_true _ _ ▸ ih b with h | h
      · exact Or.inl (Or.inr ⟨rfl, h⟩)
      · exact Or.inr (Or.inr ⟨rfl, h⟩)
    · exact Or.inr (Or.inl hgt)

theorem strcmpLe_antisymm {a b : List U8} (hab : strcmpLe a b = true) (hba : strcmpLe b a = true) : a = b := by
  induction a generalizing b with
  | nil =>
    rcases b with _ | ⟨y, b⟩
    · rfl
    · simp [strcmpLe] at hba
  | cons x a ih =>
    rcases b with _ | ⟨y, b⟩
    · simp [strcmpLe] at hab
    rw [strcmpLe_cons] at hab hba
    rcases hab with hxy | ⟨rfl, hab⟩
    · rcases hba with hyx | ⟨rfl, -⟩
      · omega
      · omega
    · rcases hba with hyx | ⟨-, hba⟩
      · omega
      · rw [ih hab hba]

/-- The search finds a name if it is in the places that are left. -/
theorem bsearch_iff {names : List (List U8)} (hs : names.Pairwise fun a b => strcmpLe a b = true) (name : List U8)
    (fuel l u : ℕ) (hu : u ≤ names.length) (hfuel : u - l < fuel)
    (hout : ∀ (i : ℕ) (hi : i < names.length), names[i] = name → l ≤ i ∧ i < u) :
    bsearch names name fuel l u = true ↔ name ∈ names := by
  have hle : ∀ (i j : ℕ) (hi : i < names.length) (hj : j < names.length), i < j → strcmpLe names[i] names[j] = true :=
    fun i j hi hj hij => List.pairwise_iff_getElem.mp hs i j hi hj hij
  induction fuel generalizing l u with
  | zero => omega
  | succ fuel ih =>
    unfold bsearch
    by_cases hlu : l < u
    · have hmid : (l + u) / 2 < names.length := by omega
      have hget : names.getD ((l + u) / 2) [] = names[(l + u) / 2] := by
        rw [List.getD_eq_getElem?_getD, List.getElem?_eq_getElem hmid, Option.getD_some]
      simp only [if_pos hlu, hget]
      split_ifs with heq hbelow
      · simp only [true_iff]
        rw [heq]
        exact List.getElem_mem hmid
      · -- the name can only stand before the middle
        refine ih l ((l + u) / 2) (by omega) (by omega) fun i hi hname => ?_
        obtain ⟨hl, -⟩ := hout i hi hname
        refine ⟨hl, ?_⟩
        rcases Nat.lt_trichotomy i ((l + u) / 2) with hlt | rfl | hgt
        · exact hlt
        · exact absurd hname.symm heq
        · have hup := hle _ i hmid hi hgt
          rw [hname] at hup
          exact absurd (strcmpLe_antisymm hbelow hup) heq
      · -- the name can only stand behind the middle
        refine ih ((l + u) / 2 + 1) u hu (by omega) fun i hi hname => ?_
        obtain ⟨-, hiu⟩ := hout i hi hname
        refine ⟨?_, hiu⟩
        rcases Nat.lt_trichotomy i ((l + u) / 2) with hlt | rfl | hgt
        · have hdown := hle i _ hi hmid hlt
          rw [hname] at hdown
          exact absurd hdown hbelow
        · exact absurd hname.symm heq
        · omega
    · rw [if_neg hlu]
      simp only [Bool.false_eq_true, false_iff]
      intro hmem
      obtain ⟨i, hi, hname⟩ := List.mem_iff_getElem.mp hmem
      have := hout i hi hname
      omega

/-- The symbols in the text of `/proc/kallsyms`. -/
def kernelSymbols (file : List U8) : List (List U8) :=
  (fgetsInto 512 511 file).filterMap fun buf => thirdField (textOf buf)

/-- `ksyms_has` finds exactly the symbols that `ksyms_load` has read. -/
theorem ksymsHas_iff {file : List U8} {names : List (List U8)} (h : ksymsLoad (some file) = some names)
    (name : List U8) : ksymsHas names name = true ↔ name ∈ kernelSymbols file := by
  have hnames : (kernelSymbols file).mergeSort strcmpLe = names := Option.some.inj h
  have hs : names.Pairwise fun a b => strcmpLe a b = true := by
    rw [← hnames]
    have htrans : ∀ a b c, strcmpLe a b = true → strcmpLe b c = true → strcmpLe a c = true :=
      fun _ _ _ => strcmpLe_trans
    exact List.pairwise_mergeSort htrans strcmpLe_total _
  rw [ksymsHas, bsearch_iff hs name (names.length + 1) 0 names.length le_rfl (by omega)
    (fun i hi _ => ⟨Nat.zero_le i, hi⟩), ← hnames, List.mem_mergeSort]

/-! ## Names and sections -/

theorem base_ne_nil (h : Hook) : text h.base ≠ [] := by
  cases h <;> simp [text, Hook.base]

theorem baseName_only (h : Hook) (hk : .only ∈ h.kinds) : baseName (text h.base) = text h.base := by
  cases h <;> first | exact absurd hk (by decide) | decide +kernel

/-- `base_len` cuts off the suffix and nothing else. -/
theorem baseName_name {p : Program} (hp : p.kind ∈ p.hook.kinds) : baseName p.name = text p.hook.base := by
  obtain ⟨h, k⟩ := p
  have hpos := List.length_pos_of_ne_nil (base_ne_nil h)
  have hcut : ∀ s : List U8, s.length = 3 → s ∈ [text "_fe", text "_fx", text "_kp", text "_kr"] →
      baseName (text h.base ++ s) = text h.base := by
    intro s hlen hs
    unfold baseName
    have hdrop : (text h.base ++ s).length - 3 = (text h.base).length := by
      rw [List.length_append]
      omega
    rw [hdrop, List.drop_left, List.take_left, if_pos ⟨by rw [List.length_append]; omega, hs⟩]
  cases k with
  | fe => exact hcut (text "_fe") (by simp [text]) (by simp)
  | fx => exact hcut (text "_fx") (by simp [text]) (by simp)
  | kp => exact hcut (text "_kp") (by simp [text]) (by simp)
  | kr => exact hcut (text "_kr") (by simp [text]) (by simp)
  | only =>
    have hname : (Program.mk h .only).name = text h.base := by simp [Program.name, Kind.suffix, text]
    rw [hname]
    exact baseName_only h hp

/-- The symbol that tells whether a hook can attach. -/
def symbolOf (h : Hook) : Option (List U8) :=
  match h.point with
  | .usdt => none
  | .tracepoint name => some (cutText 256 (text "__tracepoint_" ++ text name))
  | .function name => some (text name)

/-- A hook on a function has programs of both flavours and no other. -/
theorem kind_ne_only {h : Hook} {k : Kind} (hk : k ∈ h.kinds) {name : String} (hpoint : h.point = .function name) :
    k ≠ .only := by
  rintro rfl
  cases h <;> first | exact absurd hk (by decide) | cases hpoint

/-- Where a program attaches is found out from its hook. -/
theorem targetPresent_eq (names : List (List U8)) {p : Program} (hp : p.kind ∈ p.hook.kinds) :
    (targetPresent names p).1 = (symbolOf p.hook).all (ksymsHas names) := by
  obtain ⟨h, k⟩ := p
  match hpoint : h.point with
  | .usdt => simp [targetPresent, isUsdt, Program.sec, symbolOf, hpoint]
  | .tracepoint name =>
    simp [targetPresent, isUsdt, Program.sec, symbolOf, hpoint, attachPoint, text]
  | .function name =>
    have hne := kind_ne_only hp hpoint
    cases k with
    | only => exact absurd rfl hne
    | fe => simp [targetPresent, isUsdt, Program.sec, symbolOf, hpoint, attachPoint, text]
    | fx => simp [targetPresent, isUsdt, Program.sec, symbolOf, hpoint, attachPoint, text]
    | kp => simp [targetPresent, isUsdt, Program.sec, symbolOf, hpoint, attachPoint, text]
    | kr => simp [targetPresent, isUsdt, Program.sec, symbolOf, hpoint, attachPoint, text]

/-- The flavour of the programs of a kind. -/
def Kind.flavour : Kind → Flavour
  | .fe | .fx => .fentry
  | .kp | .kr => .kprobe
  | .only => .common

/-- A hook on a tracepoint or a probe has one program. -/
theorem kind_eq_only {h : Hook} {k : Kind} (hk : k ∈ h.kinds) (hpoint : ∀ name, h.point ≠ .function name) :
    k = .only := by
  cases h <;> first | exact absurd rfl (hpoint _) | exact List.mem_singleton.mp hk

/-- The flavour of a program is that of its kind. -/
theorem flavourOf_eq {p : Program} (hp : p.kind ∈ p.hook.kinds) : flavourOf p = p.kind.flavour := by
  obtain ⟨h, k⟩ := p
  match hpoint : h.point with
  | .usdt =>
    obtain rfl := kind_eq_only hp (by simp [hpoint])
    simp [flavourOf, Program.sec, hpoint, text, Kind.flavour]
  | .tracepoint name =>
    obtain rfl := kind_eq_only hp (by simp [hpoint])
    simp [flavourOf, Program.sec, hpoint, text, Kind.flavour]
  | .function name =>
    have hne := kind_ne_only hp hpoint
    cases k with
    | only => exact absurd rfl hne
    | fe => simp [flavourOf, Program.sec, hpoint, text, Kind.flavour]
    | fx => simp [flavourOf, Program.sec, hpoint, text, Kind.flavour]
    | kp => simp [flavourOf, Program.sec, hpoint, text, Kind.flavour]
    | kr => simp [flavourOf, Program.sec, hpoint, text, Kind.flavour]

theorem mem_programs {d : Object} {p : Program} : p ∈ d.programs ↔ p.hook ∈ d.hooks ∧ p.kind ∈ p.hook.kinds := by
  obtain ⟨h, k⟩ := p
  simp only [Object.programs, List.mem_flatMap, List.mem_map, Program.mk.injEq]
  constructor
  · rintro ⟨h', hh, k', hk, rfl, rfl⟩
    exact ⟨hh, hk⟩
  · rintro ⟨hh, hk⟩
    exact ⟨h, hh, k, hk, rfl, rfl⟩

/-! ## Choosing -/

section Choosing

variable {d : Object} {e : Selection} {p q : Program}

/-- What is decided about a program depends on its hook and its flavour. -/
theorem keep_congr (hp : p.kind ∈ p.hook.kinds) (hq : q.kind ∈ q.hook.kinds) (hhook : p.hook = q.hook)
    (hfl : flavourOf p = flavourOf q) : chooseProgram d e p = .keep ↔ chooseProgram d e q = .keep := by
  have hbase : baseName p.name = baseName q.name := by rw [baseName_name hp, baseName_name hq, hhook]
  have hpresent : (targetPresent e.names p).1 = (targetPresent e.names q).1 := by
    rw [targetPresent_eq _ hp, targetPresent_eq _ hq, hhook]
  unfold chooseProgram isRequired skipped fallbackFor inList
  rw [hbase, hpresent, hfl]
  split_ifs <;> simp

/-- A program that stays is of the flavour, and the kernel has where it attaches. -/
theorem of_keep (hp : p.kind ∈ p.hook.kinds) (h : chooseProgram d e p = .keep) :
    (flavourOf p = .common ∨ flavourOf p = e.fl) ∧ (symbolOf p.hook).all (ksymsHas e.names) = true ∧
      ∀ f, fallbackFor p.name = some f → ksymsHas e.names f = false := by
  unfold chooseProgram at h
  split_ifs at h with hoff hskip hpresent
  simp only [not_or, not_and, not_not, Bool.not_eq_true] at hoff
  obtain ⟨hfl, -, hfall⟩ := hoff
  refine ⟨?_, by rw [← targetPresent_eq _ hp]; exact hpresent, ?_⟩
  · by_cases hc : flavourOf p = .common
    · exact Or.inl hc
    · exact Or.inr (hfl hc)
  · intro f hf
    rw [hf] at hfall
    exact hfall

theorem required_plain (d : Object) (r : Hook) (hr : r ∈ d.required) :
    (exactOnly.any fun h => text h.base == text r.base) = false ∧
      (fallbacks.find? fun f => text f.1.base == text r.base) = none := by
  revert r
  cases d <;> decide +kernel

/-- A required program that is not skipped stays, or nothing is loaded. -/
theorem required_choice (hp : p.kind ∈ p.hook.kinds) (hr : p.hook ∈ d.required)
    (hfl : flavourOf p = .common ∨ flavourOf p = e.fl) (hskip : skipped e.skip p.name = false) :
    chooseProgram d e p = if (symbolOf p.hook).all (ksymsHas e.names) then .keep
      else .giveUp (.notFound (targetPresent e.names p).2) := by
  obtain ⟨hexact, hfall⟩ := required_plain d p.hook hr
  have hreq : isRequired d p.name = true := by
    rw [isRequired, inList, baseName_name hp, List.any_eq_true]
    exact ⟨p.hook, hr, beq_self_eq_true _⟩
  have hnot : ¬ ((flavourOf p ≠ .common ∧ flavourOf p ≠ e.fl) ∨ (e.exactQueues = false ∧ inList exactOnly p.name = true) ∨
      (fallbackFor p.name).any (ksymsHas e.names) = true) := by
    rintro (⟨hc, hne⟩ | ⟨-, hex⟩ | hf)
    · rcases hfl with h | h
      · exact hc h
      · exact hne h
    · rw [inList, baseName_name hp, hexact] at hex
      cases hex
    · rw [fallbackFor, baseName_name hp, hfall] at hf
      cases hf
  unfold chooseProgram
  rw [if_neg hnot, hskip, targetPresent_eq _ hp, hreq]
  simp

/-- The loop of `select_programs` keeps the programs in order, unless it gives up on one. -/
theorem selectLoop_eq (d : Object) (e : Selection) (ps : List Program) :
    ((selectLoop d e ps).1 = none ↔ ∃ p ∈ ps, ∃ msg, chooseProgram d e p = .giveUp msg) ∧
      ∀ kept, (selectLoop d e ps).1 = some kept → kept = ps.filter fun p => chooseProgram d e p = .keep := by
  induction ps with
  | nil => simp [selectLoop]
  | cons p ps ih =>
    obtain ⟨hnone, hsome⟩ := ih
    cases hp : chooseProgram d e p with
    | keep =>
      refine ⟨?_, ?_⟩
      · simp [selectLoop, hp, hnone]
      · intro kept hkept
        simp only [selectLoop, hp, Option.map_eq_some_iff] at hkept
        obtain ⟨rest, hrest, rfl⟩ := hkept
        simp [hp, hsome rest hrest]
    | disable msg =>
      refine ⟨?_, ?_⟩
      · simp [selectLoop, hp, hnone]
      · intro kept hkept
        simp only [selectLoop, hp] at hkept
        simp [hp, hsome kept hkept]
    | giveUp msg => simp [selectLoop, hp]

/-- Only a required program makes `select_programs` give up. -/
theorem of_giveUp (hp : p.kind ∈ p.hook.kinds) (h : ∃ msg, chooseProgram d e p = .giveUp msg) :
    isRequired d p.name = true ∧ (flavourOf p = .common ∨ flavourOf p = e.fl) ∧ skipped e.skip p.name = false ∧
      ∃ s, symbolOf p.hook = some s ∧ ksymsHas e.names s = false := by
  obtain ⟨msg, h⟩ := h
  unfold chooseProgram at h
  split_ifs at h with hoff hskip hpresent hreq
  simp only [not_or, not_and, not_not, Bool.not_eq_true] at hoff hskip hpresent
  rw [targetPresent_eq _ hp] at hpresent
  refine ⟨hreq, ?_, hskip, ?_⟩
  · by_cases hc : flavourOf p = .common
    · exact Or.inl hc
    · exact Or.inr (hoff.1 hc)
  · cases hs : symbolOf p.hook with
    | none => simp [hs] at hpresent
    | some s => exact ⟨s, rfl, by simpa [hs] using hpresent⟩

/-- Every required hook has programs of both flavours, or one for both. -/
theorem required_programs (d : Object) (fl : Flavour) (hfl : fl ≠ .common) :
    ∀ r ∈ d.required, r ∈ d.hooks ∧ ∃ k ∈ r.kinds, k.flavour = .common ∨ k.flavour = fl := by
  cases fl with
  | common => exact absurd rfl hfl
  | fentry => cases d <;> decide
  | kprobe => cases d <;> decide

end Choosing

/-! ## What is loaded -/

/-- For every object, flavour, setting of `NTPROF_SKIP` and text of `/proc/kallsyms`: an object is not loaded only
because the kernel lacks the attach point of a required program. What is loaded is of the one flavour, has its attach
point in the kernel, has every required hook that is not skipped, has the entry and the exit of a hook both or neither,
and does not time the sending of a command twice. -/
theorem select_programs_complete (file : List U8) (d : Object) (e : Selection) (quiet : Bool)
    (hnames : ksymsLoad (some file) = some e.names) (hfl : e.fl ≠ .common) :
    ((selectPrograms d e quiet).1 = none →
      ∃ p ∈ d.programs, isRequired d p.name = true ∧ skipped e.skip p.name = false ∧
        (flavourOf p = .common ∨ flavourOf p = e.fl) ∧
        ∃ s, symbolOf p.hook = some s ∧ s ∉ kernelSymbols file) ∧
    ∀ kept, (selectPrograms d e quiet).1 = some kept →
      (∀ p ∈ kept, p ∈ d.programs ∧ (flavourOf p = .common ∨ flavourOf p = e.fl) ∧
        ∀ s, symbolOf p.hook = some s → s ∈ kernelSymbols file) ∧
      (∀ r ∈ d.required, (∀ l, e.skip = some l → text r.base ∉ l.splitOn 0x2c#8) → ∃ p ∈ kept, p.hook = r) ∧
      (∀ p ∈ d.programs, ∀ q ∈ d.programs, p.hook = q.hook → flavourOf p = flavourOf q → (p ∈ kept ↔ q ∈ kept)) ∧
      ∀ p ∈ kept, ∀ q ∈ kept, p.hook = .hSendCmd → fallbackFor q.name = none := by
  obtain ⟨hnone, hsome⟩ := selectLoop_eq d e d.programs
  have hfst : (selectPrograms d e quiet).1 = (selectLoop d e d.programs).1 := rfl
  rw [hfst]
  refine ⟨?_, ?_⟩
  · intro h
    obtain ⟨p, hp, hgive⟩ := hnone.mp h
    obtain ⟨hreq, hflav, hskip, s, hs, hmiss⟩ := of_giveUp (mem_programs.mp hp).2 hgive
    refine ⟨p, hp, hreq, hskip, hflav, s, hs, ?_⟩
    rw [← ksymsHas_iff hnames, hmiss]
    simp
  · intro kept hkept
    obtain rfl := hsome kept hkept
    have hmem : ∀ p, p ∈ d.programs.filter (fun p => chooseProgram d e p = .keep) ↔
        p ∈ d.programs ∧ chooseProgram d e p = .keep := by simp
    refine ⟨?_, ?_, ?_, ?_⟩
    · intro p hp
      obtain ⟨hp, hkeep⟩ := (hmem p).mp hp
      obtain ⟨hflav, hall, -⟩ := of_keep (mem_programs.mp hp).2 hkeep
      refine ⟨hp, hflav, fun s hs => ?_⟩
      rw [hs, Option.all_some] at hall
      exact (ksymsHas_iff hnames s).mp hall
    · intro r hr hskip
      obtain ⟨hhook, k, hk, hflav⟩ := required_programs d e.fl hfl r hr
      have hp : (⟨r, k⟩ : Program) ∈ d.programs := mem_programs.mpr ⟨hhook, hk⟩
      have hskip' : skipped e.skip (Program.mk r k).name = false := by
        rw [skipped, baseName_name (p := ⟨r, k⟩) hk]
        cases he : e.skip with
        | none => rfl
        | some l => simpa using hskip l he
      have hchoice := required_choice (d := d) (p := ⟨r, k⟩) hk hr
        (by rw [flavourOf_eq (p := ⟨r, k⟩) hk]; exact hflav) hskip'
      refine ⟨⟨r, k⟩, (hmem _).mpr ⟨hp, ?_⟩, rfl⟩
      split_ifs at hchoice with hall
      · exact hchoice
      · have hgive := hnone.mpr ⟨_, hp, _, hchoice⟩
        rw [hkept] at hgive
        cases hgive
    · intro p hp q hq hhook hflav
      rw [hmem, hmem, keep_congr (mem_programs.mp hp).2 (mem_programs.mp hq).2 hhook hflav]
      exact ⟨fun h => ⟨hq, h.2⟩, fun h => ⟨hp, h.2⟩⟩
    · intro p hp q hq hsend
      obtain ⟨hp, hkeep⟩ := (hmem p).mp hp
      obtain ⟨hq, hkeepq⟩ := (hmem q).mp hq
      obtain ⟨-, hall, -⟩ := of_keep (mem_programs.mp hp).2 hkeep
      obtain ⟨-, -, hfall⟩ := of_keep (mem_programs.mp hq).2 hkeepq
      cases hf : fallbackFor q.name with
      | none => rfl
      | some f =>
        have hfun : f = text "nvme_tcp_try_send_cmd_pdu" := by
          obtain ⟨g, hg, rfl⟩ := Option.map_eq_some_iff.mp hf
          have hmemf := List.mem_of_find?_eq_some hg
          simp only [fallbacks, List.mem_cons, List.not_mem_nil, or_false] at hmemf
          rcases hmemf with rfl | rfl | rfl | rfl <;> rfl
        have hmiss := hfall f hf
        rw [hsend] at hall
        simp only [symbolOf, Hook.point, Option.all_some] at hall
        rw [hfun, hall] at hmiss
        cases hmiss

/-- A line of `/proc/kallsyms`. -/
def oneSymbol : List U8 := text "ffff T tcp_sendmsg\n"

/-- The selection on a kernel with this symbol. -/
def oneSelection : Selection where
  names := [text "tcp_sendmsg"]
  fl := .kprobe

theorem select_programs_one_symbol :
    ksymsLoad (some oneSymbol) = some oneSelection.names ∧
      ∃ kept, (selectPrograms .spdkTcpTarget oneSelection false).1 = some kept ∧ ⟨.sSendmsg, .kp⟩ ∈ kept ∧
        (∃ p ∈ kept, p.hook = .uNvmfTcpDone) ∧ ∀ p ∈ kept, p.hook ≠ .sRecvmsg := by
  have hsymbols : kernelSymbols oneSymbol = [text "tcp_sendmsg"] := by decide +kernel
  have hnames : ksymsLoad (some oneSymbol) = some oneSelection.names := by
    show some ((kernelSymbols oneSymbol).mergeSort strcmpLe) = _
    rw [hsymbols, List.mergeSort_singleton]
    rfl
  have hkept : (selectPrograms .spdkTcpTarget oneSelection false).1 =
      some [⟨.sSendmsg, .kp⟩, ⟨.uNvmfTcpDone, .only⟩] := by decide +kernel
  obtain ⟨-, hsome⟩ := select_programs_complete oneSymbol .spdkTcpTarget oneSelection false hnames (by decide)
  obtain ⟨hpresent, hrequired, -⟩ := hsome _ hkept
  refine ⟨hnames, _, hkept, by simp, hrequired .uNvmfTcpDone (by decide) (fun l hl => by cases hl), ?_⟩
  -- `tcp_recvmsg` is no symbol of this kernel
  intro p hp hrecv
  obtain ⟨-, -, hsymbol⟩ := hpresent p hp
  have hmem := hsymbol (text "tcp_recvmsg") (by rw [hrecv]; rfl)
  rw [hsymbols] at hmem
  revert hmem
  decide +kernel

end Ntprof.Loader
