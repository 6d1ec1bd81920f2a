import Ntprof.CommandLine
import Ntprof.Proofs.SizeFilterProofs

/-!
# The command line

The two scans of `main` see the same options and files, and the options override the ini file.
-/

namespace Ntprof.CommandLine

/-! ## What an option sets -/

/-- The type of what an option sets; `Unit` for those that set nothing. -/
def Opt.Field : Opt → Type
  | .role | .duration | .interval | .sample => U32
  | .transport => Bpf.Transport
  | .output | .json | .session | .btf | .spdkHost | .spdkTarget => List U8
  | .ioType => IoType
  | .size => List U32
  | .aggregation => Aggr
  | .offline | .exactQueues | .kprobes | .fentry | .detail | .allGroups => Bool
  | .config | .verbose | .version | .help => Unit

/-- What a configuration holds of it. -/
def Opt.get (o : Opt) (c : RunConfig) : o.Field :=
  match o with
  | .role => c.role
  | .transport => c.transport
  | .duration => c.durationS
  | .interval => c.intervalS
  | .sample => c.sampleEvery
  | .output => c.output
  | .json => c.json
  | .session => c.session
  | .ioType => c.ioType
  | .size => c.sizes.toList.take c.nSizes
  | .aggregation => c.aggr
  | .offline => c.online
  | .btf => c.btfDir
  | .exactQueues => c.exactQueues
  | .kprobes => c.forceKprobes
  | .fentry => c.forceFentry
  | .spdkHost => c.spdkHost
  | .spdkTarget => c.spdkTarget
  | .detail => c.repDetail
  | .allGroups => c.repAllGroups
  | .config | .verbose | .version | .help => ()

/-- A text of a list of sizes is one. -/
def tokenAccepted (tok : List U8) : Prop :=
  (parseSize (strip tok) 0).1 = 0 ∧ 0 < tokenSize tok ∧ tokenSize tok < 2 ^ 32

instance decidableTokenAccepted (tok : List U8) : Decidable (tokenAccepted tok) :=
  inferInstanceAs (Decidable (_ ∧ _ ∧ _))

/-- The sizes that a text lists. -/
def sizesOf (v : List U8) : Option (List U32) :=
  if (commaTokens v).length ≤ ntpMaxSizeFilters ∧ ∀ tok ∈ commaTokens v, tokenAccepted tok then
    some ((commaTokens v).map fun tok => BitVec.ofNat 32 (tokenSize tok))
  else none

/-- The value that a text denotes for an option. -/
def Opt.value (o : Opt) (v : List U8) : Option o.Field :=
  match o with
  | .role =>
    if v = text "host" then some ntpRoleHost
    else if v = text "target" then some ntpRoleTarget
    else if v = text "both" then some ntpRoleBoth
    else none
  | .transport => if v = text "tcp" then some .tcp else if v = text "rdma" then some .rdma else none
  | .duration | .interval | .sample => parseUint v 1
  | .output | .json | .btf => some (cutText 256 v)
  | .session => some (cutText 64 v)
  | .spdkHost | .spdkTarget => some (cutText 512 v)
  | .ioType =>
    if sameText v (text "read") then some .read
    else if sameText v (text "write") then some .write
    else if sameText v (text "both") then some .both
    else none
  | .size => sizesOf v
  | .aggregation =>
    if sameText v (text "avg") then some .avg
    else if sameText v (text "min") then some .min
    else if sameText v (text "max") then some .max
    else if sameText v (text "dist") then some .dist
    else none
  | .offline => some false
  | .exactQueues | .kprobes | .fentry | .detail | .allGroups => some true
  | .config | .verbose | .version | .help => some ()

/-- What no option sets. -/
def unset (c : RunConfig) : NtpConfig :=
  { minSize := c.minSize
    maxSize := c.maxSize
    dataDir := c.dataDir
    bufferMb := c.bufferMb
    repDistribution := c.repDistribution
    repThroughput := c.repThroughput
    repBreakdown := c.repBreakdown
    repQueueLength := c.repQueueLength
    groupBySize := c.groupBySize
    groupByType := c.groupByType
    groupBySession := c.groupBySession }

/-- `d` is `c` with the value `x` for the option `o`. -/
structure Sets (o : Opt) (x : o.Field) (c d : RunConfig) : Prop where
  value : o.get d = x
  others : ∀ o' : Opt, o' ≠ o → o'.get d = o'.get c
  unset : unset d = unset c

/-- The last argument that is given for an option. -/
def lastOf (o : Opt) : List (Opt × Option (List U8)) → Option (Option (List U8))
  | [] => none
  | (o', arg) :: os => (lastOf o os).or (if o' = o then some arg else none)

/-- `d` is `c` with the last value of each option given. -/
structure Overridden (os : List (Opt × Option (List U8))) (c d : RunConfig) : Prop where
  given : ∀ o arg, lastOf o os = some arg → o.value (arg.getD []) = some (o.get d)
  others : ∀ o, lastOf o os = none → o.get d = o.get c
  unset : unset d = unset c

/-! ## The list of sizes -/

/-- A token that is not a size of 32 bits is refused. -/
theorem setSizesLoop_eq (sizes : Vector U32 ntpMaxSizeFilters) (n : ℕ) (tok : List U8) (toks : List (List U8)) :
    setSizesLoop sizes n (tok :: toks) =
      if n = ntpMaxSizeFilters ∨ ¬ tokenAccepted tok then (sizes, n, -1)
      else setSizesLoop (sizes.setIfInBounds n (BitVec.ofNat 32 (tokenSize tok))) (n + 1) toks := by
  have hzero : (parseSize (strip tok) 0).2 = 0 ↔ tokenSize tok = 0 := by
    rw [tokenSize, ← BitVec.toNat_inj]
    rfl
  have hlarge : 0xffffffff#64 < (parseSize (strip tok) 0).2 ↔ 2 ^ 32 ≤ tokenSize tok := by
    rw [BitVec.lt_def]
    have hmax : (0xffffffff#64).toNat = 2 ^ 32 - 1 := rfl
    unfold tokenSize
    omega
  have hbad : ((parseSize (strip tok) 0).1 ≠ 0 ∨ (parseSize (strip tok) 0).2 = 0 ∨
      0xffffffff#64 < (parseSize (strip tok) 0).2) ↔ ¬ tokenAccepted tok := by
    rw [hzero, hlarge, tokenAccepted]
    omega
  have hstep : setSizesLoop sizes n (tok :: toks) =
      if n = ntpMaxSizeFilters then (sizes, n, -1)
      else if (parseSize (strip tok) 0).1 ≠ 0 ∨ (parseSize (strip tok) 0).2 = 0 ∨
          0xffffffff#64 < (parseSize (strip tok) 0).2 then (sizes, n, -1)
      else setSizesLoop (sizes.setIfInBounds n ((parseSize (strip tok) 0).2.setWidth 32)) (n + 1) toks := rfl
  rw [hstep]
  by_cases hn : n = ntpMaxSizeFilters
  · rw [if_pos hn, if_pos (Or.inl hn)]
  · by_cases htok : tokenAccepted tok
    · rw [if_neg hn, if_neg (fun h => hbad.mp h htok), if_neg (by tauto)]
      rfl
    · rw [if_neg hn, if_pos (hbad.mpr htok), if_pos (Or.inr htok)]

/-- Which lists of sizes are accepted does not depend on the sizes before. -/
theorem setSizesLoop_ret {toks : List (List U8)} {sizes : Vector U32 ntpMaxSizeFilters} {n : ℕ}
    (hn : n ≤ ntpMaxSizeFilters) :
    (setSizesLoop sizes n toks).2.2 = 0 ↔ n + toks.length ≤ ntpMaxSizeFilters ∧ ∀ tok ∈ toks, tokenAccepted tok := by
  induction toks generalizing sizes n with
  | nil => simpa [setSizesLoop] using hn
  | cons tok toks ih =>
    rw [setSizesLoop_eq, List.length_cons]
    by_cases hbad : n = ntpMaxSizeFilters ∨ ¬ tokenAccepted tok
    · rw [if_pos hbad]
      constructor
      · intro h
        cases h
      · rintro ⟨hlen, hall⟩
        rcases hbad with hfull | htok
        · omega
        · exact absurd (hall tok List.mem_cons_self) htok
    · rw [if_neg hbad]
      rw [not_or, not_not] at hbad
      rw [ih (by omega), List.forall_mem_cons]
      constructor
      · rintro ⟨hlen, hall⟩
        exact ⟨by omega, hbad.2, hall⟩
      · rintro ⟨hlen, -, hall⟩
        exact ⟨by omega, hall⟩

/-- `config_set_sizes` sets the sizes of its text, if they are accepted. -/
theorem configSetSizes_spec (c : NtpConfig) (v : List U8) :
    (sizesOf v = none ∧ (configSetSizes c v).1 ≠ 0) ∨
      ∃ xs, sizesOf v = some xs ∧ (configSetSizes c v).1 = 0 ∧
        (configSetSizes c v).2.sizes.toList.take (configSetSizes c v).2.nSizes = xs := by
  have hret : (setSizesLoop c.sizes 0 (commaTokens v)).2.2 = 0 ↔ _ := setSizesLoop_ret (Nat.zero_le _)
  rw [Nat.zero_add] at hret
  by_cases hok : (setSizesLoop c.sizes 0 (commaTokens v)).2.2 = 0
  · right
    refine ⟨_, if_pos (hret.mp hok), hok, ?_⟩
    obtain ⟨hcount, hbound, -, hgiven⟩ := setSizesLoop_accepted (Nat.zero_le _) hok
    have hn : (configSetSizes c v).2.nSizes = (commaTokens v).length := by
      show (if (setSizesLoop c.sizes 0 (commaTokens v)).2.2 = 0 then _ else _) = _
      rw [if_pos hok, hcount, Nat.zero_add]
    rw [hn]
    apply List.ext_getElem?
    intro i
    rw [List.getElem?_take]
    by_cases hi : i < (commaTokens v).length
    · rw [if_pos hi]
      obtain ⟨x, hx, hval⟩ := hgiven i (tokenSize (commaTokens v)[i]) (by simp [hi])
      rw [Nat.zero_add] at hx
      have hlist : (configSetSizes c v).2.sizes.toList[i]? = some x := by
        rw [Vector.getElem?_toList]
        exact hx
      rw [hlist, List.getElem?_map, List.getElem?_eq_getElem hi, Option.map_some, ← hval, BitVec.ofNat_toNat,
        BitVec.setWidth_eq]
    · rw [if_neg hi, List.getElem?_eq_none (by simpa using hi)]
  · left
    exact ⟨if_neg fun h => hok (hret.mpr h), hok⟩

/-! ## One option -/

/-- `main` passes over these options in its second pass, or ends at them in the first. -/
def Opt.setsNothing : Opt → Bool
  | .config | .verbose | .version | .help => true
  | _ => false

theorem sets_self {o : Opt} (h : o.setsNothing = true) (v : List U8) (c : RunConfig) :
    ∃ x, o.value v = some x ∧ Sets o x c c := by
  refine ⟨o.get c, ?_, rfl, fun _ _ => rfl, rfl⟩
  cases o <;> first | rfl | cases h

/-- An option with a value that it takes. -/
def Applied (c : RunConfig) (o : Opt) (v : List U8) : Prop :=
  (o.value v = none ∧ applyOption c o v = .error (.bad o v)) ∨
    ∃ x d, o.value v = some x ∧ applyOption c o v = .ok d ∧ Sets o x c d

/-- The configuration with a value for an option; the array of sizes has no such form. -/
def Opt.put (o : Opt) (c : RunConfig) (x : o.Field) : RunConfig :=
  match o with
  | .role => { c with role := x }
  | .transport => { c with transport := x }
  | .duration => { c with durationS := x }
  | .interval => { c with intervalS := x }
  | .sample => { c with sampleEvery := x }
  | .output => { c with output := x }
  | .json => { c with json := x }
  | .session => { c with session := x }
  | .ioType => { c with ioType := x }
  | .aggregation => { c with aggr := x }
  | .offline => { c with online := x }
  | .btf => { c with btfDir := x }
  | .exactQueues => { c with exactQueues := x }
  | .kprobes => { c with forceKprobes := x }
  | .fentry => { c with forceFentry := x }
  | .spdkHost => { c with spdkHost := x }
  | .spdkTarget => { c with spdkTarget := x }
  | .detail => { c with repDetail := x }
  | .allGroups => { c with repAllGroups := x }
  | .size | .config | .verbose | .version | .help => c

theorem sets_put {o : Opt} (h : o ≠ .size) (c : RunConfig) (x : o.Field) : Sets o x c (o.put c x) := by
  constructor
  · cases o <;> first | rfl | exact absurd rfl h
  · intro o' hne
    cases o <;> cases o' <;> first | rfl | exact absurd rfl hne
  · cases o <;> rfl

/-- `apply_option` for the options other than `--size`. -/
theorem applyOption_eq {o : Opt} (hsets : o.setsNothing = false) (h : o ≠ .size) (c : RunConfig) (v : List U8) :
    applyOption c o v = orBad o v ((o.value v).map (o.put c)) := by
  cases o with
  | config | verbose | version | help => cases hsets
  | size => exact absurd rfl h
  | role =>
    simp only [applyOption, Opt.value]
    split_ifs <;> rfl
  | transport =>
    simp only [applyOption, Opt.value]
    split_ifs <;> rfl
  | ioType =>
    simp only [applyOption, Opt.value, configSetIoType]
    split_ifs <;> rfl
  | aggregation =>
    simp only [applyOption, Opt.value, configSetAggr]
    split_ifs <;> rfl
  | _ => rfl

theorem applied_size (c : RunConfig) (v : List U8) : Applied c .size v := by
  rcases configSetSizes_spec c.toNtpConfig v with ⟨hv, hret⟩ | ⟨xs, hv, hret, hxs⟩
  · have hnone : setWith c (configSetSizes c.toNtpConfig v) = none := if_neg hret
    exact Or.inl ⟨hv, congrArg (orBad .size v) hnone⟩
  · have hsome : setWith c (configSetSizes c.toNtpConfig v) =
        some { c with toNtpConfig := (configSetSizes c.toNtpConfig v).2 } := if_pos hret
    refine Or.inr ⟨xs, _, hv, congrArg (orBad .size v) hsome, hxs, fun o hne => ?_, rfl⟩
    cases o <;> first | rfl | exact absurd rfl hne

/-- `apply_option` sets what its option names, or refuses the value, whatever the configuration. -/
theorem applied_option {o : Opt} (hsets : o.setsNothing = false) (c : RunConfig) (v : List U8) : Applied c o v := by
  by_cases h : o = .size
  · subst h
    exact applied_size c v
  have heq := applyOption_eq hsets h c v
  rcases hv : o.value v with _ | x
  · rw [hv] at heq
    exact Or.inl ⟨hv, heq⟩
  · rw [hv] at heq
    exact Or.inr ⟨x, o.put c x, hv, heq, sets_put h c x⟩

/-! ## The passes -/

theorem lastOf_cons_self (o : Opt) (arg : Option (List U8)) (os : List (Opt × Option (List U8))) :
    lastOf o ((o, arg) :: os) = some ((lastOf o os).getD arg) := by
  rw [lastOf, if_pos rfl]
  cases lastOf o os <;> rfl

theorem lastOf_cons_ne {o o' : Opt} (h : o ≠ o') (arg : Option (List U8)) (os : List (Opt × Option (List U8))) :
    lastOf o ((o', arg) :: os) = lastOf o os := by
  rw [lastOf, if_neg h.symm, Option.or_none]

/-- One more option in front. -/
theorem Overridden.cons {o : Opt} {arg : Option (List U8)} {os : List (Opt × Option (List U8))} {c d e : RunConfig}
    {x : o.Field} (hv : o.value (arg.getD []) = some x) (hset : Sets o x c d) (h : Overridden os d e) :
    Overridden ((o, arg) :: os) c e := by
  constructor
  · intro o' arg' hlast
    by_cases hne : o' = o
    · subst hne
      rw [lastOf_cons_self, Option.some.injEq] at hlast
      subst hlast
      rcases hlater : lastOf o' os with _ | later
      · rw [Option.getD_none, hv, h.others o' hlater, hset.value]
      · exact h.given o' later hlater
    · rw [lastOf_cons_ne hne] at hlast
      exact h.given o' arg' hlast
  · intro o' hlast
    have hne : o' ≠ o := by
      rintro rfl
      rw [lastOf_cons_self] at hlast
      cases hlast
    rw [lastOf_cons_ne hne] at hlast
    rw [h.others o' hlast, hset.others o' hne]
  · rw [h.unset, hset.unset]

/-- A value that its option does not take. -/
def invalid (p : Opt × Option (List U8)) : Bool := (p.1.value (p.2.getD [])).isNone

/-- A pass from the configuration `c` stops at the first value that is not valid; without one it overrides `c`. -/
def PassResult (os : List (Opt × Option (List U8))) (c : RunConfig) (r : Except OptionError RunConfig) : Prop :=
  (∃ p, os.find? invalid = some p ∧ r = .error (.bad p.1 (p.2.getD []))) ∨
    (os.find? invalid = none ∧ ∃ d, r = .ok d ∧ Overridden os c d)

theorem PassResult.cons {o : Opt} {arg : Option (List U8)} {os : List (Opt × Option (List U8))} {c d : RunConfig}
    {x : o.Field} {r : Except OptionError RunConfig} (hv : o.value (arg.getD []) = some x) (hset : Sets o x c d)
    (h : PassResult os d r) : PassResult ((o, arg) :: os) c r := by
  have hvalid : ¬ invalid (o, arg) = true := by
    rw [invalid, hv]
    exact Bool.false_ne_true
  rw [PassResult, List.find?_cons_of_neg hvalid]
  rcases h with hbad | ⟨hnone, e, hok, hover⟩
  · exact Or.inl hbad
  · exact Or.inr ⟨hnone, e, hok, hover.cons hv hset⟩

theorem secondPass_result {os : List (Opt × Option (List U8))} (hhelp : ∀ p ∈ os, p.1 ≠ .help) (c : RunConfig) :
    PassResult os c (secondPass false c os) := by
  induction os generalizing c with
  | nil =>
    right
    refine ⟨rfl, c, rfl, fun o arg h => ?_, fun _ _ => rfl, rfl⟩
    cases h
  | cons p os ih =>
    obtain ⟨o, arg⟩ := p
    have hrest := ih fun p hp => hhelp p (List.mem_cons_of_mem _ hp)
    by_cases hskip : o = .config ∨ o = .verbose ∨ o = .version
    · have hnothing : o.setsNothing = true := by
        rcases hskip with rfl | rfl | rfl <;> rfl
      obtain ⟨x, hv, hset⟩ := sets_self hnothing (arg.getD []) c
      rw [secondPass, if_pos hskip]
      exact (hrest c).cons hv hset
    · have hsets : o.setsNothing = false := by
        have hne := hhelp (o, arg) List.mem_cons_self
        cases o <;> first | rfl | exact absurd rfl hne | simp at hskip
      rw [secondPass, if_neg hskip]
      rcases applied_option hsets c (arg.getD []) with ⟨hv, herr⟩ | ⟨x, d, hv, hok, hset⟩
      · rw [herr]
        exact Or.inl ⟨(o, arg), List.find?_cons_of_pos (by simp [invalid, hv]), rfl⟩
      · rw [hok]
        exact (hrest d).cons hv hset

/-- An option at which the first pass ends. -/
def ends (p : Opt × Option (List U8)) : Bool := p.1 == .help || p.1 == .version

/-- The first pass ends at the first `--help` or `--version`, then at an error, and else finds the last ini file. -/
theorem firstPass_eq (bad : Bool) (ini : Option (List U8)) (verbose : ℕ) (os : List (Opt × Option (List U8))) :
    firstPass bad ini verbose os =
      (os.find? ends).elim
        (if bad then .error (.usage true)
          else .ok ((lastOf .config os).getD ini, verbose + os.countP fun p => p.1 == .verbose))
        fun p => .error (if p.1 = .help then .usage false else .version) := by
  induction os generalizing ini verbose with
  | nil => rfl
  | cons p os ih =>
    obtain ⟨o, arg⟩ := p
    cases o with
    | help => rfl
    | version => rfl
    | config =>
      rw [List.find?_cons_of_neg Bool.false_ne_true, List.countP_cons_of_neg Bool.false_ne_true, lastOf_cons_self]
      exact ih arg verbose
    | verbose =>
      rw [List.find?_cons_of_neg Bool.false_ne_true, List.countP_cons_of_pos rfl, lastOf_cons_ne (by decide),
        ← Nat.add_assoc, Nat.add_right_comm]
      exact ih ini (verbose + 1)
    | _ =>
      rw [List.find?_cons_of_neg Bool.false_ne_true, List.countP_cons_of_neg Bool.false_ne_true, lastOf_cons_ne (by decide)]
      exact ih ini verbose

/-! ## The whole command line -/

/-- The words after the command, read once: what the options found in them come to. -/
def commandOnce (files : List U8 → Option (List U8)) (cmd : List U8) (args : List (List U8)) : Outcome :=
  let s := options.scan args
  match s.found.find? ends with
  | some p => if p.1 = .help then .usage false else .version
  | none =>
    if s.bad then .usage true
    else
      match startConfig files ((lastOf .config s.found).getD none) with
      | .error e => .badIni e
      | .ok c =>
        match secondPass false c s.found with
        | .error e => .badOption e
        | .ok c => runCommand cmd c s.rest (s.found.countP fun p => p.1 == .verbose)

/-- The command is not itself a request for help or for the version. -/
def isCommand (cmd : List U8) : Prop :=
  ¬ (cmd = text "-h" ∨ cmd = text "--help") ∧ ¬ (cmd = text "version" ∨ cmd = text "-V" ∨ cmd = text "--version")

/-- The second scan of `main`, over the words as the first one has left them, sees the same options and files. -/
theorem main_eq {cmd : List U8} (hcmd : isCommand cmd) (files : List U8 → Option (List U8)) (args : List (List U8)) :
    main files (cmd :: args) = commandOnce files cmd args := by
  simp only [main, commandOnce, if_neg hcmd.1, if_neg hcmd.2, firstPass_eq]
  rcases hends : (options.scan args).found.find? ends with _ | p
  · rcases hbad : (options.scan args).bad with _ | _
    · have hscan := Getopt.scan_permuted options hbad
      rcases hini : startConfig files ((lastOf .config (options.scan args).found).getD none) with e | c
      · simp only [Option.elim_none, Bool.false_eq_true, if_false, hini]
      · rcases hsecond : secondPass false c (options.scan args).found with e | d
        · simp only [Option.elim_none, Bool.false_eq_true, if_false, hscan, hbad, hini, hsecond]
        · simp only [Option.elim_none, Bool.false_eq_true, if_false, Nat.zero_add, hscan, hbad, hini, hsecond]
    · rfl
  · rfl

theorem ne_help_of_find? {os : List (Opt × Option (List U8))} (h : os.find? ends = none) : ∀ p ∈ os, p.1 ≠ .help := by
  intro p hp hhelp
  have hends := List.find?_eq_none.mp h p hp
  rw [ends, hhelp] at hends
  exact hends rfl

/-- However options and files are mixed: a command line without `--help`, `--version` and errors, whose ini file (the
last one given) can be loaded, either has a value that its option does not take and `main` refuses the first such, or
the command runs on the files in their order, each option with the last value given for it and all else as in the ini
file. -/
theorem options_override_ini (files : List U8 → Option (List U8)) (cmd : List U8) (args : List (List U8))
    (c : RunConfig) (hcmd : isCommand cmd) (hends : (options.scan args).found.find? ends = none)
    (hbad : (options.scan args).bad = false)
    (hini : startConfig files ((lastOf .config (options.scan args).found).getD none) = .ok c) :
    (∃ p, (options.scan args).found.find? invalid = some p ∧
        main files (cmd :: args) = .badOption (.bad p.1 (p.2.getD []))) ∨
      ((options.scan args).found.find? invalid = none ∧ ∃ d, Overridden (options.scan args).found c d ∧
        main files (cmd :: args) =
          runCommand cmd d (options.scan args).rest ((options.scan args).found.countP fun p => p.1 == .verbose)) := by
  rw [main_eq hcmd]
  simp only [commandOnce, hends, hbad, hini, Bool.false_eq_true, if_false]
  rcases secondPass_result (ne_help_of_find? hends) c with ⟨p, hp, herr⟩ | ⟨hnone, d, hok, hover⟩
  · left
    refine ⟨p, hp, ?_⟩
    rw [herr]
  · right
    refine ⟨hnone, d, hover, ?_⟩
    rw [hok]

/-- `ntprof report a -s 5 b -s 7`. -/
theorem last_sample_of_mixed_words :
    ∃ d, main (fun _ => none) [text "report", text "a", text "-s", text "5", text "b", text "-s", text "7"] =
      .run .report d [text "a", text "b"] 0 ∧ some (Opt.sample.get d) = parseUint (text "7") 1 := by
  have hscan : options.scan [text "a", text "-s", text "5", text "b", text "-s", text "7"] =
      { found := [(.sample, some (text "5")), (.sample, some (text "7"))]
        words := [text "-s", text "5", text "-s", text "7"]
        rest := [text "a", text "b"] } := rfl
  have h := options_override_ini (fun _ => none) (text "report")
    [text "a", text "-s", text "5", text "b", text "-s", text "7"] { toNtpConfig := configDefaults }
    (by unfold isCommand; decide) (by rw [hscan]; rfl) (by rw [hscan]) (by rw [hscan]; rfl)
  rw [hscan] at h
  rcases h with ⟨p, hp, -⟩ | ⟨-, d, hover, hrun⟩
  · have hnone : List.find? invalid [(Opt.sample, some (text "5")), (.sample, some (text "7"))] = none := by decide
    rw [hnone] at hp
    cases hp
  · exact ⟨d, hrun, (hover.given .sample _ rfl).symm⟩

end Ntprof.CommandLine
