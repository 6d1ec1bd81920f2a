import Ntprof.Proofs.SpdkMapsProofs

/-!
# Where the sampling variable is

A file of a process is mapped piece by piece: each piece of a segment at the same distance from where the segment was
linked to be, which is the file's load bias. `gate_address` finds the bias from the first segment.
-/

namespace Ntprof.Spdk

/-! ## Pages -/

/-- The start of the page of an address or of an offset. -/
def pageStart (page x : U64) : U64 := x &&& ~~~(page - 1)

theorem toNat_pageStart {k : ℕ} (hk : k < 64) (x : U64) :
    (pageStart (BitVec.twoPow 64 k) x).toNat = x.toNat / 2 ^ k * 2 ^ k := by
  have hpow : (2 : ℕ) ^ k < 2 ^ 64 := Nat.pow_lt_pow_right (by omega) hk
  have hpos : 0 < (2 : ℕ) ^ k := Nat.two_pow_pos k
  have hmask : (BitVec.twoPow 64 k - 1).toNat = 2 ^ k - 1 := by
    have hle : (1 : U64) ≤ BitVec.twoPow 64 k := by
      rw [BitVec.le_def, BitVec.toNat_twoPow_of_lt hk]
      exact hpos
    rw [BitVec.toNat_sub_of_le hle, BitVec.toNat_twoPow_of_lt hk]
    rfl
  have hshift : pageStart (BitVec.twoPow 64 k) x = (x >>> k) <<< k := by
    apply BitVec.eq_of_getLsbD_eq
    intro i hi
    have hbit : (BitVec.twoPow 64 k - 1).getLsbD i = decide (i < k) := by
      rw [BitVec.getLsbD, hmask, Nat.testBit_two_pow_sub_one]
    rw [pageStart, BitVec.getLsbD_and, BitVec.getLsbD_not, hbit, BitVec.getLsbD_shiftLeft, BitVec.getLsbD_ushiftRight]
    by_cases hik : i < k
    · simp [hik]
    · have hadd : k + (i - k) = i := by omega
      simp [hik, hi, hadd]
  rw [hshift, BitVec.toNat_shiftLeft, BitVec.toNat_ushiftRight, Nat.shiftLeft_eq, Nat.shiftRight_eq_div_pow]
  apply Nat.mod_eq_of_lt
  have hle := Nat.div_mul_le_self x.toNat (2 ^ k)
  omega

theorem pageStart_le {k : ℕ} (hk : k < 64) {x y : U64} (h : x ≤ y) :
    (pageStart (BitVec.twoPow 64 k) x).toNat ≤ (pageStart (BitVec.twoPow 64 k) y).toNat := by
  rw [toNat_pageStart hk, toNat_pageStart hk]
  exact Nat.mul_le_mul_right _ (Nat.div_le_div_right (BitVec.le_def.mp h))

/-! ## A file in memory -/

/-- A mapping holds a piece of a segment that is loaded with the bias `bias`. -/
def PieceOf (page : U64) (bias : ℕ) (seg : Phdr) (x : Mapping) : Prop :=
  ∃ d, x.start.toNat = bias + (pageStart page seg.vaddr).toNat + d ∧
    x.offset.toNat = (pageStart page seg.offset).toNat + d

/-- A file with the segments `loads`, the first of them `seg`, is mapped with the bias `bias`: as the mappings are
listed by their addresses, each one of the file holds a piece of one of its segments, one the start of the first. -/
structure LoadedAt (page : U64) (m : List Mapping) (path : List U8) (seg : Phdr) (loads : List Phdr) (bias : ℕ) :
    Prop where
  sorted : m.Pairwise fun x y => x.start ≤ y.start
  pieces : ∀ x ∈ m, x.path = path → ∃ s ∈ loads, PieceOf page bias s x
  first : ∃ x ∈ m, x.path = path ∧ x.start.toNat = bias + (pageStart page seg.vaddr).toNat ∧
    x.offset.toNat = (pageStart page seg.offset).toNat
  ascending : ∀ s ∈ loads, seg.vaddr ≤ s.vaddr

variable {k : ℕ} {m : List Mapping} {path : List U8} {seg : Phdr} {loads : List Phdr} {bias : ℕ}

/-- The first mapping with the page of the first segment is where that segment was loaded. -/
theorem LoadedAt.find (hk : k < 64) (h : LoadedAt (BitVec.twoPow 64 k) m path seg loads bias) :
    ∃ x, m.find? (fun x => x.path == path && x.offset == pageStart (BitVec.twoPow 64 k) seg.offset) = some x ∧
      x.start.toNat = bias + (pageStart (BitVec.twoPow 64 k) seg.vaddr).toNat := by
  obtain ⟨y, hy, hpath, hstart, hoff⟩ := h.first
  have hmatch : (y.path == path && y.offset == pageStart (BitVec.twoPow 64 k) seg.offset) = true := by
    rw [Bool.and_eq_true, beq_iff_eq, beq_iff_eq]
    exact ⟨hpath, BitVec.eq_of_toNat_eq hoff⟩
  rcases hfind : m.find? fun x => x.path == path && x.offset == pageStart (BitVec.twoPow 64 k) seg.offset with _ | x
  · exact absurd hmatch (List.find?_eq_none.mp hfind y hy)
  · refine ⟨x, hfind, ?_⟩
    -- `x` comes before `y`, so it does not start later; as a piece of a segment, it does not start earlier
    obtain ⟨hx, l₁, l₂, hm, hnot⟩ := List.find?_eq_some_iff_append.mp hfind
    rw [Bool.and_eq_true, beq_iff_eq, beq_iff_eq] at hx
    have hle : x.start ≤ y.start := by
      have hsorted := h.sorted
      rw [hm] at hy hsorted
      rcases List.mem_append.mp hy with hy | hy
      · have hne := hnot y hy
        rw [hmatch] at hne
        exact absurd hne (by decide)
      · rcases List.mem_cons.mp hy with rfl | hy
        · exact BitVec.le_refl _
        · exact (List.pairwise_cons.mp (List.pairwise_append.mp hsorted).2.1).1 y hy
    obtain ⟨s, hs, d, hsstart, -⟩ := h.pieces x (List.mem_of_find?_eq_some hfind) hx.1
    have hlow := pageStart_le hk (h.ascending s hs)
    rw [BitVec.le_def] at hle
    omega

/-! ## The address -/

/-- The segments of a file that are loaded. -/
def loadsOf (f : ElfFile) : List Phdr := (f.phdrs.filterMap id).filter Phdr.load

/-- The file of a path is in memory with the bias `bias`; a file with fixed addresses has none. -/
structure InMemory (sys : System) (m : List Mapping) (path : List U8) (bias : ℕ) : Prop where
  loaded : ∀ f seg, sys.elf path = some f → firstLoad f.phdrs = some seg →
    LoadedAt sys.page m path seg (loadsOf f) bias
  fixed : ∀ f, sys.elf path = some f → f.exec = true → bias = 0

/-- What `elf_find_symbol` says of a file. -/
theorem elfFindSymbol_cases {elf : Option ElfFile} {name : List U8} {s : SymLoc} (h : elfFindSymbol elf name = some s) :
    ∃ f seg, elf = some f ∧ firstLoad f.phdrs = some seg ∧ s.fixed = f.exec ∧ s.loadVaddr = seg.vaddr ∧
      s.loadOff = seg.offset := by
  rcases elf with _ | f
  · cases h
  rcases hload : firstLoad f.phdrs with _ | seg
  · simp only [elfFindSymbol, hload] at h
    cases h
  · simp only [elfFindSymbol, hload, Option.map_eq_some_iff] at h
    obtain ⟨v, -, rfl⟩ := h
    exact ⟨f, seg, rfl, hload, rfl, rfl, rfl⟩

/-- In a file with the symbol, `gate_in` finds where the symbol was loaded. -/
theorem gateIn_eq {sys : System} (hk : k < 64) (hpage : sys.page = BitVec.twoPow 64 k) (hmem : InMemory sys m path bias)
    {s : SymLoc} (hs : elfFindSymbol (sys.elf path) gateSymbol = some s) :
    gateIn sys m path = some (BitVec.ofNat 64 bias + s.value) := by
  obtain ⟨f, seg, hf, hseg, hfixed, hvaddr, hoff⟩ := elfFindSymbol_cases hs
  simp only [gateIn, hs]
  by_cases hexec : f.exec = true
  · rw [if_pos (hfixed.trans hexec), hmem.fixed f hf hexec]
    simp
  · have hload := hmem.loaded f seg hf hseg
    rw [hpage] at hload
    obtain ⟨x, hfind, hstart⟩ := hload.find hk
    rw [if_neg (by rw [hfixed]; exact hexec), hpage, hoff, hvaddr]
    simp only [pageStart] at hfind hstart
    rw [hfind, Option.map_some]
    have hx : x.start = BitVec.ofNat 64 bias + (seg.vaddr &&& ~~~(BitVec.twoPow 64 k - 1)) := by
      apply BitVec.eq_of_toNat_eq
      have hlt := x.start.isLt
      rw [BitVec.toNat_add, BitVec.toNat_ofNat, Nat.mod_add_mod, ← hstart, Nat.mod_eq_of_lt hlt]
    rw [hx, BitVec.add_sub_cancel]

theorem gateIn_none {sys : System} (hs : elfFindSymbol (sys.elf path) gateSymbol = none) : gateIn sys m path = none := by
  simp only [gateIn, hs]

/-- The file is `libspdk_sock`. -/
def IsLibrary (path : List U8) : Prop :=
  path.contains 0x2f#8 = true ∧ gateLibrary.isPrefixOf (baseName path) = true

/-- A mapped file that may have the sampling variable: one of those that are given, or the library. -/
def Candidate (m : List Mapping) (paths : List (List U8)) (path : List U8) : Prop :=
  mapsHas m path = true ∧ (path ∈ paths ∨ IsLibrary path)

theorem mapsHas_iff {m : List Mapping} {path : List U8} : mapsHas m path = true ↔ ∃ x ∈ m, x.path = path := by
  simp [mapsHas]

section Search

variable {sys : System} {paths : List (List U8)} {a : U64}

/-- The address is that of a given file, or, where no given file has one, that of the library. -/
theorem gateAddress_some (h : gateAddress sys m paths = some a) :
    ∃ path, Candidate m paths path ∧ gateIn sys m path = some a ∧
      (path ∈ paths ∨ ∀ p ∈ paths, mapsHas m p = true → gateIn sys m p = none) := by
  rw [gateAddress] at h
  rcases hgiven : paths.findSome? fun p => if mapsHas m p then gateIn sys m p else none with _ | b
  · rw [hgiven] at h
    obtain ⟨x, hx, hgate⟩ := List.exists_of_findSome?_eq_some h
    have hlib : x.path.contains 0x2f#8 = true ∧ gateLibrary.isPrefixOf (baseName x.path) = true := by
      by_contra hnot
      rw [if_neg hnot] at hgate
      cases hgate
    rw [if_pos hlib] at hgate
    refine ⟨x.path, ⟨mapsHas_iff.mpr ⟨x, hx, rfl⟩, Or.inr hlib⟩, hgate, Or.inr fun p hp hmap => ?_⟩
    have hnone := List.findSome?_eq_none_iff.mp hgiven p hp
    rwa [if_pos hmap] at hnone
  · rw [hgiven] at h
    obtain rfl := Option.some.inj h
    obtain ⟨p, hp, hgate⟩ := List.exists_of_findSome?_eq_some hgiven
    have hmap : mapsHas m p = true := by
      by_contra hnot
      rw [if_neg hnot] at hgate
      cases hgate
    rw [if_pos hmap] at hgate
    exact ⟨p, ⟨hmap, Or.inl hp⟩, hgate, Or.inl hp⟩

/-- There is no address exactly if no file has one. -/
theorem gateAddress_none_iff :
    gateAddress sys m paths = none ↔ ∀ path, Candidate m paths path → gateIn sys m path = none := by
  constructor
  · intro h path hcand
    rw [gateAddress] at h
    rcases hgiven : paths.findSome? fun p => if mapsHas m p then gateIn sys m p else none with _ | b
    · rw [hgiven] at h
      obtain ⟨hmap, hp | hlib⟩ := hcand
      · have hnone := List.findSome?_eq_none_iff.mp hgiven path hp
        rwa [if_pos hmap] at hnone
      · obtain ⟨x, hx, rfl⟩ := mapsHas_iff.mp hmap
        rw [IsLibrary] at hlib
        have hnone := List.findSome?_eq_none_iff.mp h x hx
        rwa [if_pos hlib] at hnone
    · rw [hgiven] at h
      cases h
  · intro h
    rcases hgate : gateAddress sys m paths with _ | a
    · rfl
    · obtain ⟨path, hcand, hin, -⟩ := gateAddress_some hgate
      rw [h path hcand] at hin
      cases hin

end Search

/-- From the maps that the kernel prints of a process: when each file that may have the sampling variable is loaded with
a bias, the address that `gate_address` finds is the symbol's value in one of these files plus the bias of this file, of
a given file where one has the symbol; and it finds none exactly when no such file has the symbol. -/
theorem gate_is_where_symbol_is_loaded (sys : System) {k : ℕ} (hk : k < 64) (hpage : sys.page = BitVec.twoPow 64 k)
    (rs : List Region) (hrs : ∀ r ∈ rs, r.Printed) (paths : List (List U8)) (bias : List U8 → ℕ)
    (hmem : ∀ path, Candidate (fileMappings rs) paths path → InMemory sys (fileMappings rs) path (bias path)) :
    (∀ a, gateAddress sys (mapsRead (rs.map Region.line)) paths = some a →
      ∃ path s, Candidate (fileMappings rs) paths path ∧ elfFindSymbol (sys.elf path) gateSymbol = some s ∧
        a = BitVec.ofNat 64 (bias path) + s.value ∧
        (path ∈ paths ∨ ∀ p ∈ paths, mapsHas (fileMappings rs) p = true → elfFindSymbol (sys.elf p) gateSymbol = none)) ∧
    (gateAddress sys (mapsRead (rs.map Region.line)) paths = none ↔
      ∀ path, Candidate (fileMappings rs) paths path → elfFindSymbol (sys.elf path) gateSymbol = none) := by
  rw [mapsRead_lines hrs]
  have hin : ∀ path, Candidate (fileMappings rs) paths path →
      (gateIn sys (fileMappings rs) path = none ↔ elfFindSymbol (sys.elf path) gateSymbol = none) := by
    intro path hcand
    refine ⟨fun h => ?_, gateIn_none⟩
    rcases hs : elfFindSymbol (sys.elf path) gateSymbol with _ | s
    · rfl
    · rw [gateIn_eq hk hpage (hmem path hcand) hs] at h
      cases h
  constructor
  · intro a ha
    obtain ⟨path, hcand, hgate, hgiven⟩ := gateAddress_some ha
    rcases hs : elfFindSymbol (sys.elf path) gateSymbol with _ | s
    · rw [gateIn_none hs] at hgate
      cases hgate
    · rw [gateIn_eq hk hpage (hmem path hcand) hs] at hgate
      refine ⟨path, s, hcand, hs, (Option.some.inj hgate).symm, hgiven.imp_right fun h p hp hmap => ?_⟩
      exact (hin p ⟨hmap, Or.inl hp⟩).mp (h p hp hmap)
  · rw [gateAddress_none_iff]
    constructor
    · intro h path hcand
      exact (hin path hcand).mp (h path hcand)
    · intro h path hcand
      exact (hin path hcand).mpr (h path hcand)

/-- The binary, which does not have the variable, and the library, which has it in its second segment. -/
def tgtPath : List U8 := [0x2f#8, 0x61#8]
def sockPath : List U8 := text "/libspdk_sock"

def tgtFile : ElfFile :=
  { exec := false, class32 := false, phdrs := [some { load := true, vaddr := 0, offset := 0 }], sections := [] }

def sockFile : ElfFile :=
  { exec := false, class32 := false,
    phdrs := [some { load := true, vaddr := 0, offset := 0 }, some { load := true, vaddr := 0x2000, offset := 0x1000 }],
    sections := [.symbols [some { shndx := 1, name := some gateSymbol, value := 0x2040 }]] }

def tgtSystem : System :=
  { realpath := some,
    elf := fun path => if path = tgtPath then some tgtFile else if path = sockPath then some sockFile else none,
    page := BitVec.twoPow 64 12, self := 1, proc := none }

/-- A page of a file. -/
def pageRegion (start offset : U64) (name : List U8) : Region :=
  { start := start, stop := start + 0x1000, perms := [0x72#8], offset := offset, dev := [0x38#8], inode := [0x37#8],
    pad := 2, name := name }

/-- A page of the binary, an anonymous one, and two of the library. -/
def tgtRegions : List Region :=
  [pageRegion 0x555500010000 0 tgtPath, pageRegion 0x555500012000 0 [], pageRegion 0x7f0000020000 0 sockPath,
    pageRegion 0x7f0000022000 0x1000 sockPath]

/-- Where the two files are loaded. -/
def tgtBias (path : List U8) : ℕ := if path = tgtPath then 0x555500010000 else 0x7f0000020000

theorem tgtRegions_printed : ∀ r ∈ tgtRegions, r.Printed := by
  have hword : ∀ c : U8, isSpace c = false → IsWord [c] := by
    intro c hc
    refine ⟨List.cons_ne_nil _ _, fun d hd => ?_⟩
    rw [List.mem_singleton.mp hd]
    exact hc
  have hpage : ∀ (start offset : U64) (name : List U8), (∀ c ∈ name, isSpace c = false ∧ c ≠ 0x0a#8) →
      name.length < pathMax → (pageRegion start offset name).Printed := by
    intro start offset name hname hshort
    exact ⟨hword _ rfl, hword _ rfl, hword _ rfl,
      fun c cs h => (hname c (by rw [show name = c :: cs from h]; exact List.mem_cons_self)).1,
      fun c hc => (hname c hc).2, hshort⟩
  intro r hr
  simp only [tgtRegions, List.mem_cons, List.not_mem_nil, or_false] at hr
  rcases hr with rfl | rfl | rfl | rfl
  · exact hpage _ _ _ (by decide) (by decide)
  · exact hpage _ _ _ (by decide) (by decide)
  · exact hpage _ _ _ (by decide +kernel) (by decide +kernel)
  · exact hpage _ _ _ (by decide +kernel) (by decide +kernel)

theorem sockFile_symbol : ∃ s, elfFindSymbol (some sockFile) gateSymbol = some s ∧ s.value = 0x2040 := by
  refine ⟨_, rfl, ?_⟩
  simp

theorem sockPath_ne : sockPath ≠ tgtPath := by decide +kernel

theorem tgtSystem_sock : tgtSystem.elf sockPath = some sockFile := by
  simp [tgtSystem, sockPath_ne]

theorem tgtRegions_files :
    fileMappings tgtRegions =
      [⟨0x555500010000, 0, tgtPath⟩, ⟨0x7f0000020000, 0, sockPath⟩, ⟨0x7f0000022000, 0x1000, sockPath⟩] := by
  have hsock : ∀ start offset, (pageRegion start offset sockPath).isFile = true := by
    intro start offset
    have hhead : sockPath.headD 0 = 0x2f#8 := by decide +kernel
    exact decide_eq_true hhead
  rw [fileMappings, tgtRegions, List.filter_cons_of_pos rfl, List.filter_cons_of_neg Bool.false_ne_true,
    List.filter_cons_of_pos (hsock _ _), List.filter_cons_of_pos (hsock _ _)]
  rfl

theorem tgtRegions_sorted : (fileMappings tgtRegions).Pairwise fun x y => x.start ≤ y.start := by
  rw [tgtRegions_files]
  simp

/-- What is mapped from one of the two files is where the file is loaded. -/
theorem tgtSystem_loaded (path : List U8) (h : path = tgtPath ∨ path = sockPath) :
    InMemory tgtSystem (fileMappings tgtRegions) path (tgtBias path) := by
  have hmem : ∀ x ∈ fileMappings tgtRegions, x = ⟨0x555500010000, 0, tgtPath⟩ ∨ x = ⟨0x7f0000020000, 0, sockPath⟩ ∨
      x = ⟨0x7f0000022000, 0x1000, sockPath⟩ := by
    rw [tgtRegions_files]
    simp
  rcases h with rfl | rfl
  · refine ⟨fun f seg hf hseg => ?_, fun f hf hexec => ?_⟩
    · obtain rfl := Option.some.inj hf
      obtain rfl := Option.some.inj hseg
      refine ⟨tgtRegions_sorted, fun x hx hpath => ?_, ?_, ?_⟩
      · rcases hmem x hx with rfl | rfl | rfl
        · exact ⟨_, List.mem_singleton_self _, 0, by decide, by decide⟩
        · exact absurd hpath sockPath_ne
        · exact absurd hpath sockPath_ne
      · rw [tgtRegions_files]
        exact ⟨_, List.mem_cons_self, rfl, by decide, by decide⟩
      · intro s hs
        obtain rfl := List.mem_singleton.mp hs
        exact BitVec.le_refl _
    · obtain rfl := Option.some.inj hf
      cases hexec
  · have hbias : tgtBias sockPath = 0x7f0000020000 := if_neg sockPath_ne
    refine ⟨fun f seg hf hseg => ?_, fun f hf hexec => ?_⟩
    · rw [tgtSystem_sock] at hf
      obtain rfl := Option.some.inj hf
      obtain rfl := Option.some.inj hseg
      rw [hbias]
      refine ⟨tgtRegions_sorted, fun x hx hpath => ?_, ?_, ?_⟩
      · rcases hmem x hx with rfl | rfl | rfl
        · exact absurd hpath.symm sockPath_ne
        · exact ⟨_, List.mem_cons_self, 0, by decide, by decide⟩
        · exact ⟨_, List.mem_cons_of_mem _ List.mem_cons_self, 0, by decide, by decide⟩
      · rw [tgtRegions_files]
        exact ⟨_, List.mem_cons_of_mem _ List.mem_cons_self, rfl, by decide, by decide⟩
      · intro s hs
        rcases List.mem_cons.mp hs with rfl | hs
        · exact BitVec.le_refl _
        · obtain rfl := List.mem_singleton.mp hs
          decide
    · rw [tgtSystem_sock] at hf
      obtain rfl := Option.some.inj hf
      cases hexec

/-- The two files are all that may have the variable. -/
theorem tgtRegions_candidate {path : List U8} (h : Candidate (fileMappings tgtRegions) [tgtPath] path) :
    path = tgtPath ∨ path = sockPath := by
  obtain ⟨x, hx, rfl⟩ := mapsHas_iff.mp h.1
  rw [tgtRegions_files] at hx
  simp only [List.mem_cons, List.not_mem_nil, or_false] at hx
  rcases hx with rfl | rfl | rfl
  · exact Or.inl rfl
  · exact Or.inr rfl
  · exact Or.inr rfl

theorem gate_of_two_files :
    gateAddress tgtSystem (mapsRead (tgtRegions.map Region.line)) [tgtPath] = some 0x7f0000022040 := by
  obtain ⟨hsome, hnone⟩ := gate_is_where_symbol_is_loaded tgtSystem (k := 12) (by decide) rfl tgtRegions
    tgtRegions_printed [tgtPath] tgtBias fun path h => tgtSystem_loaded path (tgtRegions_candidate h)
  obtain ⟨s, hs, hvalue⟩ := sockFile_symbol
  rcases haddr : gateAddress tgtSystem (mapsRead (tgtRegions.map Region.line)) [tgtPath] with _ | a
  · -- the library has the symbol
    have hcand : Candidate (fileMappings tgtRegions) [tgtPath] sockPath := by
      refine ⟨mapsHas_iff.mpr ⟨⟨0x7f0000020000, 0, sockPath⟩, ?_, rfl⟩, Or.inr ⟨by decide +kernel, by decide +kernel⟩⟩
      rw [tgtRegions_files]
      simp
    have hlib := hnone.mp haddr _ hcand
    rw [tgtSystem_sock, hs] at hlib
    cases hlib
  · obtain ⟨path, t, hcand, ht, rfl, -⟩ := hsome a haddr
    rcases tgtRegions_candidate hcand with rfl | rfl
    · cases ht
    · rw [tgtSystem_sock, hs] at ht
      obtain rfl := Option.some.inj ht
      rw [hvalue, tgtBias, if_neg sockPath_ne]
      rfl

end Ntprof.Spdk
