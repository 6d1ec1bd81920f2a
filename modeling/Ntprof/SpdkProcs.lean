import Ntprof.Loader
import Ntprof.Config

/-!
# SPDK binaries and processes (`src/spdk.c`)

`ntp_spdk_find` looks in `/proc` for the processes that run an SPDK binary and computes where each has the variable
with its sampling period: from the symbol in the ELF file and from where the file is mapped. `ntp_spdk_list_probes`
counts the USDT probes in the notes of a file. What libelf gives is the parsed file.
-/

namespace Ntprof.Spdk

open Loader (SpdkProc)

/-! ## ELF -/

/-- A program header: `p_type == PT_LOAD`, `p_vaddr` and `p_offset`. -/
structure Phdr where
  load : Bool
  vaddr : U64
  offset : U64

/-- A symbol: `st_shndx`, its name, where the string table has one, and `st_value`. -/
structure Sym where
  shndx : U16
  name : Option (List U8)
  value : U64

/-- A note: `n_type`, the `n_namesz` bytes of its name and the `n_descsz` bytes of its description. -/
structure Note where
  type : U32
  name : List U8
  desc : List U8

/-- A section by its type: a table of symbols (`SHT_SYMTAB` or `SHT_DYNSYM`) with those that can be read, notes, or
another one. -/
inductive Section where
  | symbols (syms : List (Option Sym))
  | notes (notes : List Note)
  | other

/-- An ELF file that libelf opens: `ET_EXEC`, `ELFCLASS32`, the program headers that can be read, and the sections. -/
structure ElfFile where
  exec : Bool
  class32 : Bool
  phdrs : List (Option Phdr)
  sections : List Section

/-- `struct sym_loc`. -/
structure SymLoc where
  value : U64
  fixed : Bool
  loadVaddr : U64
  loadOff : U64

/-- The first program header with `PT_LOAD`. -/
def firstLoad (phdrs : List (Option Phdr)) : Option Phdr := (phdrs.filterMap id).find? Phdr.load

/-- In the loop of `elf_find_symbol`: a symbol that is defined and has the name. -/
def symNamed (name : List U8) : Option Sym → Bool
  | some s => decide (s.shndx ≠ 0) && decide (s.name = some name)
  | none => false

/-- The value of the first symbol of a table with the name. -/
def sectionSymbol (name : List U8) : Section → Option U64
  | .symbols syms => (syms.find? (symNamed name)).bind fun s => s.map Sym.value
  | _ => none

/-- `elf_find_symbol`, for the file of a path. -/
def elfFindSymbol (elf : Option ElfFile) (name : List U8) : Option SymLoc :=
  match elf with
  | none => none
  | some f =>
    match firstLoad f.phdrs with
    | none => none
    | some ph =>
      (f.sections.findSome? (sectionSymbol name)).map fun v =>
        { value := v, fixed := f.exec, loadVaddr := ph.vaddr, loadOff := ph.offset }

/-! ## Processes -/

/-- What the functions ask of the system. -/
structure System where
  realpath : List U8 → Option (List U8)
  /-- `elf_open` -/
  elf : List U8 → Option ElfFile
  /-- `sysconf(_SC_PAGESIZE)` -/
  page : U64
  /-- `getpid()` -/
  self : Int
  /-- The names in `/proc`, each with the lines of its `maps` if there is one that can be read. -/
  proc : Option (List (List U8 × Option (List (List U8))))

/-- The loop of `paths_parse`: the canonical paths, unless one does not exist. -/
def canonicalPaths (sys : System) : List (List U8) → Option (List (List U8))
  | [] => some []
  | tok :: toks =>
    if (strip tok).length = 0 then canonicalPaths sys toks
    else
      match sys.realpath (strip tok) with
      | none => none
      | some real => (canonicalPaths sys toks).map (real :: ·)

/-- `paths_parse`: the first path and the others. -/
def pathsParse (sys : System) (list : List U8) : Option (List U8 × List (List U8)) :=
  match canonicalPaths sys (commaTokens list) with
  | none => none
  | some [] => none
  | some (p :: ps) => some (p, ps)

/-- `struct mapping`. -/
structure Mapping where
  start : U64
  offset : U64
  path : List U8

/-- The value of a hexadecimal digit. -/
def hexDigitVal (c : U8) : Option ℕ :=
  if isDigit c then some (c - 0x30#8).toNat
  else if 0x61#8 ≤ toLower c ∧ toLower c ≤ 0x66#8 then some (10 + (toLower c - 0x61#8).toNat)
  else none

/-- The number that hexadecimal digits denote. -/
def hexVal (ds : List U8) : ℕ := ds.foldl (fun n d => 16 * n + (hexDigitVal d).getD 0) 0

/-- A hexadecimal digit. -/
def isHex (c : U8) : Bool := (hexDigitVal c).isSome

/-- `%llx` of `sscanf`: the number and the rest. -/
def scanHex (s : List U8) : Option (U64 × List U8) :=
  let t := s.dropWhile isSpace
  let u := if t.headD 0 == 0x2b#8 || t.headD 0 == 0x2d#8 then t.drop 1 else t
  let u := if u.headD 0 = 0x30#8 ∧ toLower ((u.drop 1).headD 0) = 0x78#8 then u.drop 2 else u
  let ds := u.takeWhile isHex
  if ds.length = 0 then none
  else if 2 ^ 64 ≤ hexVal ds then some (BitVec.allOnes 64, u.dropWhile isHex)
  else
    let v := BitVec.ofNat 64 (hexVal ds)
    some (if t.headD 0 == 0x2d#8 then -v else v, u.dropWhile isHex)

/-- `%*s` of `sscanf`: the rest. -/
def skipWord (s : List U8) : Option (List U8) :=
  let t := s.dropWhile isSpace
  if (t.takeWhile fun c => !isSpace c).length = 0 then none else some (t.dropWhile fun c => !isSpace c)

/-- `PATH_MAX`. -/
def pathMax : ℕ := 4096

/-- In `maps_read`: what `sscanf(line, "%llx-%*x %*s %llx %*s %*s %4095[^\n]")` finds in a line, if all of it. -/
def scanMapping (line : List U8) : Option Mapping := do
  let (start, rest) ← scanHex line
  let rest ← if rest.headD 0 = 0x2d#8 then some (rest.drop 1) else none
  let (_, rest) ← scanHex rest
  let rest ← skipWord rest
  let (offset, rest) ← scanHex rest
  let rest ← skipWord rest
  let rest ← skipWord rest
  let file := ((rest.dropWhile isSpace).takeWhile fun c => c ≠ 0x0a#8).take (pathMax - 1)
  if file.length = 0 then none else some { start := start, offset := offset, path := file }

/-- `maps_read`: the mappings of files, for the lines of the file. -/
def mapsRead (lines : List (List U8)) : List Mapping :=
  (lines.filterMap scanMapping).filter fun m => m.path.headD 0 = 0x2f#8

/-- `maps_has`. -/
def mapsHas (m : List Mapping) (path : List U8) : Bool := m.any fun x => x.path == path

/-- `GATE_SYMBOL`. -/
def gateSymbol : List U8 := text "g_ntprof_sample_every"

/-- `GATE_LIBRARY`. -/
def gateLibrary : List U8 := text "libspdk_sock"

/-- `gate_in`. -/
def gateIn (sys : System) (m : List Mapping) (path : List U8) : Option U64 :=
  match elfFindSymbol (sys.elf path) gateSymbol with
  | none => none
  | some s =>
    if s.fixed then some s.value
    else
      (m.find? fun x => x.path == path && x.offset == s.loadOff &&& ~~~(sys.page - 1)).map fun x =>
        x.start - (s.loadVaddr &&& ~~~(sys.page - 1)) + s.value

/-- The name of a file without its directories. -/
def baseName (path : List U8) : List U8 := (path.reverse.takeWhile fun c => c ≠ 0x2f#8).reverse

/-- `gate_address`: the given files first, then `libspdk_sock`. -/
def gateAddress (sys : System) (m : List Mapping) (paths : List (List U8)) : Option U64 :=
  match paths.findSome? fun p => if mapsHas m p then gateIn sys m p else none with
  | some a => some a
  | none =>
    m.findSome? fun x =>
      if x.path.contains 0x2f#8 ∧ gateLibrary.isPrefixOf (baseName x.path) then gateIn sys m x.path else none

/-- `strtol(s, &end, 10)`: the value and the rest at `end`. -/
def strtol (s : List U8) : Int × List U8 :=
  let t := s.dropWhile isSpace
  let u := if t.headD 0 == 0x2b#8 || t.headD 0 == 0x2d#8 then t.drop 1 else t
  let ds := u.takeWhile isDigit
  let v : Int := digitsVal ds
  if ds.length = 0 then (0, s)
  else if t.headD 0 == 0x2d#8 then (max (-v) (-2 ^ 63), u.dropWhile isDigit)
  else (min v (2 ^ 63 - 1), u.dropWhile isDigit)

/-- The processes found, and how the loop goes on: it may be full, or have failed. -/
structure FindState where
  procs : List SpdkProc := []
  full : Bool := false
  failed : Bool := false

/-- In `ntp_spdk_find`: an entry of `/proc` that is another process whose maps can be read. -/
def procOf (sys : System) (e : List U8 × Option (List (List U8))) : Option (BitVec 32 × List Mapping) :=
  let (pid, rest) := strtol e.1
  if rest.length ≠ 0 ∨ pid ≤ 0 ∨ pid = sys.self then none
  else e.2.map fun lines => (BitVec.ofInt 32 pid, mapsRead lines)

/-- One turn of the loop of `ntp_spdk_find`. -/
def findStep (sys : System) (first : List U8) (others : List (List U8)) (max : ℕ) (s : FindState)
    (e : List U8 × Option (List (List U8))) : FindState :=
  if s.failed ∨ s.full then s
  else
    match procOf sys e with
    | none => s
    | some (pid, m) =>
      if !mapsHas m first then s
      else if s.procs.length = max then { s with full := true }
      else
        match gateAddress sys m (first :: others) with
        | none => { s with failed := true }
        | some a => { s with procs := s.procs ++ [⟨pid, a⟩] }

/-- `ntp_spdk_find`: the processes, or -1. -/
def ntpSpdkFind (sys : System) (list : List U8) (max : ℕ) : Option (List SpdkProc) :=
  match pathsParse sys list with
  | none => none
  | some (first, others) =>
    match sys.proc with
    | none => none
    | some es =>
      let s := es.foldl (findStep sys first others max) {}
      if s.failed then none else some s.procs

/-! ## Probes -/

/-- `NT_STAPSDT`. -/
def ntStapsdt : U32 := 3

/-- `PROVIDER`. -/
def provider : List U8 := text "ntprof"

/-- In `ntp_spdk_list_probes`: the name of the probe of a note, if it is one of the provider. -/
def probeName (class32 : Bool) (n : Note) : Option (List U8) :=
  let addrs := 3 * if class32 then 4 else 8
  if n.type ≠ ntStapsdt ∨ n.name ≠ text "stapsdt" ++ [0] ∨ n.desc.length ≤ addrs then none
  else
    let prov := n.desc.drop addrs
    -- the provider and the name must both end inside the description
    if !prov.contains 0 then none
    else
      let name := (prov.dropWhile fun c => c ≠ 0).drop 1
      if name.length = 0 ∨ !name.contains 0 ∨ textOf prov ≠ provider then none else some (textOf name)

/-- The size of the table of probes, and of a name in it. -/
def maxProbes : ℕ := 64
def probeNameSize : ℕ := 64

/-- The probes of a table by their names, with how many sites each has, and all sites. -/
structure ProbeTable where
  probes : List (List U8 × ℕ) := []
  total : ℕ := 0

/-- A site of the probe `name`. -/
def addSite (t : ProbeTable) (name : List U8) : ProbeTable :=
  let t := { t with total := t.total + 1 }
  match t.probes.findIdx? fun p => p.1 = name with
  | some i => { t with probes := t.probes.modify i fun p => (p.1, p.2 + 1) }
  | none =>
    if t.probes.length = maxProbes then t
    else { t with probes := t.probes ++ [(cutText probeNameSize name, 1)] }

/-- The notes of a section. -/
def Section.noteList : Section → List Note
  | .notes ns => ns
  | _ => []

/-- `ntp_spdk_list_probes`: the table it prints and the number of sites that it returns; none for a file that is not
an ELF file. -/
def ntpSpdkListProbes (sys : System) (path : List U8) : Option ProbeTable :=
  (sys.elf path).map fun f =>
    ((f.sections.flatMap Section.noteList).filterMap (probeName f.class32)).foldl addSite {}

end Ntprof.Spdk
