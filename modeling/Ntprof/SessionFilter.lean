import Ntprof.Config
import Ntprof.Stats
import Ntprof.Bpf.Host
import Ntprof.Lib.WordSet

/-!
# The session to profile (`src/loader.c`)

`resolve_session` turns the name of a namespace block device into the controllers and the namespace that the host
hooks compare with. With native multipath the I/O runs on hidden path devices, one for each controller.
-/

namespace Ntprof

open Bpf (Filter)

/-- The files that are read. -/
structure Sysfs where
  /-- `!access(path, F_OK)`. -/
  present : List U8 → Bool
  /-- The contents of a file that can be opened. -/
  read : List U8 → Option (List U8)

/-- `%u` of `sscanf`: the number and the rest. -/
def scanUint (s : List U8) : Option (U32 × List U8) :=
  let (x, rest, _) := strtoull s
  if rest.length = s.length then none else some (x.setWidth 32, rest)

/-- `sscanf(session, "nvme%un%u", &subsys, &ns)`, where it converts both numbers. -/
def scanNamespace (session : List U8) : Option (U32 × U32) :=
  if session.take 4 ≠ nvmeText then none
  else
    match scanUint (session.drop 4) with
    | none => none
    | some (subsys, rest) =>
      if rest.headD 0 ≠ 0x6e#8 then none
      else (scanUint (rest.drop 1)).map fun p => (subsys, p.1)

/-- `read_sysfs_u32`. -/
def readSysfsU32 (fs : Sysfs) (path : List U8) : Option U32 :=
  match fs.read path with
  | none => none
  | some bytes => (scanUint bytes).map Prod.fst

/-- The name of a path device: `nvme%uc%un%u`. -/
def pathDeviceName (subsys : U32) (ctrl : ℕ) (ns : U32) : List U8 :=
  nvmeText ++ unsignedText subsys.toNat ++ [0x63#8] ++ unsignedText ctrl ++ [0x6e#8] ++ unsignedText ns.toNat

/-- The directory of a path device: `/sys/block/nvme%uc%un%u`. -/
def pathDevice (subsys : U32) (ctrl : ℕ) (ns : U32) : List U8 :=
  cutText 256 (text "/sys/block/" ++ pathDeviceName subsys ctrl ns)

/-- The file with the id of the namespace: `/sys/block/%s/nsid`. -/
def nsidFile (session : List U8) : List U8 := cutText 256 (text "/sys/block/" ++ session ++ text "/nsid")

/-- The loop over the path devices: the mask, and whether there is any. -/
def pathLoop (fs : Sysfs) (subsys ns : U32) (found : Vector U64 4 × Bool) (ctrl : ℕ) : Vector U64 4 × Bool :=
  if fs.present (pathDevice subsys ctrl ns) then (WordSet.insert found.1 ctrl, true) else found

/-- `resolve_session`. -/
def resolveSession (fs : Sysfs) (session : List U8) : Option Filter :=
  if session = text "all" then some {}
  else
    match scanNamespace session with
    | none => none
    | some (subsys, ns) =>
      let nsid := (readSysfsU32 fs (nsidFile session)).getD ns
      let (mask, any) := (List.range 256).foldl (pathLoop fs subsys ns) (Vector.replicate _ 0, false)
      -- no multipath: the device name carries the controller instance
      if !any ∧ 255 < subsys then none
      else
        let mask := if any then mask else WordSet.insert mask subsys.toNat
        some { ctrlFilter := true, ctrlMask := mask, nsid := nsid }

end Ntprof
