import Ntprof.Programs
import Ntprof.ParallelFor

/-!
# Attaching and detaching (`src/loader.c`)

`attach_all` attaches the USDT programs of each object to every file given for it, and then all other programs from a
few threads. Each link goes into the array of its object, from where `ntp_loader_close` destroys it. What libbpf answers
is the parameter `Attacher`.
-/

namespace Ntprof.Loader

open WorkSharing

/-- `struct bpf_link`: what is attached, and for a USDT program to which file, with its place in the list of files. -/
structure Link where
  obj : Object
  prog : Program
  path : Option (List U8 × ℕ)
  deriving DecidableEq

/-- `struct obj_inst`, while its programs are attached. -/
structure AttachInst where
  desc : Object
  /-- the programs that `select_programs` has kept -/
  loaded : List Program
  usdtPaths : Option (List U8)
  /-- the number of entries of `links` -/
  room : ℕ := 0
  links : List Link := []
  /-- a link was written behind the end of `links` -/
  outside : Bool := false

/-- The error numbers of `bpf_program__attach_usdt` and `bpf_program__attach`, where they fail. A file that is given twice
may be answered differently the second time. -/
structure Attacher where
  usdt : Object → Program → List U8 × ℕ → Option ℕ
  plain : Object → Program → Option ℕ

/-- `ENOENT`. -/
def enoent : ℕ := 2

/-- What is printed about a program that could not be attached. -/
inductive AttachMsg where
  | cannotUsdt (obj : Object) (prog : Program) (errno : ℕ)
  | withoutUsdt (obj : Object) (prog : Program) (errno : ℕ)
  | cannot (obj : Object) (prog : Program) (errno : ℕ)
  | without (obj : Object) (prog : Program) (errno : ℕ)
  deriving DecidableEq

/-- `o->links[o->nlinks++] = link`. -/
def addLink (o : AttachInst) (l : Link) : AttachInst :=
  if o.links.length < o.room then { o with links := o.links ++ [l] } else { o with outside := true }

/-- The files of an object with USDT probes, as `strtok_r` gives them. -/
def usdtFiles (o : AttachInst) : List (List U8) := (o.usdtPaths.elim [] commaTokens).map strip

/-- The loop of `attach_usdt`: the instance, the links that were made, and `err`. -/
def attachUsdtLoop (a : Attacher) (p : Program) (o : AttachInst) (err : ℕ) :
    List (List U8 × ℕ) → AttachInst × List Link × ℕ
  | [] => (o, [], err)
  | f :: fs =>
    match a.usdt o.desc p f with
    | some e => attachUsdtLoop a p o e fs
    | none =>
      let l : Link := ⟨o.desc, p, some f⟩
      let (o, made, err) := attachUsdtLoop a p (addLink o l) err fs
      (o, l :: made, err)

/-- `attach_usdt`: the instance, the links, and the error if the program is attached nowhere. -/
def attachUsdt (a : Attacher) (o : AttachInst) (p : Program) : AttachInst × List Link × Option ℕ :=
  let (o, made, err) := attachUsdtLoop a p o enoent (usdtFiles o).zipIdx
  (o, made, if made.length ≠ 0 then none else some err)

/-- `attach_usdt_all`, for these programs: whether it succeeded, the instance, the links and what is printed. -/
def attachUsdtAll (a : Attacher) (o : AttachInst) : List Program → Bool × AttachInst × List Link × List AttachMsg
  | [] => (true, o, [], [])
  | p :: ps =>
    if !isUsdt p then attachUsdtAll a o ps
    else
      match attachUsdt a o p with
      | (o, made, none) =>
        let (ok, o, rest, msgs) := attachUsdtAll a o ps
        (ok, o, made ++ rest, msgs)
      | (o, made, some e) =>
        if isRequired o.desc p.name then (false, o, made, [.cannotUsdt o.desc p e])
        else
          let (ok, o, rest, msgs) := attachUsdtAll a o ps
          (ok, o, made ++ rest, .withoutUsdt o.desc p e :: msgs)

/-- `files` in `attach_all`. -/
def fileCount (o : AttachInst) : ℕ := 1 + o.usdtPaths.elim 0 fun paths => paths.count 0x2c#8

/-- `o->links = xcalloc(n * files, sizeof(*o->links))`. -/
def allocLinks (o : AttachInst) : AttachInst := { o with room := o.desc.programs.length * fileCount o, links := [] }

/-- The first loop of `attach_all`: whether it succeeded, the instances, the links and what is printed. -/
def attachProbes (a : Attacher) : List AttachInst → Bool × List AttachInst × List Link × List AttachMsg
  | [] => (true, [], [], [])
  | o :: os =>
    match attachUsdtAll a (allocLinks o) o.loaded with
    | (false, o, made, msgs) => (false, o :: os, made, msgs)
    | (true, o, made, msgs) =>
      let (ok, os, rest, msgs') := attachProbes a os
      (ok, o :: os, made ++ rest, msgs ++ msgs')

/-- `struct attach_job`: the instance by its index. -/
structure AttachJob where
  inst : ℕ
  obj : Object
  prog : Program
  deriving DecidableEq

/-- What `attach_one` leaves in a job. -/
structure JobResult where
  link : Option Link := none
  err : ℕ := 0

/-- The jobs of `attach_all`; the first instance has index `i`. -/
def jobsFrom (i : ℕ) : List AttachInst → List AttachJob
  | [] => []
  | o :: os => ((o.loaded.filter fun p => !isUsdt p).map fun p => ⟨i, o.desc, p⟩) ++ jobsFrom (i + 1) os

/-- `attach_one`, for a job. -/
def attachJob (a : Attacher) (j : AttachJob) : JobResult :=
  match a.plain j.obj j.prog with
  | none => { link := some ⟨j.obj, j.prog, none⟩ }
  | some e => { err := e }

/-- `attach_one`, by the index of the job. -/
def attachOne (a : Attacher) (jobs : List AttachJob) (i : ℕ) : JobResult :=
  (jobs[i]?).elim {} (attachJob a)

/-- The body of the last loop of `attach_all`. -/
def collectJob (results : ℕ → JobResult) (acc : Bool × List AttachInst × List AttachMsg) (j : AttachJob × ℕ) :
    Bool × List AttachInst × List AttachMsg :=
  let (ok, os, msgs) := acc
  match (results j.2).link with
  | some l => (ok, os.modify j.1.inst fun o => addLink o l, msgs)
  | none =>
    if isRequired j.1.obj j.1.prog.name then (false, os, msgs ++ [.cannot j.1.obj j.1.prog (results j.2).err])
    else (ok, os, msgs ++ [.without j.1.obj j.1.prog (results j.2).err])

/-- What `attach_all` leaves: its result, the instances, the links that were made, and what is printed. -/
structure Attached where
  ok : Bool
  insts : List AttachInst
  made : List Link
  msgs : List AttachMsg

/-- `attach_all`, with the steps of its threads. There is no result while `parallel_for` has not returned. -/
def attachAll (a : Attacher) (parallel : Bool) (steps : List PForStep) (os : List AttachInst) : Option Attached :=
  match attachProbes a os with
  | (false, os, made, msgs) => some ⟨false, os, made, msgs⟩
  | (true, os, made, msgs) =>
    let jobs := jobsFrom 0 os
    let n := BitVec.ofNat 64 jobs.length
    match pforRun n parallel (attachOne a jobs) (pforStart n parallel fun _ => {}) steps with
    | some ⟨pool, .returned⟩ =>
      let (ok, os, msgs') := jobs.zipIdx.foldl (collectJob pool.table) (true, os, [])
      some ⟨ok, os, made ++ pool.returned.filterMap (fun i => (attachOne a jobs i).link), msgs ++ msgs'⟩
    | _ => none

/-- The links of an instance are destroyed in `ntp_loader_close`: those `destroy_one` was called for. -/
def destroyLinks (steps : List PForStep) (o : AttachInst) : Option (List Link) :=
  let n := BitVec.ofNat 64 o.links.length
  match pforRun n true (fun _ => ()) (pforStart n true fun _ => ()) steps with
  | some ⟨pool, .returned⟩ => some (pool.returned.filterMap fun i => o.links[i]?)
  | _ => none

/-- The loop of `ntp_loader_close` over the instances, each with the steps of its threads. -/
def closeLinks : List (List PForStep) → List AttachInst → Option (List Link)
  | _, [] => some []
  | [], _ :: _ => none
  | steps :: rest, o :: os =>
    match destroyLinks steps o, closeLinks rest os with
    | some ls, some ls' => some (ls ++ ls')
    | _, _ => none

end Ntprof.Loader
