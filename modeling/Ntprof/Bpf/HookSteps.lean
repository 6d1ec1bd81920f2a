import Ntprof.Bpf.TargetRdma
import Ntprof.Lib.SharedSlots
import Mathlib.Data.Fintype.Prod
import Mathlib.Tactic.MkIffOfInductiveProp

/-!
# The NVMe/RDMA target hooks, access by access (`bpf/nvme_rdma_target.bpf.c`, `bpf/target.bpf.h`)

Hooks run on all CPUs at the same time, and what one of them does to the maps can fall between any two accesses of
another one. Here a hook is the sequence of its accesses to the slots of `treqs`, to `ntp_inflight`, and to the values of
its CPU: those that its key goes through, which are that of `ntp_scalar` and `resp_ctx`, and the counters. Another hook
that runs on the CPU meanwhile, in an interrupt or in another task, can overwrite them. The maps of the queue counts,
which no record depends on, are changed in one step. A pointer that `tgt_entry` returned stays in use whatever becomes of
the slot.
-/

namespace Ntprof.Bpf

open SharedSlots (Phase)

/-! ## What hooks write -/

/-- One store into a record. -/
inductive Store where
  | ts (i : TgtTs) (t : U64)
  | flags (v : U16)
  | bytes (n : U32)

/-- What a store does. -/
def Store.apply (r : TgtRec) : Store → TgtRec
  | .ts i t => r.stamp i t
  | .flags v => { r with hdr := { r.hdr with flags := v } }
  | .bytes n => { r with bytes := n }

/-- The stores of `ntp_stamp_once`. -/
def storeOnce (r : TgtRec) (i : TgtTs) (t : U64) : List Store := if r.ts i = 0 then [.ts i t] else []

/-- The hooks of a command that only write into its record: `on_execute`, `on_read_done`, `on_exec`, `ntp_t_be_issue`,
`ntp_t_be_done`, `ntp_t_complete` and `on_queue_resp`. `on_execute` reads the length from the `nvmet_req` of its key. -/
inductive Touch where
  | execute (transferLen : U64 → U32) (inlineData : Bool)
  | readDone
  | exec (transferLen : U32)
  | beIssue
  | beDone
  | complete
  | queueResp

/-- What such a hook stores into the record it has found for `key`. -/
def Touch.stores (now key : U64) (r : TgtRec) : Touch → List Store
  | .execute transferLen inlineData =>
    if !r.hdr.has ntpFWrite then []
    else if transferLen key = 0 ∨ inlineData then [.flags (r.hdr.flags ||| ntpFInlineData)]
    else .flags (r.hdr.flags ||| ntpFRdmaRead) :: storeOnce r .r2tSent now
  | .readDone => if r.ts .dataProc ≠ 0 then [] else [.ts .dataArr now, .ts .dataProc now]
  | .exec transferLen => if r.ts .exec ≠ 0 then [] else [.ts .exec now, .bytes transferLen]
  | .beIssue => storeOnce r .beIssue now
  | .beDone => [.ts .beDone now]
  | .complete => storeOnce r .complete now
  | .queueResp => storeOnce r .rspQueued now

/-- The first test of such a hook. -/
def Touch.off (f : Filter) (s : TgtState) : Touch → Bool
  | .queueResp => s.idle f
  | _ => s.inflight == 0

/-- Such a hook takes its key from `ntp_scalar`, after its first test. -/
def Touch.scalar : Touch → Bool
  | .execute _ _ => true
  | .readDone => true
  | .exec _ => true
  | .beIssue => false
  | .beDone => false
  | .complete => false
  | .queueResp => true

/-- `on_queue_resp` counts the completion before it looks for the record. -/
def Touch.count (f : Filter) (s : TgtState) (key : U64) : Touch → TgtState
  | .queueResp => if f.trackQueues then s.countRespQueued key else s
  | _ => s

/-- The two ends of a response: the return of `nvmet_rdma_queue_response`, and the send completion. -/
inductive RspEnd where
  | posted
  | sendDone
  deriving DecidableEq, Repr, Inhabited

instance : Fintype RspEnd := ⟨{.posted, .sendDone}, fun e => by cases e <;> simp⟩

/-- `RSP_POSTED` and `RSP_SEND_DONE`. -/
def RspEnd.bit : RspEnd → U32
  | .posted => rspPosted
  | .sendDone => rspSendDone

/-- What `on_queue_resp_exit` and `on_send_done` store into the record they have found. -/
def RspEnd.stores (now : U64) (r : TgtRec) : RspEnd → List Store
  | .posted => (if r.hdr.has ntpFWrite then [] else [.ts .c2hSent now]) ++ [.ts .rspSent now]
  | .sendDone => storeOnce r .sendDone now

/-- The first test of these hooks. -/
def RspEnd.off (f : Filter) (s : TgtState) : RspEnd → Bool
  | .posted => s.idle f
  | .sendDone => s.inflight == 0

/-- `on_send_done` takes its key from `ntp_scalar` after its first test; `on_queue_resp_exit` gets it. -/
def RspEnd.scalar : RspEnd → Bool
  | .posted => false
  | .sendDone => true

/-! ## Where a hook is -/

/-- On the way to the key: in `ntp_scalar`, in `ntp_tr_queue_resp_kp`, or in `ntp_tr_queue_resp_kr`. -/
inductive KeyPc where
  | put
  | get
  | saveTid
  | saveReq
  | find
  | untag
  | reload
  deriving DecidableEq

/-- In a hook that looks for a record and writes into it. -/
inductive FrontPc where
  | gate
  | key (p : KeyPc)
  | look
  | load
  | store (w : Store) (ws : List Store)

/-- In `ntp_count`: the counter of the CPU is read, and written. -/
inductive CountPc where
  | load
  | save (old : U64)

/-- In `tgt_emit`. -/
inductive EmitPc where
  | look
  | cpu
  | output
  | count (i : Counter) (p : CountPc)
  | free
  | leave

/-- In the hook of an end of a response. -/
inductive RspPc where
  | front (p : FrontPc)
  | part
  | fetchOr
  | emit (p : EmitPc)
  | uncount

/-- In `ntp_t_req_init`, with the two queue lengths `q` it has read. -/
inductive InitPc where
  | enter
  | cmds (q : U16 × U16) (p : CountPc)
  | gate (q : U16 × U16)
  | look (q : U16 × U16)
  | load (q : U16 × U16)
  | flag (q : U16 × U16) (v : U16)
  | emit (q : U16 × U16) (p : EmitPc)
  | sample (q : U16 × U16)
  | take (q : U16 × U16) (c : NvmeCmd)
  | stale (q : U16 × U16) (c : NvmeCmd) (p : CountPc)
  | claim (q : U16 × U16) (c : NvmeCmd)
  | parts (q : U16 × U16) (c : NvmeCmd)
  | wipe (q : U16 × U16) (c : NvmeCmd)
  | fill (q : U16 × U16) (c : NvmeCmd)
  | publish
  | sampled (p : CountPc)

/-- What is left of a hook. -/
inductive Work where
  | idle
  | touch (b : Touch) (p : FrontPc)
  | rsp (e : RspEnd) (p : RspPc)
  | init (p : InitPc)

/-- A record that was handed to the ring buffer, or dropped by it. -/
inductive Fate where
  | emitted (r : TgtRec)
  | dropped
  deriving DecidableEq

/-- What is in the ring buffer. -/
def Fate.event : Fate → Option TgtRec
  | .emitted r => some r
  | .dropped => none

/-- What a step means for the record in the slot. -/
inductive Note where
  | nothing
  | find
  | letGo
  | see (e : RspEnd)
  | grab
  | lose
  | flush
  | output (own : Bool) (f : Fate)
  | count (i : Counter)
  | free
  | leave
  | take
  | unlink
  | clear
  | publish

/-- The state after a step, what is left of the hook, and what the step means. -/
structure Out where
  st : TgtState
  work : Work
  note : Note := .nothing

/-! ## Steps -/

/-- How a hook of the `nvmet_req` `req` comes by its key. In `ntp_scalar` the key is `counted` for, if it is; the hook
then looks the key up if it is in `ntp_scalar` after its first test. -/
def keyStep (scalar : Bool) (counted : TgtState) (here : FrontPc → Work) (s : TgtState) (env : HookEnv) (req : U64) :
    KeyPc → Out
  | .put => ⟨s, here (.key .get), .nothing⟩
  | .get => ⟨counted, here (if scalar then .look else .gate), .nothing⟩
  | .saveTid =>
    ⟨{ s with respCtx := ctxPut s.respCtx env { s.respCtx env.cpu with tid := env.tid } }, here (.key .saveReq), .nothing⟩
  | .saveReq =>
    ⟨{ s with respCtx := ctxPut s.respCtx env { s.respCtx env.cpu with req := req } }, here .gate, .nothing⟩
  -- without the context the hook does nothing
  | .find => ⟨s, if (ntpCtxGet s.respCtx env).isSome then here (.key .untag) else .idle, .nothing⟩
  | .untag =>
    ⟨{ s with respCtx := ctxPut s.respCtx env { s.respCtx env.cpu with tid := 0 } }, here (.key .reload), .nothing⟩
  | .reload => ⟨s, here .gate, .nothing⟩

/-- The first part of a hook of the `nvmet_req` `req` that has the key `key`; `stores` says what it writes into the
record it has found, `here` where in the hook it is, and `missing` and `past` what is left of the hook without a record,
and with one. -/
def frontStep (off scalar : Bool) (counted : TgtState) (stores : TgtRec → List Store) (here : FrontPc → Work)
    (missing past : Work) (s : TgtState) (env : HookEnv) (req key : U64) : FrontPc → Out
  | .gate => ⟨s, if off then .idle else here (if scalar then .key .put else .look), .nothing⟩
  | .key p => keyStep scalar counted here s env req p
  | .look => if (s.tgtEntry key).isSome then ⟨s, here .load, .find⟩ else ⟨s, missing, .nothing⟩
  | .load =>
    -- what is stored is decided here, by what the record holds now
    match stores (s.treqs (ntpSlot key)).record with
    | [] => ⟨s, past, .letGo⟩
    | w :: ws => ⟨s, here (.store w ws), .nothing⟩
  | .store w ws =>
    let s := s.setRec key (w.apply (s.treqs (ntpSlot key)).record)
    match ws with
    | [] => ⟨s, past, .letGo⟩
    | w :: ws => ⟨s, here (.store w ws), .nothing⟩

/-- `ntp_count`, where `mine` are the counters of the CPU. Those of the state are the sums over all CPUs. -/
def countStep (i : Counter) (here : CountPc → Work) (rest : Work) (s : TgtState) (mine : Counters) : CountPc → Out
  | .load => ⟨s, here (.save (mine i)), .nothing⟩
  | .save old => ⟨{ s with counters := ntpCount s.counters i (old + 1 - mine i) }, rest, .count i⟩

/-- `tgt_emit`; `own` if one of the command's own hooks calls it, and `rest` is what follows there. -/
def emitStep (own : Bool) (here : EmitPc → Work) (rest : Work) (s : TgtState) (env : HookEnv) (mine : Counters)
    (key : U64) : EmitPc → Out
  | .look =>
    if (s.tgtEntry key).isSome then ⟨s, here .cpu, if own then .grab else .nothing⟩ else ⟨s, rest, .lose⟩
  | .cpu =>
    let r := (s.treqs (ntpSlot key)).record
    ⟨s.setRec key { r with hdr := { r.hdr with cpu := BitVec.ofNat 32 env.cpu } }, here .output, .nothing⟩
  | .output =>
    let r := (s.treqs (ntpSlot key)).record
    if env.rbFull then ⟨s, here (.count .rbDrops .load), .output own .dropped⟩
    else ⟨{ s with events := s.events ++ [r] }, here (.count .tgtEmitted .load), .output own (.emitted r)⟩
  | .count i p => countStep i (fun p => here (.count i p)) (here .free) s mine p
  | .free => ⟨s.setEntry key { s.treqs (ntpSlot key) with req := 0 }, here .leave, .free⟩
  -- between the two, `ntp_inflight` counts a slot that is free
  | .leave => ⟨s.inflightAdd (-1), rest, .leave⟩

/-- What is left of the hook of an end after `rsp_part_done`. -/
def RspEnd.rest : RspEnd → Work
  | .posted => .rsp .posted .uncount
  | .sendDone => .idle

/-- `on_queue_resp_exit`, called by `ntp_tr_queue_resp_fx` or `ntp_tr_queue_resp_kr`, and `on_send_done`. -/
def rspStep (f : Filter) (s : TgtState) (env : HookEnv) (mine : Counters) (req key : U64) (e : RspEnd) : RspPc → Out
  | .front p =>
    frontStep (e.off f s) e.scalar s (fun r => e.stores env.now r) (fun p => .rsp e (.front p)) e.rest (.rsp e .part)
      s env req key p
  | .part => if (s.tgtEntry key).isSome then ⟨s, .rsp e .fetchOr, .find⟩ else ⟨s, e.rest, .nothing⟩
  | .fetchOr =>
    let entry := s.treqs (ntpSlot key)
    let parts := entry.parts ||| e.bit
    ⟨s.setEntry key { entry with parts := parts },
      if parts = rspPosted ||| rspSendDone then .rsp e (.emit .look) else e.rest, .see e⟩
  | .emit p => emitStep true (fun p => .rsp e (.emit p)) e.rest s env mine key p
  | .uncount => ⟨s.tgtUncount f key, .idle, .nothing⟩

/-- The command of an `nvmet_req_init`, if it is one to record. -/
def ReqInitArgs.wanted (f : Filter) (a : ReqInitArgs) : Option NvmeCmd :=
  a.cmd.filter fun c => ntpIsRw c.opcode && ntpTypeMatches f c.opcode && ntpSampled f c.commandId c.slba c.length

/-- `ntp_t_req_init`. -/
def initStep (f : Filter) (s : TgtState) (env : HookEnv) (mine : Counters) (a : ReqInitArgs) : InitPc → Out
  | .enter =>
    if reqInitRecognised .rdma s env a then
      let (s, q) := countCommand f s a
      ⟨s, .init (.cmds q .load), .nothing⟩
    else ⟨s, .idle, .nothing⟩
  | .cmds q p => countStep .tgtCmds (fun p => .init (.cmds q p)) (.init (.gate q)) s mine p
  | .gate q => ⟨s, if s.inflight = 0 then .init (.sample q) else .init (.look q), .nothing⟩
  | .look q =>
    if (s.tgtEntry a.req).isSome then ⟨s, .init (.load q), .flush⟩ else ⟨s, .init (.sample q), .nothing⟩
  | .load q => ⟨s, .init (.flag q ((s.treqs (ntpSlot a.req)).record.hdr.flags ||| ntpFReused)), .nothing⟩
  | .flag q v =>
    ⟨s.setRec a.req ((Store.flags v).apply (s.treqs (ntpSlot a.req)).record), .init (.emit q .look), .nothing⟩
  | .emit q p => emitStep false (fun p => .init (.emit q p)) (.init (.sample q)) s env mine a.req p
  | .sample q =>
    match a.wanted f with
    | none => ⟨s, .idle, .nothing⟩
    | some c => ⟨s, .init (.take q c), .nothing⟩
  | .take q c =>
    -- a record of another `nvmet_req` in the slot is lost; `ntp_inflight` goes on counting the slot
    if (s.treqs (ntpSlot a.req)).req ≠ 0 then ⟨s, .init (.stale q c .load), .take⟩
    else ⟨s.inflightAdd 1, .init (.claim q c), .take⟩
  | .stale q c p => countStep .stale (fun p => .init (.stale q c p)) (.init (.claim q c)) s mine p
  | .claim q c => ⟨s.setEntry a.req { s.treqs (ntpSlot a.req) with req := 0 }, .init (.parts q c), .unlink⟩
  | .parts q c => ⟨s.setEntry a.req { s.treqs (ntpSlot a.req) with parts := 0 }, .init (.wipe q c), .clear⟩
  | .wipe q c => ⟨s.setRec a.req {}, .init (.fill q c), .nothing⟩
  | .fill q c =>
    ⟨s.setRec a.req (newTgtRec .rdma f env a c q.1 q.2 (tgtSampled .rdma f s env a)), .init .publish, .nothing⟩
  | .publish => ⟨s.setEntry a.req { s.treqs (ntpSlot a.req) with req := a.req }, .init (.sampled .load), .publish⟩
  | .sampled p => countStep .tgtSampled (fun p => .init (.sampled p)) .idle s mine p

/-- Where on the way to its key a hook is, in its first part. -/
def FrontPc.keyPc : FrontPc → Option KeyPc
  | .key p => some p
  | _ => none

/-- Where on the way to its key a hook is. -/
def Work.keyPc : Work → Option KeyPc
  | .touch _ p => p.keyPc
  | .rsp _ (.front p) => p.keyPc
  | _ => none

/-- The counters of the records that are lost. -/
def lossCounters : List Counter := [.rbDrops, .stale]

/-- The counter that a hook is to count. -/
def Work.counting : Work → Option Counter
  | .rsp _ (.emit (.count i _)) => some i
  | .init (.cmds _ _) => some .tgtCmds
  | .init (.emit _ (.count i _)) => some i
  | .init (.stale _ _ _) => some .stale
  | .init (.sampled _) => some .tgtSampled
  | _ => none

/-- What a hook has read of that counter, and is to write back, counted. -/
def Work.saving : Work → Option U64
  | .rsp _ (.emit (.count _ (.save old))) => some old
  | .init (.cmds _ (.save old)) => some old
  | .init (.emit _ (.count _ (.save old))) => some old
  | .init (.stale _ _ (.save old)) => some old
  | .init (.sampled (.save old)) => some old
  | _ => none

/-- The counters of a CPU, `mine`, when a hook has made its next access there. -/
def Work.tally (w : Work) (mine : Counters) : Counters :=
  match w.counting, w.saving with
  | some i, some old => Function.update mine i (old + 1)
  | _, _ => mine

/-- The next access of a hook on a CPU with the counters `mine`, which then has the key `key`. -/
def Work.step (f : Filter) (s : TgtState) (env : HookEnv) (mine : Counters) (a : ReqInitArgs) (key : U64) : Work → Out
  | .idle => ⟨s, .idle, .nothing⟩
  | .touch b p =>
    frontStep (b.off f s) b.scalar (b.count f s key) (fun r => b.stores env.now key r) (fun p => .touch b p) .idle .idle
      s env a.req key p
  | .rsp e p => rspStep f s env mine a.req key e p
  | .init p => initStep f s env mine a p

/-! ## All hooks at once -/

/-- What runs on a CPU: one of the tasks that take turns on it, or what interrupts them. -/
inductive Level (tasks : ℕ) where
  | task (i : Fin tasks)
  | softirq
  | hardirq
  | nmi
  deriving DecidableEq

instance fintypeLevel (tasks : ℕ) : Fintype (Level tasks) :=
  ⟨{.softirq, .hardirq, .nmi} ∪ Finset.univ.image .task, fun l => by cases l <;> simp⟩

/-- The CPUs, and how many tasks can be in hooks on each of them: one that is preempted there stays in its hook. -/
structure Cpus where
  count : U32
  tasks : BitVec 31

/-- Where a hook can run. -/
abbrev Context (cpus : Cpus) := Fin cpus.count.toNat × Level cpus.tasks.toNat

/-- A hook of the command `cmd` that is running, with its key: its `nvmet_req`, or what it has read for it. -/
structure Thread where
  cmd : ℕ := 0
  env : HookEnv := { cpu := 0, tid := 0, now := 0 }
  work : Work := .idle
  key : U64 := 0

/-- The flavours of a function's hooks: fentry and fexit, or kprobe and kretprobe. -/
inductive Probe where
  | fentry
  | kprobe

/-- A kind of hook. -/
inductive Kind where
  | init
  | touch (b : Touch) (p : Probe)
  | rsp (e : RspEnd) (p : Probe)

/-- Where a hook begins: `ntp_tr_queue_resp_kp` saves the `nvmet_req` first. -/
def Touch.first : Touch → Probe → FrontPc
  | .queueResp, .kprobe => .key .saveTid
  | _, _ => .gate

/-- Where a hook begins: that of the return of `nvmet_rdma_queue_response` comes by its key first, in
`ntp_tr_queue_resp_fx` through `ntp_scalar`, and in `ntp_tr_queue_resp_kr` from what was saved. -/
def RspEnd.first : RspEnd → Probe → FrontPc
  | .posted, .fentry => .key .put
  | .posted, .kprobe => .key .find
  | .sendDone, _ => .gate

/-- A hook that has not yet done anything. -/
def Kind.work : Kind → Work
  | .init => .init .enter
  | .touch b p => .touch b (b.first p)
  | .rsp e p => .rsp e (.front (e.first p))

/-- What became of the records. -/
abbrev Book (cpus : Cpus) := SharedSlots.State (Context cpus) Slot ℕ RspEnd Fate

/-- All hooks, the state they share, and, as seen from outside, the calls so far. -/
structure Machine (cpus : Cpus) where
  st : TgtState := {}
  /-- `ntp_scalar_slot` and `counters`, on each CPU -/
  scalar : Nat → U64 := fun _ => 0
  counters : Nat → Counters := fun _ _ => 0
  hooks : Context cpus → Thread := fun _ => {}
  book : Book cpus := ⟨fun _ => none, fun _ => .away, fun _ => ∅, [], []⟩
  /-- the commands whose `nvmet_req_init` has begun, and those whose hook there is over -/
  inits : List ℕ := []
  begun : List ℕ := []
  /-- the commands that are sampled -/
  sampled : List ℕ := []
  /-- the last command that came with an `nvmet_req`, and the last one that found no record there, or sent it off -/
  came : U64 → Option ℕ := fun _ => none
  cur : U64 → Option ℕ := fun _ => none
  /-- the ends of responses whose hooks have begun, and those whose hooks are over -/
  started : List (ℕ × RspEnd) := []
  finished : List (ℕ × RspEnd) := []

/-- What happens: user space arms the object, a receive completion begins or ends, a hook begins, a hook makes its next
access. -/
inductive Action (cpus : Cpus) where
  | arm (on : Bool)
  | recvDone (env : HookEnv) (qpContext : U64)
  | recvDoneExit (env : HookEnv)
  | start (t : Context cpus) (cmd : ℕ) (kind : Kind) (env : HookEnv)
  | step (t : Context cpus)

/-- What a step means for the record in the slot `k`. -/
def Note.book {cpus : Cpus} (t : Context cpus) (cmd : ℕ) (k : Slot) (b : Book cpus) : Note → Book cpus
  | .nothing => b
  | .find => b.go t (.uses ((b.live k).getD cmd))
  | .letGo => b.go t .away
  | .see e => b.see t cmd e
  | .grab => b.go t (.emits true ((b.live k).getD cmd))
  | .lose => b.go t .away
  | .flush => b.go t (.emits false ((b.live k).getD cmd))
  | .output own f => b.output t ((b.live k).getD cmd) own f
  | .count _ => b
  | .free => b.free t k
  | .leave => b
  | .take => b.take t k
  | .unlink => b.unlink t k
  | .clear => b
  | .publish => b.publish t cmd k

section Machine

variable {cpus : Cpus} (f : Filter) (args : ℕ → ReqInitArgs)

/-- The hook passes from looking for an older record to its own one. -/
def Work.samples : Work → Bool
  | .init (.sample _) => true
  | _ => false

/-- The hook of `nvmet_req_init` is running. -/
def Work.isInit : Work → Bool
  | .init _ => true
  | _ => false

/-- No hook is running. -/
def Work.isIdle : Work → Bool
  | .idle => true
  | _ => false

/-- A hook begins. -/
def Machine.start (m : Machine cpus) (t : Context cpus) (cmd : ℕ) (kind : Kind) (env : HookEnv) : Machine cpus :=
  let m := { m with hooks := Function.update m.hooks t ⟨cmd, env, kind.work, (args cmd).req⟩ }
  match kind with
  | .init => { m with inits := m.inits ++ [cmd], came := Function.update m.came (args cmd).req (some cmd) }
  | .touch _ _ => m
  | .rsp e _ => { m with started := m.started ++ [(cmd, e)] }

/-- The calls, after an access that leaves `next` of a hook. -/
def Machine.finish (m : Machine cpus) (h : Thread) (next : Work) : Machine cpus :=
  match h.work, next with
  | .init _, .idle => { m with begun := m.begun ++ [h.cmd] }
  | .rsp e _, .idle => { m with finished := m.finished ++ [(h.cmd, e)] }
  | _, _ => m

/-- A hook makes its next access. -/
def Machine.access (m : Machine cpus) (t : Context cpus) : Machine cpus :=
  let h := m.hooks t
  let a := args h.cmd
  let key :=
    match h.work.keyPc with
    | some .get => m.scalar h.env.cpu
    | some .reload => (m.st.respCtx h.env.cpu).req
    | _ => h.key
  let o := h.work.step f m.st h.env (m.counters h.env.cpu) a key
  let m := m.finish h o.work
  { m with st := o.st
           scalar := if h.work.keyPc = some .put then Function.update m.scalar h.env.cpu a.req else m.scalar
           counters := Function.update m.counters h.env.cpu (h.work.tally (m.counters h.env.cpu))
           hooks := Function.update m.hooks t { h with work := o.work, key := key }
           book := o.note.book t h.cmd (ntpSlot key) m.book
           cur := if h.work.samples then Function.update m.cur a.req (some h.cmd) else m.cur
           sampled := if h.work.samples && !o.work.isIdle then m.sampled ++ [h.cmd] else m.sampled }

/-- One thing happens. -/
def Machine.next (m : Machine cpus) : Action cpus → Machine cpus
  | .arm on => { m with st := { m.st with armed := on } }
  | .recvDone env qpContext => { m with st := onRecvDone m.st env qpContext }
  | .recvDoneExit env => { m with st := onRecvDoneExit m.st env }
  | .start t cmd kind env => m.start args t cmd kind env
  | .step t => m.access f args t

/-- A run. -/
def Machine.run (m : Machine cpus) (as : List (Action cpus)) : Machine cpus := as.foldl (Machine.next f args) m

/-! ## What is promised, and what it takes -/

/-- In its first part, the hook has a pointer to its slot in use. -/
def FrontPc.inSlot : FrontPc → Bool
  | .gate => false
  | .key _ => false
  | .look => false
  | .load => true
  | .store _ _ => true

/-- In `tgt_emit`, the hook has a pointer to its slot in use. -/
def EmitPc.inSlot : EmitPc → Bool
  | .look => false
  | .cpu => true
  | .output => true
  | .count _ _ => true
  | .free => true
  | .leave => false

/-- The slot is free already, and `ntp_inflight` is to be counted down. -/
def EmitPc.leaves : EmitPc → Bool
  | .leave => true
  | _ => false

/-- In the hook of an end of a response, it has a pointer to its slot in use. -/
def RspPc.inSlot : RspPc → Bool
  | .front p => p.inSlot
  | .part => false
  | .fetchOr => true
  | .emit p => p.inSlot
  | .uncount => false

/-- In `ntp_t_req_init`, the hook has a pointer to its slot in use. -/
def InitPc.inSlot : InitPc → Bool
  | .enter => false
  | .cmds _ _ => false
  | .gate _ => false
  | .look _ => false
  | .load _ => true
  | .flag _ _ => true
  | .emit _ p => !p.leaves
  | .sample _ => false
  | .take _ _ => false
  | .stale _ _ _ => true
  | .claim _ _ => true
  | .parts _ _ => true
  | .wipe _ _ => true
  | .fill _ _ => true
  | .publish => true
  | .sampled _ => false

/-- The hook has a pointer to its slot in use. -/
def Work.inSlot : Work → Bool
  | .idle => false
  | .touch _ p => p.inSlot
  | .rsp _ p => p.inSlot
  | .init p => p.inSlot

/-- The next access of the hook looks its key up for the first time. -/
def Work.seeks : Work → Bool
  | .touch _ .look => true
  | .rsp _ (.front .look) => true
  | _ => false

/-- The next access of the hook gives it a pointer to a record, or takes the slot. -/
def Work.enters (found : Bool) : Work → Bool
  | .touch _ .look => found
  | .rsp _ (.front .look) => found
  | .rsp _ .part => found
  | .rsp _ (.emit .look) => found
  | .init (.look _) => found
  | .init (.take _ _) => true
  | _ => false

/-- A counter of a lost record that the hook is to write back is as the hook has read it. -/
def Work.Fresh (w : Work) (mine : Counters) : Prop :=
  ∀ i ∈ lossCounters, w.counting = some i → ∀ old ∈ w.saving, mine i = old

instance decidableFresh (w : Work) (mine : Counters) : Decidable (w.Fresh mine) :=
  inferInstanceAs (Decidable (∀ i ∈ lossCounters, w.counting = some i → ∀ old ∈ w.saving, mine i = old))

/-- What the kernel promises: a context runs one hook at a time, on its CPU; each command has one `nvmet_req_init`, and
not while that of another one runs on the same `nvmet_req`; its other hooks come after that, each end of its response
once. -/
def Machine.Allows (m : Machine cpus) : Action cpus → Prop
  | .start t cmd kind env =>
    ((m.hooks t).work.isIdle ∧ env.cpu = t.1.val) ∧
      match kind with
      | .init => cmd ∉ m.inits ∧
        ∀ t', (m.hooks t').work.isInit → (args (m.hooks t').cmd).req ≠ (args cmd).req
      | .touch _ _ => cmd ∈ m.begun
      | .rsp e _ => cmd ∈ m.begun ∧ (cmd, e) ∉ m.started
  | _ => True

/-- A hook that looks its key up has the `nvmet_req` of its own command for it, and a hook that asks for what was saved
finds it, unless there is no record anyway. The counter of a lost record that a hook writes back is as it has read it. A
hook finds a record only while its own command is the last one that its `nvmet_req` came with, and no hook takes a slot in
which another one is. -/
@[mk_iff]
structure Machine.OrderlyStep (m : Machine cpus) (t : Context cpus) : Prop where
  key : (m.hooks t).work.seeks →
    (m.st.tgtEntry (m.hooks t).key).isSome ∨ (m.st.tgtEntry (args (m.hooks t).cmd).req).isSome →
    (m.hooks t).key = (args (m.hooks t).cmd).req
  saved : (m.hooks t).work.keyPc = some .find → (m.st.tgtEntry (args (m.hooks t).cmd).req).isSome →
    (ntpCtxGet m.st.respCtx (m.hooks t).env).isSome
  counted : (m.hooks t).work.Fresh (m.counters (m.hooks t).env.cpu)
  last : (m.hooks t).work.enters (m.st.tgtEntry (args (m.hooks t).cmd).req).isSome →
    (m.hooks t).work.isInit = false → m.cur (args (m.hooks t).cmd).req = some (m.hooks t).cmd
  apart : (m.hooks t).work.enters (m.st.tgtEntry (args (m.hooks t).cmd).req).isSome →
    ∀ t', (m.hooks t').work.inSlot → ntpSlot (args (m.hooks t').cmd).req = ntpSlot (args (m.hooks t).cmd).req →
      (m.hooks t).work.isInit = false ∧ (m.hooks t').work.isInit = false

/-- Each access of a hook is orderly. -/
def Machine.Orderly (m : Machine cpus) : Action cpus → Prop
  | .step t => m.OrderlyStep args t
  | _ => True

/-- The `nvmet_req` of a command comes back when the send completion of the command was handled. -/
def Machine.HandsOn (m : Machine cpus) : Action cpus → Prop
  | .start _ cmd .init _ => ∀ c ∈ m.came (args cmd).req, (c, .sendDone) ∈ m.finished
  | _ => True

/-- Each action of a run has `P` where it happens. -/
def Machine.Throughout (P : Machine cpus → Action cpus → Prop) : Machine cpus → List (Action cpus) → Prop
  | _, [] => True
  | m, a :: as => P m a ∧ Throughout P (m.next f args a) as

instance decidableAllows (m : Machine cpus) : (a : Action cpus) → Decidable (m.Allows args a)
  | .start t cmd .init env => inferInstanceAs (Decidable (((m.hooks t).work.isIdle ∧ env.cpu = t.1.val) ∧
      cmd ∉ m.inits ∧ ∀ t', (m.hooks t').work.isInit → (args (m.hooks t').cmd).req ≠ (args cmd).req))
  | .start t cmd (.touch _ _) env =>
    inferInstanceAs (Decidable (((m.hooks t).work.isIdle ∧ env.cpu = t.1.val) ∧ cmd ∈ m.begun))
  | .start t cmd (.rsp e _) env => inferInstanceAs (Decidable (((m.hooks t).work.isIdle ∧ env.cpu = t.1.val) ∧
      cmd ∈ m.begun ∧ (cmd, e) ∉ m.started))
  | .arm _ => .isTrue trivial
  | .recvDone _ _ => .isTrue trivial
  | .recvDoneExit _ => .isTrue trivial
  | .step _ => .isTrue trivial

instance decidableOrderly (m : Machine cpus) : (a : Action cpus) → Decidable (m.Orderly args a)
  | .step _ => decidable_of_iff' _ (Machine.orderlyStep_iff ..)
  | .arm _ => .isTrue trivial
  | .recvDone _ _ => .isTrue trivial
  | .recvDoneExit _ => .isTrue trivial
  | .start _ _ _ _ => .isTrue trivial

instance decidableHandsOn (m : Machine cpus) : (a : Action cpus) → Decidable (m.HandsOn args a)
  | .start _ cmd .init _ => inferInstanceAs (Decidable (∀ c ∈ m.came (args cmd).req, (c, .sendDone) ∈ m.finished))
  | .start _ _ (.touch _ _) _ => .isTrue trivial
  | .start _ _ (.rsp _ _) _ => .isTrue trivial
  | .arm _ => .isTrue trivial
  | .recvDone _ _ => .isTrue trivial
  | .recvDoneExit _ => .isTrue trivial
  | .step _ => .isTrue trivial

instance decidableThroughout (P : Machine cpus → Action cpus → Prop) [∀ m a, Decidable (P m a)] :
    (m : Machine cpus) → (as : List (Action cpus)) → Decidable (m.Throughout f args P as)
  | _, [] => .isTrue trivial
  | m, a :: as =>
    have := decidableThroughout P (m.next f args a) as
    inferInstanceAs (Decidable (P m a ∧ (m.next f args a).Throughout f args P as))

/-! ## What the emission is to do -/

/-- The hooks that are to count. -/
def Machine.toCount (m : Machine cpus) (i : Counter) : Finset (Context cpus) :=
  Finset.univ.filter fun t => (m.hooks t).work.counting = some i

/-- Every sampled command gets a record, and every record ends once: it is emitted, or counted as dropped or as
replaced, if not by now then by a hook that is about to; not before both ends of its response were seen, unless its
`nvmet_req` came back; and no later than that. -/
structure Machine.EmitsOnce (m : Machine cpus) : Prop where
  sampled : ∀ c ∈ m.sampled, c ∈ m.begun → c ∈ m.book.made
  once : (m.book.closed.map Prod.fst).Nodup
  kept : ∀ c ∈ m.book.made, m.book.Closed c ∨ m.book.live (ntpSlot (args c).req) = some c
  done : ∀ c ∈ m.book.made, (∀ e, (c, e) ∈ m.finished) ∨ m.cur (args c).req ≠ some c → m.book.Closed c
  ends : ∀ c x, (c, .own x) ∈ m.book.closed → ∀ e, e ∈ m.book.seen c
  back : ∀ c x, (c, .back x) ∈ m.book.closed → m.came (args c).req ≠ some c
  record : ∀ c x r, (c, x) ∈ m.book.closed → x.fate = some (.emitted r) → (args c).cmd.map (args c).id = some r.id
  events : m.st.events = m.book.closed.filterMap fun p => p.2.fate.bind Fate.event
  drops : m.st.counters .rbDrops + BitVec.ofNat 64 (m.toCount .rbDrops).card =
    BitVec.ofNat 64 (m.book.closed.countP fun p => p.2.fate.any (·.event.isNone))
  stale : m.st.counters .stale + BitVec.ofNat 64 (m.toCount .stale).card =
    BitVec.ofNat 64 (m.book.closed.countP fun p => p.2.fate.isNone)

/-- No hook of one command changes the record of another one, unless that one is over, or its `nvmet_req` came back. -/
def Machine.Untouched (m : Machine cpus) : Action cpus → Prop
  | .step t =>
    ∀ k d, m.book.live k = some d → d ≠ (m.hooks t).cmd →
      (m.access f args t).st.treqs k = m.st.treqs k ∨ m.book.Closed d ∨
        ((m.hooks t).work.isInit ∧ (args d).req = (args (m.hooks t).cmd).req)
  | _ => True

end Machine

end Ntprof.Bpf
