import Ntprof.Bpf.Spdk
import Ntprof.Bpf.Proofs.TargetProofs
import Ntprof.Bpf.Proofs.HostProofs
import Ntprof.Lib.Tickets

/-!
# Commands in flight when sampling stops

`ntp_loader_disarm` clears `ntp_armed`, and the hooks stay attached for a while so that the commands in flight
still yield their records. This module follows each record of a kernel object by a ticket, and says which hook is
the last of a command.
-/

namespace Ntprof.Bpf

open SlotTable

/-! ## Kernel objects -/

/-- The request whose slot an event can start or end a record in. -/
def HostEvent.about : HostEvent → U64
  | .setupCmd _ a => a.rq
  | .blkDone _ rq => rq
  | _ => 0

/-- An event at a host object, with the tickets of its records. -/
def hostTicketStep (tr : Transport) (k : Layout) (f : Filter) (st : HostState × Tickets Slot) (e : HostEvent) :
    HostState × Tickets Slot :=
  let s' := hostStep tr k f st.1 e
  (s', st.2.next (ntpSlot e.about) (st.1.ledger.change s'.ledger st.1.events.length s'.events.length))

/-- A run of a host object, with the tickets of its records. -/
def hostTickets (tr : Transport) (k : Layout) (f : Filter) (es : List HostEvent) : HostState × Tickets Slot :=
  es.foldl (hostTicketStep tr k f) ({}, {})

/-- An event at a target object, with the tickets of its records. -/
def tgtTicketStep (tr : Transport) (f : Filter) (st : TgtState × Tickets Slot) (e : TgtEvent) :
    TgtState × Tickets Slot :=
  let s' := tgtStep tr f st.1 e
  (s', st.2.next (ntpSlot ((e.key st.1).getD 0))
    (st.1.ledger.change s'.ledger st.1.events.length s'.events.length))

/-- A run of a target object, with the tickets of its records. -/
def tgtTickets (tr : Transport) (f : Filter) (es : List TgtEvent) : TgtState × Tickets Slot :=
  es.foldl (tgtTicketStep tr f) ({}, {})

/-- `nvmet_req_init` passes every test, so it starts a record. -/
def reqInitStores (tr : Transport) (f : Filter) (s : TgtState) (env : HookEnv) (a : ReqInitArgs) : Bool :=
  reqInitRecognised tr s env a &&
    a.cmd.any fun c => ntpIsRw c.opcode && ntpTypeMatches f c.opcode && ntpSampled f c.commandId c.slba c.length

/-! ## The last hook of a command at a target -/

/-- A send of the first byte of the last PDU for `req`: the response, or the data that ends with success. -/
def TgtEvent.sendsLast (req : KAddr) : TgtEvent → Prop
  | .tcp _ (.sendmsg a) =>
    a.sndCmd = some req ∧ a.offset = 0 ∧ (a.state = .response ∨ (a.state = .dataPdu ∧ a.sqhdDisabled = true))
  | _ => False

/-- `nvmet_rdma_queue_response` returns for `req`. -/
def TgtEvent.posts (req : KAddr) : TgtEvent → Prop
  | .rdma _ (.queueRespFx r) => r = req
  | .rdma _ (.queueRespKr own) => own = req
  | _ => False

/-- The send completion of the response of `req` is handled. -/
def TgtEvent.sent (req : KAddr) : TgtEvent → Prop
  | .rdma _ (.sendDone r) => r = req
  | _ => False

/-- The last hook of a command on `req`, after the events `before`: over TCP the send of its last PDU, over RDMA
the later of the two ends of its response. -/
def LastHook (tr : Transport) (req : KAddr) (before : List TgtEvent) (e : TgtEvent) : Prop :=
  match tr with
  | .tcp => e.sendsLast req
  | .rdma => (e.posts req ∧ ∃ x ∈ before, x.sent req) ∨ (e.sent req ∧ ∃ x ∈ before, x.posts req)

/-- The hooks at the end of a response find the command: `tqueues` still has the queue of a command with a record,
and the return hook of `nvmet_rdma_queue_response` has the context of its own call. -/
def TgtEvent.Recognises (s : TgtState) : TgtEvent → Prop
  | .tcp _ (.sendmsg a) =>
    ∀ req, a.sndCmd = some req → (s.treqs (ntpSlot req)).req = req → s.tqueues.lookup a.queue = some a.sock
  | .rdma env (.queueRespKr own) => (ntpCtxGet s.respCtx env).map RespCtx.req = some own.val
  | _ => True

/-- Every event of a run does. -/
def RecognisingRun (tr : Transport) (f : Filter) : TgtState → List TgtEvent → Prop
  | _, [] => True
  | s, e :: es => e.Recognises s ∧ RecognisingRun tr f (tgtStep tr f s e) es

/-! ## SPDK objects -/

/-- The command of a done probe is one that the filter selects. -/
def SpdkObject.selects (o : SpdkObject) (f : SpdkFilter) (d : DoneArgs) : Prop :=
  ∃ c st, d.read = some (c, st) ∧
    match o with
    | .tcpHost => spdkSelected f c (spdkBytes .tcp c st) = true ∧ (f.nsid = 0 ∨ c.nsid = f.nsid)
    | .rdmaHost => spdkSelected f c (spdkBytes .rdma c st) = true ∧ (f.nsid = 0 ∨ c.nsid = f.nsid)
    | .tcpTarget => spdkSelected f c (spdkBytes .tcp c st) = true
    | .rdmaTarget => spdkSelected f c (spdkBytes .rdma c st) = true

/-- Between `s` and `s'` a record went to the ring buffer, or a counter says that one was lost. -/
def SpdkState.Accounts (s s' : SpdkState) : Prop :=
  (∃ r, s'.events = s.events ++ [r]) ∨ s'.counters .rbDrops = s.counters .rbDrops + 1 ∨
    s'.counters .stale = s.counters .stale + 1

end Ntprof.Bpf
