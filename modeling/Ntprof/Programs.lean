import Ntprof.Loader
import Ntprof.Config

/-!
# Choosing the programs of an object (`src/loader.c`)

Each BPF object has its function hooks twice, once for fentry/fexit and once for kprobes. `select_programs` keeps one
flavour of them and turns off what this kernel cannot attach. The loader knows a program by its name and its section.
-/

namespace Ntprof.Loader

/-! ## The programs -/

/-- The hooks by their base names, in the order of the files of `bpf/`. -/
inductive Hook where
  | hSetupCmd
  | hNvmeDone
  | hBlkDone
  | hQueueRq
  | hSendCmd
  | hSendData
  | hSendDdgst
  | hSendH2c
  | hTrySend
  | hSendpage
  | hNosendpage
  | hSendmsg
  | hRecvSkb
  | hCopy
  | hCopyHash
  | hR2t
  | hComplete
  | hrQueueRq
  | hrPost
  | hrSendDone
  | hrRecvDone
  | hrInvDone
  | hrComplete
  | tReqInit
  | tExecBdev
  | tExecFile
  | tExecPt
  | tBeIssue
  | tBeDone
  | tComplete
  | tCopy
  | tCopyDone
  | tQueueResp
  | tH2c
  | tSendmsg
  | tSendpage
  | trRecvDone
  | trExecute
  | trReadDone
  | trSendDone
  | trQueueResp
  | sRecvmsg
  | sCopy
  | uNvmeTcpDone
  | sSendmsg
  | uNvmfTcpDone
  | uNvmeRdmaDone
  | uNvmfRdmaDone
  deriving DecidableEq, Repr

/-- The base name of the programs of a hook. -/
def Hook.base : Hook → String
  | .hSetupCmd => "ntp_h_setup_cmd"
  | .hNvmeDone => "ntp_h_nvme_done"
  | .hBlkDone => "ntp_h_blk_done"
  | .hQueueRq => "ntp_h_queue_rq"
  | .hSendCmd => "ntp_h_send_cmd"
  | .hSendData => "ntp_h_send_data"
  | .hSendDdgst => "ntp_h_send_ddgst"
  | .hSendH2c => "ntp_h_send_h2c"
  | .hTrySend => "ntp_h_try_send"
  | .hSendpage => "ntp_h_sendpage"
  | .hNosendpage => "ntp_h_nosendpage"
  | .hSendmsg => "ntp_h_sendmsg"
  | .hRecvSkb => "ntp_h_recv_skb"
  | .hCopy => "ntp_h_copy"
  | .hCopyHash => "ntp_h_copy_hash"
  | .hR2t => "ntp_h_r2t"
  | .hComplete => "ntp_h_complete"
  | .hrQueueRq => "ntp_hr_queue_rq"
  | .hrPost => "ntp_hr_post"
  | .hrSendDone => "ntp_hr_send_done"
  | .hrRecvDone => "ntp_hr_recv_done"
  | .hrInvDone => "ntp_hr_inv_done"
  | .hrComplete => "ntp_hr_complete"
  | .tReqInit => "ntp_t_req_init"
  | .tExecBdev => "ntp_t_exec_bdev"
  | .tExecFile => "ntp_t_exec_file"
  | .tExecPt => "ntp_t_exec_pt"
  | .tBeIssue => "ntp_t_be_issue"
  | .tBeDone => "ntp_t_be_done"
  | .tComplete => "ntp_t_complete"
  | .tCopy => "ntp_t_copy"
  | .tCopyDone => "ntp_t_copy_done"
  | .tQueueResp => "ntp_t_queue_resp"
  | .tH2c => "ntp_t_h2c"
  | .tSendmsg => "ntp_t_sendmsg"
  | .tSendpage => "ntp_t_sendpage"
  | .trRecvDone => "ntp_tr_recv_done"
  | .trExecute => "ntp_tr_execute"
  | .trReadDone => "ntp_tr_read_done"
  | .trSendDone => "ntp_tr_send_done"
  | .trQueueResp => "ntp_tr_queue_resp"
  | .sRecvmsg => "ntp_s_recvmsg"
  | .sCopy => "ntp_s_copy"
  | .uNvmeTcpDone => "ntp_u_nvme_tcp_done"
  | .sSendmsg => "ntp_s_sendmsg"
  | .uNvmfTcpDone => "ntp_u_nvmf_tcp_done"
  | .uNvmeRdmaDone => "ntp_u_nvme_rdma_done"
  | .uNvmfRdmaDone => "ntp_u_nvmf_rdma_done"

/-- What a hook attaches to. -/
inductive Point where
  | tracepoint (name : String)
  | function (name : String)
  | usdt

/-- Where a hook attaches. -/
def Hook.point : Hook → Point
  | .hSetupCmd => .tracepoint "nvme_setup_cmd"
  | .hNvmeDone => .tracepoint "nvme_complete_rq"
  | .hBlkDone => .tracepoint "block_rq_complete"
  | .hQueueRq => .function "nvme_tcp_queue_rq"
  | .hSendCmd => .function "nvme_tcp_try_send_cmd_pdu"
  | .hSendData => .function "nvme_tcp_try_send_data"
  | .hSendDdgst => .function "nvme_tcp_try_send_ddgst"
  | .hSendH2c => .function "nvme_tcp_try_send_data_pdu"
  | .hTrySend => .function "nvme_tcp_try_send"
  | .hSendpage => .function "kernel_sendpage"
  | .hNosendpage => .function "sock_no_sendpage"
  | .hSendmsg => .function "sock_sendmsg"
  | .hRecvSkb => .function "nvme_tcp_recv_skb"
  | .hCopy => .function "skb_copy_datagram_iter"
  | .hCopyHash => .function "skb_copy_and_hash_datagram_iter"
  | .hR2t => .function "nvme_tcp_setup_h2c_data_pdu"
  | .hComplete => .function "blk_mq_complete_request_remote"
  | .hrQueueRq => .function "nvme_rdma_queue_rq"
  | .hrPost => .function "nvme_rdma_post_send"
  | .hrSendDone => .function "nvme_rdma_send_done"
  | .hrRecvDone => .function "nvme_rdma_recv_done"
  | .hrInvDone => .function "nvme_rdma_inv_rkey_done"
  | .hrComplete => .function "blk_mq_complete_request_remote"
  | .tReqInit => .tracepoint "nvmet_req_init"
  | .tExecBdev => .function "nvmet_bdev_execute_rw"
  | .tExecFile => .function "nvmet_file_execute_rw"
  | .tExecPt => .function "nvmet_passthru_execute_cmd"
  | .tBeIssue => .tracepoint "block_rq_issue"
  | .tBeDone => .tracepoint "block_rq_complete"
  | .tComplete => .tracepoint "nvmet_req_complete"
  | .tCopy => .function "skb_copy_datagram_iter"
  | .tCopyDone => .function "skb_copy_datagram_iter"
  | .tQueueResp => .function "nvmet_tcp_queue_response"
  | .tH2c => .function "nvmet_tcp_build_pdu_iovec"
  | .tSendmsg => .function "sock_sendmsg"
  | .tSendpage => .function "kernel_sendpage"
  | .trRecvDone => .function "nvmet_rdma_recv_done"
  | .trExecute => .function "nvmet_rdma_execute_command"
  | .trReadDone => .function "nvmet_rdma_read_data_done"
  | .trSendDone => .function "nvmet_rdma_send_done"
  | .trQueueResp => .function "nvmet_rdma_queue_response"
  | .sRecvmsg => .function "tcp_recvmsg"
  | .sCopy => .function "skb_copy_datagram_iter"
  | .uNvmeTcpDone => .usdt
  | .sSendmsg => .function "tcp_sendmsg"
  | .uNvmfTcpDone => .usdt
  | .uNvmeRdmaDone => .usdt
  | .uNvmfRdmaDone => .usdt

/-- The flavours of a program: fentry, fexit, kprobe, kretprobe, or the only one. -/
inductive Kind where
  | fe
  | fx
  | kp
  | kr
  | only
  deriving DecidableEq, Repr

/-- The programs of a hook. -/
def Hook.kinds : Hook → List Kind
  | .hSetupCmd | .hNvmeDone | .hBlkDone | .tReqInit | .tBeIssue | .tBeDone | .tComplete | .uNvmeTcpDone |
    .uNvmfTcpDone | .uNvmeRdmaDone | .uNvmfRdmaDone =>
    [.only]
  | .hQueueRq | .hSendH2c | .hSendpage | .hNosendpage | .hSendmsg | .hCopy | .hCopyHash | .hR2t | .hComplete |
    .hrQueueRq | .hrComplete | .tExecBdev | .tExecFile | .tExecPt | .tCopy | .tQueueResp | .tH2c | .tSendmsg |
    .tSendpage | .trExecute | .trReadDone | .trSendDone | .sRecvmsg | .sCopy | .sSendmsg =>
    [.fe, .kp]
  | .hSendCmd | .hSendData | .hSendDdgst | .hrPost =>
    [.fx, .kp, .kr]
  | .hTrySend | .hRecvSkb | .hrSendDone | .hrRecvDone | .hrInvDone | .trRecvDone | .trQueueResp =>
    [.fe, .fx, .kp, .kr]
  | .tCopyDone =>
    [.fx, .kr]

/-- A BPF program. -/
structure Program where
  hook : Hook
  kind : Kind
  deriving DecidableEq, Repr

/-- The suffix that tells the flavour of a program. -/
def Kind.suffix : Kind → String
  | .fe => "_fe"
  | .fx => "_fx"
  | .kp => "_kp"
  | .kr => "_kr"
  | .only => ""

/-- `bpf_program__name`. -/
def Program.name (p : Program) : List U8 := text p.hook.base ++ text p.kind.suffix

/-- `bpf_program__section_name`. -/
def Program.sec (p : Program) : List U8 :=
  match p.hook.point with
  | .usdt => text "usdt"
  | .tracepoint name => text "raw_tp/" ++ text name
  | .function name =>
    match p.kind with
    | .fe => text "fentry/" ++ text name
    | .fx => text "fexit/" ++ text name
    | .kp => text "kprobe/" ++ text name
    | .kr => text "kretprobe/" ++ text name
    -- a function hook has a flavour
    | .only => []

/-- The hooks of `bpf/host.bpf.h`. -/
def hostHooks : List Hook :=
  [.hSetupCmd, .hNvmeDone, .hBlkDone]

/-- The hooks of `bpf/nvme_tcp_host.bpf.c`. -/
def nvmeTcpHostHooks : List Hook :=
  [.hQueueRq, .hSendCmd, .hSendData, .hSendDdgst, .hSendH2c, .hTrySend, .hSendpage, .hNosendpage, .hSendmsg,
    .hRecvSkb, .hCopy, .hCopyHash, .hR2t, .hComplete]

/-- The hooks of `bpf/nvme_rdma_host.bpf.c`. -/
def nvmeRdmaHostHooks : List Hook :=
  [.hrQueueRq, .hrPost, .hrSendDone, .hrRecvDone, .hrInvDone, .hrComplete]

/-- The hooks of `bpf/target.bpf.h`. -/
def targetHooks : List Hook :=
  [.tReqInit, .tExecBdev, .tExecFile, .tExecPt, .tBeIssue, .tBeDone, .tComplete]

/-- The hooks of `bpf/nvme_tcp_target.bpf.c`. -/
def nvmeTcpTargetHooks : List Hook :=
  [.tCopy, .tCopyDone, .tQueueResp, .tH2c, .tSendmsg, .tSendpage]

/-- The hooks of `bpf/nvme_rdma_target.bpf.c`. -/
def nvmeRdmaTargetHooks : List Hook :=
  [.trRecvDone, .trExecute, .trReadDone, .trSendDone, .trQueueResp]

/-- The hooks of `bpf/spdk.bpf.h` with `NTP_SPDK_SOCKETS`. -/
def spdkSocketHooks : List Hook :=
  [.sRecvmsg, .sCopy]

/-- The hooks of an object. -/
def Object.hooks : Object → List Hook
  | .nvmeTcpHost => hostHooks ++ nvmeTcpHostHooks
  | .nvmeTcpTarget => targetHooks ++ nvmeTcpTargetHooks
  | .nvmeRdmaHost => hostHooks ++ nvmeRdmaHostHooks
  | .nvmeRdmaTarget => targetHooks ++ nvmeRdmaTargetHooks
  | .spdkTcpHost => spdkSocketHooks ++ [.uNvmeTcpDone]
  | .spdkTcpTarget => spdkSocketHooks ++ [.sSendmsg, .uNvmfTcpDone]
  | .spdkRdmaHost => [.uNvmeRdmaDone]
  | .spdkRdmaTarget => [.uNvmfRdmaDone]

/-- The programs of an object. -/
def Object.programs (d : Object) : List Program := d.hooks.flatMap fun h => h.kinds.map (Program.mk h)

/-- `name` of an object. -/
def Object.name : Object → String
  | .nvmeTcpHost => "nvme_tcp_host"
  | .nvmeTcpTarget => "nvme_tcp_target"
  | .nvmeRdmaHost => "nvme_rdma_host"
  | .nvmeRdmaTarget => "nvme_rdma_target"
  | .spdkTcpHost => "spdk_tcp_host"
  | .spdkTcpTarget => "spdk_tcp_target"
  | .spdkRdmaHost => "spdk_rdma_host"
  | .spdkRdmaTarget => "spdk_rdma_target"

/-- `btf_module` of an object. -/
def Object.btfModule : Object → String
  | .nvmeTcpHost | .spdkTcpHost => "nvme_tcp"
  | .nvmeTcpTarget | .spdkTcpTarget => "nvmet_tcp"
  | .nvmeRdmaHost | .spdkRdmaHost => "nvme_rdma"
  | .nvmeRdmaTarget | .spdkRdmaTarget => "nvmet_rdma"

/-- `required` of an object. -/
def Object.required : Object → List Hook
  | .nvmeTcpHost => [.hSetupCmd, .hRecvSkb, .hComplete, .hBlkDone]
  | .nvmeTcpTarget => [.tCopy, .tReqInit, .tQueueResp, .tSendmsg]
  | .nvmeRdmaHost => [.hrQueueRq, .hSetupCmd, .hrRecvDone, .hrSendDone, .hrComplete, .hBlkDone]
  | .nvmeRdmaTarget => [.trRecvDone, .tReqInit, .trQueueResp, .trSendDone]
  | .spdkTcpHost => [.uNvmeTcpDone]
  | .spdkTcpTarget => [.uNvmfTcpDone]
  | .spdkRdmaHost => [.uNvmeRdmaDone]
  | .spdkRdmaTarget => [.uNvmfRdmaDone]

/-- `exact_only`. -/
def exactOnly : List Hook := [.hQueueRq]

/-- `fallbacks`: a program and the function whose absence it makes up for. -/
def fallbacks : List (Hook × String) :=
  [(.hTrySend, "nvme_tcp_try_send_cmd_pdu"), (.hSendpage, "nvme_tcp_try_send_cmd_pdu"),
    (.hNosendpage, "nvme_tcp_try_send_cmd_pdu"), (.hSendmsg, "nvme_tcp_try_send_cmd_pdu")]

/-! ## The kernel's symbols -/

/-- `strcmp(a, b) <= 0`: bytes compare as unsigned. -/
def strcmpLe : List U8 → List U8 → Bool
  | [], _ => true
  | _ :: _, [] => false
  | a :: as, b :: bs => if a = b then strcmpLe as bs else decide (a < b)

/-- What `fgets` reads one after another into `size` bytes, with room for `room` more bytes of the first one. -/
def fgetsInto (size room : ℕ) : List U8 → List (List U8)
  | [] => []
  | c :: cs =>
    if c = 0x0a#8 ∨ room ≤ 1 then [c] :: fgetsInto size (size - 1) cs
    else
      match fgetsInto size (room - 1) cs with
      | [] => [[c]]
      | l :: ls => (c :: l) :: ls

/-- What a `%s` of `sscanf` skips. -/
def skipField (s : List U8) : List U8 := (s.dropWhile isSpace).dropWhile fun c => !isSpace c

/-- `sscanf(line, "%*s %*s %255s", name)`: the third field of a line of `/proc/kallsyms`, if there is one. -/
def thirdField (line : List U8) : Option (List U8) :=
  let field := ((skipField (skipField line)).dropWhile isSpace).takeWhile fun c => !isSpace c
  if field.length = 0 then none else some (field.take 255)

/-- `ksyms_load`, of the text of `/proc/kallsyms`: the names, sorted. -/
def ksymsLoad (file : Option (List U8)) : Option (List (List U8)) :=
  file.map fun bytes => ((fgetsInto 512 511 bytes).filterMap fun buf => thirdField (textOf buf)).mergeSort strcmpLe

/-- `bsearch` in the places from `l` up to `u`; `fuel` bounds the number of its comparisons. -/
def bsearch (names : List (List U8)) (name : List U8) : (fuel l u : ℕ) → Bool
  | 0, _, _ => false
  | fuel + 1, l, u =>
    if l < u then
      let idx := (l + u) / 2
      let mid := names.getD idx []
      if name = mid then true
      else if strcmpLe name mid then bsearch names name fuel l idx
      else bsearch names name fuel (idx + 1) u
    else false

/-- `ksyms_has`. -/
def ksymsHas (names : List (List U8)) (name : List U8) : Bool := bsearch names name (names.length + 1) 0 names.length

/-! ## Names -/

/-- `USDT_PREFIX`. -/
def usdtPrefix : List U8 := text "ntp_u_"

/-- `USDT_PROVIDER`. -/
def usdtProvider : List U8 := text "ntprof"

/-- `is_usdt`. -/
def isUsdt (p : Program) : Bool := p.sec == text "usdt"

/-- `base_len`, as the name without its flavour suffix. -/
def baseName (name : List U8) : List U8 :=
  if 3 < name.length ∧ name.drop (name.length - 3) ∈ [text "_fe", text "_fx", text "_kp", text "_kr"] then
    name.take (name.length - 3)
  else name

/-- `in_list`. -/
def inList (list : List Hook) (name : List U8) : Bool := list.any fun h => text h.base == baseName name

/-- `is_required`. -/
def isRequired (d : Object) (name : List U8) : Bool := inList d.required name

/-- `fallback_for`. -/
def fallbackFor (name : List U8) : Option (List U8) :=
  (fallbacks.find? fun f => text f.1.base == baseName name).map fun f => text f.2

/-- `skipped`; `list` is `NTPROF_SKIP`, if it is set. -/
def skipped (list : Option (List U8)) (name : List U8) : Bool :=
  list.any fun l => (l.splitOn 0x2c#8).contains (baseName name)

/-- `enum flavour`. -/
inductive Flavour where
  | common
  | fentry
  | kprobe
  deriving DecidableEq, Repr

/-- `flavour_of`. -/
def flavourOf (p : Program) : Flavour :=
  if (text "fentry/").isPrefixOf p.sec || (text "fexit/").isPrefixOf p.sec then .fentry
  else if (text "kprobe/").isPrefixOf p.sec || (text "kretprobe/").isPrefixOf p.sec then .kprobe
  else .common

/-- What stands behind the first `/` of a section. -/
def attachPoint (p : Program) : List U8 := (p.sec.dropWhile (· ≠ 0x2f#8)).drop 1

/-- `target_present`: whether the kernel has where a program attaches, and what was looked up. -/
def targetPresent (names : List (List U8)) (p : Program) : Bool × List U8 :=
  if isUsdt p then (true, cutText 256 (text "USDT " ++ usdtProvider ++ text ":" ++ p.name.drop usdtPrefix.length))
  else if !p.sec.contains 0x2f#8 then (false, cutText 256 p.sec)
  else if (text "raw_tp/").isPrefixOf p.sec || (text "tp_btf/").isPrefixOf p.sec then
    (ksymsHas names (cutText 256 (text "__tracepoint_" ++ attachPoint p)), cutText 256 (text "tracepoint " ++ attachPoint p))
  else (ksymsHas names (attachPoint p), cutText 256 (attachPoint p))

/-! ## Choosing -/

/-- What `select_programs` prints. -/
inductive SelectMsg where
  /-- `NTPROF_SKIP` names the program -/
  | skipped (name : List U8)
  /-- the attach point of a required program was not found -/
  | notFound (what : List U8)
  /-- a program without its attach point is not used -/
  | disabled (what name : List U8)
  deriving DecidableEq

/-- The texts of the messages. -/
def SelectMsg.text (d : Object) : SelectMsg → List U8
  | .skipped name => Ntprof.text (d.name ++ ": ") ++ name ++ Ntprof.text " skipped (NTPROF_SKIP)"
  | .notFound what =>
    Ntprof.text (d.name ++ ": ") ++ what ++ Ntprof.text " not found in /proc/kallsyms; is the " ++
      Ntprof.text d.btfModule ++ Ntprof.text " module loaded?"
  | .disabled what name =>
    Ntprof.text (d.name ++ ": ") ++ what ++ Ntprof.text " not available on this kernel; " ++ name ++
      Ntprof.text " disabled"

/-- What `select_programs` does about a program. -/
inductive Choice where
  | keep
  | disable (msg : Option SelectMsg)
  | giveUp (msg : SelectMsg)
  deriving DecidableEq

/-- What `select_programs` reads: the kernel's symbols, `NTPROF_SKIP`, the flavour, and whether queue lengths are
counted. -/
structure Selection where
  names : List (List U8)
  skip : Option (List U8) := none
  fl : Flavour
  exactQueues : Bool := false

/-- The body of the loop of `select_programs`. -/
def chooseProgram (d : Object) (e : Selection) (p : Program) : Choice :=
  if (flavourOf p ≠ .common ∧ flavourOf p ≠ e.fl) ∨ (e.exactQueues = false ∧ inList exactOnly p.name) ∨
      (fallbackFor p.name).any (ksymsHas e.names) then .disable none
  else if skipped e.skip p.name then .disable (some (.skipped p.name))
  else if (targetPresent e.names p).1 then .keep
  else if isRequired d p.name then .giveUp (.notFound (targetPresent e.names p).2)
  else .disable (some (.disabled (targetPresent e.names p).2 p.name))

/-- `select_programs`: the programs that stay, if it does not give up, and what it prints. -/
def selectLoop (d : Object) (e : Selection) : List Program → Option (List Program) × List SelectMsg
  | [] => (some [], [])
  | p :: ps =>
    match chooseProgram d e p with
    | .keep =>
      let (kept, msgs) := selectLoop d e ps
      (kept.map (p :: ·), msgs)
    | .disable msg =>
      let (kept, msgs) := selectLoop d e ps
      (kept, msg.toList ++ msgs)
    | .giveUp msg => (none, [msg])

/-- `select_programs`; it prints nothing when it is `quiet`. -/
def selectPrograms (d : Object) (e : Selection) (quiet : Bool) : Option (List Program) × List SelectMsg :=
  let (kept, msgs) := selectLoop d e d.programs
  (kept, if quiet then [] else msgs)

end Ntprof.Loader
