import Ntprof.Config

/-!
# The processes of `record` (`src/record.c`)

The recording runs in a child process, which tells the parent by a pipe when its hooks are attached and when its
report is out. The parent waits for these messages, starts over with kprobes when attaching takes too long, forwards
signals, and returns the child's status. Parent, children and signals may interleave in any order. The processes that a
child forks to find out if fentry hooks can attach have the write end of its pipe, too.
-/

namespace Ntprof.Supervisor

/-- `EXIT_SUCCESS`. -/
def exitSuccess : U8 := 0

/-- `EXIT_FAILURE`. -/
def exitFailure : U8 := 1

/-- `MSG_ATTACHED`. -/
def msgAttached : U8 := 0x41

/-- `MSG_DONE`. -/
def msgDone : U8 := 0x44

/-- `NB_TIMEOUT`. -/
def nbTimeout : ℤ := -1

/-- `NB_LEFT`. -/
def nbLeft : ℤ := -2

/-- `DETACH_WAIT_MS`. -/
def detachWaitMs : ℕ := 3000

/-! ## A child -/

/-- Where a child is in `record`. -/
inductive ChildPhase where
  /-- before it sets its signal handlers -/
  | starting
  /-- in `ntp_loader_open` or `ntp_writer_open` -/
  | attaching
  /-- in the loop, the drain or the report -/
  | recording
  /-- it has told its status and is in `ntp_loader_close` -/
  | reported (ret : U8)
  | exited (ret : U8)
  /-- a signal has ended it -/
  | killed
  deriving DecidableEq, Repr

/-- The process is gone. -/
def ChildPhase.ended : ChildPhase → Bool
  | .exited _ => true
  | .killed => true
  | _ => false

/-- The pipe of a child: `record` may have none, and its reader may be gone. -/
inductive DoneFd where
  | absent
  | open
  | broken
  deriving DecidableEq, Repr

/-- A process that runs `record`. The pipe is what was written to it and how much of that was read. -/
structure Child where
  /-- `force_kprobes` of its configuration -/
  forceKprobes : Bool
  /-- until it sets its own handlers it has the parent's `forward_signal` -/
  inherits : Bool
  phase : ChildPhase := .starting
  stop : Bool := false
  /-- a `SIGKILL` is pending: it makes no step of its own any more -/
  sigkill : Bool := false
  doneFd : DoneFd := .open
  written : List U8 := []
  nread : ℕ := 0
  /-- `fentry_check` was called -/
  checked : Bool := false
  /-- how many of the two processes that it forks are still there, with the write end of the pipe -/
  checkers : ℕ := 0
  /-- the status with which its report went out -/
  finished : Option U8 := none
  deriving DecidableEq, Repr

/-- The child makes steps of its own. -/
def Child.runs (ch : Child) : Bool := !ch.phase.ended && !ch.sigkill

/-- No process is left that has the write end of its pipe. -/
def Child.gone (ch : Child) : Bool := ch.phase.ended && ch.checkers == 0

/-- Why the loop of `record` ends. -/
inductive LoopEnd where
  | stopped
  | duration
  | pollFailed
  deriving DecidableEq, Repr

/-- What happens to a child. -/
inductive ChildStep where
  | setHandlers
  /-- `fentry_check` forks a process, and that one another one -/
  | forksCheck
  /-- one of these two is gone -/
  | checkEnds
  /-- `ntp_loader_open` or `ntp_writer_open` fails -/
  | openFails
  | attached
  /-- the report is out; `saved` says whether the JSON report and the record file were written -/
  | finishes (why : LoopEnd) (saved : Bool)
  /-- the hooks are gone -/
  | detached
  /-- `SIGINT` or `SIGTERM` -/
  | signalled
  /-- of a `SIGKILL` or a fault -/
  | dies
  deriving DecidableEq, Repr

/-- `tell_parent`. A write to a pipe that has no reader ends the process (`SIGPIPE`). -/
def tellParent (ch : Child) (msg : List U8) (next : ChildPhase) : Child :=
  match ch.doneFd with
  | .absent => { ch with phase := next }
  | .open => { ch with phase := next, written := ch.written ++ msg }
  | .broken => { ch with phase := .killed }

/-- The loop can end so. -/
def LoopEnd.possible (durationS : U32) (ch : Child) : LoopEnd → Bool
  | .stopped => ch.stop
  | .duration => durationS ≠ 0
  | .pollFailed => true

/-- `ret` at the end of `record`. -/
def recordRet (why : LoopEnd) (saved : Bool) : U8 :=
  if why = .pollFailed ∨ saved = false then exitFailure else exitSuccess

/-- A signal's handler: `on_signal` once it is set. -/
def signalChild (ch : Child) : Child :=
  if ch.phase.ended then ch
  else if ch.phase = .starting then if ch.inherits then ch else { ch with phase := .killed }
  else { ch with stop := true }

/-- One step of a child. -/
def childStep (c : RunConfig) (ch : Child) : ChildStep → Option Child
  | .setHandlers => if ch.runs ∧ ch.phase = .starting then some { ch with phase := .attaching } else none
  | .forksCheck =>
    -- only `choose_flavour` calls it, for a child whose flags leave the choice
    if ch.runs ∧ ch.phase = .attaching ∧ !ch.forceKprobes ∧ !c.forceFentry ∧ !ch.checked then
      some { ch with checked := true, checkers := 2 }
    else none
  | .checkEnds => if ch.checkers ≠ 0 then some { ch with checkers := ch.checkers - 1 } else none
  | .openFails => if ch.runs ∧ ch.phase = .attaching then some { ch with phase := .exited exitFailure } else none
  | .attached => if ch.runs ∧ ch.phase = .attaching then some (tellParent ch [msgAttached] .recording) else none
  | .finishes why saved =>
    if ch.runs ∧ ch.phase = .recording ∧ why.possible c.durationS ch then
      let ret := recordRet why saved
      some (tellParent { ch with finished := some ret } [msgDone, ret] (.reported ret))
    else none
  | .detached =>
    match ch.phase with
    | .reported ret => if ch.runs then some { ch with phase := .exited ret } else none
    | _ => none
  | .signalled => some (signalChild ch)
  | .dies => if ch.phase.ended then none else some { ch with phase := .killed }

/-! ## The parent -/

/-- The calls of `next_byte` in `cmd_record`. -/
inductive Call where
  /-- with `ATTACH_DEADLINE_MS` -/
  | attach
  /-- after the deadline -/
  | again
  | recording
  | status
  deriving DecidableEq, Repr

/-- Where a call of `next_byte` is. -/
inductive Point where
  /-- before it looks at `interrupts` -/
  | top
  /-- before `poll` -/
  | tested
  | polling
  /-- before `read` -/
  | reading
  deriving DecidableEq, Repr

/-- Where the parent is in `cmd_record`. -/
inductive Pc where
  | start
  /-- `start_child` failed: the parent itself runs `record`, as the last of the children -/
  | inProcess
  /-- before the handlers are set -/
  | forked
  | next (call : Call) (point : Point)
  /-- about to kill the child -/
  | timedOut
  /-- about to start over -/
  | restarting
  /-- before `child_pid` is set -/
  | reforked
  | reaping
  | detaching (status : U8) (waited : ℕ)
  | returned (ret : ℕ)
  /-- a signal has ended the parent -/
  | dead
  deriving DecidableEq, Repr

/-- The parent and its children, in the order in which they were started; the last one is `ch`. -/
structure Sys where
  pc : Pc := .start
  children : List Child := []
  childPid : Option ℕ := none
  interrupts : ℕ := 0
  /-- the calls of `poll`, `read` and `waitpid` that failed -/
  failures : ℕ := 0
  deriving DecidableEq, Repr

/-- `ch`. -/
def Sys.ch (s : Sys) : Option Child := s.children.getLast?

/-- Changes a child. -/
def Sys.modifyChild (s : Sys) (i : ℕ) (f : Child → Child) : Sys := { s with children := s.children.modify i f }

/-- Changes the last child. -/
def Sys.modifyCh (s : Sys) (f : Child → Child) : Sys := s.modifyChild (s.children.length - 1) f

/-- `close(ch.fd)`, or the end of the parent. -/
def Child.close (ch : Child) : Child := if ch.doneFd = .open then { ch with doneFd := .broken } else ch

/-- `cmd_record` returns. -/
def Sys.ret (s : Sys) (ret : ℕ) : Sys := { s.modifyCh Child.close with pc := .returned ret }

/-- `cmd_record`, with what the child said last while it recorded. -/
def afterRecording (s : Sys) (b : ℤ) : Sys :=
  if b = nbLeft then s.ret 130
  else if b ≠ msgDone.toNat then { s.modifyCh Child.close with pc := .reaping }
  else { s with pc := .next .status .top }

/-- `cmd_record`, with what the child said last while it attached. -/
def afterAttach (s : Sys) (b : ℤ) : Sys :=
  if b = msgAttached.toNat then { s with pc := .next .recording .top } else afterRecording s b

/-- `cmd_record`, with what `next_byte` returned. -/
def afterByte (c : RunConfig) (s : Sys) (call : Call) (b : ℤ) : Sys :=
  match call with
  | .attach =>
    if b = nbTimeout ∧ !c.forceFentry ∧ !c.forceKprobes then { s with pc := .timedOut }
    else if b = nbTimeout then { s with pc := .next .again .top }
    else afterAttach s b
  | .again => afterAttach s b
  | .recording => afterRecording s b
  | .status =>
    { s.modifyCh Child.close with
      pc := .detaching (if b < 0 then exitFailure else BitVec.ofInt 8 b) 0 }

/-- `WIFEXITED` and `WEXITSTATUS` in `reap`. -/
def waitStatus : ChildPhase → Option U8
  | .exited ret => some ret
  | .killed => some exitFailure
  | _ => none

/-- What happens: a step of the parent, a signal that it gets, or something with a child. -/
inductive Event where
  /-- `start_child` -/
  | fork (ok : Bool)
  /-- `child_pid` and the handlers are set -/
  | setUp
  /-- `next_byte` looks at `interrupts` and at the clock -/
  | test (expired : Bool)
  | poll
  | pollTimeout
  | pollReady
  | pollFails
  | read
  | readFails
  | kill
  | reap
  | reapFails
  | recordReturns
  | signal (int : Bool)
  | child (i : ℕ) (e : ChildStep)
  deriving DecidableEq, Repr

/-- A signal that comes in `poll` makes it return (`EINTR`). -/
def interruptPoll (s : Sys) : Sys :=
  match s.pc with
  | .next call .polling => { s with pc := .next call .top }
  | _ => s

/-- `forward_signal`. -/
def forwardSignal (s : Sys) (int : Bool) : Sys :=
  let s := { s with interrupts := s.interrupts + if int then 1 else 0 }
  interruptPoll (s.childPid.elim s fun i => s.modifyChild i signalChild)

/-- A signal for the parent. -/
def parentSignal (s : Sys) (int : Bool) : Option Sys :=
  match s.pc with
  | .returned _ => none
  | .dead => none
  | .start => some { s with pc := .dead }
  | .forked => some { s.modifyCh Child.close with pc := .dead }
  | .inProcess => some (s.modifyCh signalChild)
  | _ => some (forwardSignal s int)

/-- One step. -/
def step (c : RunConfig) (s : Sys) : Event → Option Sys
  | .fork ok =>
    match s.pc with
    | .start =>
      let ch : Child := { forceKprobes := c.forceKprobes, inherits := false }
      if ok then some { s with pc := .forked, children := s.children ++ [ch] }
      else some { s with pc := .inProcess, children := s.children ++ [{ ch with doneFd := .absent }] }
    | .restarting =>
      if ok then some { s with pc := .reforked, children := s.children ++ [{ forceKprobes := true, inherits := true }] }
      else some (s.ret exitFailure.toNat)
    | _ => none
  | .setUp =>
    match s.pc with
    | .forked => some { s with pc := .next .attach .top, childPid := some (s.children.length - 1) }
    | .reforked => some { s with pc := .next .again .top, childPid := some (s.children.length - 1) }
    | _ => none
  | .test expired =>
    match s.pc with
    | .next call .top =>
      if 2 ≤ s.interrupts then some (afterByte c s call nbLeft)
      else if call = .attach ∧ expired then some (afterByte c s call nbTimeout)
      else some { s with pc := .next call .tested }
    | _ => none
  | .poll =>
    match s.pc with
    | .next call .tested => some { s with pc := .next call .polling }
    | _ => none
  | .pollTimeout =>
    match s.pc with
    | .next .attach .polling => some (afterByte c s .attach nbTimeout)
    | _ => none
  | .pollReady =>
    match s.pc, s.ch with
    | .next call .polling, some ch =>
      if ch.nread < ch.written.length ∨ ch.gone then some { s with pc := .next call .reading } else none
    | _, _ => none
  | .pollFails =>
    match s.pc with
    | .next call .polling => some (afterByte c { s with failures := s.failures + 1 } call 0)
    | _ => none
  | .read =>
    match s.pc, s.ch with
    | .next call .reading, some ch =>
      match ch.written[ch.nread]? with
      | some b => some (afterByte c (s.modifyCh fun ch => { ch with nread := ch.nread + 1 }) call b.toNat)
      | none => if ch.gone then some (afterByte c s call 0) else none
    | _, _ => none
  | .readFails =>
    match s.pc with
    | .next call .reading => some (afterByte c { s with failures := s.failures + 1 } call 0)
    | _ => none
  | .kill =>
    match s.pc with
    | .timedOut => some { s.modifyCh fun ch => { ch.close with sigkill := true } with pc := .restarting }
    | _ => none
  | .reap =>
    match s.pc, s.ch with
    | .reaping, some ch => (waitStatus ch.phase).map fun ret => s.ret ret.toNat
    | .detaching status waited, some ch =>
      if waited < detachWaitMs then
        match waitStatus ch.phase with
        | some ret => some (s.ret ret.toNat)
        | none => some { s with pc := .detaching status (waited + 50) }
      else some (s.ret status.toNat)
    | _, _ => none
  | .reapFails =>
    match s.pc with
    | .reaping => some { s.ret exitFailure.toNat with failures := s.failures + 1 }
    | .detaching _ waited =>
      if waited < detachWaitMs then some { s.ret exitFailure.toNat with failures := s.failures + 1 } else none
    | _ => none
  | .recordReturns =>
    match s.pc, s.ch with
    | .inProcess, some ch =>
      match ch.phase with
      | .exited ret => some (s.ret ret.toNat)
      | _ => none
    | _, _ => none
  | .signal int => parentSignal s int
  | .child i e =>
    match s.children[i]? with
    | none => none
    | some ch => (childStep c ch e).map fun ch' => s.modifyChild i fun _ => ch'

/-- The events of a run, in order. -/
def run (c : RunConfig) (s : Sys) : List Event → Option Sys
  | [] => some s
  | e :: es => (step c s e).bind fun s => run c s es

end Ntprof.Supervisor
