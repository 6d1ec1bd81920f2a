import Ntprof.Session

/-!
# The poll loop of `record` (`src/record.c`)

Each turn of the loop polls the ring buffer, whose records go through `on_record`, and then reads the
clock; only a turn that reaches `next_tick` gives up records. The loop may end after any turn: on a signal,
at the end of `duration_s`, or when a poll fails.
-/

namespace Ntprof

/-- The timeout of `ntp_loader_poll` in the loop: 100 ms. -/
def pollPeriodNs : U64 := 100#64 * 1000000#64

/-- One `ntp_loader_poll`: what it delivers, each record with the time at which `on_record` gets it and
whether its write fails, and the clock after it. -/
structure Poll where
  records : List (U64 × RingData × Bool)
  now : U64

/-- The variables of the loop. -/
structure LoopState where
  session : Session
  nextTick : U64

/-- `interval_ns`. -/
def intervalNs (intervalS : U32) : U64 := intervalS.setWidth 64 * 1000000000#64

/-- The records of one poll go through `on_record`. -/
def pollRecords (p : Poll) : List SessionEvent := p.records.map fun r => .record r.2.1 r.2.2

/-- One turn of the loop. -/
def loopTurn (interval : U64) (l : LoopState) (p : Poll) : LoopState × Handed :=
  let (s, handed) := sessionSteps l.session (pollRecords p)
  if p.now < l.nextTick then ({ l with session := s }, handed)
  else
    let (s, rest) := intervalTick s p.now
    ({ session := s, nextTick := l.nextTick + interval }, handed ++ rest)

/-- The loop. -/
def recordLoop (interval : U64) (l : LoopState) : List Poll → LoopState × Handed
  | [] => (l, [])
  | p :: ps =>
    let (l, handed) := loopTurn interval l p
    let (l, rest) := recordLoop interval l ps
    (l, handed ++ rest)

/-- What happens to the session in the loop, each with its time. -/
def loopTimeline (interval nextTick : U64) : List Poll → List (U64 × SessionEvent)
  | [] => []
  | p :: ps =>
    p.records.map (fun r => (r.1, .record r.2.1 r.2.2)) ++
      if p.now < nextTick then loopTimeline interval nextTick ps
      else (p.now, .tick p.now) :: loopTimeline interval (nextTick + interval) ps

/-- The polls follow each other at most one period apart, and deliver their records in between. -/
def Punctual (last : U64) : List Poll → Prop
  | [] => True
  | p :: ps =>
    (∀ r ∈ p.records, last ≤ r.1 ∧ r.1 ≤ p.now) ∧ last ≤ p.now ∧ p.now.toNat ≤ last.toNat + pollPeriodNs.toNat ∧
      Punctual p.now ps

instance Punctual.decidable (last : U64) : (ps : List Poll) → Decidable (Punctual last ps)
  | [] => inferInstanceAs (Decidable True)
  | p :: ps =>
    have := Punctual.decidable p.now ps
    inferInstanceAs (Decidable ((∀ r ∈ p.records, last ≤ r.1 ∧ r.1 ≤ p.now) ∧ last ≤ p.now ∧
      p.now.toNat ≤ last.toNat + pollPeriodNs.toNat ∧ Punctual p.now ps))

/-! ## How long a host record waits -/

/-- At time `now` the host record has waited for more than `HOST_WAIT_NS` and a poll period. -/
def Overdue (h : HostRec) (now : U64) : Prop :=
  (h.ts .blkDone).toNat + hostWaitNs.toNat + pollPeriodNs.toNat < now.toNat

instance (h : HostRec) (now : U64) : Decidable (Overdue h now) := inferInstanceAs (Decidable (_ < _))

/-- A tick at `now` gives up on the host record. -/
def GivesUp (now : U64) (h : HostRec) : Prop := (h.ts .blkDone).toNat + hostWaitNs.toNat < now.toNat

instance (now : U64) (h : HostRec) : Decidable (GivesUp now h) := inferInstanceAs (Decidable (_ < _))

/-- A target record that `on_record` gets at `now`, in state `s`, finds no host record of its command that
is overdue: none waits, so none is joined. -/
def FreshAt (s : Session) (now : U64) : SessionEvent → Prop
  | .record (.tgtSized t) writeFails =>
    t.hdr.kind = ntpRecTarget →
      (∀ h, (h, some t) ∈ (onRecord s (.tgtSized t) writeFails).2 → ¬ Overdue h now) ∧
      ∀ j, s.joiner = some j → ∀ h ∈ j.hosts.records, h.id = t.id → ¬ Overdue h now
  | _ => True

/-- In every state of the run, target records find no overdue host record of their command. -/
def AlwaysFresh (s : Session) : List (U64 × SessionEvent) → Prop
  | [] => True
  | (now, e) :: es => FreshAt s now e ∧ AlwaysFresh (sessionStep s e).1 es

/-- Until the first tick that gives up on `h`, no target record of its command comes when `h` is overdue. -/
def NoLateTarget (h : HostRec) : List (U64 × SessionEvent) → Prop
  | [] => True
  | (now, e) :: es =>
    match e with
    | .tick tick => GivesUp tick h ∨ NoLateTarget h es
    | .record (.tgtSized t) _ => (t.hdr.kind = ntpRecTarget → t.id = h.id → ¬ Overdue h now) ∧ NoLateTarget h es
    | .record _ _ => NoLateTarget h es

/-- No target record of the run comes late for a host record before it. -/
def NoneLate : List (U64 × SessionEvent) → Prop
  | [] => True
  | (_, e) :: es =>
    match e with
    | .record (.hostSized h) _ => (h.hdr.kind = ntpRecHost → NoLateTarget h es) ∧ NoneLate es
    | _ => NoneLate es

end Ntprof
