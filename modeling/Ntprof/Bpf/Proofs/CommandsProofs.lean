import Ntprof.Bpf.Commands
import Ntprof.Bpf.Proofs.AccountingProofs

/-!
# Target records never mix two commands, in an orderly run

The invariant is about the slots: an open record carries the id of the command that its `nvmet_req`
carries, and hooks of that command wrote it. A command that starts while a record of its `nvmet_req` is
open would break it; there `nvmet_req_init` must see the command, so that it emits the record first.
-/

namespace Ntprof.Bpf

open SlotTable

/-- The entry `e` of slot `i`, if a record is open in it, is that of the command its `nvmet_req` carries,
and hooks of that command wrote it. -/
structure Owned (id : ℕ → Option CmdId) (cur : U64 → ℕ) (i : Slot) (e : TgtEntry)
    (writer : TgtField → ℕ) : Prop where
  slot : ntpSlot e.req = i
  id : id (cur e.req) = some e.record.id
  written : ∀ fld : TgtField, fld.isEvent → fld.of e.record ≠ 0 → writer fld = cur e.req

/-- What holds between the slots and the commands of an orderly run. -/
structure CommandsInv (s : TgtState) (m : Commands) : Prop where
  accounted : s.Accounted
  owned : ∀ i, s.owner i ≠ 0 → Owned m.id m.cur i (s.treqs i) (m.writer i)
  cur_le : ∀ req, m.cur req ≤ m.started
  id_le : ∀ n, m.id n ≠ none → n ≤ m.started
  unmixed : m.Unmixed

section Writers

variable {old new : TgtRec} {writer : TgtField → ℕ} {n : ℕ}

theorem writers_self (r : TgtRec) (writer : TgtField → ℕ) (n : ℕ) : writers r r writer n = writer := by
  funext fld
  simp [writers]

/-- A record that one command wrote, and then a hook of that command. -/
theorem writers_eq {fld : TgtField} (h : fld.of old ≠ 0 → writer fld = n) (hne : fld.of new ≠ 0) :
    writers old new writer n fld = n := by
  unfold writers
  split
  · rename_i heq
    exact h (heq ▸ hne)
  · rfl

end Writers

/-! ## What an event does to the commands -/

section Next

variable {m : Commands} {s s' : TgtState} {e : TgtEvent}

@[simp]
theorem arrive_writer (m : Commands) (e : TgtEvent) : (m.arrive e).writer = m.writer := by
  cases e <;> rfl

@[simp]
theorem arrive_emitted (m : Commands) (e : TgtEvent) : (m.arrive e).emitted = m.emitted := by
  cases e <;> rfl

theorem arrive_of_ne (he : ∀ seen env a, e ≠ .reqInit seen env a) : m.arrive e = m := by
  cases e with
  | reqInit seen env a => exact absurd rfl (he seen env a)
  | _ => rfl

@[simp]
theorem next_started : (m.next s s' e).started = (m.arrive e).started := rfl

@[simp]
theorem next_id : (m.next s s' e).id = (m.arrive e).id := rfl

@[simp]
theorem next_cur : (m.next s s' e).cur = (m.arrive e).cur := rfl

/-- Without a new record, the fields that did not change keep their writers. -/
theorem next_writer (h : s'.ledger.sampled = s.ledger.sampled) (i : Slot) :
    (m.next s s' e).writer i =
      writers (s.treqs i).record (s'.treqs i).record (m.writer i) ((m.arrive e).of s e) := by
  have h' : s'.counters .tgtSampled = s.counters .tgtSampled := h
  simp [Commands.next, h']

theorem next_writer_of_treqs (h : s'.ledger.sampled = s.ledger.sampled) {i : Slot}
    (hi : s'.treqs i = s.treqs i) : (m.next s s' e).writer i = m.writer i := by
  rw [next_writer h, hi, writers_self]

/-- A slot that is not the event's, and did not change. -/
theorem next_writer_of_ne {req : U64} {i : Slot} (hk : e.key s = some req) (hi : i ≠ ntpSlot req)
    (hsame : s'.treqs i = s.treqs i) : (m.next s s' e).writer i = m.writer i := by
  simp [Commands.next, hk, hi, hsame, writers_self]

/-- A new record is wholly written by its command. -/
theorem next_writer_stored {req : U64} (hk : e.key s = some req)
    (h : s'.ledger.sampled ≠ s.ledger.sampled) (fld : TgtField) :
    (m.next s s' e).writer (ntpSlot req) fld = (m.arrive e).of s e := by
  have h' : s'.counters .tgtSampled ≠ s.counters .tgtSampled := h
  simp [Commands.next, hk, h']

theorem next_emitted_same (h : s'.events = s.events) : (m.next s s' e).emitted = m.emitted := by
  simp [Commands.next, h]

theorem next_emitted_append {r : TgtRec} {req : U64} (hk : e.key s = some req)
    (h : s'.events = s.events ++ [r]) :
    (m.next s s' e).emitted = m.emitted ++ [(r, writers (s.treqs (ntpSlot req)).record r
      (m.writer (ntpSlot req)) ((m.arrive e).of s e))] := by
  simp [Commands.next, h, hk]

theorem next_quiet (hq : Quiet s s') : m.next s s' e = m.arrive e := by
  have hw : (m.next s s' e).writer = m.writer := by
    funext i
    exact next_writer_of_treqs (congrArg Ledger.sampled hq.ledger) (by rw [hq.treqs])
  have he := next_emitted_same (m := m) (e := e) hq.events
  have h : m.next s s' e = { m.arrive e with
    writer := (m.next s s' e).writer, emitted := (m.next s s' e).emitted } := rfl
  rw [h, hw, he, ← arrive_writer m e, ← arrive_emitted m e]

end Next

/-! ## Hooks of a command -/

section Hooks

variable {m : Commands} {s s' : TgtState} {e : TgtEvent} {req : U64}

theorem CommandsInv.quiet (h : CommandsInv s m) (hq : Quiet s s') : CommandsInv s' m where
  accounted := h.accounted.quiet hq
  owned := by
    rw [hq.owner, hq.treqs]
    exact h.owned
  cur_le := h.cur_le
  id_le := h.id_le
  unmixed := h.unmixed

theorem Touched.quiet_of_not_open (ht : Touched req s s') (hopen : ¬ s.isOpen req) : Quiet s s' where
  treqs := by
    funext i
    by_cases hi : i = ntpSlot req
    · rw [hi]
      exact ht.notOwn hopen
    · exact ht.other i hi
  ledger := ht.ledger
  events := ht.events

/-- A hook of the command that `req` carries writes into its open record. -/
theorem CommandsInv.touched (h : CommandsInv s m) (ht : Touched req s s')
    (ha : m.arrive e = m) (hn : m.of s e = m.cur req) (hopen : s.isOpen req) :
    CommandsInv s' (m.next s s' e) := by
  have hsam : s'.ledger.sampled = s.ledger.sampled := congrArg Ledger.sampled ht.ledger
  refine ⟨h.accounted.touched ht, fun i hi => ?_, ?_, ?_, ?_⟩
  · rw [ht.owner] at hi
    obtain ⟨hslot, hid, hwr⟩ := h.owned i hi
    by_cases hs : i = ntpSlot req
    · subst hs
      have hown : (s.treqs (ntpSlot req)).req = req := hopen
      refine ⟨by rw [ht.req]; exact hslot, ?_, fun fld hev hne => ?_⟩
      · rw [next_id, next_cur, ha, ht.req, ht.id]
        exact hid
      · rw [next_writer hsam, next_cur, ha, hn, ht.req, hown]
        exact writers_eq (fun h0 => (hwr fld hev h0).trans (by rw [hown])) hne
    · rw [next_writer_of_treqs hsam (ht.other i hs), ht.other i hs]
      refine ⟨hslot, ?_, ?_⟩
      · rw [next_id, next_cur, ha]
        exact hid
      · rw [next_cur, ha]
        exact hwr
  · rw [next_cur, next_started, ha]
    exact h.cur_le
  · rw [next_id, next_started, ha]
    exact h.id_le
  · unfold Commands.Unmixed
    rw [next_emitted_same ht.events, next_id, ha]
    exact h.unmixed

/-- The records on the ring buffer after one more came out, of a command that is known. -/
theorem Commands.Unmixed.append {m m' : Commands} (h : m.Unmixed) (hid : ∀ n, m.id n ≠ none → m'.id n = m.id n)
    {p : TgtRec × (TgtField → ℕ)} (hem : m'.emitted = m.emitted ++ [p]) {n : ℕ}
    (hn : m.id n = some p.1.id)
    (hp : ∀ fld : TgtField, fld.isEvent → fld.of p.1 ≠ 0 → p.2 fld = n) : m'.Unmixed := by
  intro q hq
  rw [hem, List.mem_append, List.mem_singleton] at hq
  rcases hq with hq | rfl
  · obtain ⟨k, hk, hw⟩ := h q hq
    exact ⟨k, by rw [hid k (by rw [hk]; simp), hk], hw⟩
  · exact ⟨n, by rw [hid n (by rw [hn]; simp), hn], hp⟩

theorem Commands.Unmixed.same {m m' : Commands} (h : m.Unmixed) (hid : ∀ n, m.id n ≠ none → m'.id n = m.id n)
    (hem : m'.emitted = m.emitted) : m'.Unmixed := by
  intro q hq
  rw [hem] at hq
  obtain ⟨k, hk, hw⟩ := h q hq
  exact ⟨k, by rw [hid k (by rw [hk]; simp), hk], hw⟩

/-- A hook of the command that `req` carries ends its record. -/
theorem CommandsInv.finished {full : Bool} {r : TgtRec} (h : CommandsInv s m)
    (hf : Finished req full r s s') (hreq : req ≠ 0) (hkey : e.key s = some req)
    (ha : m.arrive e = m) (hn : m.of s e = m.cur req) : CommandsInv s' (m.next s s' e) := by
  have hsam : s'.ledger.sampled = s.ledger.sampled := by
    rw [hf.ledger]
    unfold Ledger.finish
    split <;> rfl
  have hown : s.owner (ntpSlot req) = req := hf.isOpen
  obtain ⟨hslot, hid, hwr⟩ := h.owned (ntpSlot req) (by rwa [hown])
  refine ⟨h.accounted.finished hreq hf, fun i hi => ?_, ?_, ?_, ?_⟩
  · by_cases hs : i = ntpSlot req
    · exact absurd (hs ▸ hf.freed) hi
    · have hi' : s.owner i ≠ 0 := by
        rw [TgtState.owner, hf.other i hs] at hi
        exact hi
      obtain ⟨hslot, hid, hwr⟩ := h.owned i hi'
      rw [next_writer_of_treqs hsam (hf.other i hs), hf.other i hs]
      refine ⟨hslot, ?_, ?_⟩
      · rw [next_id, next_cur, ha]
        exact hid
      · rw [next_cur, ha]
        exact hwr
  · rw [next_cur, next_started, ha]
    exact h.cur_le
  · rw [next_id, next_started, ha]
    exact h.id_le
  · have hid' : ∀ n, m.id n ≠ none → (m.next s s' e).id n = m.id n := by
      intro n _
      rw [next_id, ha]
    have hown' : (s.treqs (ntpSlot req)).req = req := hown
    cases full with
    | true => exact h.unmixed.same hid' (next_emitted_same (by simpa using hf.events))
    | false =>
      refine h.unmixed.append (n := m.cur req) hid'
        (next_emitted_append hkey (by simpa using hf.events)) ?_ ?_
      · rw [← hf.id, hown'] at hid
        exact hid
      · intro fld hev hne
        rw [ha, hn]
        exact writers_eq (fun h0 => (hwr fld hev h0).trans (by rw [hown'])) hne

end Hooks

/-! ## The arrival of a command -/

section Init

variable {tr : Transport} {f : Filter} {m : Commands} {s s₁ s' : TgtState} {seen : Bool} {env : HookEnv}
  {a : ReqInitArgs}

theorem start_id_of_ne_none (h : CommandsInv s m) {n : ℕ} (hn : m.id n ≠ none) :
    (m.start a).id n = m.id n := by
  have hle := h.id_le n hn
  exact Function.update_of_ne (by omega) ..

/-- A command that starts on one `nvmet_req` is nothing to the records of the others. -/
theorem Owned.start {i : Slot} {en : TgtEntry} {writer : TgtField → ℕ} (h : CommandsInv s m)
    (ho : Owned m.id m.cur i en writer) (hne : en.req ≠ a.req) :
    Owned (m.start a).id (m.start a).cur i en writer := by
  have hcur : (m.start a).cur en.req = m.cur en.req :=
    Function.update_of_ne hne ..
  refine ⟨ho.slot, ?_, ?_⟩
  · rw [hcur, start_id_of_ne_none h (by rw [ho.id]; simp)]
    exact ho.id
  · rw [hcur]
    exact ho.written

theorem CommandsInv.ne_of_not_open (h : CommandsInv s m) {req : U64} (hopen : ¬ s.isOpen req) {i : Slot}
    (hi : s.owner i ≠ 0) : (s.treqs i).req ≠ req := by
  intro heq
  have hslot := (h.owned i hi).slot
  rw [heq] at hslot
  exact hopen (by rw [TgtState.isOpen, hslot, heq])

theorem CommandsInv.start_cur_le (h : CommandsInv s m) (req : U64) :
    (m.start a).cur req ≤ (m.start a).started := by
  show Function.update m.cur a.req.1 (m.started + 1) req ≤ m.started + 1
  by_cases hreq : req = a.req
  · rw [hreq, Function.update_self]
  · rw [Function.update_of_ne hreq]
    exact (h.cur_le req).trans (Nat.le_succ _)

theorem CommandsInv.start_id_le (h : CommandsInv s m) (n : ℕ)
    (hn : (m.start a).id n ≠ none) :
    n ≤ (m.start a).started := by
  show n ≤ m.started + 1
  by_cases heq : n = m.started + 1
  · exact heq.le
  · have hn' : m.id n ≠ none := by
      rwa [show (m.start a).id n = m.id n from Function.update_of_ne heq ..] at hn
    exact (h.id_le n hn').trans (Nat.le_succ _)

/-- A command that starts unseen, on an `nvmet_req` without an open record. -/
theorem CommandsInv.missed (h : CommandsInv s m) (hopen : ¬ s.isOpen a.req) :
    CommandsInv s (m.start a) where
  accounted := h.accounted
  owned i hi := by
    exact (h.owned i hi).start h (h.ne_of_not_open hopen hi)
  cur_le := h.start_cur_le
  id_le := h.start_id_le
  unmixed := h.unmixed.same (fun _ hn => start_id_of_ne_none h hn) rfl

theorem of_reqInit : (m.start a).of s (.reqInit seen env a) = m.started + 1 := by
  simp [Commands.of, TgtEvent.own, TgtEvent.key, Commands.start]

/-- `NTP_F_REUSED` is all that the flush writes. -/
theorem of_emittedRec_reused (env : HookEnv) (r : TgtRec) {fld : TgtField} (hev : fld.isEvent) :
    fld.of (emittedRec env (r.orFlags ntpFReused)) = fld.of r := by
  cases fld with
  | ts i => rfl
  | flag bit =>
    have hbit : ntpFReused.getLsbD bit = false := by simpa [TgtField.isEvent] using hev
    simp only [TgtField.of, emittedRec, TgtRec.orFlags, BitVec.getLsbD_or, hbit, Bool.or_false]

section Flush

variable (h : CommandsInv s m) (hf : FlushEffect env a.req s s₁)

include h hf

/-- After the flush the record of the `nvmet_req` is no longer open. -/
theorem flush_not_open : ¬ s₁.isOpen a.req := by
  intro hopen
  cases hf with
  | none hq hnone =>
    have hown : s.owner (ntpSlot a.req) = a.req := by
      rw [← hq.owner]
      exact hopen
    rcases hnone with h0 | hne
    · exact a.req.2 (hown.symm.trans (h.accounted.free h0 _))
    · exact hne hown
  | flushed r hr hf => exact a.req.2 (hopen.symm.trans hf.freed)

omit h in
theorem flush_sampled : s₁.ledger.sampled = s.ledger.sampled := by
  cases hf with
  | none hq _ => rw [hq.ledger]
  | flushed r hr hf =>
    rw [hf.ledger]
    unfold Ledger.finish
    split <;> rfl

omit h in
/-- A slot that is occupied after the flush is as it was. -/
theorem flush_treqs {i : Slot} (hi : s₁.owner i ≠ 0) : s₁.treqs i = s.treqs i := by
  cases hf with
  | none hq _ => rw [hq.treqs]
  | flushed r hr hf =>
    by_cases hs : i = ntpSlot a.req
    · exact absurd (hs ▸ hf.freed) hi
    · exact hf.other i hs

/-- The record that the flush emits was written by the command before. -/
theorem flush_unmixed (hev : s'.events = s₁.events) :
    (m.next s s' (.reqInit seen env a)).Unmixed := by
  have hid : ∀ n, m.id n ≠ none → (m.next s s' (.reqInit seen env a)).id n = m.id n :=
    fun n hn => start_id_of_ne_none h hn
  cases hf with
  | none hq _ => exact h.unmixed.same hid (next_emitted_same (hev.trans hq.events))
  | flushed r hr hf =>
    obtain ⟨hown, rfl⟩ := TgtState.tgtRec_eq_some.mp hr
    obtain ⟨-, hrid, hwr⟩ := h.owned (ntpSlot a.req) (by rw [TgtState.owner, hown]; exact a.req.2)
    cases hfull : env.rbFull with
    | true =>
      refine h.unmixed.same hid (next_emitted_same ?_)
      rw [hev, hf.events, hfull, if_pos rfl]
    | false =>
      refine h.unmixed.append (n := m.cur a.req) hid
        (next_emitted_append (r := emittedRec env ((s.treqs (ntpSlot a.req)).record.orFlags ntpFReused))
          rfl ?_) ?_ ?_
      · rw [hev, hf.events, hfull]
        simp
      · rw [hown] at hrid
        exact hrid
      · intro fld hfev hne
        have hsame := of_emittedRec_reused env (s.treqs (ntpSlot a.req)).record hfev
        rw [hsame] at hne
        show writers _ _ _ _ fld = _
        rw [writers, if_pos hsame, hwr fld hfev hne, hown]

end Flush

/-- `nvmet_req_init` sees the command. -/
theorem CommandsInv.init (h : CommandsInv s m) (hi : InitEffect env a s s') :
    CommandsInv s' (m.next s s' (.reqInit seen env a)) := by
  have hacc := h.accounted.init hi
  cases hi with
  | unsampled s₁ hf hq =>
    refine ⟨hacc, fun i hi => ?_, h.start_cur_le, h.start_id_le, flush_unmixed h hf hq.events⟩
    rw [hq.owner] at hi
    have hsame : s'.treqs i = s.treqs i := by rw [hq.treqs, flush_treqs hf hi]
    have hsam : s'.ledger.sampled = s.ledger.sampled := by rw [hq.ledger, flush_sampled hf]
    have hi' : s.owner i ≠ 0 := by
      rw [TgtState.owner, flush_treqs hf hi] at hi
      exact hi
    rw [next_writer_of_treqs hsam hsame, hsame]
    refine (h.owned i hi').start h fun heq => flush_not_open h hf ?_
    rw [TgtState.isOpen, ← heq, (h.owned i hi').slot, flush_treqs hf hi]
  | sampled s₁ hf c hc r hid hs =>
    refine ⟨hacc, fun i hi => ?_, h.start_cur_le, h.start_id_le, flush_unmixed h hf hs.events⟩
    by_cases hslot : i = ntpSlot a.req
    · subst hslot
      have hsam : s'.ledger.sampled ≠ s.ledger.sampled := by
        rw [hs.ledger, ← flush_sampled hf]
        unfold Ledger.start
        split <;> simp
      have hentry : s'.treqs (ntpSlot a.req) = { req := a.req, parts := 0, record := r } := by
        rw [hs.treqs, Function.update_self]
      have hcur : (m.start a).cur a.req = m.started + 1 := Function.update_self ..
      rw [hentry]
      refine ⟨rfl, ?_, fun fld _ _ => ?_⟩
      · show (m.start a).id ((m.start a).cur a.req) = some r.id
        have hnew : (m.start a).id (m.started + 1) = a.cmd.map a.id := Function.update_self ..
        rw [hcur, hnew, hc, hid]
        rfl
      · rw [next_writer_stored rfl hsam]
        exact of_reqInit.trans hcur.symm
    · have hsame₁ : s'.treqs i = s₁.treqs i := by rw [hs.treqs, Function.update_of_ne hslot]
      have hi₁ : s₁.owner i ≠ 0 := by
        rw [TgtState.owner, hsame₁] at hi
        exact hi
      have hsame := hsame₁.trans (flush_treqs hf hi₁)
      have hi' : s.owner i ≠ 0 := by
        rw [TgtState.owner, hsame] at hi
        exact hi
      rw [next_writer_of_ne rfl hslot hsame, hsame]
      refine (h.owned i hi').start h fun heq => hslot ?_
      rw [← heq]
      exact (h.owned i hi').slot.symm

end Init

/-! ## Runs -/

section Run

variable {tr : Transport} {f : Filter} {m : Commands} {s : TgtState} {e : TgtEvent}

theorem map_val_ne_zero (req : Option KAddr) : req.map Subtype.val ≠ some 0 := by
  cases req with
  | none => simp
  | some req => simpa using req.2

theorem TgtEvent.own_ne_zero (s : TgtState) (e : TgtEvent) : e.own s ≠ some 0 := by
  cases e with
  | arm on => simp [TgtEvent.own, TgtEvent.key]
  | reqInit seen env a => simpa [TgtEvent.own, TgtEvent.key] using a.req.2
  | exec env req transferLen => simpa [TgtEvent.own, TgtEvent.key] using req.2
  | beIssue env priv =>
    simp only [TgtEvent.own, TgtEvent.key]
    split <;> simp_all
  | beDone env priv =>
    simp only [TgtEvent.own, TgtEvent.key]
    split <;> simp_all
  | complete env req => simpa [TgtEvent.own, TgtEvent.key] using req.2
  | tcp env e =>
    cases e with
    | copy skb sk offset => simp [TgtEvent.own, TgtEvent.key, TgtTcpEvent.key]
    | copyDone a => exact map_val_ne_zero a.own
    | queueResp a => simpa [TgtEvent.own, TgtEvent.key, TgtTcpEvent.key] using a.req.2
    | h2c req sk tstamp => simpa [TgtEvent.own, TgtEvent.key, TgtTcpEvent.key] using req.2
    | sendmsg a => exact map_val_ne_zero a.sndCmd
  | rdma env e =>
    cases e with
    | recvDone qpContext => simp [TgtEvent.own, TgtEvent.key, TgtRdmaEvent.key]
    | recvDoneExit => simp [TgtEvent.own, TgtEvent.key, TgtRdmaEvent.key]
    | execute req transferLen inlineData => simpa [TgtEvent.own, TgtEvent.key, TgtRdmaEvent.key] using req.2
    | readDone req => simpa [TgtEvent.own, TgtEvent.key, TgtRdmaEvent.key] using req.2
    | queueRespFe req => simpa [TgtEvent.own, TgtEvent.key, TgtRdmaEvent.key] using req.2
    | queueRespFx req => simpa [TgtEvent.own, TgtEvent.key, TgtRdmaEvent.key] using req.2
    | queueRespKp req => simpa [TgtEvent.own, TgtEvent.key, TgtRdmaEvent.key] using req.2
    | queueRespKr own => simpa [TgtEvent.own] using own.2
    | sendDone req => simpa [TgtEvent.own, TgtEvent.key, TgtRdmaEvent.key] using req.2

/-- An event that is no call of `nvmet_req_init`. -/
theorem CommandsInv.hook (h : CommandsInv s m) (ho : e.Orderly tr s)
    (he : ∀ seen env a, e ≠ .reqInit seen env a) :
    CommandsInv (tgtStep tr f s e) (m.next s (tgtStep tr f s e) e) := by
  have ha := arrive_of_ne (m := m) he
  have heff := effect_tgtStep tr f s e he
  cases hkey : e.key s with
  | none =>
    rw [hkey] at heff
    rw [next_quiet heff, ha]
    exact h.quiet heff
  | some req =>
    rw [hkey] at heff
    by_cases hopen : s.isOpen req
    · have hown := ho.2 req hkey hopen
      have hn : m.of s e = m.cur req := by simp [Commands.of, hown]
      have hreq : req ≠ 0 := fun h0 => e.own_ne_zero s (h0 ▸ hown)
      cases heff with
      | touched ht => exact h.touched ht ha hn hopen
      | finished full r hf => exact h.finished hf hreq hkey ha hn
    · cases heff with
      | touched ht =>
        have hq := ht.quiet_of_not_open hopen
        rw [next_quiet hq, ha]
        exact h.quiet hq
      | finished full r hf => exact absurd hf.isOpen hopen

theorem CommandsInv.step (h : CommandsInv s m) (ho : e.Orderly tr s) :
    CommandsInv (tgtStep tr f s e) (m.next s (tgtStep tr f s e) e) := by
  by_cases he : ∀ seen env a, e ≠ .reqInit seen env a
  · exact h.hook ho he
  · simp only [ne_eq, not_forall, not_not] at he
    obtain ⟨seen, env, a, rfl⟩ := he
    cases hrec : seen && reqInitRecognised tr s env a with
    | false =>
      have hopen : ¬ s.isOpen a.req := by
        intro hopen
        rw [ho.1 seen env a rfl hopen] at hrec
        cases hrec
      rw [tgtStep_reqInit_missed hrec, next_quiet (.refl s)]
      exact h.missed hopen
    | true =>
      obtain ⟨rfl, hours⟩ := Bool.and_eq_true_iff.mp hrec
      exact h.init (effect_reqInit hours)

theorem CommandsInv.run {es : List TgtEvent} (h : CommandsInv s m) (ho : OrderlyRun tr f s es) :
    CommandsInv (commandsRun tr f (s, m) es).1 (commandsRun tr f (s, m) es).2 := by
  induction es generalizing s m with
  | nil => exact h
  | cons e es ih => exact ih (h.step ho.1) ho.2

theorem commandsInv_init : CommandsInv {} {} where
  accounted := TgtState.accounted_init
  owned _ hi := absurd rfl hi
  cur_le _ := le_refl 0
  id_le _ hn := absurd rfl hn
  unmixed _ hp := absurd hp List.not_mem_nil

/-- In every orderly run of a target object, each record on the ring buffer was written by hooks of the
command whose id it carries. -/
theorem orderly_run_unmixed (tr : Transport) (f : Filter) (es : List TgtEvent)
    (ho : OrderlyRun tr f {} es) : (commandsRun tr f ({}, {}) es).2.Unmixed :=
  (commandsInv_init.run ho).unmixed

/-! ### Two commands on one `nvmet_req` -/

theorem orderly_hook (he : ∀ seen env a, e ≠ .reqInit seen env a) (hown : e.own s = e.key s) :
    e.Orderly tr s :=
  ⟨fun seen env a heq => absurd heq (he seen env a), fun _ hkey _ => hown.trans hkey⟩

theorem orderly_reqInit {env : HookEnv} {a : ReqInitArgs} (h : reqInitRecognised tr s env a = true) :
    (TgtEvent.reqInit true env a).Orderly tr s := by
  refine ⟨fun seen env' a' heq _ => ?_, fun _ hkey _ => hkey⟩
  cases heq
  simpa using h

/-- The first command's last hooks are missed, so `nvmet_req_init` emits its record when the second one
comes. -/
def flushedRun : List TgtEvent :=
  [.arm true, .rdma (hookAt 1) (.recvDone 0x100), .reqInit true (hookAt 2) (initRead someReq 3),
    .exec (hookAt 3) someReq 4096, .reqInit true (hookAt 4) (initRead someReq 4),
    .rdma (hookAt 5) (.queueRespFx someReq), .rdma (hookAt 6) (.sendDone someReq)]

theorem orderlyRun_flushedRun : OrderlyRun .rdma {} {} flushedRun := by
  refine ⟨?_, ?_, orderly_reqInit (by decide +kernel), ?_, orderly_reqInit (by decide +kernel), ?_, ?_,
    trivial⟩
  all_goals exact orderly_hook (by intros; simp) rfl

theorem orderly_run_unmixed_flushed :
    OrderlyRun .rdma {} {} flushedRun ∧
      ((commandsRun .rdma {} ({}, {}) flushedRun).1.events.map fun r => r.id.cid) = [3, 4] ∧
      (commandsRun .rdma {} ({}, {}) flushedRun).2.Unmixed :=
  ⟨orderlyRun_flushedRun, by decide +kernel,
    orderly_run_unmixed .rdma {} flushedRun orderlyRun_flushedRun⟩

/-- The same two commands, but the hook on the second one's receive completion is missed too: its
`nvmet_req_init` takes it for another transport's and leaves the record of the first one open. -/
def missedReceive : List TgtEvent :=
  [.arm true, .rdma (hookAt 1) (.recvDone 0x100), .reqInit true (hookAt 2) (initRead someReq 3),
    .rdma (hookAt 3) .recvDoneExit, .reqInit true (hookAt 4) (initRead someReq 4),
    .rdma (hookAt 5) (.queueRespFx someReq), .rdma (hookAt 6) (.sendDone someReq)]

/-- The record of the first command then carries times of the second one. -/
theorem missed_receive_mixes : ¬ (commandsRun .rdma {} ({}, {}) missedReceive).2.Unmixed := by
  have hem : ((commandsRun .rdma {} ({}, {}) missedReceive).2.emitted.map fun p =>
      (p.1.ts .cmdProc, p.2 (.ts .cmdProc), p.1.ts .rspSent, p.2 (.ts .rspSent))) =
        [(2, 1, 5, 2)] := by
    decide +kernel
  intro h
  obtain ⟨p, hp, hp'⟩ := List.map_eq_singleton_iff.mp hem
  simp only [Prod.mk.injEq] at hp'
  obtain ⟨h₁, hw₁, h₂, hw₂⟩ := hp'
  obtain ⟨n, -, hn⟩ := h p (by rw [hp]; exact List.mem_singleton_self p)
  have hn₁ := hn (.ts .cmdProc) rfl (by rw [TgtField.of, h₁]; decide)
  have hn₂ := hn (.ts .rspSent) rfl (by rw [TgtField.of, h₂]; decide)
  omega

end Run

end Ntprof.Bpf
