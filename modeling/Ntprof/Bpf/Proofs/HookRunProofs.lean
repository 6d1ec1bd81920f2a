import Ntprof.Bpf.Proofs.HookSlotsProofs

/-!
# What an access keeps

The slots hold what the book says, and `ntp_inflight` counts them, before and after each access.
-/

namespace Ntprof.Bpf

open SharedSlots (Phase)

/-! ## An access -/

section Access

variable {cpus : Cpus} (f : Filter) {args : ℕ → ReqInitArgs} {m : Machine cpus} {t : Context cpus}

theorem st_access : (m.access f args t).st = (m.out f args t).st := rfl

theorem book_access_key : (m.access f args t).book =
    (m.out f args t).note.book t (m.hooks t).cmd (ntpSlot (m.key t)) m.book := by
  have hfinish : ∀ next, (m.finish (m.hooks t) next).book = m.book := by
    intro next
    simp only [Machine.finish]
    split <;> rfl
  show (m.out f args t).note.book t (m.hooks t).cmd (ntpSlot (m.key t))
    (m.finish (m.hooks t) (m.out f args t).work).book = _
  rw [hfinish]

theorem cur_access (r : U64) : (m.access f args t).cur r =
    if (m.hooks t).work.samples ∧ r = (args (m.hooks t).cmd).req then some (m.hooks t).cmd else m.cur r := by
  have hfinish : ∀ next, (m.finish (m.hooks t) next).cur = m.cur := by
    intro next
    simp only [Machine.finish]
    split <;> rfl
  simp only [Machine.access, hfinish]
  by_cases hs : (m.hooks t).work.samples
  · simp [hs, Function.update_apply]
  · simp [hs]

/-- Where a hook is when it has made an access with a note. -/
theorem out_from {note : Note} (hnote : (m.out f args t).note = note) : note.From (m.hooks t).work :=
  hnote ▸ (out_moves f args m t).noteFrom

theorem seen_access : (m.access f args t).book.seen (m.hooks t).cmd =
    (m.out f args t).note.seenAfter (m.book.seen (m.hooks t).cmd) := by
  rw [book_access_key, seen_book]

theorem seen_access_ne {c : ℕ} (hc : c ≠ (m.hooks t).cmd) : (m.access f args t).book.seen c = m.book.seen c := by
  rw [book_access_key, seen_book_ne _ _ _ _ _ hc]

theorem made_access : (m.access f args t).book.made =
    (m.out f args t).note.madeAfter (m.hooks t).cmd m.book.made := by
  rw [book_access_key, made_book]

theorem hooks_self :
    (m.access f args t).hooks t = { m.hooks t with work := (m.out f args t).work, key := m.key t } := by
  rw [hooks_access, if_pos rfl]

theorem hooks_ne {t' : Context cpus} (ht : t' ≠ t) : (m.access f args t).hooks t' = m.hooks t' := by
  rw [hooks_access, if_neg ht]

theorem role_of_clean {w : Work} (h : w.clean) : w.role = some .init := by
  cases w <;> first
    | rfl
    | cases h

theorem role_of_makes {w : Work} (h : w.makes) : w.role = some .init := by
  cases w <;> first
    | rfl
    | cases h

theorem role_of_unmade {w : Work} (h : w.unmade) : w.role = some .init := by
  cases w <;> first
    | rfl
    | cases h

theorem role_of_samples {w : Work} (h : w.samples) : w.role = some .init := by
  cases w <;> first
    | rfl
    | cases h

theorem role_of_early {w : Work} {e : RspEnd} (h : w.early e) : w.role = some (.rsp e) := by
  cases w with
  | rsp e' p =>
    rw [Work.early, Bool.and_eq_true, decide_eq_true_eq] at h
    rw [Work.role, h.1]
  | _ => cases h

/-- Two hooks of `nvmet_req_init` do not run on one `nvmet_req`. -/
theorem CallsInv.other (hc : CallsInv args m) {t' : Context cpus} (ht : t' ≠ t)
    (hinit : (m.hooks t).work.role = some .init) (hinit' : (m.hooks t').work.role = some .init) :
    ((args (m.hooks t').cmd).req : U64) ≠ (args (m.hooks t).cmd).req := by
  intro hreq
  exact ht (hc.alone t' t hinit' hinit (Subtype.ext hreq))

theorem phase_access_ne {t' : Context cpus} (ht : t' ≠ t) : (m.access f args t).book.phase t' = m.book.phase t' := by
  rw [book_access_key, phase_book_ne _ _ _ _ _ ht]

/-- A hook that notes an end has found its own record. -/
theorem SlotsInv.sees (h : SlotsInv args m) {e : RspEnd} (hnote : (m.out f args t).note = .see e) :
    m.book.phase t = .uses (m.hooks t).cmd ∧ e ∉ m.book.seen (m.hooks t).cmd ∧
      m.book.live (slotOf args (m.hooks t).cmd) = some (m.hooks t).cmd := by
  have hw : (m.hooks t).work = .rsp e .fetchOr := out_from f hnote
  have hlink := h.linked t
  have hunseen := h.unseen t e
  rw [hw] at hlink hunseen
  have he := hunseen (by simp [Work.early, RspPc.early])
  refine ⟨hlink, he, ?_⟩
  rcases h.inv.uses t _ hlink with hlive | ⟨-, hfull⟩
  · exact hlive
  · rw [hfull] at he
    exact absurd (Finset.mem_univ e) he

/-- The record that is made known is new. -/
theorem SlotsInv.publishes (h : SlotsInv args m) (hnote : (m.out f args t).note = .publish) :
    (m.hooks t).work = .init .publish ∧ (m.hooks t).cmd ∉ m.book.made ∧
      (m.st.treqs (slotOf args (m.hooks t).cmd)).parts = 0 := by
  have hw : (m.hooks t).work = .init .publish := out_from f hnote
  refine ⟨hw, h.unmade t ?_, h.cleared t ?_⟩
  · rw [hw]
    rfl
  · rw [hw]
    rfl

/-- A hook that clears the parts does so in an empty slot. -/
theorem SlotsInv.clears (h : SlotsInv args m) (hnote : (m.out f args t).note = .clear) :
    m.book.phase t = .fills (slotOf args (m.hooks t).cmd) := by
  obtain ⟨q, c, hw⟩ := out_from f hnote
  have hlink := h.linked t
  rw [hw] at hlink
  exact hlink

/-- A hook that has cleared the parts fills the slot. -/
theorem SlotsInv.fills_of_cleared (h : SlotsInv args m) (hcleared : (m.hooks t).work.cleared) :
    m.book.phase t = .fills (slotOf args (m.hooks t).cmd) := by
  have hlink := h.linked t
  cases hw : (m.hooks t).work with
  | init p =>
    rw [hw] at hlink hcleared
    cases p <;> first
      | exact hlink
      | cases hcleared
  | _ =>
    rw [hw] at hcleared
    cases hcleared

/-- The hook that makes a record is the last one on its `nvmet_req`. -/
theorem SlotsInv.mine_access (h : SlotsInv args m) (hc : CallsInv args m) (t' : Context cpus)
    (hmakes : ((m.access f args t).hooks t').work.makes) :
    (m.access f args t).cur (args ((m.access f args t).hooks t').cmd).req =
      some ((m.access f args t).hooks t').cmd := by
  rw [cur_access]
  by_cases ht : t' = t
  · subst ht
    rw [hooks_self] at hmakes ⊢
    rcases (out_moves f args m t').makes hmakes with hs | hold
    · rw [if_pos ⟨hs, rfl⟩]
    · split_ifs
      · rfl
      · exact h.mine t' hold
  · rw [hooks_ne f ht] at hmakes ⊢
    rw [if_neg]
    · exact h.mine t' hmakes
    · rintro ⟨hs, hreq⟩
      exact hc.other ht (role_of_samples hs) (role_of_makes hmakes) hreq

theorem SlotsInv.unmade_access (h : SlotsInv args m) (hc : CallsInv args m) (t' : Context cpus)
    (hunmade : ((m.access f args t).hooks t').work.unmade) :
    ((m.access f args t).hooks t').cmd ∉ (m.access f args t).book.made := by
  rw [made_access]
  by_cases ht : t' = t
  · subst ht
    rw [hooks_self] at hunmade ⊢
    obtain ⟨hold, hnote⟩ := (out_moves f args m t').unmade hunmade
    have hnew := h.unmade t' hold
    cases hnote' : (m.out f args t').note with
    | publish => exact absurd hnote' hnote
    | _ => exact hnew
  · rw [hooks_ne f ht] at hunmade ⊢
    have hnew := h.unmade t' hunmade
    cases hnote : (m.out f args t).note with
    | publish =>
      have hw : (m.hooks t).work = .init .publish := out_from f hnote
      have hother := hc.other ht (by rw [hw]; rfl) (role_of_unmade hunmade)
      show _ ∉ m.book.made ++ [(m.hooks t).cmd]
      rw [List.mem_append, List.mem_singleton, not_or]
      refine ⟨hnew, ?_⟩
      intro hcmd
      rw [hcmd] at hother
      exact hother rfl
    | _ => exact hnew

theorem SlotsInv.madeInits_access (h : SlotsInv args m) (hc : CallsInv args m) {c : ℕ}
    (hmade : c ∈ (m.access f args t).book.made) : c ∈ (m.access f args t).inits := by
  rw [inits_access]
  rw [made_access] at hmade
  cases hnote : (m.out f args t).note with
  | publish =>
    rw [hnote] at hmade
    have hw : (m.hooks t).work = .init .publish := out_from f hnote
    rcases List.mem_append.mp hmade with hold | hnew
    · exact h.madeInits c hold
    · rw [List.mem_singleton.mp hnew]
      exact (hc.arrived t (by rw [hw]; rfl)).2.1
  | _ =>
    rw [hnote] at hmade
    exact h.madeInits c hmade

/-- A hook of an end that has not noted it: no other one has. -/
theorem SlotsInv.unseen_access (h : SlotsInv args m) (hc : CallsInv args m) (t' : Context cpus) (e : RspEnd)
    (hearly : ((m.access f args t).hooks t').work.early e) :
    e ∉ (m.access f args t).book.seen ((m.access f args t).hooks t').cmd := by
  by_cases ht : t' = t
  · subst ht
    rw [hooks_self] at hearly ⊢
    obtain ⟨hold, hnote⟩ := (out_moves f args m t').early hearly
    have hunseen := h.unseen t' e hold
    rw [seen_access]
    cases hnote' : (m.out f args t').note with
    | see e' => exact absurd hnote' (hnote e')
    | _ => exact hunseen
  · rw [hooks_ne f ht] at hearly ⊢
    have hunseen := h.unseen t' e hearly
    by_cases hcmd : (m.hooks t').cmd = (m.hooks t).cmd
    · rw [hcmd] at hunseen ⊢
      rw [seen_access]
      cases hnote : (m.out f args t).note with
      | see e' =>
        have hw : (m.hooks t).work = .rsp e' .fetchOr := out_from f hnote
        show e ∉ insert e' _
        rw [Finset.mem_insert, not_or]
        refine ⟨?_, hunseen⟩
        rintro rfl
        exact ht (hc.single t' t e (role_of_early hearly) (by rw [hw]; rfl) hcmd)
      | _ => exact hunseen
    · rw [seen_access_ne f hcmd]
      exact hunseen

theorem SlotsInv.unstarted_access (h : SlotsInv args m) (hc : CallsInv args m) {c : ℕ} {e : RspEnd}
    (hstarted : (c, e) ∉ (m.access f args t).started) : e ∉ (m.access f args t).book.seen c := by
  rw [started_access] at hstarted
  have hunseen := h.unstarted c e hstarted
  by_cases hcmd : c = (m.hooks t).cmd
  · subst hcmd
    rw [seen_access]
    cases hnote : (m.out f args t).note with
    | see e' =>
      have hw : (m.hooks t).work = .rsp e' .fetchOr := out_from f hnote
      show e ∉ insert e' _
      rw [Finset.mem_insert, not_or]
      refine ⟨?_, hunseen⟩
      rintro rfl
      exact hstarted (hc.ends t e (by rw [hw]; rfl)).1
    | _ => exact hunseen
  · rw [seen_access_ne f hcmd]
    exact hunseen

/-- A hook that has found a record for its key has found it for the `nvmet_req` of its command. -/
theorem SlotsInv.keyed_access (h : SlotsInv args m) (hord : m.Orderly args (.step t)) (t' : Context cpus)
    (hkeyed : ((m.access f args t).hooks t').work.keyed) :
    ((m.access f args t).hooks t').key = (args ((m.access f args t).hooks t').cmd).req := by
  by_cases ht : t' = t
  · subst ht
    rw [hooks_self] at hkeyed ⊢
    rcases keyed_step f hkeyed with hold | ⟨hseeks, hfound⟩
    · exact h.key_of_keyed hold
    · exact key_of_look hord hseeks (.inl hfound)
  · rw [hooks_ne f ht] at hkeyed ⊢
    exact h.keyed t' hkeyed

/-! ## The slots -/

/-- The next access of the hook goes to the slot of its command, and counts right, or does nothing to the records. -/
def Machine.OwnSlot (f : Filter) (args : ℕ → ReqInitArgs) (m : Machine cpus) (t : Context cpus) : Prop :=
  (m.key t = (args (m.hooks t).cmd).req ∧ (m.hooks t).work.Fresh (m.counters (m.hooks t).env.cpu)) ∨
    (Quiet m.st (m.out f args t).st ∧ (m.out f args t).note = .nothing)

/-- An orderly access does so. -/
theorem SlotsInv.ownSlot (h : SlotsInv args m) (hord : m.Orderly args (.step t)) : m.OwnSlot f args t := by
  by_cases hown : m.key t = (args (m.hooks t).cmd).req
  · exact .inl ⟨hown, hord.counted⟩
  · refine .inr (quiet_step f (Bool.eq_false_iff.mpr fun hw => hown (h.key_of_keyed hw)) fun hw => ?_)
    exact Bool.eq_false_iff.mpr fun hfound => hown (key_of_look hord hw (.inl hfound))

section Own

variable (ho : m.OwnSlot f args t)

include ho

theorem out_effect : StepEffect (args (m.hooks t).cmd).req m.st (m.out f args t).st (m.out f args t).note := by
  rcases ho with ⟨hown, hfresh⟩ | ⟨hquiet, hnote⟩
  · rw [← hown]
    exact effect_step f _ _ (fun _ => hown) hfresh
  · exact hquiet.step (by rw [hnote]; rfl)

theorem book_access : (m.access f args t).book =
    (m.out f args t).note.book t (m.hooks t).cmd (slotOf args (m.hooks t).cmd) m.book := by
  rw [book_access_key]
  rcases ho with ⟨hown, -⟩ | ⟨-, hnote⟩
  · rw [hown, slotOf]
  · rw [hnote, Note.book, Note.book]

theorem req_access : ((m.access f args t).st.treqs (slotOf args (m.hooks t).cmd)).req =
    (m.out f args t).note.reqAfter (args (m.hooks t).cmd).req (m.st.treqs (slotOf args (m.hooks t).cmd)).req :=
  (out_effect f ho).req

theorem parts_access : ((m.access f args t).st.treqs (slotOf args (m.hooks t).cmd)).parts =
    (m.out f args t).note.partsAfter (m.st.treqs (slotOf args (m.hooks t).cmd)).parts :=
  (out_effect f ho).parts

theorem treqs_access_ne {k : Slot} (hk : k ≠ slotOf args (m.hooks t).cmd) :
    (m.access f args t).st.treqs k = m.st.treqs k :=
  (out_effect f ho).other k hk

theorem live_access : (m.access f args t).book.live (slotOf args (m.hooks t).cmd) =
    (m.out f args t).note.liveAfter (m.hooks t).cmd (m.book.live (slotOf args (m.hooks t).cmd)) := by
  rw [book_access f ho, live_book]

theorem live_access_ne {k : Slot} (hk : k ≠ slotOf args (m.hooks t).cmd) :
    (m.access f args t).book.live k = m.book.live k := by
  rw [book_access f ho, live_book_ne _ _ _ _ _ hk]

theorem closed_access : (m.access f args t).book.closed = m.book.closed ++
    (m.out f args t).note.closes (m.hooks t).cmd (m.book.live (slotOf args (m.hooks t).cmd)) := by
  rw [book_access f ho, closed_book]

/-- A record that is found after an access was there before, unless the access has made it known. -/
theorem live_before {k : Slot} {c : ℕ} (hlive : (m.access f args t).book.live k = some c) :
    m.book.live k = some c ∨ ((m.out f args t).note = .publish ∧ k = slotOf args (m.hooks t).cmd ∧
      c = (m.hooks t).cmd) := by
  by_cases hk : k = slotOf args (m.hooks t).cmd
  · subst hk
    rw [live_access f ho] at hlive
    cases hnote : (m.out f args t).note <;> rw [hnote] at hlive <;> simp_all [Note.liveAfter]
  · rw [live_access_ne f ho hk] at hlive
    exact .inl hlive

/-- The key in a slot is that of the record in it. -/
theorem SlotsInv.key_access (h : SlotsInv args m) (k : Slot) :
    ((m.access f args t).st.treqs k).req =
      ((m.access f args t).book.live k).elim 0 fun c => (args c).req.val := by
  by_cases hk : k = slotOf args (m.hooks t).cmd
  · subst hk
    rw [req_access f ho, live_access f ho]
    cases (m.out f args t).note <;> first
      | rfl
      | exact h.key _
  · rw [treqs_access_ne f ho hk, live_access_ne f ho hk]
    exact h.key k

/-- `parts` says which ends of the record were seen. -/
theorem SlotsInv.parts_seen (h : SlotsInv args m) {k : Slot} {c : ℕ}
    (hlive : (m.access f args t).book.live k = some c) :
    ((m.access f args t).st.treqs k).parts = seenBits ((m.access f args t).book.seen c) := by
  rcases live_before f ho hlive with hold | ⟨hnote, rfl, rfl⟩
  -- only a hook that notes an end, or one that clears the slot for a new record, writes `parts`
  · have hparts := h.parts k c hold
    have hslot := (h.inv.live k c hold).1
    by_cases hc : c = (m.hooks t).cmd
    · subst hc
      rw [← hslot] at hold hparts ⊢
      rw [parts_access f ho, seen_access, hparts]
      cases hnote : (m.out f args t).note with
      | see e => exact (seenBits_insert e _).symm
      | clear =>
        rw [h.inv.fills t _ (h.clears f hnote)] at hold
        cases hold
      | _ => rfl
    · rw [seen_access_ne f hc]
      by_cases hk : k = slotOf args (m.hooks t).cmd
      · subst hk
        rw [parts_access f ho, hparts]
        cases hnote : (m.out f args t).note with
        | see e =>
          rw [(h.sees f hnote).2.2] at hold
          exact absurd (Option.some.inj hold).symm hc
        | clear =>
          rw [h.inv.fills t _ (h.clears f hnote)] at hold
          cases hold
        | _ => rfl
      · rw [treqs_access_ne f ho hk, hparts]
  · obtain ⟨-, hnew, hparts⟩ := h.publishes f hnote
    rw [parts_access f ho, seen_access, hnote]
    show (m.st.treqs _).parts = seenBits (m.book.seen _)
    rw [hparts, (h.inv.fresh _ hnew).1]
    rfl

/-- The hook that fills a slot is alone there, so the parts it has cleared stay so. -/
theorem SlotsInv.cleared_access (h : SlotsInv args m) (t' : Context cpus)
    (hcleared : ((m.access f args t).hooks t').work.cleared) :
    ((m.access f args t).st.treqs (slotOf args ((m.access f args t).hooks t').cmd)).parts = 0 := by
  by_cases ht : t' = t
  · subst ht
    rw [hooks_self] at hcleared ⊢
    rw [parts_access f ho]
    rcases (out_moves f args m t').cleared hcleared with hnote | hold
    · rw [hnote]
      rfl
    · rw [h.cleared t' hold]
      cases hnote : (m.out f args t').note with
      | see e =>
        have hw : (m.hooks t').work = .rsp e .fetchOr := out_from f hnote
        rw [hw] at hold
        cases hold
      | _ => rfl
  · rw [hooks_ne f ht] at hcleared ⊢
    have hzero := h.cleared t' hcleared
    by_cases hk : slotOf args (m.hooks t').cmd = slotOf args (m.hooks t).cmd
    · have hfills : (m.book.phase t').Takes (slotOf args) (slotOf args (m.hooks t).cmd) := by
        rw [h.fills_of_cleared hcleared]
        exact hk
      rw [hk] at hzero ⊢
      rw [parts_access f ho, hzero]
      cases hnote : (m.out f args t).note with
      | see e =>
        exact absurd (h.inv.alone t' t _ hfills (by rw [(h.sees f hnote).1]; rfl)).symm ht
      | _ => rfl
    · rw [treqs_access_ne f ho hk, hzero]

/-- The last command that came with the record's `nvmet_req` is the record's own. -/
theorem SlotsInv.current_access (h : SlotsInv args m) {k : Slot} {c : ℕ}
    (hlive : (m.access f args t).book.live k = some c) : (m.access f args t).cur (args c).req = some c := by
  rw [cur_access]
  rcases live_before f ho hlive with hold | ⟨hnote, rfl, rfl⟩
  · have hcur := h.current k c hold
    by_cases hs : (m.hooks t).work.samples ∧ ((args c).req : U64) = (args (m.hooks t).cmd).req
    · -- the hook has found the slot without that `nvmet_req`
      exfalso
      have hslot := (h.inv.live k c hold).1
      have hkey := h.key k
      rw [hold, ← hslot] at hkey
      have hsame : slotOf args c = slotOf args (m.hooks t).cmd := congrArg ntpSlot hs.2
      rw [hsame] at hkey
      exact h.flushed t ((out_moves f args m t).samples hs.1).2 (hkey.trans hs.2)
    · rw [if_neg hs]
      exact hcur
  · obtain ⟨hw, -, -⟩ := h.publishes f hnote
    have hmine := h.mine t (by rw [hw]; rfl)
    rw [hw]
    exact hmine

/-- Once the record that was in the way is gone, the slot does not get its `nvmet_req` from another hook. -/
theorem SlotsInv.flushed_access (h : SlotsInv args m) (hc : CallsInv args m)
    (hzero : m.st.inflight = 0 → ∀ k, m.book.live k = none) (t' : Context cpus)
    (hclean : ((m.access f args t).hooks t').work.clean) :
    ((m.access f args t).st.treqs (slotOf args ((m.access f args t).hooks t').cmd)).req ≠
      (args ((m.access f args t).hooks t').cmd).req := by
  by_cases ht : t' = t
  · subst ht
    rw [hooks_self] at hclean ⊢
    rw [req_access f ho]
    obtain ⟨hrole, hcases⟩ := (out_moves f args m t').clean hclean
    have hnz : (0 : U64) ≠ (args (m.hooks t').cmd).req := (args (m.hooks t').cmd).req.property.symm
    -- the slot was found without the `nvmet_req`, or it is freed by this access
    have hold : (m.out f args t').note ≠ .free →
        (m.st.treqs (slotOf args (m.hooks t').cmd)).req ≠ (args (m.hooks t').cmd).req := by
      intro hnote
      rcases hcases with hfree | hwas | hunused | hmissing
      · exact absurd hfree hnote
      · exact h.flushed t' hwas
      · rw [h.key, hzero hunused]
        exact hnz
      · intro hreq
        have hfound : (m.st.treqs (ntpSlot (args (m.hooks t').cmd).req)).req = (args (m.hooks t').cmd).req := hreq
        rw [TgtState.tgtEntry, if_pos hfound] at hmissing
        cases hmissing
    cases hnote : (m.out f args t').note with
    | free => exact hnz
    | unlink => exact hnz
    | publish =>
      have hmoves := out_moves f args m t'
      have hw : (m.hooks t').work = .init .publish := out_from f hnote
      rw [hw, hnote] at hmoves
      generalize (m.out f args t').work = next at hmoves hclean
      cases hmoves
      cases hclean
    | _ => exact hold (by rw [hnote]; exact Note.noConfusion)
  · rw [hooks_ne f ht] at hclean ⊢
    have hold := h.flushed t' hclean
    by_cases hk : slotOf args (m.hooks t').cmd = slotOf args (m.hooks t).cmd
    · have hnz : (0 : U64) ≠ (args (m.hooks t').cmd).req := (args (m.hooks t').cmd).req.property.symm
      rw [hk] at hold ⊢
      rw [req_access f ho]
      cases hnote : (m.out f args t).note with
      | free => exact hnz
      | unlink => exact hnz
      | publish =>
        have hw : (m.hooks t).work = .init .publish := out_from f hnote
        exact (hc.other ht (by rw [hw]; rfl) (role_of_clean hclean)).symm
      | _ => exact hold
    · rw [treqs_access_ne f ho hk]
      exact hold

end Own

/-- An access keeps all of this. -/
theorem SlotsInv.access (h : SlotsInv args m) (hc : CallsInv args m) (hord : m.Orderly args (.step t))
    (hzero : m.st.inflight = 0 → ∀ k, m.book.live k = none) : SlotsInv args (m.access f args t) := by
  have ho := h.ownSlot f hord
  obtain ⟨hinv, hlinked⟩ := h.book_step f hord
  refine ⟨?_, h.key_access f ho, fun k c => h.parts_seen f ho, ?_, h.cleared_access f ho,
    fun k c => h.current_access f ho, h.flushed_access f ho hc hzero, h.mine_access f hc, h.unmade_access f hc,
    fun c => h.madeInits_access f hc, h.keyed_access f hord, h.unseen_access f hc,
    fun c e => h.unstarted_access f hc⟩
  · rw [book_access f ho]
    exact hinv
  · intro t'
    rw [book_access f ho]
    by_cases ht : t' = t
    · subst ht
      rw [hooks_self]
      exact hlinked
    · rw [hooks_ne f ht, phase_book_ne _ _ _ _ _ ht]
      exact h.linked t'

end Access

/-! ## Other actions -/

section Start

variable {cpus : Cpus} {args : ℕ → ReqInitArgs} {m : Machine cpus} {t : Context cpus} {cmd : ℕ} {kind : Kind}
  {env : HookEnv}

/-- A machine that differs in nothing that the slots depend on. -/
theorem SlotsInv.congr (h : SlotsInv args m) {s : TgtState} (htreqs : s.treqs = m.st.treqs) :
    SlotsInv args { m with st := s } where
  inv := h.inv
  key := by rw [htreqs]; exact h.key
  parts := by rw [htreqs]; exact h.parts
  linked := h.linked
  cleared := by rw [htreqs]; exact h.cleared
  current := h.current
  flushed := by rw [htreqs]; exact h.flushed
  mine := h.mine
  unmade := h.unmade
  madeInits := h.madeInits
  keyed := h.keyed
  unseen := h.unseen
  unstarted := h.unstarted

theorem hooks_start (t' : Context cpus) : (m.start args t cmd kind env).hooks t' =
    if t' = t then ⟨cmd, env, kind.work, (args cmd).req⟩ else m.hooks t' := by
  cases kind <;> exact Function.update_apply ..

theorem st_start : (m.start args t cmd kind env).st = m.st := by cases kind <;> rfl

theorem book_start : (m.start args t cmd kind env).book = m.book := by cases kind <;> rfl

theorem cur_start : (m.start args t cmd kind env).cur = m.cur := by cases kind <;> rfl

theorem touch_first (b : Touch) (p : Probe) : (b.first p).inSlot = false := by
  cases b <;> cases p <;> rfl

theorem rsp_first (e : RspEnd) (p : Probe) : (e.first p).inSlot = false := by
  cases e <;> cases p <;> rfl

theorem kind_linked (p : Phase Slot ℕ) (hp : p = .away) : kind.work.Linked args cmd p := by
  cases kind with
  | init => exact hp
  | touch b p =>
    show _ = FrontPc.phase _ _
    rw [hp, FrontPc.phase, touch_first]
    rfl
  | rsp e p =>
    show _ = FrontPc.phase _ _
    rw [hp, FrontPc.phase, rsp_first]
    rfl

/-- A hook begins. -/
theorem SlotsInv.start (h : SlotsInv args m) (hallow : m.Allows args (.start t cmd kind env)) :
    SlotsInv args (m.start args t cmd kind env) := by
  obtain ⟨⟨hidle, -⟩, hkind⟩ := hallow
  have haway : m.book.phase t = .away := by
    have hlink := h.linked t
    cases hw : (m.hooks t).work with
    | idle =>
      rw [hw] at hlink
      exact hlink
    | _ =>
      rw [hw] at hidle
      cases hidle
  have hinits : ∀ c ∈ m.inits, c ∈ (m.start args t cmd kind env).inits := by
    intro c hmem
    cases kind with
    | init => exact List.mem_append_left _ hmem
    | _ => exact hmem
  have hstarted : ∀ c e, (c, e) ∈ m.started → (c, e) ∈ (m.start args t cmd kind env).started := by
    intro c e hmem
    cases kind with
    | rsp e' p => exact List.mem_append_left _ hmem
    | _ => exact hmem
  refine ⟨?_, ?_, ?_, ?_, ?_, ?_, ?_, ?_, ?_, ?_, ?_, ?_, ?_⟩
  · rw [book_start]
    exact h.inv
  · rw [book_start, st_start]
    exact h.key
  · rw [book_start, st_start]
    exact h.parts
  · intro t'
    rw [book_start, hooks_start]
    split_ifs with ht
    · rw [ht]
      exact kind_linked _ haway
    · exact h.linked t'
  · intro t'
    rw [st_start, hooks_start]
    split_ifs with ht
    · intro hcleared
      cases kind <;> cases hcleared
    · exact h.cleared t'
  · rw [book_start, cur_start]
    exact h.current
  · intro t'
    rw [st_start, hooks_start]
    split_ifs with ht
    · intro hclean
      cases kind <;> cases hclean
    · exact h.flushed t'
  · intro t'
    rw [cur_start, hooks_start]
    split_ifs with ht
    · intro hmakes
      cases kind <;> cases hmakes
    · exact h.mine t'
  · intro t'
    rw [book_start, hooks_start]
    split_ifs with ht
    · intro hunmade hmade
      cases kind with
      | init => exact hkind.1 (h.madeInits cmd hmade)
      | _ => cases hunmade
    · exact h.unmade t'
  · intro c hmade
    rw [book_start] at hmade
    exact hinits c (h.madeInits c hmade)
  · intro t'
    rw [hooks_start]
    split_ifs
    · exact fun _ => rfl
    · exact h.keyed t'
  · intro t' e
    rw [book_start, hooks_start]
    split_ifs with ht
    · intro hearly
      cases kind with
      | rsp e' p =>
        have he : e' = e := by simpa [Kind.work, Work.early, RspPc.early] using hearly
        subst he
        exact h.unstarted cmd e' hkind.2
      | _ => cases hearly
    · exact h.unseen t' e
  · intro c e hnot
    rw [book_start]
    exact h.unstarted c e fun hmem => hnot (hstarted c e hmem)

end Start

/-! ## `ntp_inflight` -/

/-- Whether the slot is in use after an access. -/
def Note.busyAfter (old : Prop) : Note → Prop
  | .free => False
  | .take => True
  | _ => old

section Inflight

variable {cpus : Cpus} (f : Filter) {args : ℕ → ReqInitArgs} {m : Machine cpus} {t : Context cpus}

/-- A hook that does anything else has not claimed a slot. -/
theorem SlotsInv.unclaimed (h : SlotsInv args m) (hnote : ¬ ((m.out f args t).note = .nothing ∨
    (m.out f args t).note = .unlink ∨ (m.out f args t).note = .clear ∨ (m.out f args t).note = .publish ∨
    ∃ i, (m.out f args t).note = .count i)) (k : Slot) :
    ¬ (m.book.phase t).Claims k := by
  intro hclaims
  exact hnote ((out_moves f args m t).claims ((h.linked t).stands.claims hclaims))

/-- A hook that is about to free its slot has handed over the record in it. -/
theorem SlotsInv.frees (h : SlotsInv args m) (hnote : (m.out f args t).note = .free) :
    ∃ own c, m.book.phase t = .frees own c ∧ slotOf args c = slotOf args (m.hooks t).cmd := by
  have hlink := h.linked t
  rcases out_from f hnote with ⟨e, hw⟩ | ⟨q, hw⟩
  · rw [hw] at hlink
    exact ⟨true, _, hlink, rfl⟩
  · rw [hw] at hlink
    obtain ⟨c, hc, hphase⟩ := hlink
    exact ⟨false, c, hphase, slotOf_congr hc⟩

/-- The slots in use after an access. -/
theorem SlotsInv.busy_access (h : SlotsInv args m) (ho : m.OwnSlot f args t) :
    (m.access f args t).book.Busy (slotOf args (m.hooks t).cmd) ↔
      (m.out f args t).note.busyAfter (m.book.Busy (slotOf args (m.hooks t).cmd)) := by
  have hother : ∀ t' ≠ t, (m.access f args t).book.phase t' = m.book.phase t' := fun t' => phase_access_ne f
  have hkeeps : (m.out f args t).note.liveAfter (m.hooks t).cmd (m.book.live (slotOf args (m.hooks t).cmd)) =
        m.book.live (slotOf args (m.hooks t).cmd) →
      (((m.access f args t).book.phase t).Claims (slotOf args (m.hooks t).cmd) ↔
        (m.book.phase t).Claims (slotOf args (m.hooks t).cmd)) →
      ((m.access f args t).book.Busy (slotOf args (m.hooks t).cmd) ↔
        m.book.Busy (slotOf args (m.hooks t).cmd)) := by
    intro hsame hself
    exact SharedSlots.busy_congr ((live_access f ho).trans hsame) hother hself
  have hno := h.unclaimed f (t := t)
  have hlink := h.linked t
  rw [book_access f ho] at hkeeps ⊢
  cases hnote : (m.out f args t).note with
  | nothing => exact Iff.rfl
  | count i => exact Iff.rfl
  | clear => exact Iff.rfl
  | leave => exact Iff.rfl
  | take => exact iff_of_true (.inr ⟨t, by rw [Note.book]; grind⟩) trivial
  | free =>
    obtain ⟨own, c, hphase, hslot⟩ := h.frees f hnote
    have hfree := (h.inv.busy_free hphase).2
    rw [hslot] at hfree
    exact iff_of_false hfree not_false
  | unlink =>
    obtain ⟨q, c, hw⟩ := out_from f hnote
    rw [hw] at hlink
    have hbusy := SharedSlots.busy_unlink hlink
    exact iff_of_true hbusy.2 hbusy.1
  | publish =>
    have hw : (m.hooks t).work = .init .publish := out_from f hnote
    rw [hw] at hlink
    have hbusy := SharedSlots.busy_publish (c := (m.hooks t).cmd) hlink
    exact iff_of_true hbusy.2 hbusy.1
  | see e =>
    rw [hnote] at hno hkeeps
    refine hkeeps rfl (iff_of_false ?_ (hno (by simp) _))
    simp only [Note.book, SharedSlots.State.phase_see, if_true]
    split_ifs <;> exact not_false
  | _ =>
    rw [hnote] at hno hkeeps
    refine hkeeps rfl (iff_of_false ?_ (hno (by simp) _))
    simp [Note.book, SharedSlots.Phase.Claims]

theorem SlotsInv.busy_access_ne (h : SlotsInv args m) (h' : SlotsInv args (m.access f args t))
    (ho : m.OwnSlot f args t) {k : Slot} (hk : k ≠ slotOf args (m.hooks t).cmd) :
    (m.access f args t).book.Busy k ↔ m.book.Busy k := by
  have hnot : ∀ {m' : Machine cpus}, SlotsInv args m' → (m'.hooks t).cmd = (m.hooks t).cmd →
      ¬ (m'.book.phase t).Claims k := by
    intro m' hm' hcmd hclaims
    have hin := (hm'.linked t).stands.inside (SharedSlots.inside (SharedSlots.takes_of_claims hclaims))
    rw [hcmd] at hin
    exact hk hin.2.symm
  refine SharedSlots.busy_congr (t := t) (live_access_ne f ho hk) (fun t' => phase_access_ne f)
    (iff_of_false (hnot h' ?_) (hnot h rfl))
  rw [hooks_self]

open Classical in
/-- 1 for a slot that is in use. -/
noncomputable def Machine.busy (m : Machine cpus) (k : Slot) : ℕ := if m.book.Busy k then 1 else 0

/-- 1 for a hook that has freed its slot and is to count down `ntp_inflight`. -/
def Machine.leaving (m : Machine cpus) (t : Context cpus) : ℕ := if (m.hooks t).work.leaves then 1 else 0

/-- `ntp_inflight` counts the slots in use, and those that were freed and are not counted down. -/
def InflightInv (m : Machine cpus) : Prop :=
  m.st.inflight = BitVec.ofNat 64 (SlotTable.occupied m.busy + SlotTable.occupied m.leaving)

theorem busy_eq_zero {k : Slot} : m.busy k = 0 ↔ ¬ m.book.Busy k := by
  rw [Machine.busy]
  split_ifs with hbusy <;> simp [hbusy]

theorem busy_of_iff {m' : Machine cpus} {k : Slot} (h : m'.book.Busy k ↔ m.book.Busy k) : m'.busy k = m.busy k := by
  rw [Machine.busy, Machine.busy]
  by_cases hbusy : m.book.Busy k
  · rw [if_pos hbusy, if_pos (h.mpr hbusy)]
  · rw [if_neg hbusy, if_neg fun hnew => hbusy (h.mp hnew)]

theorem leaving_eq_zero {t : Context cpus} : m.leaving t = 0 ↔ (m.hooks t).work.leaves = false := by
  rw [Machine.leaving]
  split_ifs with hleaves <;> simp [hleaves]

theorem SlotsInv.busy_update (h : SlotsInv args m) (h' : SlotsInv args (m.access f args t))
    (ho : m.OwnSlot f args t) :
    (m.access f args t).busy = Function.update m.busy (slotOf args (m.hooks t).cmd)
      ((m.access f args t).busy (slotOf args (m.hooks t).cmd)) := by
  funext k
  rw [Function.update_apply]
  split_ifs with hk
  · rw [hk]
  · exact busy_of_iff (h.busy_access_ne f h' ho hk)

theorem leaving_update : (m.access f args t).leaving =
    Function.update m.leaving t (if (m.out f args t).work.leaves then 1 else 0) := by
  funext t'
  rw [Function.update_apply, Machine.leaving, Machine.leaving, hooks_access]
  split_ifs <;> simp_all [Machine.out]

theorem card_level_le (tasks : ℕ) : Fintype.card (Level tasks) ≤ tasks + 3 := by
  have hthree : ({.softirq, .hardirq, .nmi} : Finset (Level tasks)).card ≤ 3 := Finset.card_le_three
  have htasks : (Finset.univ.image (Level.task : Fin tasks → Level tasks)).card ≤ tasks :=
    Finset.card_image_le.trans_eq (Finset.card_fin tasks)
  calc Fintype.card (Level tasks) ≤ _ := Finset.card_union_le _ _
    _ ≤ tasks + 3 := by omega

/-- There are fewer hooks at a time than `ntp_inflight` can count. -/
theorem Cpus.card_context_lt (cpus : Cpus) : Fintype.card (Context cpus) < 2 ^ 63 + 2 ^ 34 := by
  have hlevels := card_level_le cpus.tasks.toNat
  rw [Fintype.card_prod, Fintype.card_fin]
  calc cpus.count.toNat * Fintype.card (Level cpus.tasks.toNat)
      ≤ 2 ^ 32 * (2 ^ 31 + 2) := Nat.mul_le_mul (by omega) (by omega)
    _ < 2 ^ 63 + 2 ^ 34 := by omega

/-- With `ntp_inflight` at 0 no slot holds a record. -/
theorem InflightInv.empty (h : InflightInv m) (hzero : m.st.inflight = 0) (k : Slot) : m.book.live k = none := by
  have hslots := SlotTable.occupied_le_card m.busy
  have hhooks := SlotTable.occupied_le_card m.leaving
  have hcard : Fintype.card Slot + Fintype.card (Context cpus) < 2 ^ 64 := by
    have hcpus := cpus.card_context_lt
    simp only [Fintype.card_fin, ntpRecSlots]
    omega
  rw [InflightInv, hzero] at h
  have hsum : (SlotTable.occupied m.busy + SlotTable.occupied m.leaving) % 2 ^ 64 = 0 := by
    rw [← BitVec.toNat_ofNat, ← h]
    rfl
  have hnone : SlotTable.occupied m.busy = 0 := by omega
  have hk := SlotTable.occupied_eq_zero hnone k
  rw [busy_eq_zero] at hk
  by_contra hlive
  exact hk (.inl hlive)

/-- The number of slots in use, after an access that keeps the slot in use, or free. -/
theorem SlotsInv.occupied_same (h : SlotsInv args m) (h' : SlotsInv args (m.access f args t))
    (ho : m.OwnSlot f args t)
    (hnote : (m.out f args t).note.busyAfter (m.book.Busy (slotOf args (m.hooks t).cmd)) ↔
      m.book.Busy (slotOf args (m.hooks t).cmd)) :
    SlotTable.occupied (m.access f args t).busy = SlotTable.occupied m.busy := by
  have hself := (h.busy_access f ho).trans hnote
  rw [h.busy_update f h' ho, busy_of_iff hself, Function.update_eq_self]

/-- The hooks that are to count down, after an access of one that is not, and was not. -/
theorem leaving_same (hfree : (m.out f args t).note ≠ .free) (hleave : (m.out f args t).note ≠ .leave) :
    SlotTable.occupied (m.access f args t).leaving = SlotTable.occupied m.leaving := by
  obtain ⟨hnext, hold⟩ := (out_moves f args m t).leaves
  have hself : m.leaving t = 0 := leaving_eq_zero.mpr (Bool.eq_false_iff.mpr fun hw => hleave (hold.mp hw))
  rw [leaving_update, if_neg fun hw => hfree (hnext.mp hw), ← hself, Function.update_eq_self]

theorem SlotsInv.busy_self (h : SlotsInv args m) (ho : m.OwnSlot f args t) :
    (m.access f args t).busy (slotOf args (m.hooks t).cmd) = 0 ↔
      ¬ (m.out f args t).note.busyAfter (m.book.Busy (slotOf args (m.hooks t).cmd)) := by
  rw [busy_eq_zero, h.busy_access f ho]

/-- `ntp_t_req_init` takes a slot, which was in use if a record was in it. -/
theorem SlotsInv.busy_taken (h : SlotsInv args m) (hord : m.Orderly args (.step t))
    (hnote : (m.out f args t).note = .take) :
    m.book.Busy (slotOf args (m.hooks t).cmd) ↔ m.book.live (slotOf args (m.hooks t).cmd) ≠ none := by
  obtain ⟨q, c, hw⟩ := out_from f hnote
  exact (SharedSlots.busy_take (t := t) (h.nobody hord (by rw [hw]; rfl) (by rw [hw]; rfl))).1

theorem SlotsInv.occupied_taken (h : SlotsInv args m) (h' : SlotsInv args (m.access f args t))
    (ho : m.OwnSlot f args t) (hord : m.Orderly args (.step t)) (hnote : (m.out f args t).note = .take)
    (hfree : m.book.live (slotOf args (m.hooks t).cmd) = none) :
    SlotTable.occupied (m.access f args t).busy = SlotTable.occupied m.busy + 1 := by
  have hold : m.busy (slotOf args (m.hooks t).cmd) = 0 := by
    rw [busy_eq_zero, h.busy_taken f hord hnote, hfree]
    simp
  have hnew : (m.access f args t).busy (slotOf args (m.hooks t).cmd) ≠ 0 := by
    rw [Ne, h.busy_self f ho, hnote, not_not]
    trivial
  rw [h.busy_update f h' ho, SlotTable.occupied_take hold hnew]

theorem SlotsInv.occupied_freed (h : SlotsInv args m) (h' : SlotsInv args (m.access f args t))
    (ho : m.OwnSlot f args t) (hnote : (m.out f args t).note = .free) :
    SlotTable.occupied m.busy = SlotTable.occupied (m.access f args t).busy + 1 := by
  obtain ⟨own, c, hphase, hslot⟩ := h.frees f hnote
  have hold : m.busy (slotOf args (m.hooks t).cmd) ≠ 0 := by
    rw [Ne, busy_eq_zero, not_not, ← hslot]
    exact (h.inv.busy_free hphase).1
  have hnew : (m.access f args t).busy (slotOf args (m.hooks t).cmd) = 0 := by
    rw [h.busy_self f ho, hnote]
    exact not_false
  rw [h.busy_update f h' ho, hnew, SlotTable.occupied_release hold]

theorem leaving_freed (hnote : (m.out f args t).note = .free) :
    SlotTable.occupied (m.access f args t).leaving = SlotTable.occupied m.leaving + 1 := by
  obtain ⟨hnext, hold⟩ := (out_moves f args m t).leaves
  have hstays : m.leaving t = 0 := by
    rw [leaving_eq_zero, Bool.eq_false_iff]
    intro hw
    rw [hold, hnote] at hw
    exact Note.noConfusion hw
  rw [leaving_update, if_pos (hnext.mpr hnote), SlotTable.occupied_take hstays one_ne_zero]

theorem leaving_left (hnote : (m.out f args t).note = .leave) :
    SlotTable.occupied m.leaving = SlotTable.occupied (m.access f args t).leaving + 1 := by
  obtain ⟨hnext, hold⟩ := (out_moves f args m t).leaves
  have hleaves : m.leaving t ≠ 0 := by
    rw [Ne, leaving_eq_zero, hold.mpr hnote]
    exact Bool.noConfusion
  have hstops : ¬ (m.out f args t).work.leaves := by
    rw [hnext, hnote]
    exact Note.noConfusion
  rw [leaving_update, if_neg hstops, SlotTable.occupied_release hleaves]

/-- An access keeps the count. -/
theorem InflightInv.access (hi : InflightInv m) (h : SlotsInv args m) (h' : SlotsInv args (m.access f args t))
    (hord : m.Orderly args (.step t)) : InflightInv (m.access f args t) := by
  have ho := h.ownSlot f hord
  have hinflight : (m.access f args t).st.inflight = (m.out f args t).note.inflightAfter
      (m.st.treqs (slotOf args (m.hooks t).cmd)).req m.st.inflight := (out_effect f ho).inflight
  rw [InflightInv] at hi ⊢
  rw [hinflight, hi]
  cases hnote : (m.out f args t).note with
  | take =>
    have hkey := h.key (slotOf args (m.hooks t).cmd)
    rw [leaving_same f (by rw [hnote]; exact Note.noConfusion) (by rw [hnote]; exact Note.noConfusion)]
    cases hlive : m.book.live (slotOf args (m.hooks t).cmd) with
    | none =>
      rw [hlive] at hkey
      rw [h.occupied_taken f h' ho hord hnote hlive, Note.inflightAfter, if_neg (by rw [hkey]; simp), add_right_comm,
        BitVec.ofNat_add _ 1]
      rfl
    | some d =>
      have hused := (h.busy_taken f hord hnote).mpr (by rw [hlive]; exact Option.some_ne_none d)
      rw [hlive] at hkey
      rw [h.occupied_same f h' ho (by rw [hnote]; exact iff_of_true trivial hused), Note.inflightAfter,
        if_pos (by rw [hkey]; exact (args d).req.property)]
  | free =>
    -- the slot is free, and the hook is to count it down
    show BitVec.ofNat 64 _ = _
    rw [h.occupied_freed f h' ho hnote, leaving_freed f hnote, add_right_comm, add_assoc]
  | leave =>
    rw [h.occupied_same f h' ho (by rw [hnote]; exact Iff.rfl), leaving_left f hnote, Note.inflightAfter, ← add_assoc,
      BitVec.ofNat_add _ 1]
    exact add_neg_cancel_right (BitVec.ofNat 64 _) 1
  | _ =>
    rw [leaving_same f (by rw [hnote]; exact Note.noConfusion) (by rw [hnote]; exact Note.noConfusion),
      h.occupied_same f h' ho (by rw [hnote]; exact Iff.rfl)]
    rfl

end Inflight

end Ntprof.Bpf
