import Ntprof.Bpf.Proofs.HookRunProofs
import Ntprof.Bpf.Proofs.HookWholeProofs

/-!
# Emission at the NVMe/RDMA target, in every interleaving

A record is emitted once, by the hook that sees the last end of its response, and no other command's hook gets at it,
as long as the hooks of the commands of one `nvmet_req`, and of the `nvmet_req`s of one slot, do not overlap.
-/

namespace Ntprof.Bpf

/-! ## What becomes of the records -/

/-- A record whose fate is `x` is counted in `i`. -/
def lostIn (i : Counter) (x : Option Fate) : Bool :=
  match i with
  | .rbDrops => x.any (·.event.isNone)
  | .stale => x.isNone
  | _ => false

section Ended

variable {cpus : Cpus} (f : Filter) (args : ℕ → ReqInitArgs) {m : Machine cpus} {t : Context cpus} {c : ℕ} {e : RspEnd}

/-- The hook of an end of `c` is past noting it, or over. -/
def Machine.Passed (m : Machine cpus) (c : ℕ) (e : RspEnd) : Prop :=
  (c, e) ∈ m.finished ∨ ∃ t, (m.hooks t).cmd = c ∧ (m.hooks t).work.late e

/-- What is known of the records that were made. -/
structure EndedInv (m : Machine cpus) : Prop where
  sampled : ∀ c ∈ m.sampled, c ∈ m.book.made ∨ ∃ t, (m.hooks t).cmd = c ∧ (m.hooks t).work.makes
  passed : ∀ c e, m.Passed c e → c ∈ m.book.made → m.book.Closed c ∨ e ∈ m.book.seen c
  back : ∀ c x, (c, .back x) ∈ m.book.closed → m.came (args c).req ≠ some c
  events : m.st.events = m.book.closed.filterMap fun p => p.2.fate.bind Fate.event
  counted : ∀ i ∈ lossCounters, m.st.counters i + BitVec.ofNat 64 (m.toCount i).card =
    BitVec.ofNat 64 (m.book.closed.countP fun p => lostIn i p.2.fate)

variable {args}

theorem sampled_access : (m.access f args t).sampled =
    if (m.hooks t).work.samples && !(m.out f args t).work.isIdle then m.sampled ++ [(m.hooks t).cmd] else m.sampled := by
  have hfinish : ∀ next, (m.finish (m.hooks t) next).sampled = m.sampled := by
    intro next
    simp only [Machine.finish]
    split <;> rfl
  simp only [Machine.access, hfinish, Machine.out]
  rfl

/-- A record that has ended stays so. -/
theorem Closed.access (h : m.book.Closed c) : (m.access f args t).book.Closed c := by
  rw [SharedSlots.State.Closed, book_access_key, closed_book, List.map_append]
  exact List.mem_append_left _ h

/-- An end that was seen stays so. -/
theorem mem_seen_access (h : e ∈ m.book.seen c) : e ∈ (m.access f args t).book.seen c := by
  by_cases hc : c = (m.hooks t).cmd
  · rw [hc] at h ⊢
    rw [seen_access]
    cases (m.out f args t).note with
    | see e' => exact Finset.mem_insert_of_mem h
    | _ => exact h
  · rw [seen_access_ne f hc]
    exact h

/-- A record that was made stays so. -/
theorem mem_made_access (h : c ∈ m.book.made) : c ∈ (m.access f args t).book.made := by
  rw [made_access]
  cases (m.out f args t).note with
  | publish => exact List.mem_append_left _ h
  | _ => exact h

/-- The record of a command whose `nvmet_req_init` is over is not made any more. -/
theorem CallsInv.made_before (hc : CallsInv args m) (hbegun : c ∈ m.begun)
    (hmade : c ∈ (m.access f args t).book.made) : c ∈ m.book.made := by
  rw [made_access] at hmade
  cases hnote : (m.out f args t).note with
  | publish =>
    rw [hnote] at hmade
    rcases List.mem_append.mp hmade with hold | hnew
    · exact hold
    · have hw : (m.hooks t).work = .init .publish := out_from f hnote
      rw [List.mem_singleton.mp hnew] at hbegun
      exact absurd hbegun (hc.arrived t (by rw [hw]; rfl)).2.2
  | _ =>
    rw [hnote] at hmade
    exact hmade

theorem role_of_late {w : Work} (h : w.late e) : w.role = some (.rsp e) := by
  cases w with
  | rsp e' p =>
    rw [Work.late, Bool.and_eq_true, decide_eq_true_eq] at h
    rw [Work.role, h.1]
  | _ => cases h

theorem CallsInv.begun_of_passed (hc : CallsInv args m) (h : m.Passed c e) : c ∈ m.begun := by
  rcases h with hfinished | ⟨t, rfl, hlate⟩
  · exact hc.startedBegun c e (hc.overs c e hfinished)
  · exact hc.startedBegun _ e (hc.ends t e (role_of_late hlate)).1

theorem EndedInv.sampled_access (h : EndedInv args m) (hc : c ∈ (m.access f args t).sampled) :
    c ∈ (m.access f args t).book.made ∨
      ∃ t', ((m.access f args t).hooks t').cmd = c ∧ ((m.access f args t).hooks t').work.makes := by
  have hmoves := out_moves f args m t
  have hkeeps : (m.hooks t).work.makes → (m.hooks t).cmd ∈ (m.access f args t).book.made ∨
      (m.out f args t).work.makes := by
    intro hmakes
    rw [made_access]
    rcases hmoves.makesOn hmakes with hnote | hnext
    · rw [hnote]
      exact .inl (List.mem_append_right _ (List.mem_singleton_self _))
    · exact .inr hnext
  have hold : c ∈ m.sampled → c ∈ (m.access f args t).book.made ∨
      ∃ t', ((m.access f args t).hooks t').cmd = c ∧ ((m.access f args t).hooks t').work.makes := by
    intro hmem
    rcases h.sampled c hmem with hmade | ⟨t', rfl, hmakes⟩
    · exact .inl (mem_made_access f hmade)
    · by_cases ht : t' = t
      · subst ht
        refine (hkeeps hmakes).imp id fun hnext => ⟨t', ?_⟩
        rw [hooks_self]
        exact ⟨rfl, hnext⟩
      · refine .inr ⟨t', ?_⟩
        rw [hooks_ne f ht]
        exact ⟨rfl, hmakes⟩
  rw [Ntprof.Bpf.sampled_access] at hc
  split_ifs at hc with hs
  · rw [Bool.and_eq_true, Bool.not_eq_true'] at hs
    rcases List.mem_append.mp hc with hmem | hnew
    · exact hold hmem
    · refine .inr ⟨t, ?_⟩
      rw [hooks_self, List.mem_singleton.mp hnew]
      exact ⟨rfl, hmoves.makesFrom hs.1 hs.2⟩
  · exact hold hc

/-- A hook of an end that finds no record for its key, or nothing saved for it, has no record. -/
theorem SlotsInv.missing (h : SlotsInv args m) (hord : m.Orderly args (.step t))
    (hmissing : (((m.hooks t).work.seeks ∨ (m.hooks t).work.keyed) ∧ (m.st.tgtEntry (m.key t)).isSome = false) ∨
      ((m.hooks t).work.keyPc = some .find ∧ (ntpCtxGet m.st.respCtx (m.hooks t).env).isSome = false)) :
    (m.st.tgtEntry (args (m.hooks t).cmd).req).isSome = false := by
  rw [Bool.eq_false_iff]
  intro hfound
  rcases hmissing with ⟨hw, hnone⟩ | ⟨hw, hnone⟩
  · have hown : m.key t = (args (m.hooks t).cmd).req := by
      rcases hw with hseeks | hkeyed
      · exact key_of_look hord hseeks (.inr hfound)
      · exact h.key_of_keyed hkeyed
    rw [hown, hfound] at hnone
    cases hnone
  · rw [hord.saved hw hfound] at hnone
    cases hnone

/-- An end that is passed was noted, unless the record had ended before. -/
theorem EndedInv.passed_access (h : EndedInv args m) (hs : SlotsInv args m) (hc : CallsInv args m)
    (hord : m.Orderly args (.step t)) (hzero : m.st.inflight = 0 → ∀ k, m.book.live k = none)
    (hpassed : (m.access f args t).Passed c e)
    (hmade : c ∈ (m.access f args t).book.made) :
    (m.access f args t).book.Closed c ∨ e ∈ (m.access f args t).book.seen c := by
  have hbefore : m.Passed c e → (m.access f args t).book.Closed c ∨ e ∈ (m.access f args t).book.seen c := by
    intro hold
    exact (h.passed c e hold (hc.made_before f (hc.begun_of_passed hold) hmade)).imp (Closed.access f)
      (mem_seen_access f)
  have hnow : c = (m.hooks t).cmd → (m.hooks t).work.role = some (.rsp e) →
      (m.out f args t).work.late e ∨ (m.out f args t).work.role = none →
      (m.access f args t).book.Closed c ∨ e ∈ (m.access f args t).book.seen c := by
    rintro rfl hrole hnext
    have hended : m.book.live (slotOf args (m.hooks t).cmd) ≠ some (m.hooks t).cmd →
        (m.access f args t).book.Closed (m.hooks t).cmd ∨ e ∈ (m.access f args t).book.seen (m.hooks t).cmd := by
      intro hgone
      have hold := hc.made_before f (hc.startedBegun _ e (hc.ends t e hrole).1) hmade
      exact .inl (Closed.access f ((hs.inv.kept _ hold).resolve_right hgone))
    rcases (out_moves f args m t).stops hrole hnext with hlate | hnote | hunused | hmissing
    · exact hbefore (.inr ⟨t, rfl, hlate⟩)
    · refine .inr ?_
      rw [seen_access, hnote]
      exact Finset.mem_insert_self ..
    · refine hended ?_
      rw [hzero hunused]
      exact (Option.some_ne_none _).symm
    · exact hended (hs.not_live (hs.missing hord hmissing))
  rcases hpassed with hfinished | ⟨t', hcmd, hlate⟩
  · rcases (finished_access f args c e).mp hfinished with hold | ⟨rfl, hrole, hnone⟩
    · exact hbefore (.inl hold)
    · exact hnow rfl hrole (.inr hnone)
  · by_cases ht : t' = t
    · subst ht
      rw [hooks_self] at hcmd hlate
      have hrole : (m.hooks t').work.role = some (.rsp e) := by
        have hnext := role_of_late hlate
        rcases (out_moves f args m t').role with hsame | hnone
        · exact hsame.symm.trans hnext
        · exact absurd (hnone.symm.trans hnext) (Option.some_ne_none _).symm
      exact hnow hcmd.symm hrole (.inl hlate)
    · rw [hooks_ne f ht] at hcmd hlate
      exact hbefore (.inr ⟨t', hcmd, hlate⟩)

/-- A record that another command's `nvmet_req_init` has handed over is not that of the last command there. -/
theorem EndedInv.back_access (h : EndedInv args m) (hs : SlotsInv args m) (hc : CallsInv args m)
    (ho : m.OwnSlot f args t) {x : Fate}
    (hmem : (c, .back x) ∈ (m.access f args t).book.closed) : (m.access f args t).came (args c).req ≠ some c := by
  rw [came_access]
  rw [closed_access f ho] at hmem
  rcases List.mem_append.mp hmem with hold | hnew
  · exact h.back c x hold
  · cases hnote : (m.out f args t).note with
    | output own y =>
      rw [hnote] at hnew
      rcases out_from f hnote with ⟨rfl, -⟩ | ⟨rfl, q, hw⟩
      · simp [Note.closes] at hnew
      · have hlink := hs.linked t
        have hunmade := hs.unmade t (by rw [hw]; rfl)
        have harrived := (hc.arrived t (by rw [hw]; rfl)).1
        rw [hw] at hlink
        obtain ⟨d, hd, hphase⟩ := hlink
        have hlive := (hs.inv.emits t false d hphase).1
        have hmade := (hs.inv.live _ _ hlive).2
        have hslot : slotOf args d = slotOf args (m.hooks t).cmd := slotOf_congr hd
        rw [← hslot, hlive] at hnew
        have hcd : c = d := congrArg Prod.fst (List.mem_singleton.mp hnew)
        rw [hcd, hd, harrived]
        intro hsame
        rw [Option.some.inj hsame] at hunmade
        exact hunmade hmade
    | take =>
      rw [hnote] at hnew
      obtain ⟨d, -, heq⟩ := List.mem_map.mp hnew
      exact absurd (congrArg Prod.snd heq) (by simp)
    | _ =>
      rw [hnote] at hnew
      exact absurd hnew List.not_mem_nil

/-- The ring buffer after an access. -/
theorem EndedInv.events_access (h : EndedInv args m) (ho : m.OwnSlot f args t) :
    (m.access f args t).st.events =
      (m.access f args t).book.closed.filterMap fun p => p.2.fate.bind Fate.event := by
  rw [closed_access f ho, st_access, (out_effect f ho).events, h.events, List.filterMap_append]
  cases (m.out f args t).note with
  | output own x =>
    cases own <;> cases x <;> simp [Note.eventsAfter, Note.closes, SharedSlots.Cause.fate, Fate.event]
  | take =>
    cases m.book.live (slotOf args (m.hooks t).cmd) with
    | none => simp [Note.eventsAfter, Note.closes]
    | some d => simp [Note.eventsAfter, Note.closes, SharedSlots.Cause.fate]
  | _ => simp [Note.eventsAfter, Note.closes]

/-- The records that an access loses are those that its hook is to count. -/
theorem SlotsInv.lost_access (hs : SlotsInv args m) {i : Counter} (hi : i ∈ lossCounters) :
    ((m.out f args t).note.closes (m.hooks t).cmd (m.book.live (slotOf args (m.hooks t).cmd))).countP
        (fun p => lostIn i p.2.fate) =
      (m.out f args t).note.owes i (m.st.treqs (slotOf args (m.hooks t).cmd)).req := by
  have hcases : i = .rbDrops ∨ i = .stale := by simpa [lossCounters] using hi
  cases (m.out f args t).note with
  | output own x =>
    rcases hcases with rfl | rfl <;> cases own <;> cases x <;>
      simp [Note.closes, Note.owes, lostIn, SharedSlots.Cause.fate, Fate.event, Fate.counter]
  | take =>
    have hkey := hs.key (slotOf args (m.hooks t).cmd)
    cases hlive : m.book.live (slotOf args (m.hooks t).cmd) with
    | none =>
      rw [hlive] at hkey
      simp [Note.closes, Note.owes, hkey]
    | some d =>
      rw [hlive] at hkey
      have hnonzero : (m.st.treqs (slotOf args (m.hooks t).cmd)).req ≠ 0#64 := by
        rw [hkey]
        exact (args d).req.property
      rcases hcases with rfl | rfl
      · simp [Note.closes, Note.owes, lostIn, SharedSlots.Cause.fate]
      · simp [Note.closes, Note.owes, lostIn, SharedSlots.Cause.fate, hnonzero]
  | _ => rfl

theorem card_toCount (m : Machine cpus) (t : Context cpus) (i : Counter) :
    (m.toCount i).card = ((m.toCount i).erase t).card + if (m.hooks t).work.counting = some i then 1 else 0 := by
  by_cases hcounting : (m.hooks t).work.counting = some i
  · have hmem : t ∈ m.toCount i := Finset.mem_filter.mpr ⟨Finset.mem_univ t, hcounting⟩
    rw [if_pos hcounting, Finset.card_erase_add_one hmem]
  · have hmem : t ∉ m.toCount i := fun hmem => hcounting (Finset.mem_filter.mp hmem).2
    rw [if_neg hcounting, Finset.erase_eq_of_notMem hmem, add_zero]

/-- The hooks that are to count, after an access. -/
theorem toCount_access {i : Counter} (hi : i ∈ lossCounters) :
    ((m.access f args t).toCount i).card + (m.out f args t).note.counts i =
      (m.toCount i).card + (m.out f args t).note.owes i (m.st.treqs (slotOf args (m.hooks t).cmd)).req := by
  have hself := (out_moves f args m t).counting hi
  have hothers : ((m.access f args t).toCount i).erase t = (m.toCount i).erase t := by
    ext t'
    simp only [Finset.mem_erase, Machine.toCount, Finset.mem_filter]
    refine and_congr_right fun ht' => ?_
    rw [hooks_ne f ht']
  have hnext : ((m.access f args t).hooks t).work = (m.out f args t).work := by rw [hooks_self]
  rw [card_toCount _ t, card_toCount m t, hothers, hnext, slotOf]
  omega

theorem countAfter_eq (note : Note) (i : Counter) (old : U64) :
    note.countAfter i old = old + BitVec.ofNat 64 (note.counts i) := by
  cases note with
  | count j =>
    simp only [Note.countAfter, Note.counts]
    split_ifs
    · rfl
    · exact (BitVec.add_zero _).symm
  | _ => exact (BitVec.add_zero _).symm

/-- The counters of lost records after an access. -/
theorem EndedInv.counted_access (h : EndedInv args m) (hs : SlotsInv args m) (ho : m.OwnSlot f args t) {i : Counter}
    (hi : i ∈ lossCounters) :
    (m.access f args t).st.counters i + BitVec.ofNat 64 ((m.access f args t).toCount i).card =
      BitVec.ofNat 64 ((m.access f args t).book.closed.countP fun p => lostIn i p.2.fate) := by
  rw [closed_access f ho, st_access, (out_effect f ho).counters i hi, List.countP_append, hs.lost_access f hi,
    BitVec.ofNat_add, ← h.counted i hi, countAfter_eq, BitVec.add_assoc, BitVec.add_assoc, ← BitVec.ofNat_add,
    ← BitVec.ofNat_add, Nat.add_comm _ (Finset.card _), toCount_access f hi]

/-- An access keeps all of this. -/
theorem EndedInv.access (h : EndedInv args m) (hs : SlotsInv args m) (hc : CallsInv args m)
    (hord : m.Orderly args (.step t)) (hzero : m.st.inflight = 0 → ∀ k, m.book.live k = none) :
    EndedInv args (m.access f args t) where
  sampled := fun _ => h.sampled_access f
  passed := fun _ _ => h.passed_access f hs hc hord hzero
  back := fun _ _ => h.back_access f hs hc (hs.ownSlot f hord)
  events := h.events_access f (hs.ownSlot f hord)
  counted := fun _ => h.counted_access f hs (hs.ownSlot f hord)

theorem EndedInv.congr (h : EndedInv args m) {s : TgtState} (hevents : s.events = m.st.events)
    (hcounters : s.counters = m.st.counters) : EndedInv args { m with st := s } where
  sampled := h.sampled
  passed := h.passed
  back := h.back
  events := hevents.trans h.events
  counted := fun i hi => by rw [hcounters]; exact h.counted i hi

/-- A hook that begins is not to count yet. -/
theorem toCount_start {cmd : ℕ} {kind : Kind} {env : HookEnv} (hidle : (m.hooks t).work.isIdle) (i : Counter) :
    (m.start args t cmd kind env).toCount i = m.toCount i := by
  have hnone : (m.hooks t).work.counting = none := by
    cases hw : (m.hooks t).work with
    | idle => rfl
    | _ =>
      rw [hw] at hidle
      cases hidle
  have hbegins : kind.work.counting = none := by cases kind <;> rfl
  refine Finset.filter_congr fun t' _ => ?_
  rw [hooks_start]
  split_ifs with ht
  · rw [ht, hnone, hbegins]
  · exact Iff.rfl

/-- A hook begins. -/
theorem EndedInv.start {cmd : ℕ} {kind : Kind} {env : HookEnv} (h : EndedInv args m) (hs : SlotsInv args m)
    (hallow : m.Allows args (.start t cmd kind env)) : EndedInv args (m.start args t cmd kind env) := by
  obtain ⟨⟨hidle, -⟩, hkind⟩ := hallow
  have hfinished : (m.start args t cmd kind env).finished = m.finished := by cases kind <;> rfl
  have hsampled : (m.start args t cmd kind env).sampled = m.sampled := by cases kind <;> rfl
  constructor
  · intro c hc
    rw [hsampled] at hc
    rw [book_start]
    refine (h.sampled c hc).imp id ?_
    rintro ⟨t', hcmd, hmakes⟩
    refine ⟨t', ?_⟩
    rw [hooks_start, if_neg]
    · exact ⟨hcmd, hmakes⟩
    · rintro rfl
      rw [isIdle_iff, role_of_makes hmakes] at hidle
      cases hidle
  · intro c e hpassed
    rw [book_start]
    refine h.passed c e (hpassed.imp ?_ ?_)
    · rw [hfinished]
      exact id
    · rintro ⟨t', hcmd, hlate⟩
      rw [hooks_start] at hcmd hlate
      split_ifs at hcmd hlate with ht
      · cases kind <;> simp [Kind.work, Work.late, RspPc.early] at hlate
      · exact ⟨t', hcmd, hlate⟩
  · intro c x hmem
    rw [book_start] at hmem
    have hold := h.back c x hmem
    cases kind with
    | init =>
      have hmade := hs.inv.made c (List.mem_map_of_mem hmem)
      simp only [Machine.start, Function.update_apply]
      split_ifs with hreq
      · intro hsame
        rw [Option.some.inj hsame] at hkind
        exact hkind.1 (hs.madeInits c hmade)
      · exact hold
    | touch b p => exact hold
    | rsp e p => exact hold
  · rw [st_start, book_start]
    exact h.events
  · intro i hi
    rw [st_start, book_start, toCount_start hidle]
    exact h.counted i hi

end Ended

/-! ## Whose record it is -/

section Whose

variable {cpus : Cpus} (f : Filter) (args : ℕ → ReqInitArgs) {m : Machine cpus} {t : Context cpus}

/-- The records are those of their commands. -/
structure RecordInv (m : Machine cpus) : Prop where
  carried : ∀ t c, (m.hooks t).work.carries = some c → (args (m.hooks t).cmd).cmd = some c
  filled : ∀ t, (m.hooks t).work = .init .publish → (args (m.hooks t).cmd).cmd.map (args (m.hooks t).cmd).id =
    some (m.st.treqs (slotOf args (m.hooks t).cmd)).record.id
  record : ∀ k c, m.book.live k = some c → (args c).cmd.map (args c).id = some (m.st.treqs k).record.id
  emitted : ∀ c x r, (c, x) ∈ m.book.closed → x.fate = some (.emitted r) → (args c).cmd.map (args c).id = some r.id

variable {args}

theorem keyed_of_inSlot {w : Work} (hw : w.inSlot) : w.keyed := by
  cases w with
  | rsp e p =>
    cases p <;> first
      | rfl
      | exact hw
  | init p => rfl
  | _ => exact hw

/-- No hook changes another slot than that of its command. -/
theorem SlotsInv.treqs_other (h : SlotsInv args m) {k : Slot} (hk : k ≠ slotOf args (m.hooks t).cmd) :
    (m.access f args t).st.treqs k = m.st.treqs k := by
  cases hw : (m.hooks t).work.inSlot with
  | false => exact congrFun (treqs_step f m.st _ _ _ _ hw) k
  | true =>
    have hkey := h.key_of_keyed (keyed_of_inSlot hw)
    rw [st_access]
    exact treqs_step_ne f m.st _ _ _ (m.key t) (fun _ => hkey) (by rw [hkey]; exact hk)

/-- No hook changes the record of another command, unless that one is over, or its `nvmet_req` came back. -/
theorem SlotsInv.untouched (h : SlotsInv args m) (a : Action cpus) : m.Untouched f args a := by
  cases a with
  | step t =>
    intro k d hlive hd
    by_cases hk : k = slotOf args (m.hooks t).cmd
    · cases hw : (m.hooks t).work.inSlot with
      | false => exact .inl (congrFun (treqs_step f m.st _ _ _ _ hw) k)
      | true =>
        have hin := (h.linked t).stands.isIn hw
        rw [← hk] at hin
        rcases h.inv.whose hin hlive with hclosed | hphase
        · exact .inr (.inl hclosed)
        · exact .inr (.inr (((h.linked t).stands.whose hphase).resolve_left hd))
    · exact .inl (h.treqs_other f hk)
  | _ => trivial

theorem RecordInv.carried_access (h : RecordInv args m) (t' : Context cpus) {c : NvmeCmd}
    (hcarries : ((m.access f args t).hooks t').work.carries = some c) :
    (args ((m.access f args t).hooks t').cmd).cmd = some c := by
  by_cases ht : t' = t
  · subst ht
    rw [hooks_self] at hcarries ⊢
    rcases (out_moves f args m t').carries hcarries with hold | hcmd
    · exact h.carried t' c hold
    · exact hcmd
  · rw [hooks_ne f ht] at hcarries ⊢
    exact h.carried t' c hcarries

/-- An access of a hook that is not in the slot leaves it alone. -/
theorem SlotsInv.treqs_outside (h : SlotsInv args m) {k : Slot}
    (hout : ¬ (m.book.phase t).In (slotOf args) k) : (m.access f args t).st.treqs k = m.st.treqs k := by
  by_cases hk : k = slotOf args (m.hooks t).cmd
  · cases hw : (m.hooks t).work.inSlot with
    | false => exact congrFun (treqs_step f m.st _ _ _ _ hw) k
    | true => exact absurd (hk ▸ (h.linked t).stands.isIn hw) hout
  · exact h.treqs_other f hk

theorem RecordInv.filled_access (h : RecordInv args m) (hs : SlotsInv args m) (t' : Context cpus)
    (hw : ((m.access f args t).hooks t').work = .init .publish) :
    (args ((m.access f args t).hooks t').cmd).cmd.map (args ((m.access f args t).hooks t').cmd).id =
      some ((m.access f args t).st.treqs (slotOf args ((m.access f args t).hooks t').cmd)).record.id := by
  by_cases ht : t' = t
  · subst ht
    rw [hooks_self] at hw ⊢
    obtain ⟨q, c, hfill⟩ := (out_moves f args m t').filled hw
    have hcmd := h.carried t' c (by rw [hfill]; rfl)
    rw [st_access, Machine.out, hfill]
    simp only [Work.step, initStep, TgtState.setRec, TgtState.setEntry, hcmd, Option.map_some, slotOf,
      Function.update_self, newTgtRec]
  · rw [hooks_ne f ht] at hw ⊢
    have hphase : m.book.phase t' = .fills (slotOf args (m.hooks t').cmd) := by
      have hlink := hs.linked t'
      rw [hw] at hlink
      exact hlink
    rw [hs.treqs_outside f]
    · exact h.filled t' hw
    · intro hin
      exact ht (hs.inv.alone t' t _ (by rw [hphase]; rfl) hin).symm

theorem fills_of_fillsRecord (hs : SlotsInv args m) (hw : (m.hooks t).work.fillsRecord) :
    m.book.phase t = .fills (slotOf args (m.hooks t).cmd) := by
  refine hs.fills_of_cleared ?_
  cases hwork : (m.hooks t).work with
  | init p =>
    rw [hwork] at hw
    cases p <;> first
      | rfl
      | cases hw
  | _ =>
    rw [hwork] at hw
    cases hw

theorem RecordInv.record_access (h : RecordInv args m) (hs : SlotsInv args m) (ho : m.OwnSlot f args t) {k : Slot}
    {c : ℕ}
    (hlive : (m.access f args t).book.live k = some c) :
    (args c).cmd.map (args c).id = some ((m.access f args t).st.treqs k).record.id := by
  cases hw : (m.hooks t).work.fillsRecord with
  | false =>
    have hid : ((m.access f args t).st.treqs k).record.id = (m.st.treqs k).record.id := id_step f m.st _ _ _ _ hw k
    rw [hid]
    rcases live_before f ho hlive with hold | ⟨hnote, rfl, rfl⟩
    · exact h.record k c hold
    · exact h.filled t (out_from f hnote)
  | true =>
    have hphase := fills_of_fillsRecord hs hw
    rcases live_before f ho hlive with hold | ⟨hnote, -, -⟩
    · rw [treqs_access_ne f ho]
      · exact h.record k c hold
      · rintro rfl
        rw [hs.inv.fills t _ hphase] at hold
        cases hold
    · have hpublish : (m.hooks t).work = .init .publish := out_from f hnote
      rw [hpublish] at hw
      cases hw

/-- A hook hands over the record that is in its slot. -/
theorem SlotsInv.emits (h : SlotsInv args m) {own : Bool} {x : Fate} (hnote : (m.out f args t).note = .output own x) :
    ∃ d, m.book.live (slotOf args (m.hooks t).cmd) = some d := by
  have hlink := h.linked t
  rcases out_from f hnote with ⟨-, e, hw⟩ | ⟨-, q, hw⟩
  · rw [hw] at hlink
    exact ⟨_, (h.inv.emits t _ _ hlink).1⟩
  · rw [hw] at hlink
    obtain ⟨d, hd, hphase⟩ := hlink
    have hslot : slotOf args d = slotOf args (m.hooks t).cmd := slotOf_congr hd
    exact ⟨d, hslot ▸ (h.inv.emits t _ _ hphase).1⟩

theorem RecordInv.emitted_access (h : RecordInv args m) (hs : SlotsInv args m) (ho : m.OwnSlot f args t) {c : ℕ}
    {x : SharedSlots.Cause Fate} {r : TgtRec} (hmem : (c, x) ∈ (m.access f args t).book.closed)
    (hx : x.fate = some (.emitted r)) :
    (args c).cmd.map (args c).id = some r.id := by
  rw [closed_access f ho] at hmem
  rcases List.mem_append.mp hmem with hold | hnew
  · exact h.emitted c x r hold hx
  · cases hnote : (m.out f args t).note with
    | output own y =>
      obtain ⟨d, hlive⟩ := hs.emits f hnote
      rw [hnote, hlive] at hnew
      obtain ⟨rfl, rfl⟩ := Prod.mk.inj (List.mem_singleton.mp hnew)
      have hy : y = .emitted r := by cases own <;> exact Option.some.inj hx
      have hkeyed : (m.hooks t).work.keyed := by
        rcases out_from f hnote with ⟨-, e, hw⟩ | ⟨-, q, hw⟩ <;> rw [hw] <;> rfl
      have hown := hs.key_of_keyed hkeyed
      rw [hy] at hnote
      rw [output_record f _ (fun _ => hown) hnote, hown]
      exact h.record _ _ hlive
    | take =>
      rw [hnote] at hnew
      obtain ⟨d, -, heq⟩ := List.mem_map.mp hnew
      rw [← (Prod.mk.inj heq).2] at hx
      cases hx
    | _ =>
      rw [hnote] at hnew
      exact absurd hnew List.not_mem_nil

theorem RecordInv.access (h : RecordInv args m) (hs : SlotsInv args m) (ho : m.OwnSlot f args t) :
    RecordInv args (m.access f args t) where
  carried := fun t' _ => h.carried_access f t'
  filled := h.filled_access f hs
  record := fun _ _ => h.record_access f hs ho
  emitted := fun _ _ _ => h.emitted_access f hs ho

theorem RecordInv.congr (h : RecordInv args m) {s : TgtState} (htreqs : s.treqs = m.st.treqs) :
    RecordInv args { m with st := s } where
  carried := h.carried
  filled := by rw [htreqs]; exact h.filled
  record := by rw [htreqs]; exact h.record
  emitted := h.emitted

theorem RecordInv.start {cmd : ℕ} {kind : Kind} {env : HookEnv} (h : RecordInv args m) :
    RecordInv args (m.start args t cmd kind env) := by
  constructor
  · intro t' c
    rw [hooks_start]
    split_ifs
    · intro hcarries
      cases kind <;> cases hcarries
    · exact h.carried t' c
  · intro t'
    rw [hooks_start, st_start]
    split_ifs
    · intro hw
      cases kind <;> cases hw
    · exact h.filled t'
  · rw [book_start, st_start]
    exact h.record
  · rw [book_start]
    exact h.emitted

end Whose

/-! ## Whole runs -/

section Runs

variable {cpus : Cpus} (f : Filter) (args : ℕ → ReqInitArgs) {m : Machine cpus} {t : Context cpus}

/-- What holds after every orderly run. -/
structure RunInv (m : Machine cpus) : Prop where
  calls : CallsInv args m
  slots : SlotsInv args m
  inflight : InflightInv m
  ended : EndedInv args m
  records : RecordInv args m

theorem inv_init : SharedSlots.Inv (slotOf args) ({} : Machine cpus).book := by
  constructor <;> simp [SharedSlots.Phase.Takes, SharedSlots.Phase.Winner, SharedSlots.Phase.About,
    SharedSlots.State.Closed]

/-- At the start there is nothing. -/
theorem RunInv.init : RunInv args ({} : Machine cpus) where
  calls := by constructor <;> simp [Work.role]
  slots := by
    refine ⟨inv_init args, ?_, ?_, ?_, ?_, ?_, ?_, ?_, ?_, ?_, ?_, ?_, ?_⟩
    · intro k
      rfl
    · simp
    · intro t
      rfl
    · simp [Work.cleared]
    · simp
    · simp [Work.clean]
    · simp [Work.makes]
    · simp [Work.unmade]
    · simp
    · simp [Work.keyed]
    · simp [Work.early]
    · simp
  inflight := by
    have hbusy : SlotTable.occupied ({} : Machine cpus).busy = 0 := by
      refine SlotTable.occupied_all_free fun k => busy_eq_zero.mpr ?_
      rintro (hlive | ⟨t, hclaims⟩)
      · exact hlive rfl
      · exact hclaims
    have hleaving : SlotTable.occupied ({} : Machine cpus).leaving = 0 :=
      SlotTable.occupied_all_free fun t => rfl
    rw [InflightInv, hbusy, hleaving]
    rfl
  ended := by
    refine ⟨by simp, by simp [Machine.Passed, Work.late], by simp, by simp, fun i _ => ?_⟩
    have hnone : ({} : Machine cpus).toCount i = ∅ := by simp [Machine.toCount, Work.counting]
    rw [hnone]
    rfl
  records := by
    constructor <;> simp [Work.carries]

variable {args}

theorem InflightInv.start {cmd : ℕ} {kind : Kind} {env : HookEnv} (h : InflightInv m)
    (hallow : m.Allows args (.start t cmd kind env)) : InflightInv (m.start args t cmd kind env) := by
  have hbusy : (m.start args t cmd kind env).busy = m.busy := by
    funext k
    exact busy_of_iff (by rw [book_start])
  have hleaving : (m.start args t cmd kind env).leaving = m.leaving := by
    funext t'
    rw [Machine.leaving, hooks_start]
    split_ifs with ht hleaves
    · cases kind <;> cases hleaves
    · have hidle := hallow.1.1
      cases hw : (m.hooks t).work with
      | idle => rw [ht, Machine.leaving, hw]; rfl
      | _ =>
        rw [hw] at hidle
        cases hidle
    · rw [Machine.leaving, if_pos (by assumption)]
    · rw [Machine.leaving, if_neg (by assumption)]
  rw [InflightInv, st_start, hbusy, hleaving]
  exact h

/-- User space and the receive completions touch none of this. -/
theorem RunInv.congr (h : RunInv args m) {s : TgtState} (htreqs : s.treqs = m.st.treqs)
    (hinflight : s.inflight = m.st.inflight) (hevents : s.events = m.st.events)
    (hcounters : s.counters = m.st.counters) : RunInv args { m with st := s } where
  calls := ⟨h.calls.arrived, h.calls.alone, h.calls.begunInits, h.calls.after, h.calls.ends, h.calls.single,
    h.calls.overs, h.calls.startedBegun⟩
  slots := h.slots.congr htreqs
  inflight := hinflight.trans h.inflight
  ended := h.ended.congr hevents hcounters
  records := h.records.congr htreqs

/-- One thing happens. -/
theorem RunInv.next (h : RunInv args m) {a : Action cpus} (hallow : m.Allows args a) (hord : m.Orderly args a) :
    RunInv args (m.next f args a) := by
  cases a with
  | arm on => exact h.congr rfl rfl rfl rfl
  | recvDone env qpContext => exact h.congr rfl rfl rfl rfl
  | recvDoneExit env => exact h.congr rfl rfl rfl rfl
  | start t cmd kind env =>
    exact ⟨h.calls.start hallow, h.slots.start hallow, h.inflight.start hallow, h.ended.start h.slots hallow,
      h.records.start⟩
  | step t =>
    have hempty := h.inflight.empty
    have hslots := h.slots.access f h.calls hord hempty
    exact ⟨h.calls.access f, hslots, h.inflight.access f h.slots hslots hord,
      h.ended.access f h.slots h.calls hord hempty, h.records.access f h.slots (h.slots.ownSlot f hord)⟩

/-- A run. -/
theorem RunInv.run {as : List (Action cpus)} (h : RunInv args m) (hallowed : m.Throughout f args (Machine.Allows args) as)
    (horderly : m.Throughout f args (Machine.Orderly args) as) : RunInv args (m.run f args as) := by
  induction as generalizing m with
  | nil => exact h
  | cons a as ih => exact ih (h.next f hallowed.1 horderly.1) hallowed.2 horderly.2

/-- A record whose ends were all passed has ended. -/
theorem RunInv.done (h : RunInv args m) {c : ℕ} (hmade : c ∈ m.book.made) (hends : ∀ e, (c, e) ∈ m.finished) :
    m.book.Closed c := by
  by_contra hopen
  have hseen : m.book.seen c = Finset.univ := by
    rw [Finset.eq_univ_iff_forall]
    intro e
    exact (h.ended.passed c e (.inl (hends e)) hmade).resolve_left hopen
  -- the hook that has seen the last end is not over
  obtain ⟨t, hphase⟩ := h.slots.inv.full c hmade hopen hseen
  obtain ⟨rfl, e, hrole⟩ := (h.slots.linked t).stands.ending hphase
  exact (h.calls.ends t e hrole).2 (hends e)

theorem RunInv.emitsOnce (h : RunInv args m) : m.EmitsOnce args where
  sampled := by
    intro c hc hbegun
    refine (h.ended.sampled c hc).resolve_right ?_
    rintro ⟨t, rfl, hmakes⟩
    exact (h.calls.arrived t (role_of_makes hmakes)).2.2 hbegun
  once := h.slots.inv.once
  kept := h.slots.inv.kept
  done := by
    rintro c hmade (hends | hback)
    · exact h.done hmade hends
    · exact (h.slots.inv.kept c hmade).resolve_right fun hlive => hback (h.slots.current _ c hlive)
  ends := by
    intro c x hmem e
    rw [h.slots.inv.ended c x hmem]
    exact Finset.mem_univ e
  back := h.ended.back
  record := h.records.emitted
  events := h.ended.events
  drops := h.ended.counted .rbDrops (by simp [lossCounters])
  stale := h.ended.counted .stale (by simp [lossCounters])

/-- In every run in which a hook finds a record only while its own command is the last one on the `nvmet_req`, and no
hook takes a slot in which another one is, every sampled command yields one record, which no other command changes. -/
theorem emits_once_of_orderly {as : List (Action cpus)}
    (hallowed : Machine.Throughout f args (Machine.Allows args) {} as)
    (horderly : Machine.Throughout f args (Machine.Orderly args) {} as) :
    (Machine.run f args {} as).EmitsOnce args ∧ ∀ a, (Machine.run f args {} as).Untouched f args a := by
  have hrun := (RunInv.init args).run f hallowed horderly
  exact ⟨hrun.emitsOnce, hrun.slots.untouched f⟩

end Runs

/-! ## Two commands of one `nvmet_req` -/

/-- Two CPUs, on each of which one task can be in a hook. -/
def twoCpus : Cpus := ⟨2, 1⟩

/-- A task on one of two CPUs. -/
def taskOn (i : Fin 2) : Context twoCpus := (⟨i.val, i.isLt⟩, .task ⟨0, by decide⟩)

/-- What interrupts that task. -/
def softirqOn (i : Fin 2) : Context twoCpus := (⟨i.val, i.isLt⟩, .softirq)

/-- A hook of `cmd` begins at `now`. -/
def hookStart (t : Context twoCpus) (cmd : ℕ) (kind : Kind) (now : U64) : Action twoCpus :=
  .start t cmd kind { cpu := t.1.val, tid := 7, now := now }

/-- A hook of `cmd`, and `n` accesses of it. -/
def hookRun (t : Context twoCpus) (cmd : ℕ) (kind : Kind) (now : U64) (n : ℕ) : List (Action twoCpus) :=
  hookStart t cmd kind now :: List.replicate n (.step t)

/-- The commands are reads that all come with one `nvmet_req`. -/
def readsOn (c : ℕ) : ReqInitArgs := initRead someReq (BitVec.ofNat 16 c)

/-- The send completion of the first command interrupts the hook of its posting, on the same CPU. Then the second command
comes, and its send completion is handled on the other CPU before its response is posted. -/
def bothEnds : List (Action twoCpus) :=
  [.arm true, .recvDone (hookAt 1) 0x100] ++ hookRun (taskOn 0) 0 .init 2 13 ++
    hookRun (taskOn 0) 0 (.touch .queueResp .kprobe) 3 8 ++ hookRun (taskOn 0) 0 (.rsp .posted .kprobe) 4 2 ++
    hookRun (softirqOn 0) 0 (.rsp .sendDone .kprobe) 5 8 ++ List.replicate 16 (.step (taskOn 0)) ++
    hookRun (taskOn 0) 1 .init 6 13 ++ hookRun (taskOn 1) 1 (.rsp .sendDone .kprobe) 7 8

theorem emits_once_of_orderly_bothEnds :
    Machine.Throughout {} readsOn (Machine.Allows readsOn) {} bothEnds ∧
      Machine.Throughout {} readsOn (Machine.Orderly readsOn) {} bothEnds ∧
      (Machine.run {} readsOn {} bothEnds).st.events.length = 1 ∧
      (Machine.run {} readsOn {} bothEnds).EmitsOnce readsOn ∧
      ∀ a, (Machine.run {} readsOn {} bothEnds).Untouched {} readsOn a := by
  have hallowed : Machine.Throughout {} readsOn (Machine.Allows readsOn) {} bothEnds := by decide +kernel
  have horderly : Machine.Throughout {} readsOn (Machine.Orderly readsOn) {} bothEnds := by decide +kernel
  exact ⟨hallowed, horderly, by decide +kernel, emits_once_of_orderly {} hallowed horderly⟩

/-- A record that one of its command's own hooks has handed over, with an end not seen. -/
theorem not_emitsOnce {cpus : Cpus} {args : ℕ → ReqInitArgs} {m : Machine cpus} {c : ℕ} {e : RspEnd}
    (hown : ∃ p ∈ m.book.closed, p.1 = c ∧ p.2.isOwn) (hunseen : e ∉ m.book.seen c) : ¬ m.EmitsOnce args := by
  intro h
  obtain ⟨x, hmem⟩ := SharedSlots.own_of_isOwn hown
  exact hunseen (h.ends c x hmem e)

/-- The send completion of the first command is handled, its `nvmet_req` comes back with the second command, and only
then `nvmet_rdma_queue_response` returns for the first one; then the send completion of the second one is handled. -/
def lateReturn : List (Action twoCpus) :=
  [.arm true, .recvDone (hookAt 1) 0x100] ++ hookRun (taskOn 0) 0 .init 2 13 ++
    hookRun (taskOn 1) 0 (.rsp .sendDone .fentry) 3 8 ++ hookRun (taskOn 0) 1 .init 4 23 ++
    hookRun (taskOn 1) 0 (.rsp .posted .fentry) 5 10 ++ hookRun (taskOn 0) 1 (.rsp .sendDone .fentry) 6 15

/-- The late return stamps the record of the second command, and that one is emitted with one of its ends not seen. -/
theorem not_emits_once_of_late_return :
    (¬ ∀ as : List (Action twoCpus), Machine.Throughout {} readsOn (Machine.Allows readsOn) {} as →
      Machine.Throughout {} readsOn (Machine.HandsOn readsOn) {} as →
      (Machine.run {} readsOn {} as).EmitsOnce readsOn) ∧
    ¬ ∀ as : List (Action twoCpus), Machine.Throughout {} readsOn (Machine.Allows readsOn) {} as →
      Machine.Throughout {} readsOn (Machine.HandsOn readsOn) {} as →
      ∀ a, (Machine.run {} readsOn {} as).Untouched {} readsOn a := by
  constructor
  · intro h
    have honce := h lateReturn (by decide +kernel) (by decide +kernel)
    have hown : ∃ p ∈ (Machine.run {} readsOn {} lateReturn).book.closed, p.1 = 1 ∧ p.2.isOwn := by decide +kernel
    have hunseen : RspEnd.posted ∉ (Machine.run {} readsOn {} lateReturn).book.seen 1 := by decide +kernel
    exact not_emitsOnce hown hunseen honce
  · intro h
    have hsame := h (lateReturn.take 55) (by decide +kernel) (by decide +kernel) (.step (taskOn 1)) (ntpSlot someReq) 1
      (by decide +kernel) (by decide +kernel)
    rcases hsame with hsame | hclosed | ⟨hinit, -⟩
    · exact absurd (congrArg (fun e => e.record.ts .c2hSent) hsame) (by decide +kernel)
    · exact absurd (show 1 ∈ _ from hclosed) (by decide +kernel)
    · exact absurd hinit (by decide +kernel)

/-- Two reads, each with its own `nvmet_req`. -/
def readsApart (c : ℕ) : ReqInitArgs := initRead (if c = 0 then someReq else ⟨0x80#64, by decide⟩) (BitVec.ofNat 16 c)

/-- The response of the second command is queued in an interrupt of the return hook of the first one, which is in
`ntp_scalar` and reads the key of the second one back. -/
def nestedReturn : List (Action twoCpus) :=
  [.arm true, .recvDone (hookAt 1) 0x100] ++ hookRun (taskOn 0) 0 .init 2 13 ++ hookRun (taskOn 0) 1 .init 3 14 ++
    hookRun (taskOn 0) 0 (.rsp .posted .fentry) 4 1 ++ hookRun (softirqOn 0) 1 (.touch .queueResp .fentry) 5 6 ++
    List.replicate 9 (.step (taskOn 0))

-- without the condition on the key, the return of the first command is noted in the record of the second one
example : Machine.Throughout {} readsApart (Machine.Allows readsApart) {} nestedReturn ∧
    ((Machine.run {} readsApart {} nestedReturn).st.treqs (ntpSlot (readsApart 0).req)).parts = 0 ∧
    ((Machine.run {} readsApart {} nestedReturn).st.treqs (ntpSlot (readsApart 1).req)).parts = rspPosted := by
  decide +kernel

end Ntprof.Bpf
