import Ntprof.PlainJoin
import Mathlib.Data.List.Forall2
import Mathlib.Data.List.Find

/-!
# The hashed joiner refines the plain one

`TableRep` relates a table to the list of the records that wait in it: the bucket of a key holds the
records of that key in the order of the list. There is one lemma for each table operation, and the
joiner's calls are simulated call by call.
-/

namespace Ntprof

open KeyedList

/-! ## Keys -/

theorem keyOf_cid (id : CmdId) : (keyOf id).extractLsb' 0 16 = id.cid := by
  ext i hi
  simp [keyOf, hi]
  grind

theorem keyOf_qid (id : CmdId) : (keyOf id).extractLsb' 16 16 = id.qid := by
  ext i hi
  simp [keyOf, hi]
  grind

theorem keyOf_cntlid (id : CmdId) : (keyOf id).extractLsb' 32 16 = id.cntlid := by
  ext i hi
  simp [keyOf, hi]
  grind

/-- The packed key loses nothing. -/
theorem keyOf_eq_iff {a b : CmdId} : keyOf a = keyOf b ↔ a.key = b.key := by
  constructor
  · intro h
    unfold CmdId.key
    rw [← keyOf_cntlid a, ← keyOf_qid a, ← keyOf_cid a, h, keyOf_cntlid, keyOf_qid, keyOf_cid]
  · intro h
    simp only [CmdId.key, Prod.mk.injEq] at h
    unfold keyOf
    rw [h.1, h.2.1, h.2.2]

/-- Under one key, `same_command` compares all there is to compare. -/
theorem sameCommand_iff {a b : CmdId} (h : keyOf a = keyOf b) : sameCommand a b = true ↔ a = b := by
  have hk := keyOf_eq_iff.1 h
  obtain ⟨_, _, _, _, _, _, _⟩ := a
  obtain ⟨_, _, _, _, _, _, _⟩ := b
  simp only [CmdId.key, Prod.mk.injEq] at hk
  simp only [sameCommand, Bool.and_eq_true, beq_iff_eq, CmdId.mk.injEq]
  tauto

section Table

variable {α : Type} [Waiting α]

/-- The key a record is looked up by. -/
def packedKey (r : α) : U64 := keyOf (idOf r)

theorem packedKey_eq_iff {r r' : α} : packedKey r = packedKey r' ↔ waitKey r = waitKey r' :=
  keyOf_eq_iff

theorem under_waitKey (r : α) (l : List α) :
    under waitKey (waitKey r) l = under packedKey (packedKey r) l :=
  List.filter_congr fun x _ => by simp [packedKey_eq_iff]

/-- Lists that agree under every packed key agree under every key. -/
theorem under_waitKey_congr {l l' : List α} (h : ∀ k, under packedKey k l = under packedKey k l')
    (k : U16 × U16 × U16) : under waitKey k l = under waitKey k l' := by
  have hk : ∀ m : List α, under waitKey k m =
      under packedKey (keyOf { cntlid := k.1, qid := k.2.1, cid := k.2.2 }) m := fun m =>
    List.filter_congr fun x _ => by
      rw [decide_eq_decide, packedKey, keyOf_eq_iff]
      rfl
  rw [hk, hk, h]

/-! ## Tables -/

/-- A bucket holds a record, has room for what it holds, and never grows beyond the bound. -/
structure BucketOk (maxPerKey : Nat) (b : Bucket α) : Prop where
  nonempty : b.recs ≠ []
  fits : b.recs.length ≤ b.cap
  bound : maxPerKey ≠ 0 → b.cap ≤ maxPerKey

/-- `t` holds the records of `l`: those of one key in one bucket, in the order of `l`. -/
structure TableRep (maxPerKey : Nat) (t : Table α) (l : List α) : Prop where
  chains : Chains.Ok Bucket.key t.slotOf t.v
  buckets : ∀ s, ∀ b ∈ t.v s, BucketOk maxPerKey b
  lookup : ∀ k, (t.lookup k).elim [] Bucket.recs = under packedKey k l
  pending : t.pending = l.length

theorem tableRep_init (maxPerKey : Nat) : TableRep maxPerKey (tableInit : Table α) [] where
  chains := Chains.ok_empty Bucket.key _
  buckets := fun _ _ h => absurd h List.not_mem_nil
  lookup := fun _ => rfl
  pending := rfl

section Rep

variable {maxPerKey : Nat} {t : Table α} {l : List α}

theorem TableRep.of_some (h : TableRep maxPerKey t l) {k : U64} {b : Bucket α}
    (hb : t.lookup k = some b) : b.key = k ∧ b.recs = under packedKey k l ∧ BucketOk maxPerKey b := by
  refine ⟨Chains.get_key _ _ hb, ?_, h.buckets _ b (Chains.get_mem _ _ hb)⟩
  rw [← h.lookup k, hb]
  rfl

theorem TableRep.of_none (h : TableRep maxPerKey t l) {k : U64} (hb : t.lookup k = none) :
    under packedKey k l = [] := by
  rw [← h.lookup k, hb]
  rfl

/-- Writing the bucket of one key. -/
theorem TableRep.store (h : TableRep maxPerKey t l) {b : Bucket α} (hb : BucketOk maxPerKey b)
    {m : List α} (hrecs : under packedKey b.key m = b.recs)
    (hrest : ∀ k, k ≠ b.key → under packedKey k m = under packedKey k l) :
    TableRep maxPerKey ((t.store b).setPending m.length) m where
  chains := Chains.Ok.put _ _ h.chains b
  buckets := by
    intro s x hx
    rcases Chains.mem_put _ _ hx with rfl | hx
    · exact hb
    · exact h.buckets s x hx
  lookup := by
    intro k
    have hget : ((t.store b).setPending m.length).lookup k =
        if b.key = k then some b else t.lookup k := Chains.get_put _ _ b k
    rw [hget]
    by_cases hk : b.key = k
    · subst hk
      rw [if_pos rfl, hrecs]
      rfl
    · rw [if_neg hk, hrest k fun e => hk e.symm, h.lookup k]
  pending := rfl

/-- Unlinking the bucket of a key under which nothing is left. -/
theorem TableRep.unlink (h : TableRep maxPerKey t l) {k : U64} {m : List α}
    (hrecs : under packedKey k m = [])
    (hrest : ∀ k', k' ≠ k → under packedKey k' m = under packedKey k' l) :
    TableRep maxPerKey ((t.unlink k).setPending m.length) m where
  chains := Chains.Ok.del _ _ h.chains k
  buckets := fun s x hx => h.buckets s x (Chains.mem_del _ _ hx)
  lookup := by
    intro k'
    have hget : ((t.unlink k).setPending m.length).lookup k' =
        if k = k' then none else t.lookup k' := Chains.get_del _ _ h.chains k k'
    rw [hget]
    by_cases hk : k = k'
    · subst hk
      rw [if_pos rfl, hrecs]
      rfl
    · rw [if_neg hk, hrest k' fun e => hk e.symm, h.lookup k']
  pending := rfl

/-! ### `table_push` -/

theorem under_append_of_ne {r : α} {k : U64} (hk : k ≠ packedKey r) (l : List α) :
    under packedKey k (l ++ [r]) = under packedKey k l := by
  rw [under_append, under_singleton, if_neg fun e => hk e.symm, List.append_nil]

theorem under_append_self (r : α) (l : List α) :
    under packedKey (packedKey r) (l ++ [r]) = under packedKey (packedKey r) l ++ [r] := by
  rw [under_append, under_singleton, if_pos rfl]

theorem grownCap_gt {cap : Nat} (hcap : 0 < cap) (hlt : maxPerKey ≠ 0 → cap < maxPerKey) :
    cap < grownCap cap maxPerKey := by
  unfold grownCap
  split_ifs with h
  · exact hlt h.1
  · omega

theorem grownCap_le (cap : Nat) (hm : maxPerKey ≠ 0) : grownCap cap maxPerKey ≤ maxPerKey := by
  unfold grownCap
  split_ifs with h
  · exact le_rfl
  · omega

theorem TableRep.push (h : TableRep maxPerKey t l) (r : α) :
    TableRep maxPerKey (tablePush t r maxPerKey).1 (plainPush l r maxPerKey).1 ∧
      (tablePush t r maxPerKey).2 = (plainPush l r maxPerKey).2 := by
  have hkey : keyOf (idOf r) = packedKey r := rfl
  unfold tablePush plainPush
  simp only [under_waitKey, hkey]
  cases hb : t.lookup (packedKey r) with
  | none =>
    have hnil := h.of_none hb
    have hno : ¬ (maxPerKey ≠ 0 ∧ (under packedKey (packedKey r) l).length = maxPerKey) := by
      rw [hnil]
      exact fun hm => hm.1 hm.2.symm
    simp only [if_neg hno, and_true]
    have hst := h.store (b := ⟨packedKey r, 1, [r]⟩) (m := l ++ [r])
      ⟨List.cons_ne_nil _ _, le_rfl, Nat.one_le_iff_ne_zero.2⟩
      (by rw [under_append_self, hnil]; rfl) (fun k hk => under_append_of_ne hk l)
    rw [List.length_append, ← h.pending] at hst
    exact hst
  | some b =>
    obtain ⟨hbk, hbr, hok⟩ := h.of_some hb
    have hpos : 0 < b.recs.length := List.length_pos_iff.2 hok.nonempty
    by_cases hm : maxPerKey ≠ 0 ∧ b.recs.length = maxPerKey
    · have hm' := hm
      rw [hbr] at hm'
      simp only [if_pos hm, if_pos hm', and_true]
      -- the bucket is full: the oldest record of the key makes room
      have hfun : (fun x : α => decide (waitKey x = waitKey r)) =
          fun x => decide (packedKey x = packedKey r) := by
        funext x
        simp [packedKey_eq_iff]
      have htail : under packedKey (packedKey r) (l.eraseP fun x => waitKey x = waitKey r) =
          b.recs.drop 1 := by
        rw [hfun, under_eraseP_key, hbr, List.drop_one]
      have hother : ∀ k, k ≠ packedKey r →
          under packedKey k (l.eraseP fun x => waitKey x = waitKey r) = under packedKey k l := by
        intro k hk
        rw [hfun]
        exact under_eraseP_of_ne _
          (fun a ha => by simp only [decide_eq_true_eq] at ha; rw [ha]; exact hk.symm) l
      have hlen : ((l.eraseP fun x => waitKey x = waitKey r) ++ [r]).length = t.pending - 1 + 1 := by
        obtain ⟨x, hx⟩ := List.exists_mem_of_length_pos hpos
        rw [hbr] at hx
        obtain ⟨hxl, hxk⟩ := (mem_under packedKey).1 hx
        rw [List.length_append, List.length_eraseP_of_mem hxl
          (by simpa using packedKey_eq_iff.1 hxk), h.pending]
        rfl
      have hst := h.store (b := { b with recs := b.recs.drop 1 ++ [r] })
        (m := (l.eraseP fun x => waitKey x = waitKey r) ++ [r])
        ⟨by simp, by have := hok.fits; simp; omega, hok.bound⟩
        (by rw [hbk, under_append_self, htail])
        (fun k hk => by rw [hbk] at hk; rw [under_append_of_ne hk, hother k hk])
      rw [hlen] at hst
      exact hst
    · have hm' := hm
      rw [hbr] at hm'
      simp only [if_neg hm, if_neg hm', and_true]
      have hroom : b.recs.length <
          if b.recs.length = b.cap then grownCap b.cap maxPerKey else b.cap := by
        have hfits := hok.fits
        split_ifs with hfull
        · rw [hfull]
          refine grownCap_gt (by omega) fun hne => ?_
          have := hok.bound hne
          have : b.recs.length ≠ maxPerKey := fun e => hm ⟨hne, e⟩
          omega
        · omega
      have hbound : maxPerKey ≠ 0 →
          (if b.recs.length = b.cap then grownCap b.cap maxPerKey else b.cap) ≤ maxPerKey := by
        intro hne
        split_ifs
        · exact grownCap_le _ hne
        · exact hok.bound hne
      have hst := h.store (m := l ++ [r])
        (b := { b with
          cap := if b.recs.length = b.cap then grownCap b.cap maxPerKey else b.cap
          recs := b.recs ++ [r] })
        ⟨by simp, by rw [List.length_append]; exact hroom, hbound⟩
        (by rw [hbk, under_append_self, hbr])
        (fun k hk => by rw [hbk] at hk; exact under_append_of_ne hk l)
      rw [List.length_append, ← h.pending] at hst
      exact hst

/-! ### `table_take` -/

theorem under_find_sameCommand (l : List α) (id : CmdId) :
    (under packedKey (keyOf id) l).find? (fun r => sameCommand (idOf r) id) = plainFind l id := by
  have hcongr : (under packedKey (keyOf id) l).find? (fun r => sameCommand (idOf r) id) =
      (under packedKey (keyOf id) l).find? (fun r => idOf r = id) := by
    refine List.find?_congr fun x hx => ?_
    have hk : keyOf (idOf x) = keyOf id := ((mem_under packedKey).1 hx).2
    rw [Bool.eq_iff_iff, sameCommand_iff hk, decide_eq_true_iff]
  rw [hcongr]
  exact find?_under _ (fun a ha => by simp only [decide_eq_true_eq] at ha; rw [packedKey, ha]) l

theorem under_eraseP_sameCommand (l : List α) (id : CmdId) :
    (under packedKey (keyOf id) l).eraseP (fun r => sameCommand (idOf r) id) =
      under packedKey (keyOf id) (l.eraseP fun r => idOf r = id) := by
  rw [under_eraseP_of_eq _ (fun a ha => by simp only [decide_eq_true_eq] at ha; rw [packedKey, ha])]
  refine eraseP_congr fun x hx => ?_
  have hk : keyOf (idOf x) = keyOf id := ((mem_under packedKey).1 hx).2
  rw [Bool.eq_iff_iff, sameCommand_iff hk, decide_eq_true_iff]

theorem TableRep.take (h : TableRep maxPerKey t l) (id : CmdId) :
    TableRep maxPerKey (tableTake t id).1 (plainTake l id).1 ∧
      (tableTake t id).2 = (plainTake l id).2 := by
  unfold tableTake plainTake
  cases hb : t.lookup (keyOf id) with
  | none =>
    have hnone : plainFind l id = none := by
      rw [← under_find_sameCommand, h.of_none hb]
      rfl
    simp only [hnone, and_true]
    rw [eraseP_of_find?_none hnone]
    exact h
  | some b =>
    obtain ⟨hbk, hbr, hok⟩ := h.of_some hb
    have hfind : b.recs.find? (fun r => sameCommand (idOf r) id) = plainFind l id := by
      rw [hbr, under_find_sameCommand]
    have herase : b.recs.eraseP (fun r => sameCommand (idOf r) id) =
        under packedKey (keyOf id) (l.eraseP fun r => idOf r = id) := by
      rw [hbr, under_eraseP_sameCommand]
    have hother : ∀ k, k ≠ keyOf id →
        under packedKey k (l.eraseP fun r => idOf r = id) = under packedKey k l :=
      fun k hk => under_eraseP_of_ne _
        (fun a ha => by simp only [decide_eq_true_eq] at ha; rw [packedKey, ha]; exact hk.symm) l
    simp only [hfind]
    generalize hrest : b.recs.eraseP (fun r => sameCommand (idOf r) id) = rest at herase ⊢
    subst herase
    cases hp : plainFind l id with
    | none =>
      rw [eraseP_of_find?_none hp]
      exact ⟨h, rfl⟩
    | some r =>
      have hlen : (l.eraseP fun r => idOf r = id).length = t.pending - 1 := by
        have := length_eraseP_of_find? hp
        rw [h.pending]
        omega
      simp only [and_true]
      split_ifs with hempty
      · have hst := h.unlink (k := keyOf id) (List.length_eq_zero_iff.1 hempty) hother
        rw [hlen] at hst
        rw [hbk]
        exact hst
      · have hle : (under packedKey (keyOf id) (l.eraseP fun r => idOf r = id)).length ≤
            b.recs.length := by
          rw [← hrest]
          exact List.eraseP_sublist.length_le
        have hst := h.store
          (b := { b with recs := under packedKey (keyOf id) (l.eraseP fun r => idOf r = id) })
          (m := l.eraseP fun r => idOf r = id)
          ⟨fun e => hempty (List.length_eq_zero_iff.2 e), hle.trans hok.fits, hok.bound⟩
          (by rw [hbk]) (fun k hk => hother k (by rwa [hbk] at hk))
        rw [hlen] at hst
        exact hst

/-! ### `table_expire` -/

/-- What the walk over the chains `ss` has done. -/
theorem foldl_expireChain (beforeNs : U64) {n : Nat} {ss : List (Fin n)} (hss : ss.Nodup)
    (v : Fin n → List (Bucket α)) (pending : Nat) (gone : List α) (dropped : Nat) :
    ss.foldl (expireChain beforeNs) (v, pending, gone, dropped) =
      (fun s => if s ∈ ss then (v s).filterMap (expireBucket beforeNs) else v s,
        pending - (ss.flatMap fun s => (v s).flatMap (expiredOf beforeNs)).length,
        gone ++ ss.flatMap fun s => (v s).flatMap (expiredOf beforeNs),
        dropped + (ss.flatMap fun s => (v s).flatMap (expiredOf beforeNs)).length) := by
  induction ss generalizing v pending gone dropped with
  | nil => simp
  | cons s ss ih =>
    rw [List.nodup_cons] at hss
    -- the chains that are still to be walked are as they were
    have hrest : ∀ c : List (Bucket α), (ss.flatMap fun s' =>
        (Function.update v s c s').flatMap (expiredOf beforeNs)) =
          ss.flatMap fun s' => (v s').flatMap (expiredOf beforeNs) := fun c =>
      List.flatMap_congr fun s' hs' => by
        have hne : s' ≠ s := fun e => hss.1 (e ▸ hs')
        rw [Function.update_of_ne hne]
    rw [List.foldl_cons, expireChain, ih hss.2]
    simp only [hrest, List.flatMap_cons, List.length_append, Nat.sub_sub, List.append_assoc,
      Nat.add_assoc, Prod.mk.injEq, and_true]
    funext s'
    by_cases hs : s' = s
    · subst hs
      simp [hss.1]
    · simp [hs]

theorem expireBucket_key {beforeNs : U64} {b b' : Bucket α} (h : expireBucket beforeNs b = some b') :
    b'.key = b.key := by
  simp only [expireBucket] at h
  split_ifs at h
  simp only [Option.some.injEq] at h
  rw [← h]

theorem expireBucket_ok {beforeNs : U64} {b b' : Bucket α} (hb : BucketOk maxPerKey b)
    (h : expireBucket beforeNs b = some b') : BucketOk maxPerKey b' := by
  simp only [expireBucket] at h
  split_ifs at h with hne
  simp only [Option.some.injEq] at h
  subst h
  exact ⟨fun e => hne (List.length_eq_zero_iff.2 e), (List.length_filter_le _ _).trans hb.fits, hb.bound⟩

theorem expireBucket_recs (beforeNs : U64) (b : Bucket α) :
    (expireBucket beforeNs b).elim [] Bucket.recs =
      b.recs.filter fun r => !decide (agingTs r < beforeNs) := by
  simp only [expireBucket]
  split_ifs with h
  · exact (List.length_eq_zero_iff.1 h).symm
  · rfl

/-- A bucket holds only records of its key. -/
theorem TableRep.bucket_key (h : TableRep maxPerKey t l) {s : Fin t.nbuckets} {b : Bucket α}
    (hb : b ∈ t.v s) {r : α} (hr : r ∈ b.recs) : packedKey r = b.key := by
  have hget : t.lookup b.key = some b := Chains.Ok.get_of_mem _ _ h.chains hb
  rw [(h.of_some hget).2.1] at hr
  exact ((mem_under packedKey).1 hr).2

/-- The records `table_expire` gives to the callback, chain after chain. -/
def allExpired (t : Table α) (beforeNs : U64) : List α :=
  (List.finRange t.nbuckets).flatMap fun s => (t.v s).flatMap (expiredOf beforeNs)

/-- The records `table_expire` gives to the callback are, under each key, those of the list that are
too old, in order. -/
theorem TableRep.under_expired (h : TableRep maxPerKey t l) (beforeNs : U64) (k : U64) :
    under packedKey k (allExpired t beforeNs) = under packedKey k (plainExpire l beforeNs).2 := by
  -- the records of a bucket are taken with its key, so that the buckets need not be in the table
  have hkeyed : ∀ s, (t.v s).flatMap (expiredOf beforeNs) =
      (t.v s).flatMap fun b => (expiredOf beforeNs b).filter fun r => packedKey r = b.key := by
    intro s
    refine List.flatMap_congr fun b hb => ?_
    refine (List.filter_eq_self.2 fun r hr => ?_).symm
    exact decide_eq_true (h.bucket_key hb (List.mem_filter.1 hr).1)
  unfold allExpired
  simp only [hkeyed]
  have hcol := Chains.Ok.filter_flatMap Bucket.key t.slotOf packedKey h.chains
    (g := fun b : Bucket α => (expiredOf beforeNs b).filter fun r => packedKey r = b.key)
    (fun b x hx => by simpa using (List.mem_filter.1 hx).2) k
  unfold under at hcol ⊢
  rw [hcol, plainExpire]
  change (Option.elim (t.lookup k) _ _) = _
  change _ = under packedKey k (l.filter _)
  rw [under_filter]
  cases hb : t.lookup k with
  | none =>
    rw [h.of_none hb]
    rfl
  | some b =>
    obtain ⟨hbk, hbr, -⟩ := h.of_some hb
    simp only [Option.elim_some, expiredOf]
    rw [← hbr]
    refine List.filter_eq_self.2 fun r hr => ?_
    rw [List.mem_filter, hbr, mem_under] at hr
    exact decide_eq_true (hr.1.2.trans hbk.symm)

theorem tableExpire_eq (t : Table α) (beforeNs : U64) :
    tableExpire t beforeNs =
      ({ t with v := fun s => (t.v s).filterMap (expireBucket beforeNs)
                pending := t.pending - (allExpired t beforeNs).length },
        allExpired t beforeNs, (allExpired t beforeNs).length) := by
  unfold tableExpire
  rw [foldl_expireChain beforeNs (List.nodup_finRange _)]
  simp only [List.mem_finRange, if_true, List.nil_append, Nat.zero_add]
  rfl

theorem TableRep.expire (h : TableRep maxPerKey t l) (beforeNs : U64) :
    TableRep maxPerKey (tableExpire t beforeNs).1 (plainExpire l beforeNs).1 ∧
      (∀ k, under packedKey k (tableExpire t beforeNs).2.1 =
        under packedKey k (plainExpire l beforeNs).2) ∧
      (tableExpire t beforeNs).2.2 = (plainExpire l beforeNs).2.length := by
  have hlen := (perm_of_under packedKey (h.under_expired beforeNs)).length_eq
  simp only [tableExpire_eq, hlen, and_true]
  refine ⟨⟨Chains.Ok.filterChains _ _ h.chains fun _ _ => expireBucket_key, ?_, ?_, ?_⟩,
    h.under_expired beforeNs⟩
  · intro s b hb
    obtain ⟨b₀, hb₀, hbb⟩ := List.mem_filterMap.1 hb
    exact expireBucket_ok (h.buckets s b₀ hb₀) hbb
  · intro k
    have hget := Chains.get_filterChains Bucket.key t.slotOf h.chains
      (f := expireBucket beforeNs) (fun _ _ => expireBucket_key) k
    change Option.elim (Chains.get Bucket.key t.slotOf _ k) [] Bucket.recs =
      under packedKey k (l.filter _)
    rw [hget, under_filter]
    change Option.elim ((t.lookup k).bind _) _ _ = _
    cases hb : t.lookup k with
    | none =>
      rw [h.of_none hb]
      rfl
    | some b => rw [Option.bind_some, expireBucket_recs, (h.of_some hb).2.1]
  · have hsplit := List.length_eq_length_filter_add (l := l) fun r => decide (agingTs r < beforeNs)
    simp only [plainExpire, h.pending]
    omega

/-- What holds of every table: no bucket is empty, none holds more records than it has room for or than
the bound allows, and no two have one key. -/
structure TableTidy (maxPerKey : Nat) (t : Table α) : Prop where
  nonempty : ∀ s, ∀ b ∈ t.v s, b.recs ≠ []
  fits : ∀ s, ∀ b ∈ t.v s, b.recs.length ≤ b.cap
  bound : 0 < maxPerKey → ∀ s, ∀ b ∈ t.v s, b.recs.length ≤ maxPerKey
  nodup : (((List.finRange t.nbuckets).flatMap t.v).map Bucket.key).Nodup

theorem TableRep.tidy (h : TableRep maxPerKey t l) : TableTidy maxPerKey t where
  nonempty := fun s b hb => (h.buckets s b hb).nonempty
  fits := fun s b hb => (h.buckets s b hb).fits
  bound := fun hm s b hb =>
    (h.buckets s b hb).fits.trans ((h.buckets s b hb).bound (Nat.pos_iff_ne_zero.1 hm))
  nodup := Chains.Ok.nodup_all _ _ h.chains

end Rep
end Table

/-! ## The joiner -/

/-- Each table of the joiner holds the records of the plain joiner's list. -/
structure JoinerRep (j : Joiner) (p : PlainJoiner) : Prop where
  maxPerKey : j.maxPerKey = p.maxPerKey
  targets : TableRep p.maxPerKey j.targets p.targets
  hosts : TableRep p.maxPerKey j.hosts p.hosts

theorem joinerRep_new (maxPerKey : Nat) : JoinerRep (ntpJoinerNew maxPerKey) (.new maxPerKey) :=
  ⟨rfl, tableRep_init _, tableRep_init _⟩

section Joiner

variable {j : Joiner} {p : PlainJoiner}

theorem JoinerRep.addTarget (h : JoinerRep j p) (t : TgtRec) :
    JoinerRep (ntpJoinerAddTarget j t) (p.addTarget t) := by
  refine ⟨h.maxPerKey, ?_, h.hosts⟩
  have hp := (h.targets.push t).1
  simpa only [ntpJoinerAddTarget, PlainJoiner.addTarget, h.maxPerKey] using hp

theorem JoinerRep.matchHost (h : JoinerRep j p) (r : HostRec) :
    JoinerRep (ntpJoinerMatch j r).1 (p.takeTarget r) ∧
      (ntpJoinerMatch j r).2 = plainFind p.targets r.id := by
  obtain ⟨htab, hout⟩ := h.targets.take r.id
  unfold ntpJoinerMatch
  cases htake : tableTake j.targets r.id with
  | mk targets out =>
    rw [htake] at htab hout
    cases out with
    | none => exact ⟨⟨h.maxPerKey, htab, h.hosts⟩, hout⟩
    | some t => exact ⟨⟨h.maxPerKey, htab, h.hosts⟩, hout⟩

theorem JoinerRep.hostArrives (h : JoinerRep j p) (r : HostRec) :
    JoinerRep (ntpJoinerHostArrives j r).1 (p.next (.hostArrives r)) ∧
      (ntpJoinerHostArrives j r).2 = plainFind p.targets r.id := by
  obtain ⟨htab, hout⟩ := h.targets.take r.id
  unfold ntpJoinerHostArrives
  cases htake : tableTake j.targets r.id with
  | mk targets out =>
    rw [htake] at htab hout
    have hfind : plainFind p.targets r.id = out := hout.symm
    cases out with
    | none =>
      refine ⟨?_, hout⟩
      -- nothing was taken, so the list of the targets is as it was
      have hsame : (plainTake p.targets r.id).1 = p.targets := eraseP_of_find?_none hfind
      rw [hsame] at htab
      have hnext : p.next (.hostArrives r) = p.addHost r := by simp [PlainJoiner.next, hfind]
      have hp := (h.hosts.push r).1
      rw [hnext]
      refine ⟨h.maxPerKey, htab, ?_⟩
      simpa only [PlainJoiner.addHost, h.maxPerKey] using hp
    | some t =>
      have hnext : p.next (.hostArrives r) = p.takeTarget r := by simp [PlainJoiner.next, hfind]
      rw [hnext]
      exact ⟨⟨h.maxPerKey, htab, h.hosts⟩, hout⟩

theorem JoinerRep.targetArrives (h : JoinerRep j p) (t : TgtRec) :
    JoinerRep (ntpJoinerTargetArrives j t).1 (p.next (.targetArrives t)) ∧
      (ntpJoinerTargetArrives j t).2 = plainFind p.hosts t.id := by
  obtain ⟨htab, hout⟩ := h.hosts.take t.id
  unfold ntpJoinerTargetArrives
  cases htake : tableTake j.hosts t.id with
  | mk hosts out =>
    rw [htake] at htab hout
    have hfind : plainFind p.hosts t.id = out := hout.symm
    cases out with
    | none =>
      refine ⟨?_, hout⟩
      have hsame : (plainTake p.hosts t.id).1 = p.hosts := eraseP_of_find?_none hfind
      rw [hsame] at htab
      have hnext : p.next (.targetArrives t) = p.addTarget t := by simp [PlainJoiner.next, hfind]
      rw [hnext]
      exact JoinerRep.addTarget (j := { j with hosts := hosts }) ⟨h.maxPerKey, h.targets, htab⟩ t
    | some r =>
      have hnext : p.next (.targetArrives t) = p.takeHost t := by simp [PlainJoiner.next, hfind]
      rw [hnext]
      exact ⟨⟨h.maxPerKey, h.targets, htab⟩, hout⟩

theorem JoinerRep.releaseHosts (h : JoinerRep j p) (b : U64) :
    JoinerRep (ntpJoinerReleaseHosts j b).1 (p.next (.releaseHosts b)) ∧
      (∀ k, under packedKey k (ntpJoinerReleaseHosts j b).2.1 =
        under packedKey k (plainExpire p.hosts b).2) ∧
      (ntpJoinerReleaseHosts j b).2.2 = (plainExpire p.hosts b).2.length := by
  obtain ⟨htab, hgone, hn⟩ := h.hosts.expire b
  exact ⟨⟨h.maxPerKey, h.targets, htab⟩, hgone, hn⟩

theorem JoinerRep.expire (h : JoinerRep j p) (b : U64) :
    JoinerRep (ntpJoinerExpire j b).1 (p.next (.expire b)) ∧
      (ntpJoinerExpire j b).2 = (plainExpire p.targets b).2.length := by
  obtain ⟨htab, -, hn⟩ := h.targets.expire b
  exact ⟨⟨h.maxPerKey, htab, h.hosts⟩, hn⟩

theorem toList_length_eq {β : Type} (o : Option β) : o.toList.length = if o.isSome then 1 else 0 := by
  cases o <;> rfl

/-- Every call is simulated. -/
theorem JoinerRep.step (h : JoinerRep j p) (op : JoinOp) :
    JoinerRep (joinStep j op).1 (plainStep p op).1 ∧ SameOut (joinStep j op).2 (plainStep p op).2 := by
  -- a call that simulates the next state also shows its two counts
  have counts : ∀ {j' : Joiner} {p' : PlainJoiner}, JoinerRep j' p' →
      ntpJoinerPending j' = p'.targets.length ∧ ntpJoinerWaitingHosts j' = p'.hosts.length :=
    fun h' => ⟨h'.targets.pending, h'.hosts.pending⟩
  cases op with
  | addTarget t =>
    have hs := h.addTarget t
    exact ⟨hs, rfl, rfl, rfl, fun _ => rfl, (counts hs).1, (counts hs).2⟩
  | matchHost r =>
    obtain ⟨hs, hout⟩ := h.matchHost r
    refine ⟨hs, ?_, hout, rfl, fun _ => rfl, (counts hs).1, (counts hs).2⟩
    change (ntpJoinerMatch j r).2.toList.length = _
    rw [toList_length_eq, hout]
    rfl
  | hostArrives r =>
    obtain ⟨hs, hout⟩ := h.hostArrives r
    refine ⟨hs, ?_, hout, rfl, fun _ => rfl, (counts hs).1, (counts hs).2⟩
    change (ntpJoinerHostArrives j r).2.toList.length = _
    rw [toList_length_eq, hout]
    rfl
  | targetArrives t =>
    obtain ⟨hs, hout⟩ := h.targetArrives t
    refine ⟨hs, ?_, rfl, hout, fun _ => rfl, (counts hs).1, (counts hs).2⟩
    change (ntpJoinerTargetArrives j t).2.toList.length = _
    rw [toList_length_eq, hout]
    rfl
  | releaseHosts b =>
    obtain ⟨hs, hgone, hn⟩ := h.releaseHosts b
    exact ⟨hs, hn, rfl, rfl, under_waitKey_congr hgone, (counts hs).1, (counts hs).2⟩
  | expire b =>
    obtain ⟨hs, hn⟩ := h.expire b
    exact ⟨hs, hn, rfl, rfl, fun _ => rfl, (counts hs).1, (counts hs).2⟩

/-- Every sequence of calls is simulated. -/
theorem JoinerRep.run (h : JoinerRep j p) (ops : List JoinOp) :
    JoinerRep (joinRun j ops).1 (plainRun p ops).1 ∧
      List.Forall₂ SameOut (joinRun j ops).2 (plainRun p ops).2 := by
  induction ops generalizing j p with
  | nil => exact ⟨h, List.Forall₂.nil⟩
  | cons op ops ih =>
    obtain ⟨hs, hout⟩ := h.step op
    obtain ⟨hr, houts⟩ := ih hs
    exact ⟨hr, List.Forall₂.cons hout houts⟩

end Joiner

theorem plainStep_maxPerKey (p : PlainJoiner) (op : JoinOp) :
    (plainStep p op).1.maxPerKey = p.maxPerKey := by
  cases op with
  | addTarget t => rfl
  | matchHost h => rfl
  | hostArrives h =>
    simp only [plainStep, PlainJoiner.next]
    split <;> rfl
  | targetArrives t =>
    simp only [plainStep, PlainJoiner.next]
    split <;> rfl
  | releaseHosts b => rfl
  | expire b => rfl

theorem plainRun_maxPerKey (p : PlainJoiner) (ops : List JoinOp) :
    (plainRun p ops).1.maxPerKey = p.maxPerKey := by
  induction ops generalizing p with
  | nil => rfl
  | cons op ops ih => exact (ih _).trans (plainStep_maxPerKey p op)

/-- Whatever is called in whatever order, the joiner shows what the two plain lists show, and its
tables are tidy. -/
theorem joiner_refines_plain (maxPerKey : Nat) (ops : List JoinOp) :
    List.Forall₂ SameOut (joinRun (ntpJoinerNew maxPerKey) ops).2
        (plainRun (PlainJoiner.new maxPerKey) ops).2 ∧
      TableTidy maxPerKey (joinRun (ntpJoinerNew maxPerKey) ops).1.targets ∧
      TableTidy maxPerKey (joinRun (ntpJoinerNew maxPerKey) ops).1.hosts := by
  obtain ⟨hrep, houts⟩ := (joinerRep_new maxPerKey).run ops
  have hm : (plainRun (PlainJoiner.new maxPerKey) ops).1.maxPerKey = maxPerKey := plainRun_maxPerKey _ ops
  have htargets := hrep.targets.tidy
  have hhosts := hrep.hosts.tidy
  rw [hm] at htargets hhosts
  exact ⟨houts, htargets, hhosts⟩

end Ntprof
