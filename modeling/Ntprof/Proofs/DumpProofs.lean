import Ntprof.Lib.Separated
import Ntprof.Dump
import Ntprof.Proofs.PrintedProofs
import Ntprof.Proofs.SpdkMapsProofs

/-!
# What a dump tells

The rows of a dump determine the records: no field can be mistaken for two, and every number is read back from its
text, the timestamps as what is printed plus the first of them.
-/

namespace Ntprof

/-! ## Fields -/

/-- A field has neither a comma nor a newline in it. -/
def PlainField (f : List U8) : Prop := 0x2c#8 ∉ f ∧ 0x0a#8 ∉ f

theorem isDigit_facts : ∀ c : U8, isDigit c = true → c ≠ 0x2c#8 ∧ c ≠ 0x0a#8 ∧ c ≠ 0x2d#8 := by decide

theorem isHex_plain : ∀ c : U8, Spdk.isHex c = true → c ≠ 0x2c#8 ∧ c ≠ 0x0a#8 := by decide

theorem PlainField.cons {c : U8} {f : List U8} (hc : c ≠ 0x2c#8 ∧ c ≠ 0x0a#8) (hf : PlainField f) :
    PlainField (c :: f) := by
  refine ⟨fun h => ?_, fun h => ?_⟩
  · rcases List.mem_cons.mp h with h | h
    · exact hc.1 h.symm
    · exact hf.1 h
  · rcases List.mem_cons.mp h with h | h
    · exact hc.2 h.symm
    · exact hf.2 h

theorem plain_nil : PlainField [] := ⟨List.not_mem_nil, List.not_mem_nil⟩

theorem unsignedText_plain (n : ℕ) : PlainField (unsignedText n) :=
  ⟨fun h => (isDigit_facts _ (isDigit_unsignedText h)).1 rfl,
    fun h => (isDigit_facts _ (isDigit_unsignedText h)).2.1 rfl⟩

theorem unsignedText_inj {n m : ℕ} (h : unsignedText n = unsignedText m) : n = m := by
  rw [← digitsVal_unsignedText n, h, digitsVal_unsignedText]

theorem unsigned_inj {w : ℕ} {x y : BitVec w} (h : unsignedText x.toNat = unsignedText y.toNat) : x = y :=
  BitVec.eq_of_toNat_eq (unsignedText_inj h)

theorem signedText_plain (i : ℤ) : PlainField (signedText i) := by
  rw [signedText]
  split_ifs
  · exact (unsignedText_plain _).cons (by decide)
  · exact unsignedText_plain _

theorem signedText_ne_nil (i : ℤ) : signedText i ≠ [] := by
  rw [signedText]
  split_ifs
  · exact List.cons_ne_nil _ _
  · exact unsignedText_ne_nil _

theorem signedText_inj {i j : ℤ} (h : signedText i = signedText j) : i = j := by
  have hminus : ∀ n m, 0x2d#8 :: unsignedText n ≠ unsignedText m := by
    intro n m heq
    have hmem : 0x2d#8 ∈ unsignedText m := by
      rw [← heq]
      exact List.mem_cons_self
    exact (isDigit_facts _ (isDigit_unsignedText hmem)).2.2 rfl
  rw [signedText, signedText] at h
  split_ifs at h with hi hj hj
  · have habs := unsignedText_inj (List.cons.inj h).2
    omega
  · exact absurd h (hminus _ _)
  · exact absurd h.symm (hminus _ _)
  · have habs := unsignedText_inj h
    omega

theorem altHexText_plain (n : ℕ) : PlainField (altHexText n) := by
  have hdigits : PlainField ((Nat.toDigits 16 n).map fun c => BitVec.ofNat 8 c.toNat) := by
    refine ⟨fun h => ?_, fun h => ?_⟩
    · obtain ⟨d, hd, heq⟩ := List.mem_map.mp h
      exact (isHex_plain _ ((Spdk.toDigits_spec n).1 d hd)).1 heq
    · obtain ⟨d, hd, heq⟩ := List.mem_map.mp h
      exact (isHex_plain _ ((Spdk.toDigits_spec n).1 d hd)).2 heq
  rw [altHexText]
  split_ifs
  · exact plain_nil.cons (by decide)
  · exact (hdigits.cons (by decide)).cons (by decide)

theorem altHexText_inj {n m : ℕ} (h : altHexText n = altHexText m) : n = m := by
  rw [altHexText, altHexText] at h
  split_ifs at h with hn hm hm
  · rw [hn, hm]
  · cases (List.cons.inj h).2
  · cases (List.cons.inj h).2
  · have hdigits := (List.cons.inj (List.cons.inj h).2).2
    rw [← (Spdk.toDigits_spec n).2, hdigits, (Spdk.toDigits_spec m).2]

theorem dumpTime_plain (base t : U64) : PlainField (dumpTime base t) := by
  rw [dumpTime]
  split_ifs
  · exact signedText_plain _
  · exact plain_nil

/-- With the first timestamp, a printed one is read back. -/
theorem dumpTime_inj (base : U64) : Function.Injective (dumpTime base) := by
  intro t t' h
  rw [dumpTime, dumpTime] at h
  split_ifs at h with ht ht' ht'
  · have hdiff := BitVec.eq_of_toInt_eq (signedText_inj h)
    calc t = t - base + base := (BitVec.sub_add_cancel t base).symm
      _ = t' - base + base := by rw [hdiff]
      _ = t' := BitVec.sub_add_cancel t' base
  · exact absurd h (signedText_ne_nil _)
  · exact absurd h.symm (signedText_ne_nil _)
  · rw [not_not] at ht ht'
    rw [ht, ht']

/-! ## Rows -/

/-- The fields of `dump_id`. -/
def idFields (h : RecHdr) (id : CmdId) : List (List U8) :=
  [unsignedText h.transport.toNat, altHexText h.flags.toNat, unsignedText h.cpu.toNat, unsignedText id.cntlid.toNat,
    unsignedText id.qid.toNat, unsignedText id.cid.toNat, unsignedText id.opcode.toNat, unsignedText id.nsid.toNat,
    unsignedText id.slba.toNat, unsignedText id.nlb.toNat]

/-- The fields of `dump_ts`. -/
def tsFields (ts : List U64) : List (List U8) :=
  unsignedText (dumpBase ts).toNat :: ts.map (dumpTime (dumpBase ts))

/-- The fields of a row, behind its kind. -/
def dumpFields : Rec → List (List U8)
  | .host h =>
    idFields h.hdr h.id ++ ([unsignedText h.bytes.toNat, cString h.disk, unsignedText h.ctrlInstance.toNat,
      unsignedText h.qUnsent.toNat, unsignedText h.qInflight.toNat] ++ (tsFields (HostTs.all.map h.ts) ++
      [unsignedText h.c2hBusyNs.toNat, unsignedText h.c2hSkbs.toNat]))
  | .target t =>
    idFields t.hdr t.id ++ ([unsignedText t.bytes.toNat, [], [], unsignedText t.qOutstanding.toNat,
      unsignedText t.qRespQueue.toNat] ++ (tsFields (TgtTs.all.map t.ts) ++
      [unsignedText t.h2cBusyNs.toNat, unsignedText t.h2cSkbs.toNat]))

/-- The kind of a row. -/
def kindText : Rec → List U8
  | .host _ => [0x68#8, 0x6f#8, 0x73#8, 0x74#8]
  | .target _ => [0x74#8, 0x61#8, 0x72#8, 0x67#8, 0x65#8, 0x74#8]

theorem commas_append (fs gs : List (List U8)) : commas (fs ++ gs) = commas fs ++ commas gs := List.flatMap_append

theorem commas_idFields (h : RecHdr) (id : CmdId) : commas (idFields h id) = 0x2c#8 :: dumpId h id := rfl

theorem commas_tsFields (ts : List U64) : commas (tsFields ts) = dumpTs ts := rfl

/-- A row is its kind and its fields. -/
theorem dumpRec_eq (r : Rec) : dumpRec r = (kindText r ++ commas (dumpFields r)) ++ [0x0a#8] := by
  cases r with
  | host h =>
    have hkind : text "host," = [0x68#8, 0x6f#8, 0x73#8, 0x74#8] ++ [0x2c#8] := by decide
    simp only [dumpRec, dumpHost, hkind, kindText, dumpFields, commas_append, commas_idFields, commas_tsFields]
    simp only [List.append_assoc, List.cons_append, List.nil_append]
  | target t =>
    have hkind : text "target," = [0x74#8, 0x61#8, 0x72#8, 0x67#8, 0x65#8, 0x74#8] ++ [0x2c#8] := by decide
    simp only [dumpRec, dumpTarget, hkind, kindText, dumpFields, commas_append, commas_idFields, commas_tsFields]
    simp only [List.append_assoc, List.cons_append, List.nil_append]

/-- The name of the disk ends inside its array, and is a field. -/
def PlainDisk : Rec → Prop
  | .host h => 0 ∈ h.disk.toList ∧ PlainField (cString h.disk)
  | .target _ => True

theorem tsFields_plain (ts : List U64) : ∀ f ∈ tsFields ts, PlainField f := by
  intro f hf
  rcases List.mem_cons.mp hf with rfl | hf
  · exact unsignedText_plain _
  · obtain ⟨t, -, rfl⟩ := List.mem_map.mp hf
    exact dumpTime_plain _ t

theorem dumpFields_plain {r : Rec} (hr : PlainDisk r) : ∀ f ∈ dumpFields r, PlainField f := by
  have hu := unsignedText_plain
  have hx := altHexText_plain
  cases r with
  | host h =>
    have hdisk : PlainField (cString h.disk) := hr.2
    have hts := tsFields_plain (HostTs.all.map h.ts)
    simp only [dumpFields, idFields, List.forall_mem_append, List.forall_mem_cons, List.not_mem_nil, false_implies,
      implies_true, and_true, hu, hx, hdisk, true_and]
    exact hts
  | target t =>
    have hts := tsFields_plain (TgtTs.all.map t.ts)
    simp only [dumpFields, idFields, List.forall_mem_append, List.forall_mem_cons, List.not_mem_nil, false_implies,
      implies_true, and_true, hu, hx, plain_nil, true_and]
    exact hts

/-! ## Reading a dump -/

/-- Two commands with the same id and the same header, but for the kind. -/
def SameHead (h h' : RecHdr) (id id' : CmdId) : Prop :=
  h.transport = h'.transport ∧ h.flags = h'.flags ∧ h.cpu = h'.cpu ∧ id = id'

/-- Two records of which a dump shows the same. -/
def SameDump : Rec → Rec → Prop
  | .host h, .host h' =>
    SameHead h.hdr h'.hdr h.id h'.id ∧ h.bytes = h'.bytes ∧ cString h.disk = cString h'.disk ∧
      h.ctrlInstance = h'.ctrlInstance ∧ h.qUnsent = h'.qUnsent ∧ h.qInflight = h'.qInflight ∧ h.ts = h'.ts ∧
      h.c2hBusyNs = h'.c2hBusyNs ∧ h.c2hSkbs = h'.c2hSkbs
  | .target t, .target t' =>
    SameHead t.hdr t'.hdr t.id t'.id ∧ t.bytes = t'.bytes ∧ t.qOutstanding = t'.qOutstanding ∧
      t.qRespQueue = t'.qRespQueue ∧ t.ts = t'.ts ∧ t.h2cBusyNs = t'.h2cBusyNs ∧ t.h2cSkbs = t'.h2cSkbs
  | _, _ => False

theorem idFields_inj {h h' : RecHdr} {id id' : CmdId} (heq : idFields h id = idFields h' id') : SameHead h h' id id' := by
  simp only [idFields, List.cons.injEq, and_true] at heq
  obtain ⟨htr, hfl, hcpu, hcnt, hqid, hcid, hop, hns, hslba, hnlb⟩ := heq
  refine ⟨unsigned_inj htr, BitVec.eq_of_toNat_eq (altHexText_inj hfl), unsigned_inj hcpu, ?_⟩
  cases id
  cases id'
  simp only [CmdId.mk.injEq]
  exact ⟨unsigned_inj hslba, unsigned_inj hns, unsigned_inj hcnt, unsigned_inj hqid, unsigned_inj hcid,
    unsigned_inj hnlb, unsigned_inj hop⟩

theorem length_idFields (h h' : RecHdr) (id id' : CmdId) : (idFields h id).length = (idFields h' id').length := rfl

theorem length_tsFields {ts ts' : List U64} (h : ts.length = ts'.length) :
    (tsFields ts).length = (tsFields ts').length := by
  rw [tsFields, tsFields, List.length_cons, List.length_cons, List.length_map, List.length_map, h]

theorem tsFields_inj {ts ts' : List U64} (h : tsFields ts = tsFields ts') : ts = ts' := by
  obtain ⟨hbase, htimes⟩ := List.cons.inj h
  rw [unsigned_inj hbase] at htimes
  exact List.map_injective_iff.mpr (dumpTime_inj _) htimes

theorem hostTs_ext {ts ts' : HostTs → U64} (h : HostTs.all.map ts = HostTs.all.map ts') : ts = ts' := by
  funext i
  exact List.map_inj_left.mp h i (by cases i <;> decide)

theorem tgtTs_ext {ts ts' : TgtTs → U64} (h : TgtTs.all.map ts = TgtTs.all.map ts') : ts = ts' := by
  funext i
  exact List.map_inj_left.mp h i (by cases i <;> decide)

/-- The kind and the fields determine what a dump shows of a record. -/
theorem sameDump_of_fields {r r' : Rec} (hkind : kindText r = kindText r') (h : dumpFields r = dumpFields r') :
    SameDump r r' := by
  cases r with
  | host a =>
    cases r' with
    | host b =>
      rw [dumpFields, dumpFields] at h
      obtain ⟨hid, hrest⟩ := List.append_inj h (length_idFields _ _ _ _)
      obtain ⟨hmid, hrest⟩ := List.append_inj hrest rfl
      obtain ⟨hts, hend⟩ := List.append_inj hrest (length_tsFields (by rw [List.length_map, List.length_map]))
      simp only [List.cons.injEq, and_true] at hmid hend
      obtain ⟨hbytes, hdisk, hctrl, hq, hq'⟩ := hmid
      exact ⟨idFields_inj hid, unsigned_inj hbytes, hdisk, unsigned_inj hctrl, unsigned_inj hq, unsigned_inj hq',
        hostTs_ext (tsFields_inj hts), unsigned_inj hend.1, unsigned_inj hend.2⟩
    | target b => simp [kindText] at hkind
  | target a =>
    cases r' with
    | host b => simp [kindText] at hkind
    | target b =>
      rw [dumpFields, dumpFields] at h
      obtain ⟨hid, hrest⟩ := List.append_inj h (length_idFields _ _ _ _)
      obtain ⟨hmid, hrest⟩ := List.append_inj hrest rfl
      obtain ⟨hts, hend⟩ := List.append_inj hrest (length_tsFields (by rw [List.length_map, List.length_map]))
      simp only [List.cons.injEq, and_true, true_and] at hmid hend
      obtain ⟨hbytes, hq, hq'⟩ := hmid
      exact ⟨idFields_inj hid, unsigned_inj hbytes, unsigned_inj hq, unsigned_inj hq', tgtTs_ext (tsFields_inj hts),
        unsigned_inj hend.1, unsigned_inj hend.2⟩

theorem kindText_plain (r : Rec) : PlainField (kindText r) := by
  cases r <;> simp [PlainField, kindText]

/-- A row without its newline has no other. -/
theorem row_plain {r : Rec} (hr : PlainDisk r) : 0x0a#8 ∉ kindText r ++ commas (dumpFields r) := by
  intro h
  rcases List.mem_append.mp h with h | h
  · exact (kindText_plain r).2 h
  · obtain ⟨f, hf, hmem⟩ := List.mem_flatMap.mp h
    rcases List.mem_cons.mp hmem with hmem | hmem
    · exact absurd hmem (by decide)
    · exact (dumpFields_plain hr f hf).2 hmem

/-- Two dumps with the same text, of records with disk names that end and have neither a comma nor a newline, are of the
same records: of as many, in the same order, of the same sides, and with the same id, sizes, queues and timestamps. -/
theorem dump_determines_records (recs recs' : List Rec) (hdisk : ∀ r ∈ recs, PlainDisk r)
    (hdisk' : ∀ r ∈ recs', PlainDisk r) (h : dumpRecs recs = dumpRecs recs') : List.Forall₂ SameDump recs recs' := by
  have hrows : ∀ rs : List Rec,
      dumpRecs rs = (rs.map fun r => kindText r ++ commas (dumpFields r)).flatMap (· ++ [0x0a#8]) := by
    intro rs
    rw [dumpRecs, List.flatMap_map]
    exact List.flatMap_congr fun r _ => dumpRec_eq r
  have hline : ∀ rs : List Rec, (∀ r ∈ rs, PlainDisk r) →
      ∀ l ∈ rs.map fun r => kindText r ++ commas (dumpFields r), 0x0a#8 ∉ l := by
    intro rs hrs l hl
    obtain ⟨r, hr, rfl⟩ := List.mem_map.mp hl
    exact row_plain (hrs r hr)
  rw [hrows, hrows] at h
  have hmap := Separated.lines_inj (hline recs hdisk) (hline recs' hdisk') h
  have hboth : List.Forall₂ (· = ·) (recs.map fun r => kindText r ++ commas (dumpFields r))
      (recs'.map fun r => kindText r ++ commas (dumpFields r)) := by
    rw [hmap]
    exact List.forall₂_refl _
  have hforall := List.forall₂_map_right_iff.mp (List.forall₂_map_left_iff.mp hboth)
  clear hboth hmap hrows hline h
  induction hforall with
  | nil => exact .nil
  | cons hrow _ ih =>
    have hr := hdisk _ List.mem_cons_self
    have hr' := hdisk' _ List.mem_cons_self
    obtain ⟨hkind, hcommas⟩ := Separated.append_inj (kindText_plain _).1 (kindText_plain _).1
      (Separated.starts_flatMap _) (Separated.starts_flatMap _) hrow
    have hfields := Separated.fields_inj (fun f hf => (dumpFields_plain hr f hf).1)
      (fun f hf => (dumpFields_plain hr' f hf).1) hcommas
    exact .cons (sameDump_of_fields hkind hfields)
      (ih (fun x hx => hdisk x (List.mem_cons_of_mem _ hx)) fun x hx => hdisk' x (List.mem_cons_of_mem _ hx))

/-- The name `n` and a digit. -/
def diskName (digit : U8) : Vector U8 ntpDiskNameLen := ((Vector.replicate _ 0).set 0 0x6e#8).set 1 digit

/-- A host record of this disk. -/
def diskRec (digit : U8) (ts : HostTs → U64) : Rec := .host { disk := diskName digit, ts := ts }

/-- Records that differ in one timestamp, or in the name of the disk, have different dumps. -/
theorem dump_of_two_disks :
    dumpRecs [.target {}, diskRec 0x31#8 fun _ => 5] ≠ dumpRecs [.target {}, diskRec 0x31#8 fun _ => 7] ∧
      dumpRecs [.target {}, diskRec 0x31#8 fun _ => 5] ≠ dumpRecs [.target {}, diskRec 0x32#8 fun _ => 5] := by
  have hplain : ∀ digit : U8, digit = 0x31#8 ∨ digit = 0x32#8 →
      0 ∈ (diskName digit).toList ∧ PlainField (cString (diskName digit)) := by
    rintro digit (rfl | rfl)
    · exact ⟨by decide, by decide, by decide⟩
    · exact ⟨by decide, by decide, by decide⟩
  have hall : ∀ digit : U8, digit = 0x31#8 ∨ digit = 0x32#8 → ∀ ts, ∀ r ∈ [.target {}, diskRec digit ts], PlainDisk r := by
    intro digit hdigit ts r hr
    rcases List.mem_cons.mp hr with rfl | hr
    · trivial
    · rw [List.mem_singleton.mp hr]
      exact hplain digit hdigit
  constructor
  · intro h
    have hsame := dump_determines_records _ _ (hall _ (Or.inl rfl) _) (hall _ (Or.inl rfl) _) h
    rcases hsame with _ | ⟨-, _ | ⟨⟨-, -, -, -, -, -, hts, -⟩, -⟩⟩
    exact absurd (congrFun hts .start) (by decide)
  · intro h
    have hsame := dump_determines_records _ _ (hall _ (Or.inl rfl) _) (hall _ (Or.inr rfl) _) h
    rcases hsame with _ | ⟨-, _ | ⟨⟨-, -, hdisk, -⟩, -⟩⟩
    exact absurd hdisk (by decide)

end Ntprof
