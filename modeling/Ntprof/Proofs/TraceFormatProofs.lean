import Ntprof.TraceFormat

/-!
# Record files: what was written is read (`src/trace_file.c`)

Every structure is decoded from its bytes. The union `rec` is reused from record to record: whatever it
held, after the header, the `memset` and the rest it holds the bytes of the record and zeros behind them,
so a record of an older version is the record of this one with the later fields 0.
-/

namespace Ntprof

open Bytes

/-! ## Structures -/

theorem HostTs.getElem?_index (i : HostTs) : HostTs.all[i.index]? = some i := by
  cases i <;> rfl

theorem TgtTs.getElem?_index (i : TgtTs) : TgtTs.all[i.index]? = some i := by
  cases i <;> rfl

theorem length_encodeHostHead (h : HostRec) (p : HostPad) :
    (encodeHostHead h p).length = offsetofHostTs := by
  simp only [encodeHostHead, encodeRecHdr, encodeCmdId, List.length_append, length_leBytes,
    Vector.length_toList]
  rfl

theorem length_encodeTgtHead (t : TgtRec) (p : TgtPad) : (encodeTgtHead t p).length = offsetofTgtTs := by
  simp only [encodeTgtHead, encodeRecHdr, encodeCmdId, List.length_append, length_leBytes,
    Vector.length_toList]
  rfl

/-- The bytes of a host record before `c2h_busy_ns`. -/
theorem length_hostFront (h : HostRec) (p : HostPad) :
    (encodeHostHead h p ++ HostTs.all.flatMap fun i => leBytes 8 (h.ts i)).length = 208 := by
  rw [List.length_append, length_encodeHostHead, length_flatMap_leBytes 8 h.ts HostTs.all]
  rfl

/-- The bytes of a target record before `h2c_busy_ns`. -/
theorem length_tgtFront (t : TgtRec) (p : TgtPad) :
    (encodeTgtHead t p ++ TgtTs.all.flatMap fun i => leBytes 8 (t.ts i)).length = 168 := by
  rw [List.length_append, length_encodeTgtHead, length_flatMap_leBytes 8 t.ts TgtTs.all]
  rfl

theorem length_encodeHostRec (h : HostRec) (p : HostPad) : (encodeHostRec h p).length = sizeofHostRec := by
  rw [encodeHostRec, List.length_append, List.length_append, List.length_append, length_hostFront,
    length_leBytes, length_leBytes, length_leBytes]
  rfl

theorem length_encodeTgtRec (t : TgtRec) (p : TgtPad) : (encodeTgtRec t p).length = sizeofTgtRec := by
  rw [encodeTgtRec, List.length_append, List.length_append, List.length_append, length_tgtFront,
    length_leBytes, length_leBytes, length_leBytes]
  rfl

theorem length_encodeFileHeader (h : FileHeader) : (encodeFileHeader h).length = sizeofFileHeader := by
  simp only [encodeFileHeader, List.length_append, length_leBytes, Vector.length_toList]
  rfl

theorem decodeHostRec_encodeHostRec (h : HostRec) (p : HostPad) (m : List U8) :
    decodeHostRec (encodeHostRec h p ++ m) = h := by
  have hfront := length_hostFront h p
  have hstamp : ∀ i : HostTs, field 64 (offsetofHostTs + 8 * i.index) (encodeHostRec h p ++ m) = h.ts i := by
    intro i
    have hhead := length_encodeHostHead h p
    unfold encodeHostRec
    rw [List.append_assoc, List.append_assoc, List.append_assoc, List.append_assoc, field_append_right (by omega), hhead,
      Nat.add_sub_cancel_left]
    exact field_flatMap 8 h.ts HostTs.all _ i.getElem?_index
  have hbusy : field 64 208 (encodeHostRec h p ++ m) = h.c2hBusyNs := by
    rw [encodeHostRec, List.append_assoc, List.append_assoc, List.append_assoc, field_append_at hfront, field64_leBytes]
  have hskbs : field 32 216 (encodeHostRec h p ++ m) = h.c2hSkbs := by
    rw [encodeHostRec, List.append_assoc, List.append_assoc, field_append_at, field32_leBytes]
    rw [List.length_append, hfront, length_leBytes]
  unfold decodeHostRec
  simp only [hstamp, hbusy, hskbs]
  -- what is left stands before `ts[]`
  unfold encodeHostRec encodeHostHead encodeCmdId encodeRecHdr decodeRecHdr decodeCmdId
  simp (disch := simp) only [List.append_assoc, field_append_right, chars_append_right, length_leBytes,
    Vector.length_toList, Nat.reduceSub, Nat.sub_self, field8_leBytes, field16_leBytes, field32_leBytes,
    field64_leBytes, chars_toList]

theorem decodeTgtRec_encodeTgtRec (t : TgtRec) (p : TgtPad) (m : List U8) :
    decodeTgtRec (encodeTgtRec t p ++ m) = t := by
  have hfront := length_tgtFront t p
  have hstamp : ∀ i : TgtTs, field 64 (offsetofTgtTs + 8 * i.index) (encodeTgtRec t p ++ m) = t.ts i := by
    intro i
    have hhead := length_encodeTgtHead t p
    unfold encodeTgtRec
    rw [List.append_assoc, List.append_assoc, List.append_assoc, List.append_assoc, field_append_right (by omega), hhead,
      Nat.add_sub_cancel_left]
    exact field_flatMap 8 t.ts TgtTs.all _ i.getElem?_index
  have hbusy : field 64 168 (encodeTgtRec t p ++ m) = t.h2cBusyNs := by
    rw [encodeTgtRec, List.append_assoc, List.append_assoc, List.append_assoc, field_append_at hfront, field64_leBytes]
  have hskbs : field 32 176 (encodeTgtRec t p ++ m) = t.h2cSkbs := by
    rw [encodeTgtRec, List.append_assoc, List.append_assoc, field_append_at, field32_leBytes]
    rw [List.length_append, hfront, length_leBytes]
  unfold decodeTgtRec
  simp only [hstamp, hbusy, hskbs]
  unfold encodeTgtRec encodeTgtHead encodeCmdId encodeRecHdr decodeRecHdr decodeCmdId
  simp (disch := simp) only [List.append_assoc, field_append_right, length_leBytes, Vector.length_toList,
    Nat.reduceSub, Nat.sub_self, field8_leBytes, field16_leBytes, field32_leBytes, field64_leBytes]

theorem decodeFileHeader_encodeFileHeader (h : FileHeader) :
    decodeFileHeader (encodeFileHeader h) = h := by
  have hkernel : chars 64 120 (encodeFileHeader h) = h.kernel := by
    unfold encodeFileHeader
    rw [chars_append_right (by simp), ← List.append_nil h.kernel.toList]
    simp only [List.length_append, length_leBytes, Vector.length_toList, Nat.reduceAdd, Nat.sub_self]
    exact chars_toList _ _
  unfold decodeFileHeader
  rw [hkernel]
  unfold encodeFileHeader
  simp (disch := simp) only [List.append_assoc, field_append_right, chars_append_right, length_leBytes,
    Vector.length_toList, Nat.reduceSub, Nat.sub_self, field32_leBytes, field64_leBytes, chars_toList]

/-! ## Versions -/

/-- The first events of `ts[]`, and zeros for the others. -/
def cutTs {ι : Type} (index : ι → Nat) (nr : Nat) (ts : ι → U64) (i : ι) : U64 :=
  if index i < nr then ts i else 0

/-- The host record a reader gets of one that was written at the size of a version: what the version
lacks is 0. -/
def HostRec.ofVersion (version : U32) (h : HostRec) : HostRec :=
  if 4 ≤ version then h
  else { h with ts := cutTs HostTs.index ntpHNrV3 h.ts, c2hBusyNs := 0, c2hSkbs := 0 }

/-- The target record a reader gets of one that was written at the size of a version. -/
def TgtRec.ofVersion (version : U32) (t : TgtRec) : TgtRec :=
  if 5 ≤ version then t
  else
    let nr := if 3 ≤ version then ntpTNrV4 else TgtTs.sendDone.index
    { t with ts := cutTs TgtTs.index nr t.ts, h2cBusyNs := 0, h2cSkbs := 0 }

/-- `take_array` for `ts[]`. -/
theorem take_ts {ι : Type} (l : List ι) (index : ι → Nat) (nr : Nat) (hnr : nr ≤ l.length)
    (hin : ∀ i ∈ l.take nr, index i < nr) (hout : ∀ i ∈ l.drop nr, nr ≤ index i) (ts : ι → U64)
    (front back : List U8) (z : Nat) :
    (front ++ (l.flatMap (fun i => leBytes 8 (ts i)) ++ back)).take (front.length + 8 * nr) ++
        List.replicate (8 * (l.length - nr) + z) 0 =
      front ++ (l.flatMap (fun i => leBytes 8 (cutTs index nr ts i)) ++ List.replicate z 0) := by
  apply take_array 8 l nr z front back hnr
  · intro i hi
    exact if_pos (hin i hi)
  · intro i hi
    exact if_neg (Nat.not_lt.mpr (hout i hi))

/-- The fields behind `ts[]` that are 0. -/
theorem zeros_behind_ts (m : List U8) :
    leBytes 8 (0 : U64) ++ (leBytes 4 (0 : U32) ++ (leBytes 4 (0 : U32) ++ m)) = List.replicate 16 0 ++ m := by
  have hzeros : leBytes 8 (0 : U64) ++ (leBytes 4 (0 : U32) ++ leBytes 4 (0 : U32)) = List.replicate 16 0 := by
    decide
  rw [← hzeros, List.append_assoc, List.append_assoc]

/-- A host record cut in `ts[]`, with zeros behind it up to the end of the union. -/
theorem decodeHostRec_cutTs (nr : Nat) (hnr : nr ≤ ntpHNr) (h : HostRec) (p : HostPad) :
    decodeHostRec ((encodeHostRec h p).take (offsetofHostTs + nr * 8) ++
        List.replicate (sizeofHostRec - (offsetofHostTs + nr * 8)) 0) =
      { h with ts := cutTs HostTs.index nr h.ts, c2hBusyNs := 0, c2hSkbs := 0 } := by
  have hin : ∀ nr ≤ ntpHNr, ∀ i ∈ HostTs.all.take nr, i.index < nr := by decide
  have hout : ∀ nr ≤ ntpHNr, ∀ i ∈ HostTs.all.drop nr, nr ≤ i.index := by decide
  have hcut := take_ts HostTs.all HostTs.index nr hnr (hin nr hnr) (hout nr hnr) h.ts (encodeHostHead h p)
    (leBytes 8 h.c2hBusyNs ++ (leBytes 4 h.c2hSkbs ++ leBytes 4 p.pad2)) 16
  have hzeros : 8 * (HostTs.all.length - nr) + 16 = sizeofHostRec - (offsetofHostTs + nr * 8) := by
    simp only [sizeofHostRec, offsetofHostTs, ntpHNr, HostTs.all, List.length_cons, List.length_nil] at *
    omega
  rw [length_encodeHostHead, Nat.mul_comm 8 nr, hzeros] at hcut
  rw [← decodeHostRec_encodeHostRec { h with ts := cutTs HostTs.index nr h.ts, c2hBusyNs := 0, c2hSkbs := 0 }
    { p with pad2 := 0 } [], encodeHostRec, encodeHostRec]
  simp only [List.append_assoc, zeros_behind_ts] at hcut ⊢
  rw [hcut, List.append_nil]
  rfl

/-- A host record written at the size of a version, with zeros behind it. -/
theorem decodeHostRec_take (v : U32) (h : HostRec) (p : HostPad) :
    decodeHostRec ((encodeHostRec h p).take (hostSize v) ++ List.replicate (sizeofHostRec - hostSize v) 0) =
      h.ofVersion v := by
  unfold hostSize HostRec.ofVersion
  split_ifs with hv4
  · rw [List.take_of_length_le (length_encodeHostRec h p).le]
    exact decodeHostRec_encodeHostRec h p _
  · exact decodeHostRec_cutTs ntpHNrV3 (by decide) h p

/-- A target record cut in `ts[]`, with zeros behind it up to the end of the union. -/
theorem decodeTgtRec_cutTs (nr : Nat) (hnr : nr ≤ ntpTNr) (t : TgtRec) (p : TgtPad) :
    decodeTgtRec ((encodeTgtRec t p).take (offsetofTgtTs + nr * 8) ++
        List.replicate (sizeofHostRec - (offsetofTgtTs + nr * 8)) 0) =
      { t with ts := cutTs TgtTs.index nr t.ts, h2cBusyNs := 0, h2cSkbs := 0 } := by
  have hin : ∀ nr ≤ ntpTNr, ∀ i ∈ TgtTs.all.take nr, i.index < nr := by decide
  have hout : ∀ nr ≤ ntpTNr, ∀ i ∈ TgtTs.all.drop nr, nr ≤ i.index := by decide
  have hcut := take_ts TgtTs.all TgtTs.index nr hnr (hin nr hnr) (hout nr hnr) t.ts (encodeTgtHead t p)
    (leBytes 8 t.h2cBusyNs ++ (leBytes 4 t.h2cSkbs ++ leBytes 4 p.pad2)) (16 + 40)
  have hzeros : 8 * (TgtTs.all.length - nr) + (16 + 40) = sizeofHostRec - (offsetofTgtTs + nr * 8) := by
    simp only [ntpTNr, sizeofHostRec, offsetofTgtTs, offsetofHostTs, ntpHNr, HostTs.all, TgtTs.all,
      List.length_cons, List.length_nil] at *
    omega
  rw [length_encodeTgtHead, Nat.mul_comm 8 nr, hzeros, ← List.replicate_append_replicate] at hcut
  rw [← decodeTgtRec_encodeTgtRec { t with ts := cutTs TgtTs.index nr t.ts, h2cBusyNs := 0, h2cSkbs := 0 }
    { p with pad2 := 0 } (List.replicate 40 0), encodeTgtRec, encodeTgtRec]
  simp only [List.append_assoc, zeros_behind_ts] at hcut ⊢
  rw [hcut]
  rfl

/-- A target record written at the size of a version, with zeros behind it up to the end of the
union. -/
theorem decodeTgtRec_take (v : U32) (t : TgtRec) (p : TgtPad) :
    decodeTgtRec ((encodeTgtRec t p).take (tgtSize v) ++ List.replicate (sizeofHostRec - tgtSize v) 0) =
      t.ofVersion v := by
  unfold tgtSize TgtRec.ofVersion
  split_ifs with hv5 hv3
  · rw [List.take_of_length_le (length_encodeTgtRec t p).le]
    exact decodeTgtRec_encodeTgtRec t p _
  · exact decodeTgtRec_cutTs ntpTNrV4 (by decide) t p
  · exact decodeTgtRec_cutTs TgtTs.sendDone.index (by decide) t p

/-! ## The loop -/

/-- The union `rec` once it holds the bytes `r` of a record. -/
def unionOf (r : List U8) : List U8 := r ++ List.replicate (sizeofHostRec - r.length) 0

theorem length_unionOf {r : List U8} (h : r.length ≤ sizeofHostRec) : (unionOf r).length = sizeofHostRec := by
  rw [unionOf, List.length_append, List.length_replicate]
  omega

theorem fread_append {n : Nat} {a : List U8} (h : a.length = n) (f : List U8) :
    fread n (a ++ f) = some (a, f) := by
  rw [fread, if_pos (by rw [List.length_append]; omega), List.take_left' h, List.drop_left' h]

theorem fread_eq_none {n : Nat} {f : List U8} (h : f.length < n) : fread n f = none := by
  rw [fread, if_neg (by omega)]

theorem recSize_bounds {v : U32} {k : U8} {n : Nat} (h : recSize v k = some n) :
    sizeofRecHdr < n ∧ n ≤ sizeofHostRec := by
  unfold recSize hostSize tgtSize at h
  split_ifs at h <;> simp only [Option.some.injEq] at h <;> subst h <;> decide

/-- After its header is read and the rest is cleared, nothing of the record before is left. -/
theorem overlay_header {hdr buf : List U8} (hhdr : hdr.length = sizeofRecHdr)
    (hbuf : buf.length = sizeofHostRec) :
    overlay sizeofRecHdr (List.replicate (sizeofHostRec - sizeofRecHdr) 0) (overlay 0 hdr buf) = unionOf hdr := by
  have hsize : sizeofRecHdr ≤ sizeofHostRec := by decide
  have hfirst : overlay 0 hdr buf = hdr ++ buf.drop sizeofRecHdr := by
    rw [overlay, List.take_zero, List.nil_append, Nat.zero_add, hhdr]
  have hend : (hdr ++ buf.drop sizeofRecHdr).length ≤ sizeofRecHdr + (sizeofHostRec - sizeofRecHdr) := by
    rw [List.length_append, List.length_drop]
    omega
  rw [hfirst, overlay, List.take_left' hhdr, List.length_replicate, List.drop_eq_nil_of_le hend,
    List.append_nil, unionOf, hhdr]

theorem overlay_rest {hdr rest : List U8} (hhdr : hdr.length = sizeofRecHdr) :
    overlay sizeofRecHdr rest (unionOf hdr) = unionOf (hdr ++ rest) := by
  rw [overlay, unionOf, unionOf, List.take_left' hhdr, ← hhdr, List.drop_length_add_append,
    List.drop_replicate, List.length_append, Nat.sub_sub]

theorem kind_unionOf {k : U8} {r : List U8} (hk : r.head? = some k) : (decodeRecHdr (unionOf r)).kind = k := by
  obtain ⟨bytes, rfl⟩ := List.head?_eq_some_iff.mp hk
  show field 8 0 (unionOf (k :: bytes)) = k
  rw [unionOf, ← List.singleton_append, List.append_assoc, ← leBytes_one, field8_leBytes]

/-- The callback for the record in the union. -/
def deliverUnion {σ : Type} (ops : ReaderOps σ) (k : U8) (buf : List U8) (arg : σ) : Int × σ :=
  if k = ntpRecHost then callBack ops.host (decodeHostRec buf) arg
  else callBack ops.target (decodeTgtRec buf) arg

section
variable {σ : Type} {v : U32} (ops : ReaderOps σ) {buf : List U8} (arg : σ)

theorem readLoop_short {f : List U8} (hf : f.length < sizeofRecHdr) :
    readLoop v ops f buf arg = (0, none, arg) := by
  rw [readLoop, fread_eq_none hf]

theorem readLoop_corrupt {hdr f : List U8} {k : U8} (hbuf : buf.length = sizeofHostRec)
    (hhdr : hdr.length = sizeofRecHdr) (hk : hdr.head? = some k) (hs : recSize v k = none) :
    readLoop v ops (hdr ++ f) buf arg = (-1, some (.corrupt k), arg) := by
  rw [readLoop, fread_append hhdr]
  simp only [overlay_header hhdr hbuf, kind_unionOf hk, hs]

theorem readLoop_truncated {hdr f : List U8} {k : U8} {n : Nat} (hbuf : buf.length = sizeofHostRec)
    (hhdr : hdr.length = sizeofRecHdr) (hk : hdr.head? = some k) (hs : recSize v k = some n)
    (hf : (hdr ++ f).length < n) : readLoop v ops (hdr ++ f) buf arg = (-1, some .truncated, arg) := by
  rw [List.length_append] at hf
  rw [readLoop, fread_append hhdr]
  simp only [overlay_header hhdr hbuf, kind_unionOf hk, hs]
  rw [fread_eq_none (by omega)]

theorem readLoop_record {r f : List U8} {k : U8} (hbuf : buf.length = sizeofHostRec) (hk : r.head? = some k)
    (hs : recSize v k = some r.length) :
    readLoop v ops (r ++ f) buf arg =
      if (deliverUnion ops k (unionOf r) arg).1 ≠ 0 then
        ((deliverUnion ops k (unionOf r) arg).1, none, (deliverUnion ops k (unionOf r) arg).2)
      else readLoop v ops f (unionOf r) (deliverUnion ops k (unionOf r) arg).2 := by
  obtain ⟨hmin, -⟩ := recSize_bounds hs
  -- the record in the two parts in which it is read
  obtain ⟨hdr, rest, rfl, hhdr⟩ : ∃ hdr rest, r = hdr ++ rest ∧ hdr.length = sizeofRecHdr :=
    ⟨r.take sizeofRecHdr, r.drop sizeofRecHdr, (List.take_append_drop _ r).symm, by
      rw [List.length_take]; omega⟩
  have hkhdr : hdr.head? = some k := by
    cases hdr with
    | nil => simp [sizeofRecHdr] at hhdr
    | cons b hdr => exact hk
  have hrest : rest.length = (hdr ++ rest).length - sizeofRecHdr := by
    rw [List.length_append]
    omega
  rw [List.append_assoc, readLoop, fread_append hhdr]
  simp only [overlay_header hhdr hbuf, kind_unionOf hkhdr, hs]
  rw [fread_append hrest]
  simp only [overlay_rest hhdr]
  rfl

end

/-! ## The header -/

/-- A header as `ntp_header_init` makes it, at a version: the magic, the version and the sizes are
these, the rest is that of `h`. -/
def FileHeader.atVersion (version : U32) (h : FileHeader) : FileHeader :=
  { h with
    magic := ntpFileMagic
    version := version
    headerSize := BitVec.ofNat 32 sizeofFileHeader
    hostRecSize := BitVec.ofNat 32 (hostSize version)
    tgtRecSize := BitVec.ofNat 32 (tgtSize version) }

theorem ntpHeaderInit_atVersion (env : Machine) (role transport sampleEvery : U32) :
    (ntpHeaderInit env role transport sampleEvery).atVersion ntpFileVersion =
      ntpHeaderInit env role transport sampleEvery := rfl

/-- The header of a record file: the magic, a supported version and that version's sizes. -/
structure GoodHeader (m : List U8) : Prop where
  length_eq : m.length = sizeofFileHeader
  magic : (decodeFileHeader m).magic = ntpFileMagic
  version : 2 ≤ (decodeFileHeader m).version ∧ (decodeFileHeader m).version ≤ 5
  headerSize : (decodeFileHeader m).headerSize.toNat = sizeofFileHeader
  hostRecSize : (decodeFileHeader m).hostRecSize.toNat = hostSize (decodeFileHeader m).version
  tgtRecSize : (decodeFileHeader m).tgtRecSize.toNat = tgtSize (decodeFileHeader m).version

theorem FileHeader.supported_iff (h : FileHeader) :
    h.supported = true ↔ ((((2 ≤ h.version ∧ h.version ≤ ntpFileVersion) ∧
      h.headerSize.toNat = sizeofFileHeader) ∧ h.hostRecSize.toNat = hostSize h.version) ∧
      h.tgtRecSize.toNat = tgtSize h.version) := by
  simp only [FileHeader.supported, Bool.and_eq_true, decide_eq_true_eq, beq_iff_eq]

theorem GoodHeader.supported {m : List U8} (h : GoodHeader m) : (decodeFileHeader m).supported = true :=
  (FileHeader.supported_iff _).mpr ⟨⟨⟨h.version, h.headerSize⟩, h.hostRecSize⟩, h.tgtRecSize⟩

theorem goodHeader_of_supported {m : List U8} (hlen : m.length = sizeofFileHeader)
    (hmagic : (decodeFileHeader m).magic = ntpFileMagic) (h : (decodeFileHeader m).supported = true) :
    GoodHeader m := by
  obtain ⟨⟨⟨hversion, hsize⟩, hhost⟩, htgt⟩ := (FileHeader.supported_iff _).mp h
  exact ⟨hlen, hmagic, hversion, hsize, hhost, htgt⟩

theorem goodHeader_atVersion {v : U32} (hlo : 2 ≤ v) (hhi : v ≤ 5) (h : FileHeader) :
    GoodHeader (encodeFileHeader (h.atVersion v)) := by
  have hhost : (BitVec.ofNat 32 (hostSize v)).toNat = hostSize v := by
    unfold hostSize
    split_ifs <;> decide
  have htgt : (BitVec.ofNat 32 (tgtSize v)).toNat = tgtSize v := by
    unfold tgtSize
    split_ifs <;> decide
  constructor
  · exact length_encodeFileHeader _
  all_goals rw [decodeFileHeader_encodeFileHeader]
  · rfl
  · exact ⟨hlo, hhi⟩
  · rfl
  · exact hhost
  · exact htgt

section
variable {σ : Type} (ops : ReaderOps σ) (buf : List U8) (arg : σ)

/-- With a good header the rest of the file decides. -/
theorem ntpReadFile_of_goodHeader {m : List U8} (hm : GoodHeader m) (f : List U8) :
    ntpReadFile (m ++ f) buf ops arg =
      { ret := if (readLoop (decodeFileHeader m).version ops f buf arg).1 < 0 then -1 else 0,
        hdr := some (decodeFileHeader m),
        msg := (readLoop (decodeFileHeader m).version ops f buf arg).2.1,
        arg := (readLoop (decodeFileHeader m).version ops f buf arg).2.2 } := by
  rw [ntpReadFile, fread_append hm.length_eq]
  simp only [hm.magic, hm.supported, ne_eq, not_true_eq_false, Bool.not_true, Bool.false_eq_true, if_false]

/-- Without one the file is not read. -/
theorem goodHeader_of_ret {f : List U8} (h : (ntpReadFile f buf ops arg).ret = 0) :
    ∃ m rest, f = m ++ rest ∧ GoodHeader m := by
  unfold ntpReadFile at h
  cases hf : fread sizeofFileHeader f with
  | none => simp [hf] at h
  | some mf =>
    obtain ⟨m, rest⟩ := mf
    have hlen : m.length = sizeofFileHeader := (length_of_fread hf).1
    have hsplit : f = m ++ rest := by
      unfold fread at hf
      split_ifs at hf
      simp only [Option.some.injEq, Prod.mk.injEq] at hf
      rw [← hf.1, ← hf.2, List.take_append_drop]
    simp only [hf] at h
    by_cases hmagic : (decodeFileHeader m).magic = ntpFileMagic
    · cases hsupported : (decodeFileHeader m).supported with
      | false => simp [hmagic, hsupported] at h
      | true => exact ⟨m, rest, hsplit, goodHeader_of_supported hlen hmagic hsupported⟩
    · simp [hmagic] at h

end

/-! ## Every version round-trips -/

/-- The callbacks let the reader go on. -/
def ReaderOps.Continue {σ : Type} (ops : ReaderOps σ) : Prop :=
  (∀ h arg, (callBack ops.host h arg).1 = 0) ∧ ∀ t arg, (callBack ops.target t arg).1 = 0

/-- The callbacks' argument after the call for a record. -/
def ReaderOps.deliver {σ : Type} (ops : ReaderOps σ) (arg : σ) : Rec → σ
  | .host h => (callBack ops.host h arg).2
  | .target t => (callBack ops.target t arg).2

/-- A record as it is in memory, with its padding. -/
inductive RawRec where
  | host (h : HostRec) (p : HostPad)
  | target (t : TgtRec) (p : TgtPad)

/-- The record without its padding. -/
def RawRec.toRec : RawRec → Rec
  | .host h _ => .host h
  | .target t _ => .target t

/-- `hdr.kind` is that of the structure. -/
def RawRec.Tagged : RawRec → Prop
  | .host h _ => h.hdr.kind = ntpRecHost
  | .target t _ => t.hdr.kind = ntpRecTarget

def RawRec.kind : RawRec → U8
  | .host h _ => h.hdr.kind
  | .target t _ => t.hdr.kind

/-- The whole structure. -/
def RawRec.encode : RawRec → List U8
  | .host h p => encodeHostRec h p
  | .target t p => encodeTgtRec t p

/-- The record written at the size of a version. -/
def RawRec.bytes (version : U32) : RawRec → List U8
  | .host h p => (encodeHostRec h p).take (hostSize version)
  | .target t p => (encodeTgtRec t p).take (tgtSize version)

/-- The record a reader gets of one written at the size of a version. -/
def Rec.ofVersion (version : U32) : Rec → Rec
  | .host h => .host (h.ofVersion version)
  | .target t => .target (t.ofVersion version)

theorem hostSize_le (v : U32) : hostSize v ≤ sizeofHostRec := by
  unfold hostSize
  split_ifs <;> decide

theorem tgtSize_le (v : U32) : tgtSize v ≤ sizeofTgtRec := by
  unfold tgtSize
  split_ifs <;> decide

theorem head?_encodeHostRec (h : HostRec) (p : HostPad) : (encodeHostRec h p).head? = some h.hdr.kind := by
  simp only [encodeHostRec, encodeHostHead, encodeRecHdr, leBytes_one, List.append_assoc, List.cons_append,
    List.head?_cons]

theorem head?_encodeTgtRec (t : TgtRec) (p : TgtPad) : (encodeTgtRec t p).head? = some t.hdr.kind := by
  simp only [encodeTgtRec, encodeTgtHead, encodeRecHdr, leBytes_one, List.append_assoc, List.cons_append,
    List.head?_cons]

theorem RawRec.head?_bytes (v : U32) (r : RawRec) : (r.bytes v).head? = some r.kind := by
  cases r with
  | host h p =>
    have hpos : hostSize v ≠ 0 := by
      unfold hostSize
      split_ifs <;> decide
    rw [RawRec.bytes, List.head?_take, if_neg hpos, head?_encodeHostRec]
    rfl
  | target t p =>
    have hpos : tgtSize v ≠ 0 := by
      unfold tgtSize
      split_ifs <;> decide
    rw [RawRec.bytes, List.head?_take, if_neg hpos, head?_encodeTgtRec]
    rfl

theorem length_bytes_host (v : U32) (h : HostRec) (p : HostPad) :
    (RawRec.bytes v (.host h p)).length = hostSize v :=
  List.length_take_of_le (by rw [length_encodeHostRec]; exact hostSize_le v)

theorem length_bytes_target (v : U32) (t : TgtRec) (p : TgtPad) :
    (RawRec.bytes v (.target t p)).length = tgtSize v :=
  List.length_take_of_le (by rw [length_encodeTgtRec]; exact tgtSize_le v)

theorem RawRec.recSize_kind (v : U32) {r : RawRec} (hr : r.Tagged) :
    recSize v r.kind = some (r.bytes v).length := by
  cases r with
  | host h p =>
    rw [length_bytes_host]
    exact if_pos hr
  | target t p =>
    have hkind : t.hdr.kind = ntpRecTarget := hr
    rw [length_bytes_target, RawRec.kind, hkind]
    rfl

/-- The callback gets the record. -/
theorem deliverUnion_bytes {σ : Type} (ops : ReaderOps σ) (v : U32) {r : RawRec} (hr : r.Tagged) (arg : σ) :
    (deliverUnion ops r.kind (unionOf (r.bytes v)) arg).2 = ops.deliver arg (r.toRec.ofVersion v) := by
  cases r with
  | host h p =>
    have hkind : h.hdr.kind = ntpRecHost := hr
    rw [deliverUnion, RawRec.kind, if_pos hkind, unionOf, length_bytes_host, RawRec.bytes, decodeHostRec_take]
    rfl
  | target t p =>
    have hkind : t.hdr.kind = ntpRecTarget := hr
    rw [deliverUnion, RawRec.kind, hkind, if_neg (by decide), unionOf, length_bytes_target, RawRec.bytes,
      decodeTgtRec_take]
    rfl

theorem deliverUnion_ret {σ : Type} {ops : ReaderOps σ} (hops : ops.Continue) (k : U8) (buf : List U8) (arg : σ) :
    (deliverUnion ops k buf arg).1 = 0 := by
  unfold deliverUnion
  split_ifs
  · exact hops.1 _ _
  · exact hops.2 _ _

/-- The run of the loop over a sequence of records. -/
theorem readLoop_records {σ : Type} {ops : ReaderOps σ} (hops : ops.Continue) (v : U32) (recs : List RawRec)
    (hrecs : ∀ r ∈ recs, r.Tagged) {buf : List U8} (hbuf : buf.length = sizeofHostRec) (arg : σ) :
    readLoop v ops (recs.flatMap (RawRec.bytes v)) buf arg =
      (0, none, (recs.map fun r => r.toRec.ofVersion v).foldl ops.deliver arg) := by
  induction recs generalizing buf arg with
  | nil => exact readLoop_short ops arg (Nat.zero_lt_succ 7)
  | cons r recs ih =>
    have hr : r.Tagged := hrecs r (by simp)
    have hsize := RawRec.recSize_kind v hr
    have hunion := length_unionOf (recSize_bounds hsize).2
    rw [List.flatMap_cons, readLoop_record ops arg hbuf (r.head?_bytes v) hsize,
      if_neg (by simp [deliverUnion_ret hops]),
      ih (fun r' hr' => hrecs r' (List.mem_cons_of_mem r hr')) hunion, deliverUnion_bytes ops v hr]
    rfl

/-- `ntp_writer_add` of one record after the other. -/
def writeRecords (w : Writer) (recs : List RawRec) : Writer :=
  recs.foldl (fun w r => (ntpWriterAdd none w r.encode).2) w

theorem writeRecords_eq (f : List U8) (n : Nat) (recs : List RawRec) :
    writeRecords ⟨some f, n⟩ recs = ⟨some (f ++ recs.flatMap RawRec.encode), n + recs.length⟩ := by
  unfold writeRecords
  induction recs generalizing f n with
  | nil => simp
  | cons r recs ih =>
    rw [List.foldl_cons]
    refine (ih (f ++ r.encode) (n + 1)).trans ?_
    rw [List.flatMap_cons, List.append_assoc, List.length_cons, Nat.add_assoc, Nat.add_comm 1]

theorem RawRec.bytes_current : RawRec.bytes ntpFileVersion = RawRec.encode := by
  funext r
  cases r with
  | host h p => exact List.take_of_length_le (length_encodeHostRec h p).le
  | target t p => exact List.take_of_length_le (length_encodeTgtRec t p).le

theorem Rec.ofVersion_current (r : Rec) : r.ofVersion ntpFileVersion = r := by
  cases r with
  | host h => rfl
  | target t => rfl

section
variable {σ : Type} {ops : ReaderOps σ} (hops : ops.Continue) (buf : Vector U8 sizeofHostRec) (arg : σ)
  (recs : List RawRec) (hrecs : ∀ r ∈ recs, r.Tagged)
include hops hrecs

/-- A file of version `v` is read as its records. -/
theorem ntpReadFile_records {v : U32} (hlo : 2 ≤ v) (hhi : v ≤ 5) (h : FileHeader) :
    ntpReadFile (encodeFileHeader (h.atVersion v) ++ recs.flatMap (RawRec.bytes v)) buf.toList ops arg =
      { ret := 0, hdr := some (h.atVersion v), msg := none,
        arg := (recs.map fun r => r.toRec.ofVersion v).foldl ops.deliver arg } := by
  rw [ntpReadFile_of_goodHeader ops buf.toList arg (goodHeader_atVersion hlo hhi h),
    decodeFileHeader_encodeFileHeader]
  have hversion : (h.atVersion v).version = v := rfl
  rw [hversion, readLoop_records hops v recs hrecs (by simp)]
  rfl

/-- Record files round-trip in every version: a reader gets the records that were written at the sizes of
the version, in their order, with the fields the version lacks 0; and it gets what the writer of this
version wrote. -/
theorem record_files_round_trip :
    (∀ v : U32, 2 ≤ v → v ≤ 5 → ∀ h : FileHeader,
      ntpReadFile (encodeFileHeader (h.atVersion v) ++ recs.flatMap (RawRec.bytes v)) buf.toList ops arg =
        { ret := 0, hdr := some (h.atVersion v), msg := none,
          arg := (recs.map fun r => r.toRec.ofVersion v).foldl ops.deliver arg }) ∧
    ∀ (env : Machine) (role transport sampleEvery : U32),
      let hdr := ntpHeaderInit env role transport sampleEvery
      ∃ f, writeRecords (ntpWriterOpen .done hdr).2 recs = ⟨some f, recs.length⟩ ∧
        ntpReadFile f buf.toList ops arg =
          { ret := 0, hdr := some hdr, msg := none, arg := (recs.map RawRec.toRec).foldl ops.deliver arg } := by
  refine ⟨fun v hlo hhi h => ntpReadFile_records hops buf arg recs hrecs hlo hhi h, ?_⟩
  intro env role transport sampleEvery hdr
  refine ⟨encodeFileHeader hdr ++ recs.flatMap RawRec.encode, ?_, ?_⟩
  · refine (writeRecords_eq (encodeFileHeader hdr) 0 recs).trans ?_
    rw [Nat.zero_add]
  · have h := ntpReadFile_records hops buf arg recs hrecs (v := ntpFileVersion) (by decide) (by decide) hdr
    rw [ntpHeaderInit_atVersion] at h
    simp only [RawRec.bytes_current, Rec.ofVersion_current] at h
    exact h

end

theorem collectOps_continue : collectOps.Continue := ⟨fun _ _ => rfl, fun _ _ => rfl⟩

theorem foldl_collectOps (recs acc : List Rec) : recs.foldl collectOps.deliver acc = acc ++ recs := by
  induction recs generalizing acc with
  | nil => rw [List.foldl_nil, List.append_nil]
  | cons r recs ih =>
    have hstep : collectOps.deliver acc r = acc ++ [r] := by
      cases r with
      | host h => rfl
      | target t => rfl
    rw [List.foldl_cons, hstep, ih, List.append_assoc, List.singleton_append]

/-- What `load_run` gets of a file: the header and the records, as the offline join takes them. -/
theorem readRecordFile_records (buf : Vector U8 sizeofHostRec) {v : U32} (hlo : 2 ≤ v) (hhi : v ≤ 5)
    (h : FileHeader) (recs : List RawRec) (hrecs : ∀ r ∈ recs, r.Tagged) :
    readRecordFile buf.toList (encodeFileHeader (h.atVersion v) ++ recs.flatMap (RawRec.bytes v)) =
      some ⟨h.atVersion v, recs.map fun r => r.toRec.ofVersion v⟩ := by
  rw [readRecordFile, ntpReadFile_records collectOps_continue buf [] recs hrecs hlo hhi h, foldl_collectOps,
    List.nil_append]
  rfl

/-- A host record, then a target record that is shorter. -/
theorem record_files_round_trip_two :
    let recs := [RawRec.host { hdr := { kind := ntpRecHost }, ts := fun _ => 7, c2hSkbs := 9 } {},
      RawRec.target { hdr := { kind := ntpRecTarget }, ts := fun _ => 8, h2cSkbs := 9 } {}]
    (ntpReadFile (encodeFileHeader (FileHeader.atVersion 3 {}) ++ recs.flatMap (RawRec.bytes 3))
      (List.replicate sizeofHostRec 0xff) collectOps []).arg = recs.map fun r => r.toRec.ofVersion 3 := by
  intro recs
  have hrecs : ∀ r ∈ recs, r.Tagged := by
    simp [recs, RawRec.Tagged]
  have h := (record_files_round_trip collectOps_continue (Vector.replicate sizeofHostRec 0xff) [] recs hrecs).1
    3 (by decide) (by decide) {}
  rw [Vector.toList_replicate] at h
  rw [h]
  rfl

/-! ## What is accepted -/

/-- Whole records of a version, one after the other: the first byte of each is its kind, and its length
is the one the version gives the kind. -/
inductive Records (version : U32) : List U8 → Prop
  | nil : Records version []
  | cons {r f : List U8} {k : U8} (hk : r.head? = some k) (hsize : recSize version k = some r.length)
      (hf : Records version f) : Records version (r ++ f)

/-- A header and whole records. -/
def WellFormed (f : List U8) : Prop :=
  ∃ m recs, f = m ++ recs ∧ GoodHeader m ∧ Records (decodeFileHeader m).version recs

/-- A header and whole records, then a part of the header of a record. -/
def CutInRecHdr (f : List U8) : Prop :=
  ∃ m recs part, f = m ++ (recs ++ part) ∧ GoodHeader m ∧ Records (decodeFileHeader m).version recs ∧
    0 < part.length ∧ part.length < sizeofRecHdr

/-- A record is told from what follows by its first byte. -/
theorem record_append_inj {v : U32} {r r' f f' : List U8} {k k' : U8} (hk : r.head? = some k)
    (hsize : recSize v k = some r.length) (hk' : r'.head? = some k') (hsize' : recSize v k' = some r'.length)
    (h : r ++ f = r' ++ f') : r = r' ∧ f = f' := by
  obtain ⟨b, rfl⟩ := List.head?_eq_some_iff.mp hk
  obtain ⟨b', rfl⟩ := List.head?_eq_some_iff.mp hk'
  obtain ⟨rfl, -⟩ : k = k' ∧ b ++ f = b' ++ f' := by simpa using h
  have hlen : (k :: b).length = (k :: b').length := Option.some.inj (hsize.symm.trans hsize')
  exact List.append_inj h hlen

theorem Records.not_short {v : U32} {f : List U8} (h : Records v f) (hpos : 0 < f.length) :
    sizeofRecHdr ≤ f.length := by
  cases h with
  | nil => simp at hpos
  | cons hk hsize hf =>
    have hmin := (recSize_bounds hsize).1
    rw [List.length_append]
    omega

/-- Whole records are not whole records and a part of a header. -/
theorem Records.not_cut {v : U32} {f part : List U8} (h : Records v f) (hfull : Records v (f ++ part))
    (hpos : 0 < part.length) : sizeofRecHdr ≤ part.length := by
  induction h with
  | nil => exact hfull.not_short hpos
  | @cons r f k hk hsize _ ih =>
    rw [List.append_assoc] at hfull
    generalize hg : r ++ (f ++ part) = g at hfull
    cases hfull with
    | nil =>
      have hmin := (recSize_bounds hsize).1
      have hlen := congrArg List.length hg
      rw [List.length_append, List.length_nil] at hlen
      omega
    | cons hk' hsize' hf' =>
      obtain ⟨-, rfl⟩ := record_append_inj hk hsize hk' hsize' hg
      exact ih hf'

theorem not_cutInRecHdr_of_wellFormed {f : List U8} (h : WellFormed f) : ¬ CutInRecHdr f := by
  rintro ⟨m, recs, part, rfl, hm, hrecs, hpos, hlt⟩
  obtain ⟨m', recs', heq, hm', hrecs'⟩ := h
  obtain ⟨rfl, rfl⟩ := List.append_inj heq (hm.length_eq.trans hm'.length_eq.symm)
  have hle := hrecs.not_cut hrecs' hpos
  omega

/-- What the loop can find in the rest of the file. -/
theorem rest_cases (v : U32) (f : List U8) :
    f.length < sizeofRecHdr ∨
    (∃ hdr rest k, f = hdr ++ rest ∧ hdr.length = sizeofRecHdr ∧ hdr.head? = some k ∧
      (recSize v k = none ∨ ∃ n, recSize v k = some n ∧ f.length < n)) ∨
    ∃ r rest k, f = r ++ rest ∧ r.head? = some k ∧ recSize v k = some r.length := by
  rcases Nat.lt_or_ge f.length sizeofRecHdr with hshort | hlong
  · exact Or.inl hshort
  right
  cases f with
  | nil => exact absurd hlong (by decide)
  | cons k bytes =>
    have hsplit : ∀ n, sizeofRecHdr ≤ n → ((k :: bytes).take n).head? = some k := by
      intro n hn
      rw [List.head?_take, if_neg (by simp only [sizeofRecHdr] at hn; omega), List.head?_cons]
    cases hsize : recSize v k with
    | none =>
      exact Or.inl ⟨_, _, k, (List.take_append_drop sizeofRecHdr _).symm, List.length_take_of_le hlong,
        hsplit _ le_rfl, Or.inl hsize⟩
    | some n =>
      rcases Nat.lt_or_ge (k :: bytes).length n with hcut | hwhole
      · exact Or.inl ⟨_, _, k, (List.take_append_drop sizeofRecHdr _).symm, List.length_take_of_le hlong,
          hsplit _ le_rfl, Or.inr ⟨n, hsize, hcut⟩⟩
      · refine Or.inr ⟨_, _, k, (List.take_append_drop n _).symm, hsplit n (recSize_bounds hsize).1.le, ?_⟩
        rw [hsize, List.length_take_of_le hwhole]

section
variable {σ : Type} {ops : ReaderOps σ} (hops : ops.Continue)
include hops

/-- Whole records and too little for another header are read without an error. -/
theorem readLoop_ret_of_records {v : U32} {recs part : List U8} (h : Records v recs)
    (hpart : part.length < sizeofRecHdr) {buf : List U8} (hbuf : buf.length = sizeofHostRec) (arg : σ) :
    (readLoop v ops (recs ++ part) buf arg).1 = 0 := by
  induction h generalizing buf arg with
  | nil => rw [List.nil_append, readLoop_short ops arg hpart]
  | cons hk hsize _ ih =>
    rw [List.append_assoc, readLoop_record ops arg hbuf hk hsize, if_neg (by simp [deliverUnion_ret hops])]
    exact ih (length_unionOf (recSize_bounds hsize).2) _

/-- Nothing else is. -/
theorem records_of_readLoop_ret {v : U32} {f buf : List U8} (hbuf : buf.length = sizeofHostRec) {arg : σ}
    (h : ¬ (readLoop v ops f buf arg).1 < 0) :
    ∃ recs part, f = recs ++ part ∧ Records v recs ∧ part.length < sizeofRecHdr := by
  -- on the length of the file: a whole record is taken off at each turn
  induction hn : f.length using Nat.strong_induction_on generalizing f buf arg with
  | _ n ih =>
    rcases rest_cases v f with hshort | ⟨hdr, rest, k, rfl, hhdr, hk, hbad⟩ | ⟨r, rest, k, rfl, hk, hsize⟩
    · exact ⟨[], f, rfl, .nil, hshort⟩
    · rcases hbad with hnone | ⟨m, hsize, hcut⟩
      · rw [readLoop_corrupt ops arg hbuf hhdr hk hnone] at h
        exact absurd (show (-1 : Int) < 0 by decide) h
      · rw [readLoop_truncated ops arg hbuf hhdr hk hsize hcut] at h
        exact absurd (show (-1 : Int) < 0 by decide) h
    · have hmin := (recSize_bounds hsize).1
      rw [readLoop_record ops arg hbuf hk hsize, if_neg (by simp [deliverUnion_ret hops])] at h
      rw [List.length_append] at hn
      obtain ⟨recs, part, rfl, hrecs, hpart⟩ :=
        ih rest.length (by omega) (length_unionOf (recSize_bounds hsize).2) h rfl
      exact ⟨r ++ recs, part, by rw [List.append_assoc], .cons hk hsize hrecs, hpart⟩

/-- What `ntp_read_file` accepts. -/
theorem ntpReadFile_ret_iff (f : List U8) {buf : List U8} (hbuf : buf.length = sizeofHostRec) (arg : σ) :
    (ntpReadFile f buf ops arg).ret = 0 ↔ WellFormed f ∨ CutInRecHdr f := by
  constructor
  · intro h
    obtain ⟨m, rest, rfl, hm⟩ := goodHeader_of_ret ops buf arg h
    rw [ntpReadFile_of_goodHeader ops buf arg hm] at h
    have hret : ¬ (readLoop (decodeFileHeader m).version ops rest buf arg).1 < 0 := by
      intro hneg
      simp [hneg] at h
    obtain ⟨recs, part, rfl, hrecs, hpart⟩ := records_of_readLoop_ret hops hbuf hret
    rcases Nat.eq_zero_or_pos part.length with hzero | hpos
    · rw [List.length_eq_zero_iff.mp hzero, List.append_nil]
      exact Or.inl ⟨m, recs, rfl, hm, hrecs⟩
    · exact Or.inr ⟨m, recs, part, rfl, hm, hrecs, hpos, hpart⟩
  · intro h
    obtain ⟨m, recs, part, rfl, hm, hrecs, hpart⟩ : ∃ m recs part, f = m ++ (recs ++ part) ∧ GoodHeader m ∧
        Records (decodeFileHeader m).version recs ∧ part.length < sizeofRecHdr := by
      rcases h with ⟨m, recs, rfl, hm, hrecs⟩ | ⟨m, recs, part, rfl, hm, hrecs, -, hlt⟩
      · exact ⟨m, recs, [], by rw [List.append_nil], hm, hrecs, Nat.zero_lt_succ 7⟩
      · exact ⟨m, recs, part, rfl, hm, hrecs, hlt⟩
    rw [ntpReadFile_of_goodHeader ops buf arg hm]
    show (if (readLoop (decodeFileHeader m).version ops (recs ++ part) buf arg).1 < 0 then (-1 : Int) else 0) = 0
    rw [readLoop_ret_of_records hops hrecs hpart hbuf arg]
    rfl

/-- The reader accepts exactly the well-formed files, but for those that end in the header of a
record. -/
theorem accepts_well_formed_iff (f : List U8) (buf : Vector U8 sizeofHostRec) (arg : σ) :
    ((ntpReadFile f buf.toList ops arg).ret = 0 ↔ WellFormed f) ↔ ¬ CutInRecHdr f := by
  rw [ntpReadFile_ret_iff hops f (by simp) arg]
  constructor
  · intro h hcut
    exact not_cutInRecHdr_of_wellFormed (h.mp (Or.inr hcut)) hcut
  · intro hcut
    constructor
    · intro h
      exact h.resolve_right hcut
    · exact Or.inl

end

/-- Records of a version are whole ones. -/
theorem records_bytes (v : U32) {recs : List RawRec} (hrecs : ∀ r ∈ recs, r.Tagged) :
    Records v (recs.flatMap (RawRec.bytes v)) := by
  induction recs with
  | nil => exact .nil
  | cons r recs ih =>
    obtain ⟨hr, hrest⟩ := List.forall_mem_cons.mp hrecs
    exact .cons (r.head?_bytes v) (RawRec.recSize_kind v hr) (ih hrest)

theorem wellFormed_records {v : U32} (hlo : 2 ≤ v) (hhi : v ≤ 5) (h : FileHeader) {recs : List RawRec}
    (hrecs : ∀ r ∈ recs, r.Tagged) :
    WellFormed (encodeFileHeader (h.atVersion v) ++ recs.flatMap (RawRec.bytes v)) := by
  refine ⟨_, _, rfl, goodHeader_atVersion hlo hhi h, ?_⟩
  rw [decodeFileHeader_encodeFileHeader]
  exact records_bytes v hrecs

/-- A file of version 3 with a host record and a target record is accepted. -/
theorem accepts_well_formed_iff_two_records :
    let recs := [RawRec.host { hdr := { kind := ntpRecHost }, ts := fun _ => 7, c2hSkbs := 9 } {},
      RawRec.target { hdr := { kind := ntpRecTarget }, ts := fun _ => 8, h2cSkbs := 9 } {}]
    let f := encodeFileHeader (FileHeader.atVersion 3 {}) ++ recs.flatMap (RawRec.bytes 3)
    ¬ CutInRecHdr f ∧ (ntpReadFile f (Vector.replicate sizeofHostRec 0).toList collectOps []).ret = 0 := by
  intro recs f
  have hrecs : ∀ r ∈ recs, r.Tagged := by
    simp [recs, RawRec.Tagged]
  have hf : WellFormed f := wellFormed_records (by decide) (by decide) {} hrecs
  have hcut := not_cutInRecHdr_of_wellFormed hf
  exact ⟨hcut, ((accepts_well_formed_iff collectOps_continue f _ []).mpr hcut).mpr hf⟩

/-- The header of a file of this version, and the first byte of a record. -/
def cutFile : List U8 := encodeFileHeader (FileHeader.atVersion ntpFileVersion {}) ++ ([] ++ [ntpRecHost])

theorem cutFile_cutInRecHdr : CutInRecHdr cutFile :=
  ⟨_, [], [ntpRecHost], rfl, goodHeader_atVersion (by decide) (by decide) _, .nil, by decide, by decide⟩

/-- A file that ends after the first byte of a record is read without an error. -/
theorem cut_header_is_accepted :
    ¬ ((ntpReadFile cutFile (Vector.replicate sizeofHostRec 0).toList collectOps []).ret = 0 ↔
      WellFormed cutFile) := by
  intro h
  have hbuf : (Vector.replicate sizeofHostRec (0 : U8)).toList.length = sizeofHostRec := Vector.length_toList
  have hret := (ntpReadFile_ret_iff collectOps_continue cutFile hbuf []).mpr (Or.inr cutFile_cutInRecHdr)
  exact not_cutInRecHdr_of_wellFormed (h.mp hret) cutFile_cutInRecHdr

end Ntprof
