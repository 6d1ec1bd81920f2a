import Ntprof.Stats

/-!
# The dump of record files (`src/offline.c`)

`cmd_dump` prints each record as a row of fields with commas between them: the id of the command, the queues, and the
timestamps relative to the first of them, empty where an event was not seen.
-/

namespace Ntprof

/-- `%lld` of `printf`. -/
def signedText (i : ℤ) : List U8 := if i < 0 then 0x2d#8 :: unsignedText i.natAbs else unsignedText i.natAbs

/-- `%#x` of `printf`. -/
def altHexText (n : ℕ) : List U8 :=
  if n = 0 then [0x30#8] else 0x30#8 :: 0x78#8 :: (Nat.toDigits 16 n).map fun c => BitVec.ofNat 8 c.toNat

/-- Fields with a comma in front of each. -/
def commas (fields : List (List U8)) : List U8 := fields.flatMap (0x2c#8 :: ·)

/-- `dump_id`. -/
def dumpId (h : RecHdr) (id : CmdId) : List U8 :=
  unsignedText h.transport.toNat ++ commas [altHexText h.flags.toNat, unsignedText h.cpu.toNat,
    unsignedText id.cntlid.toNat, unsignedText id.qid.toNat, unsignedText id.cid.toNat, unsignedText id.opcode.toNat,
    unsignedText id.nsid.toNat, unsignedText id.slba.toNat, unsignedText id.nlb.toNat]

/-- The first loop of `dump_ts`: the first timestamp. -/
def dumpBase (ts : List U64) : U64 :=
  ts.foldl (fun base t => if t ≠ 0 ∧ (base = 0 ∨ t < base) then t else base) 0

/-- A timestamp in `dump_ts`. -/
def dumpTime (base t : U64) : List U8 := if t ≠ 0 then signedText (t - base).toInt else []

/-- `dump_ts`. -/
def dumpTs (ts : List U64) : List U8 := commas (unsignedText (dumpBase ts).toNat :: ts.map (dumpTime (dumpBase ts)))

/-- `dump_host`. -/
def dumpHost (h : HostRec) : List U8 :=
  text "host," ++ dumpId h.hdr h.id ++
    commas [unsignedText h.bytes.toNat, cString h.disk, unsignedText h.ctrlInstance.toNat,
      unsignedText h.qUnsent.toNat, unsignedText h.qInflight.toNat] ++
    dumpTs (HostTs.all.map h.ts) ++ commas [unsignedText h.c2hBusyNs.toNat, unsignedText h.c2hSkbs.toNat] ++ [0x0a#8]

/-- `dump_target`. -/
def dumpTarget (t : TgtRec) : List U8 :=
  text "target," ++ dumpId t.hdr t.id ++
    commas [unsignedText t.bytes.toNat, [], [], unsignedText t.qOutstanding.toNat, unsignedText t.qRespQueue.toNat] ++
    dumpTs (TgtTs.all.map t.ts) ++ commas [unsignedText t.h2cBusyNs.toNat, unsignedText t.h2cSkbs.toNat] ++ [0x0a#8]

/-- The row of a record. -/
def dumpRec : Rec → List U8
  | .host h => dumpHost h
  | .target t => dumpTarget t

/-- The rows that `cmd_dump` prints for the records of its files. -/
def dumpRecs (recs : List Rec) : List U8 := recs.flatMap dumpRec

end Ntprof
