import Ntprof.Record

/-!
# Record files (`src/trace_file.c`)

A record file is a header followed by raw records.
-/

namespace Ntprof

/-- `NTP_ROLE_HOST`. -/
def ntpRoleHost : U32 := 1

/-- `NTP_ROLE_TARGET`. -/
def ntpRoleTarget : U32 := 2

/-- `struct ntp_file_header`. -/
structure FileHeader where
  magic : Vector U8 8 := Vector.replicate _ 0
  version : U32 := 0
  headerSize : U32 := 0
  hostRecSize : U32 := 0
  tgtRecSize : U32 := 0
  role : U32 := 0
  transport : U32 := 0
  sampleEvery : U32 := 0
  startMonoNs : U64 := 0
  startRealNs : U64 := 0
  hostname : Vector U8 64 := Vector.replicate _ 0
  kernel : Vector U8 64 := Vector.replicate _ 0
  deriving DecidableEq

/-- What `ntp_read_file` delivers of a file it can read: the header, and the records in file order. -/
structure RecordFile where
  hdr : FileHeader
  recs : List Rec
  deriving DecidableEq

end Ntprof
