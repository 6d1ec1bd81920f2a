import Ntprof.Recording
import Ntprof.Lib.Getopt

/-!
# The command line (`src/main.c`)

`main` scans its words twice: first for the ini file and the verbosity, then, after the ini file was read, for the
options that override it. Between the two scans `getopt_long` has moved the files behind the options.
-/

namespace Ntprof.CommandLine

open Getopt (Spec Scan)

/-- The options of `long_opts` and `short_opts`. -/
inductive Opt where
  | config
  | role
  | transport
  | duration
  | interval
  | sample
  | output
  | json
  | session
  | ioType
  | size
  | aggregation
  | offline
  | btf
  | exactQueues
  | kprobes
  | fentry
  | spdkHost
  | spdkTarget
  | detail
  | allGroups
  | verbose
  | version
  | help
  deriving DecidableEq, Repr

/-- `required_argument`. -/
def Opt.hasArg : Opt → Bool
  | .offline | .exactQueues | .kprobes | .fentry | .detail | .allGroups | .verbose | .version | .help => false
  | _ => true

/-- `long_opts`. -/
def longOpts : List (List U8 × Opt) :=
  [(text "config", .config), (text "role", .role), (text "transport", .transport), (text "duration", .duration),
    (text "interval", .interval), (text "sample", .sample), (text "output", .output), (text "json", .json),
    (text "session", .session), (text "io-type", .ioType), (text "size", .size), (text "aggregation", .aggregation),
    (text "offline", .offline), (text "btf", .btf), (text "exact-queues", .exactQueues), (text "kprobes", .kprobes),
    (text "fentry", .fentry), (text "spdk-host", .spdkHost), (text "spdk-target", .spdkTarget),
    (text "detail", .detail), (text "all-groups", .allGroups), (text "verbose", .verbose),
    (text "version", .version), (text "help", .help)]

/-- `short_opts`. -/
def shortOpts (c : U8) : Option Opt :=
  if c = 0x63#8 then some .config
  else if c = 0x72#8 then some .role
  else if c = 0x74#8 then some .transport
  else if c = 0x64#8 then some .duration
  else if c = 0x69#8 then some .interval
  else if c = 0x73#8 then some .sample
  else if c = 0x6f#8 then some .output
  else if c = 0x6a#8 then some .json
  else if c = 0x76#8 then some .verbose
  else if c = 0x56#8 then some .version
  else if c = 0x68#8 then some .help
  else none

/-- What `getopt_long` is called with. -/
def options : Spec U8 Opt :=
  { dash := 0x2d#8
    eq := 0x3d#8
    short := shortOpts
    long := longOpts
    hasArg := Opt.hasArg }

/-- `parse_uint`. -/
def parseUint (v : List U8) (min : U32) : Option U32 :=
  let (x, rest, _) := strtoull v
  if v.length = 0 ∨ rest.length ≠ 0 ∨ x < min.setWidth 64 ∨ 0xffffffff#64 < x then none else some (x.setWidth 32)

/-- Why `apply_option` fails: `bad` names the option and the value; nothing is said of what is not an option there. -/
inductive OptionError where
  | bad (o : Opt) (v : List U8)
  | silent
  deriving DecidableEq

/-- `v ? … : bad(o, v)`. -/
def orBad (o : Opt) (v : List U8) : Option RunConfig → Except OptionError RunConfig
  | none => .error (.bad o v)
  | some c => .ok c

/-- A setter of the configuration file, as `apply_option` uses it. -/
def setWith (c : RunConfig) (p : Int × NtpConfig) : Option RunConfig :=
  if p.1 = 0 then some { c with toNtpConfig := p.2 } else none

/-- `apply_option`. -/
def applyOption (c : RunConfig) (o : Opt) (v : List U8) : Except OptionError RunConfig :=
  match o with
  | .role =>
    if v = text "host" then .ok { c with role := ntpRoleHost }
    else if v = text "target" then .ok { c with role := ntpRoleTarget }
    else if v = text "both" then .ok { c with role := ntpRoleBoth }
    else .error (.bad o v)
  | .transport =>
    if v = text "tcp" then .ok { c with transport := .tcp }
    else if v = text "rdma" then .ok { c with transport := .rdma }
    else .error (.bad o v)
  | .duration => orBad o v ((parseUint v 1).map fun x => { c with durationS := x })
  | .interval => orBad o v ((parseUint v 1).map fun x => { c with intervalS := x })
  | .sample => orBad o v ((parseUint v 1).map fun x => { c with sampleEvery := x })
  | .output => .ok { c with output := cutText 256 v }
  | .json => .ok { c with json := cutText 256 v }
  | .session => .ok { c with session := cutText 64 v }
  | .ioType => orBad o v (setWith c (configSetIoType c.toNtpConfig v))
  | .size => orBad o v (setWith c (configSetSizes c.toNtpConfig v))
  | .aggregation => orBad o v (setWith c (configSetAggr c.toNtpConfig v))
  | .offline => .ok { c with online := false }
  | .btf => .ok { c with btfDir := cutText 256 v }
  | .exactQueues => .ok { c with exactQueues := true }
  | .kprobes => .ok { c with forceKprobes := true }
  | .fentry => .ok { c with forceFentry := true }
  | .spdkHost => .ok { c with spdkHost := cutText 512 v }
  | .spdkTarget => .ok { c with spdkTarget := cutText 512 v }
  | .detail => .ok { c with repDetail := true }
  | .allGroups => .ok { c with repAllGroups := true }
  | .config | .verbose | .version | .help => .error .silent

/-- The commands. -/
inductive Cmd where
  | record
  | report
  | compare
  | probe
  | dump
  deriving DecidableEq, Repr

/-- What `main` comes to: an exit of its own, or a command with its configuration, its files and `ntp_verbose`. -/
inductive Outcome where
  | usage (failed : Bool)
  | version
  | badIni (e : IniError)
  | badOption (e : OptionError)
  | recordTakesNoFiles
  | compareNeedsTwoRuns
  | unknownCommand (cmd : List U8)
  | run (cmd : Cmd) (c : RunConfig) (files : List (List U8)) (verbose : ℕ)
  deriving DecidableEq

/-- The first pass: the ini file and verbosity. `bad` says that the options end with an error of `getopt_long`. -/
def firstPass (bad : Bool) (ini : Option (List U8)) (verbose : ℕ) :
    List (Opt × Option (List U8)) → Except Outcome (Option (List U8) × ℕ)
  | [] => if bad then .error (.usage true) else .ok (ini, verbose)
  | (o, arg) :: os =>
    match o with
    | .config => firstPass bad arg verbose os
    | .verbose => firstPass bad ini (verbose + 1) os
    | .help => .error (.usage false)
    | .version => .error .version
    | _ => firstPass bad ini verbose os

/-- The second pass: everything except `--config` and `--verbose`. -/
def secondPass (bad : Bool) (c : RunConfig) : List (Opt × Option (List U8)) → Except OptionError RunConfig
  | [] => if bad then .error .silent else .ok c
  | (o, arg) :: os =>
    if o = .config ∨ o = .verbose ∨ o = .version then secondPass bad c os
    else
      match applyOption c o (arg.getD []) with
      | .error e => .error e
      | .ok c => secondPass bad c os

/-- `config_defaults` and the ini file, if one is given; `files` is what can be read. -/
def startConfig (files : List U8 → Option (List U8)) (ini : Option (List U8)) : Except IniError RunConfig :=
  match ini with
  | none => .ok { toNtpConfig := configDefaults }
  | some path =>
    match configLoadIni configDefaults (files path) with
    | (_, _, some e) => .error e
    | (_, c, none) => .ok { toNtpConfig := c }

/-- The end of `main`: the command. -/
def runCommand (cmd : List U8) (c : RunConfig) (words : List (List U8)) (verbose : ℕ) : Outcome :=
  if cmd = text "record" then if words.length ≠ 0 then .recordTakesNoFiles else .run .record c words verbose
  else if cmd = text "report" then .run .report c words verbose
  else if cmd = text "compare" then
    if words.length ≠ 2 then .compareNeedsTwoRuns else .run .compare c words verbose
  else if cmd = text "probe" then .run .probe c [] verbose
  else if cmd = text "dump" then .run .dump c words verbose
  else .unknownCommand cmd

/-- `main`, after the name of the program; `files` is what can be read. -/
def main (files : List U8 → Option (List U8)) (argv : List (List U8)) : Outcome :=
  match argv with
  | [] => .usage true
  | cmd :: args =>
    if cmd = text "-h" ∨ cmd = text "--help" then .usage false
    else if cmd = text "version" ∨ cmd = text "-V" ∨ cmd = text "--version" then .version
    else
      let first := options.scan args
      match firstPass first.bad none 0 first.found with
      | .error out => out
      | .ok (ini, verbose) =>
        match startConfig files ini with
        | .error e => .badIni e
        | .ok c =>
          -- `optind = 0`: the words stand as the first scan left them
          let second := options.scan (options.permuted first)
          match secondPass second.bad c second.found with
          | .error e => .badOption e
          | .ok c => runCommand cmd c second.rest verbose

end Ntprof.CommandLine
