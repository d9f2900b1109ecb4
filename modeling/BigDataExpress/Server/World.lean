/-
The state the scheduler's handlers share, and the calls they make to
the outside.

# The world

`World` is the site store (the `rawjob`, `sjob`, `block`, `site` and
`sjobevent` collections), the guid source, the part of the resource
graph the handlers ask for (is a launcher registered), and what has
been exchanged with the outside: every external call with its answer
(`log`), the status reports the launcher agent has published
(`reports`) and those the server has dispatched (`delivered`).

An sjob's `stage.*` fields are display fields: handlers write them and
nothing reads them. They are kept beside the documents (`stages`), so
that a stage write visibly changes nothing else. The guid source is the
list of the tokens handed out so far (`guids`): a token is its position,
and the entry is the sjob it was drawn for, which only the model keeps.

# The calls

`Call` lists the requests that leave the server: portal posts to the
server of a site, SENSE requests of `wan.cc`, and RPC calls to the
launcher agent. A reply has the fields the caller looks at, and an
absent field is `none` where the code tells it from a present one; a
portal that cannot be reached answers with HTTP code 0 and no fields.
Where a request is made on behalf of an sjob, the call is labelled with
it (`job`), and a launch with the block it is for; the labels are the
model's, not part of the request.
-/
import BigDataExpress.Lib.Pool
import BigDataExpress.Server.Types

namespace BigDataExpress

open Interact

-- =========================================================== requests

/-- Parameters of an `sdn_reserve_request` (`params.dtns` and
`params.sdn_setup`); the constant fields are left out. -/
structure ReserveRequest where
  sdnSetup : Bool
  vlanId : Int
  oscarsVlanId : Int
  rate : Int
  srcId : String
  dstId : String
  srcIp : String
  dstIp : String
  srcMac : String
  dstMac : String
deriving DecidableEq

/-- Parameters of an `sdn_release_request`. -/
structure ReleaseRequest where
  installedPathId : Int
  dtn : String
  ip : String
deriving DecidableEq

/-- The external calls of the scheduler. -/
inductive Call
  /-- portal: `get_available_best_effort_dtn` -/
  | availableDtn (url storage remote : String)
  /-- portal: `sdn_reserve_request` -/
  | sdnReserve (job : Oid) (url : String) (req : ReserveRequest)
  /-- portal: `sdn_release_request` -/
  | sdnRelease (job : Oid) (url : String) (req : ReleaseRequest)
  /-- portal: `dtn_icmp_ping` -/
  | icmpPing (url dtn destination : String)
  /-- portal: `verify_checksum` -/
  | verifyChecksum (url dtn : String) (sums : Checksum)
  /-- SENSE: create, reserve, commit a WAN path -/
  | wanCreate (srcStp dstStp srcVlan dstVlan : String)
  | wanReserve (uuid srcStp dstStp : String) (srcVlan dstVlan : Int)
  | wanCommit (uuid : String)
  /-- SENSE: one attempt to release, terminate, delete a WAN path; a
  path whose setup fails is deleted without a job at hand -/
  | wanRelease (job : Oid) (uuid : String)
  | wanTerminate (job : Oid) (uuid : String)
  | wanDelete (job : Option Oid) (uuid : String)
  /-- RPC to the launcher: `launch`, of a block -/
  | launch (block : Oid) (cmd : LaunchCmd)
  /-- RPC to the launcher: `mld_rate` -/
  | mldRate (task : Guid)
  /-- `utils::epoch_ms` -/
  | epochMs

/-- Answer to `availableDtn`. -/
structure DtnAnswer where
  http : Int
  storage : Option String
  privateDtns : List Dtn
  publicDtns : List Dtn

/-- Answer to `sdnReserve`; `code.asInt()` of a missing code is 0. -/
structure ReserveAnswer where
  code : Int
  installedPathId : Option Int
  errorCode : String
  description : String

/-- Answer to `icmpPing`. -/
structure PingAnswer where
  http : Int
  code : Option Int
  error : String

/-- Answer to `verifyChecksum`. -/
structure VerifyAnswer where
  http : Int
  code : Option Int

/-- Answer to `wanCreate`; no `uuid` is the empty one. -/
structure WanCreateRes where
  uuid : String
  srcVlan : Int
  dstVlan : Int
  maxBw : Int

/-- Answer to `launch`: a timeout has an `error` too. -/
structure LaunchAnswer where
  error : Option String

/-- Answer to `mldRate`. -/
structure RateAnswer where
  timedOut : Bool
  code : Int
  transferred : Int

/-- The reply type of each call; the SENSE requests after `create`
answer with an HTTP code. -/
def Reply : Call → Type
  | .availableDtn .. => DtnAnswer
  | .sdnReserve .. => ReserveAnswer
  | .sdnRelease .. => Unit
  | .icmpPing .. => PingAnswer
  | .verifyChecksum .. => VerifyAnswer
  | .wanCreate .. => WanCreateRes
  | .wanReserve .. => Int
  | .wanCommit .. => Int
  | .wanRelease .. => Int
  | .wanTerminate .. => Int
  | .wanDelete .. => Int
  | .launch .. => LaunchAnswer
  | .mldRate .. => RateAnswer
  | .epochMs => Int

-- ============================================================ messages

/-- The parameters of a status report. -/
structure StatusParams where
  state : Int
  errorCode : Int
deriving DecidableEq

/-- A report published on `ld/status/<task>`. `launch` says which launch
it is about (its position among all launches issued); the message does
not carry that, and no handler sees it. -/
structure Report where
  launch : Nat
  task : Guid
  params : StatusParams
deriving DecidableEq

/-- Which handler made a call: the periodic `schedule` and `poll_rate`
passes, or the handler of the n-th dispatched report. -/
inductive HandlerId
  | schedule
  | pollRate
  | status (n : Nat)
deriving DecidableEq

/-- A call that was made and its answer. -/
structure LogEntry where
  owner : HandlerId
  call : Call
  reply : Reply call

-- =========================================================== the world

structure World where
  rawjobs : List Rawjob
  sjobs : List Sjob
  sites : List Site
  blockDocs : List BlockDoc
  sjobevents : List (Oid × SjobState)
  stages : Oid → StageName → Option SjobStage
  guids : List Oid
  hasLauncher : Bool
  log : List LogEntry
  reports : List Report
  delivered : List Report

namespace World

/-- Record a call and its answer. -/
def record (h : HandlerId) (w : World) (e : Call) (r : Reply e) : World :=
  { w with log := w.log ++ [⟨h, e, r⟩] }

/-- The environment of a handler: every reply is possible, and every
call is recorded under the handler's name. -/
def env (h : HandlerId) : Env World Call Reply where
  eff := record h
  adm _ _ _ := True

/-- The sjob document with a given id. -/
def sjob? (w : World) (sid : Oid) : Option Sjob :=
  w.sjobs.find? (·.id == sid)

/-- The rawjob document with a given id. -/
def rawjob? (w : World) (rid : Oid) : Option Rawjob :=
  w.rawjobs.find? (·.id == rid)

end World

/-- The launch commands recorded in a log, in order, with the handler
that issued them. -/
def launchesOf (log : List LogEntry) : List (HandlerId × LaunchCmd) :=
  log.filterMap fun x => match x with
    | ⟨h, .launch _ cmd, _⟩ => some (h, cmd)
    | _ => none

/-- A scheduler handler. -/
abbrev Handler (α : Type) : Type := Prog World Call Reply α

/-- Make an external call. -/
abbrev ask (e : Call) : Handler (Reply e) := Prog.ask e

/-- The configuration the modelled handlers read. -/
structure Conf where
  /-- `bde.agents.ld.checksum_enable` -/
  ldChecksum : Bool
  /-- user and password authentication, or proxy certificates -/
  ldAuth : Option (String × String)
  /-- `inactive_timeout_ms` -/
  inactiveTimeoutMs : Int
  /-- `max_concurrent_flows_per_job` -/
  maxConcurrentFlowsPerJob : Int

/-- The values the constructor of `Scheduler` fixes, for a given
checksum and authentication configuration. -/
def Conf.default (checksum : Bool) (auth : Option (String × String)) :
    Conf where
  ldChecksum := checksum
  ldAuth := auth
  inactiveTimeoutMs := 300000
  maxConcurrentFlowsPerJob := 1

end BigDataExpress
