/-
The data model of the BDE server: job, flow and block records, DTN
descriptions, launch commands (server/typedefs.h and the documents of
the `rawjob`, `sjob`, `block` and `site` collections).

Documents are JSON objects in the source; each record here has the
fields some modelled function reads. Mongo object ids and guids are
opaque tokens there and natural numbers here. Byte counts and
timestamps are the source's signed 64-bit values, as integers; rates
(doubles, written for display only) are left out.
-/
import Mathlib.Logic.Basic

namespace BigDataExpress

/-- A Mongo object id. -/
abbrev Oid : Type := Nat

/-- A `utils::guid()`. -/
abbrev Guid : Type := Nat

-- ============================================================== states

inductive RawjobState
  | waiting | transferring | finished | error
deriving DecidableEq

inductive SjobState
  | waiting | transferring | finished | error
  | bootstrap | dtnMatching | wanSetup | sdnSetup | pathVerification
  | launching | checksumVerification | sdnTeardown | wanTeardown
deriving DecidableEq

inductive BlockState
  | waiting | transferring | finished
deriving DecidableEq

inductive FlowState
  | scheduling | setting | transferring | waiting | waitingToBeTeared
  | tearing | done | error
deriving DecidableEq

/-- The state of one stage of an sjob. -/
inductive SjobStage
  | pending | working | success | error
deriving DecidableEq

/-- The stage names of an sjob, as listed above `sjob_stage`. -/
inductive StageName
  | bootstrapGeneral | bootstrapQuery | bootstrapMatch
  | networkGeneral | networkPlanning | networkPublic | networkWanStatic
  | networkWanDynamic | networkLanSrc | networkLanDst | networkPing
  | transferGeneral | transferLaunch | transferTransfer
  | transferChecksum
  | teardownGeneral | teardownPublic | teardownWanDynamic
  | teardownLanSrc | teardownLanDst
deriving DecidableEq

-- ================================================================ DTNs

/-- What identifies a site in DTN and job documents. -/
structure SiteInfo where
  url : String
  siteAbbrev : String
deriving DecidableEq

/-- A SENSE service termination point. -/
structure Stp where
  name : String
  localVlanConstraints : Option String
deriving DecidableEq

/-- The first circuit of a static WAN path. -/
structure Circuit where
  bandwidth : Int
  localVlanId : Int
  remoteVlanId : Int
deriving DecidableEq

structure StaticPath where
  remoteSite : String
  circuits : List Circuit
deriving DecidableEq

/-- A DTN as a site describes it to the scheduler; `site`, `wanUuid` and
`pathId` are filled in during scheduling (`""` and `-1` for none). -/
structure Dtn where
  id : String
  ip : String
  dataIp : String
  dataMac : String
  dtpCtrlPort : Int
  sdnSetup : Bool
  dataVlanId : Int
  wanStatic : List StaticPath
  stp : Option Stp
  site : SiteInfo
  wanUuid : String
  pathId : Int
deriving DecidableEq

-- ============================================================ transfers

/-- One `[src, dst, size]` entry of a block's file list. -/
structure FileEntry where
  src : String
  dst : String
  size : Int
deriving DecidableEq

/-- The checksum section of a block document. -/
structure Checksum where
  algorithm : String
  checksums : List (String × String)
deriving DecidableEq

/-- The content of a document of the `block` collection. -/
structure BlockFiles where
  files : List FileEntry
  mode : Int
  checksum : Option Checksum
deriving DecidableEq

/-- A document of the `block` collection. -/
structure BlockDoc where
  id : Oid
  content : BlockFiles
deriving DecidableEq

/-- The authentication part of a launch command. -/
inductive LaunchAuth
  | password (usr pwd : String)
  | cert (credSrc credDst : String)
deriving DecidableEq

/-- The `launch` command sent to the launcher agent. -/
structure LaunchCmd where
  task : Guid
  ipSrc : String
  ipDst : String
  portSrc : Int
  portDst : Int
  portRangeSrc : Nat × Nat
  portRangeDst : Nat × Nat
  auth : LaunchAuth
  files : List FileEntry
  mode : Int
deriving DecidableEq

/-- A flow: a DTN pair doing the transfer of an sjob, one block at a
time. The stored launch command is always the one of the flow's own
task. -/
structure Flow where
  state : FlowState
  task : Guid
  block : Oid
  srcStorage : Option String
  dstStorage : Option String
  srcDtn : Dtn
  dstDtn : Dtn
  launching : LaunchCmd
  start : Int
  lastActive : Int
  txBytes : Int
  launching_task : launching.task = task
deriving DecidableEq

/-- A block's metadata inside its sjob. -/
structure Block where
  id : Oid
  state : BlockState
  size : Int
  txBytes : Int
  start : Int
  stop : Int
deriving DecidableEq

-- ================================================================= jobs

inductive JobType
  | bestEffort | reserved
deriving DecidableEq

/-- An sjob: the part of a rawjob on one source storage. -/
structure Sjob where
  id : Oid
  rawjob : Oid
  type : JobType
  submittedAt : Int
  state : SjobState
  srcsite : Oid
  dstsite : Oid
  srcstorage : String
  dststorage : String
  txBytes : Int
  maxFlows : Int
  transferRetry : Int
  flows : List Flow
  blocks : List Block
  error : Option String
deriving DecidableEq

/-- The user and proxy certificates of one side of a rawjob. -/
structure Certs where
  userCert : String
  proxyKey : String
  proxyCert : String
deriving DecidableEq

structure Rawjob where
  id : Oid
  state : RawjobState
  txBytes : Int
  srcsite : Oid
  dstsite : Oid
  srcCerts : Certs
  dstCerts : Certs
  error : Option String
deriving DecidableEq

/-- A document of the `site` collection. -/
structure Site where
  id : Oid
  info : SiteInfo
  txBytes : Int
  rxBytes : Int
deriving DecidableEq

namespace Sjob

/-- The block ids of an sjob. -/
def blockIds (x : Sjob) : List Oid := x.blocks.map (·.id)

/-- The tasks of an sjob's flows. -/
def tasks (x : Sjob) : List Guid := x.flows.map (·.task)

end Sjob

end BigDataExpress
