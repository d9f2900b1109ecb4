/-
The periodic `schedule()` pass (server/scheduler.cc): pick the active
best-effort sjobs without a flow, set up the network path for the first
waiting block of each, record the flow and launch the transfer.
-/
import BigDataExpress.Server.Network

namespace BigDataExpress

open Interact SiteStore

/-- `rm.launcher()`: throws when no launcher is registered. -/
def launcherQueue : Handler Unit := do
  if ← Prog.read (·.hasLauncher) then pure ()
  else Prog.throw "launcher node not registered"

-- ============================================================== the flow

/-- The concatenated proxy credential of one side. -/
def Certs.credential (c : Certs) : String :=
  c.proxyCert ++ c.proxyKey ++ c.userCert

/-- The authentication part of the launch command; a missing rawjob has
empty certificates. -/
def launchAuth (conf : Conf) (rjob : Option Rawjob) : LaunchAuth :=
  match conf.ldAuth with
  | some (usr, pwd) => .password usr pwd
  | none =>
      .cert ((rjob.map (·.srcCerts.credential)).getD "")
        ((rjob.map (·.dstCerts.credential)).getD "")

/-- The launch command saved in a flow: everything but the files. -/
def launchCommand (conf : Conf) (rjob : Option Rawjob) (task : Guid)
    (src dst : Dtn) : LaunchCmd where
  task := task
  ipSrc := src.ip
  ipDst := dst.ip
  portSrc := src.dtpCtrlPort
  portDst := dst.dtpCtrlPort
  portRangeSrc := (5000, 6000)
  portRangeDst := (5000, 6000)
  auth := launchAuth conf rjob
  files := []
  mode := 0

/-- The flow object for a new task; it starts without a `last_active`
time and is given its block by `schedule()`. -/
def prepareFlow (conf : Conf) (rjob : Option Rawjob) (sid : Oid)
    (src dst : Dtn) (srcStorage dstStorage : Option String) (block : Oid) :
    Handler Flow := do
  let task ← guid sid
  let now : Int ← ask .epochMs
  pure { state := .scheduling, task := task, block := block,
         srcStorage := srcStorage, dstStorage := dstStorage,
         srcDtn := src, dstDtn := dst,
         launching := launchCommand conf rjob task src dst,
         start := now, lastActive := 0, txBytes := 0,
         launching_task := rfl }

/-- The stored command of a flow with the files and mode of a block. -/
def Flow.launchCmd (f : Flow) (files : BlockFiles) : LaunchCmd :=
  { f.launching with files := files.files, mode := files.mode }

@[simp] theorem Flow.launchCmd_task (f : Flow) (files : BlockFiles) :
    (f.launchCmd files).task = f.task := f.launching_task

-- ======================================================== the launching

/-- Insert the flow, call the launcher, and record the launch or its
failure: the end of an attempt, once the path is up and verified. -/
def launchFlow (rid sid block : Oid) (flow : Flow) : Handler Unit := do
  insertFlow sid flow
  let files ← getBlockFiles block
  updateSjobState sid .launching
  updateSjobStage sid .transferGeneral .working
  updateSjobStage sid .transferLaunch .working
  launcherQueue
  let res : LaunchAnswer ← ask (.launch block (flow.launchCmd files))
  match res.error with
  | some err =>
      updateSjobStage sid .transferLaunch .error
      updateSjobStage sid .transferGeneral .error
      scheduleCleanUp rid sid ("mdtm launch error: " ++ err)
        (some (flow.srcDtn, flow.dstDtn))
  | none =>
      updateSjobBlockState block .transferring
      updateSjobFlowState flow.task .setting
      let now : Int ← ask .epochMs
      updateSjobFlowLastActive flow.task now
      -- the sjob state waits for the launcher's report with state 1
      updateRawjobState rid .transferring

/-- Verify the path of a DTN pair and launch over it. -/
def verifyAndLaunch (conf : Conf) (rjob : Option Rawjob) (rid sid block : Oid)
    (src dst : Dtn) (srcStorage dstStorage : Option String) :
    Handler Unit := do
  updateSjobState sid .pathVerification
  updateSjobStage sid .networkPing .working
  match ← verifyPath src dst with
  | .error (_, err) =>
      updateSjobStage sid .networkPing .error
      updateSjobStage sid .networkGeneral .error
      scheduleCleanUp rid sid err (some (src, dst))
  | .ok () =>
      updateSjobStage sid .networkPing .success
      updateSjobStage sid .networkGeneral .success
      let flow ← prepareFlow conf rjob sid src dst srcStorage dstStorage
        block
      launchFlow rid sid block flow

/-- The network part of an attempt: private pairs get a path, public
pairs need none. -/
def connectAndLaunch (conf : Conf) (rjob : Option Rawjob)
    (rid sid block : Oid) (pair : DtnPair) : Handler Unit := do
  updateSjobStage sid .networkGeneral .working
  if pair.isPrivate then
    updateSjobStage sid .networkPlanning .working
    let res ← networkHandling sid pair.srcDtn pair.dstDtn
    let src := { pair.srcDtn with
      wanUuid := res.wanUuid, pathId := res.srcSdnPathId }
    let dst := { pair.dstDtn with
      wanUuid := res.wanUuid, pathId := res.dstSdnPathId }
    if res.code ≠ 0 then
      updateSjobStage sid .networkGeneral .error
      scheduleCleanUp rid sid res.error (some (src, dst))
    else
      verifyAndLaunch conf rjob rid sid block src dst pair.srcStorage
        pair.dstStorage
  else
    updateSjobStage sid .networkPlanning .success
    updateSjobStage sid .networkPublic .success
    updateSjobStage sid .teardownPublic .pending
    verifyAndLaunch conf rjob rid sid block
      { pair.srcDtn with wanUuid := "", pathId := -1 }
      { pair.dstDtn with wanUuid := "", pathId := -1 }
      pair.srcStorage pair.dstStorage

/-- The attempt to schedule one block of an sjob, from the sjob's
document as `schedule()` read it. -/
def scheduleBlock (conf : Conf) (x : Sjob) (block : Oid) :
    Handler Unit := do
  let rjob ← getRawjobFromId x.rawjob
  let srcSite ← getSiteInfo x.srcsite
  let dstSite ← getSiteInfo x.dstsite
  updateSjobState x.id .dtnMatching
  updateSjobStage x.id .bootstrapQuery .success
  updateSjobStage x.id .bootstrapMatch .working
  match ← findBestEffortDtnPair x.srcstorage x.dststorage srcSite
      dstSite with
  | .error (_, err) =>
      updateSjobStage x.id .bootstrapMatch .error
      updateSjobStage x.id .bootstrapGeneral .error
      scheduleCleanUp x.rawjob x.id err none
  | .ok pair =>
      updateSjobStage x.id .bootstrapMatch .success
      updateSjobStage x.id .bootstrapGeneral .success
      connectAndLaunch conf rjob x.rawjob x.id block pair

/-- One iteration of `schedule()`: at most one flow per sjob, and the
first block that is waiting. -/
def scheduleSjob (conf : Conf) (x : Sjob) : Handler Unit :=
  if 1 ≤ x.flows.length then pure ()
  else match x.blocks.find? (·.state == .waiting) with
    | some block => scheduleBlock conf x block.id
    | none => pure ()

/-- The iterations over the documents the pass has read. -/
def scheduleSjobs (conf : Conf) : List Sjob → Handler Unit
  | [] => pure ()
  | x :: xs => do
      scheduleSjob conf x
      scheduleSjobs conf xs

def schedule (conf : Conf) : Handler Unit := do
  let sjobs ← getActiveBestEffortSjobs
  scheduleSjobs conf sjobs

end BigDataExpress
