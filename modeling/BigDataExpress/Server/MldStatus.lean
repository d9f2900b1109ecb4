/-
The handler of the launcher's status reports, `mld_status`
(server/scheduler.cc): state 1 (started), 2 (error) and 3 (block
finished), with checksum verification and the launch of the next block
on the same flow.
-/
import BigDataExpress.Server.Schedule

namespace BigDataExpress

open Interact SiteStore

-- ============================================================== helpers

/-- The `teardown` lambda. -/
def teardown (sid : Oid) (flow : Flow) : Handler Unit := do
  updateSjobStage sid .teardownGeneral .working
  teardownPaths sid flow.srcDtn flow.dstDtn

/-- The `job_fail` lambda. -/
def jobFail (err : String) (sid rid : Oid) : Handler Unit := do
  updateSjobStage sid .transferGeneral .error
  updateSjobState sid .error
  updateRawjobState rid .error
  updateSjobError sid err
  updateRawjobError rid err

/-- The message of a reported error code. -/
def mdtmError (ec : Int) : String :=
  "mdtm error code: " ++ toString ec ++ "</br> error message: " ++
    (if ec = 201 then "no port available"
     else if ec = 202 then "authorization failed"
     else if ec = 203 then "error in reading proxy credential"
     else if ec = 204 then "certificate expired"
     else if ec = 205 then
       "operation aborted, maybe caused by connection failures"
     else if ec = 206 then "end of file reached"
     else "unknown error")

/-- The scan for the next block after `done`: whether every other block
is finished, and the first one that is waiting. -/
def selectBlock (done : Oid) : List Block → Bool → Bool × Option Oid
  | [], finished => (finished, none)
  | b :: bs, finished =>
      if b.id = done then selectBlock done bs finished
      else match b.state with
        | .finished => selectBlock done bs finished
        | .transferring => selectBlock done bs false
        | .waiting => (false, some b.id)

-- ========================================================== state 1 and 2

/-- State 1: the transfer has started. -/
def statusStarted (x : Sjob) (flow : Flow) : Handler Unit := do
  updateSjobFlowState flow.task .transferring
  updateSjobState x.id .transferring
  updateSjobStage x.id .transferLaunch .success
  updateSjobStage x.id .transferTransfer .working
  let now : Int ← ask .epochMs
  updateSjobBlockStart flow.block now

/-- State 2: the transfer has failed. -/
def statusError (x : Sjob) (flow : Flow) (ec : Int) : Handler Unit := do
  updateSjobStage x.id .transferLaunch .success
  updateSjobStage x.id .transferTransfer .error
  updateSjobFlowState flow.task .error
  updateSjobBlockState flow.block .waiting
  teardown x.id flow
  jobFail (mdtmError ec) x.id x.rawjob

-- ================================================================ state 3

/-- Count the rest of the finished block as transferred. -/
def countFinished (x : Sjob) (flow : Flow) : Handler Unit := do
  match x.blocks.find? (·.id == flow.block) with
  | none => pure ()
  | some b =>
      let _ ← ask .epochMs
      let rest := b.size - b.txBytes
      incrementSjobBlockField flow.block rest
      incrementSjobFlowField flow.task rest
      incrementSjobTxBytes x.id rest
      incrementRawjobField x.rawjob rest
      incrementSiteTx x.srcsite rest
      incrementSiteRx x.dstsite rest

/-- Take the bytes of a block back after a failed verification. -/
def retrogress (x : Sjob) (flow : Flow) : Handler Unit := do
  match x.blocks.find? (·.id == flow.block) with
  | none => pure ()
  | some b =>
      incrementSjobBlockField flow.block (-b.size)
      incrementSjobFlowField flow.task (-b.size)
      incrementSjobTxBytes x.id (-b.size)
      incrementRawjobField x.rawjob (-b.size)

/-- Verify the block's checksums at the destination; `true` when there is
nothing to verify. -/
def verifyChecksums (conf : Conf) (x : Sjob) (flow : Flow)
    (files : BlockFiles) : Handler Bool := do
  if !conf.ldChecksum then pure true
  else match files.checksum with
    | none => pure true
    | some sums =>
        updateSjobState x.id .checksumVerification
        updateSjobStage x.id .transferChecksum .working
        let site ← getSiteInfo x.dstsite
        let r : VerifyAnswer ←
          ask (.verifyChecksum site.url flow.dstDtn.id sums)
        if r.http ≠ 200 ∨ r.code ≠ some 0 then
          updateSjobStage x.id .transferChecksum .error
          pure false
        else
          updateSjobStage x.id .transferChecksum .success
          pure true

/-- Every sjob of the rawjob is finished, as read one by one. -/
def allFinished (rid : Oid) : Handler Bool := do
  let sjobs ← getSjobsFromRawjobId rid
  pure (sjobs.all fun y => y.state == .finished)

/-- No block is left to launch: the flow is given up, and with every
block finished the sjob is finished, and the rawjob if all its sjobs
are. -/
def flowDone (conf : Conf) (x : Sjob) (flow : Flow) (finished : Bool) :
    Handler Unit := do
  updateSjobFlowState flow.task .waitingToBeTeared
  updateSjobStageIf finished x.id .transferGeneral .success
  teardown x.id flow
  if finished then
    updateSjobState x.id .finished
    if ← allFinished x.rawjob then
      updateRawjobState x.rawjob .finished
  else if x.maxFlows < conf.maxConcurrentFlowsPerJob then
    updateSjobMaxFlows x.id conf.maxConcurrentFlowsPerJob

/-- Launch a block on the flow: the same one again, or the next. The
answer of the launcher is only logged. -/
def relaunch (conf : Conf) (x : Sjob) (flow : Flow) (block : Oid)
    (files : BlockFiles) (newBlock : Bool) : Handler Unit := do
  updateSjobStage x.id .transferLaunch .working
  updateSjobStage x.id .transferTransfer .pending
  updateSjobStageIf (conf.ldChecksum && newBlock) x.id .transferChecksum
    .pending
  if !(← Prog.read (·.hasLauncher)) then
    updateSjobStage x.id .transferLaunch .error
    teardown x.id flow
    jobFail "launcher agent not avaialbe, job failed" x.id x.rawjob
  else
    updateSjobState x.id .launching
    launcherQueue
    let _ ← ask (.launch block (flow.launchCmd files))
    updateSjobBlockState block .transferring
    updateSjobFlowBlock flow.task block
    updateSjobFlowState flow.task .setting
    updateRawjobState x.rawjob .transferring

/-- The block is accepted: mark it, and go on with the next one. -/
def blockAccepted (conf : Conf) (x : Sjob) (flow : Flow) :
    Handler Unit := do
  updateSjobBlockState flow.block .finished
  let now : Int ← ask .epochMs
  updateSjobBlockStop flow.block now
  match selectBlock flow.block x.blocks true with
  | (_, some next) =>
      let files ← getBlockFiles next
      relaunch conf x flow next files true
  | (finished, none) => flowDone conf x flow finished

/-- The block is refused: fail the job after the third refusal, else
send the block again. The test reads the count before this refusal. -/
def blockRefused (conf : Conf) (x : Sjob) (flow : Flow)
    (files : BlockFiles) : Handler Unit := do
  retrogress x flow
  incrementTransferRetry x.id 1
  if x.transferRetry ≥ 2 then
    teardown x.id flow
    jobFail "exceed maximum transfer retry, job failed" x.id x.rawjob
  else
    relaunch conf x flow flow.block files false

/-- State 3: the transfer of the flow's block has finished. -/
def statusFinished (conf : Conf) (x : Sjob) (flow : Flow) :
    Handler Unit := do
  updateSjobStage x.id .transferLaunch .success
  updateSjobStage x.id .transferTransfer .success
  updateSjobFlowState flow.task .waiting
  countFinished x flow
  let files ← getBlockFiles flow.block
  if ← verifyChecksums conf x flow files then
    blockAccepted conf x flow
  else
    blockRefused conf x flow files

-- ============================================================ the handler

/-- What a report does, by its state. -/
def handleReport (conf : Conf) (x : Sjob) (flow : Flow)
    (params : StatusParams) : Handler Unit :=
  if params.state = 1 then statusStarted x flow
  else if params.state = 2 then statusError x flow params.errorCode
  else if params.state = 3 then statusFinished conf x flow
  else pure ()

/-- The handler of one report. The sjob found is refused when it has an
`error` field: that is how a missing sjob is reported, and how a failed
one looks. -/
def mldStatus (conf : Conf) (task : Guid) (params : StatusParams) :
    Handler Unit := do
  match ← getSjobFromTaskId task with
  | none => pure ()
  | some x =>
      if x.error.isSome then pure ()
      else match x.flows.find? (·.task == task) with
        | none => pure ()
        | some flow => handleReport conf x flow params

end BigDataExpress
