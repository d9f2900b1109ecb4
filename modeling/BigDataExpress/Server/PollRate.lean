/-
The periodic `poll_rate()` pass (server/scheduler.cc): sample the live
flows of every transferring rawjob, add the bytes transferred since the
last sample to the block, flow, sjob, rawjob and site counters, and fail
flows the launcher does not know or that make no progress.

A flow the launcher does not know ends the whole pass (`none` below).
-/
import BigDataExpress.Server.Schedule

namespace BigDataExpress

open Interact SiteStore

/-- The state changes of a flow that has failed. -/
def flowFailed (rid sid : Oid) (err : String) : Handler Unit := do
  updateSjobState sid .error
  updateSjobError sid err
  updateRawjobState rid .error
  updateRawjobError rid err

/-- The launcher does not know the task. -/
def unknownTask (rid : Oid) (x : Sjob) (flow : Flow) : Handler Unit := do
  let _ ← teardownSdnPath x.id flow.srcDtn flow.dstDtn
  let _ ← teardownWanPath x.id flow.srcDtn.wanUuid
  updateSjobFlowState flow.task .error
  updateSjobBlockState flow.block .waiting
  flowFailed rid x.id "invalid task at launching agent"

/-- No bytes for longer than the inactivity timeout. -/
def inactiveTask (rid : Oid) (x : Sjob) (flow : Flow) : Handler Unit := do
  updateSjobFlowState flow.task .error
  updateSjobBlockState flow.block .waiting
  let _ ← teardownSdnPath x.id flow.srcDtn flow.dstDtn
  let _ ← teardownWanPath x.id flow.srcDtn.wanUuid
  flowFailed rid x.id
    "job failed due to no transferring progress for an extended period of time"

/-- The bytes of a block at the last poll, as the sjob's document has
them. -/
def lastTxBytes (x : Sjob) (block : Oid) : Int :=
  match x.blocks.find? (·.id == block) with
  | some b => b.txBytes
  | none => 0

/-- New bytes are activity; without them the flow may have timed out. -/
def checkActivity (conf : Conf) (rid : Oid) (x : Sjob) (flow : Flow)
    (txBytes now : Int) : Handler Unit :=
  if txBytes > 0 then updateSjobFlowLastActive flow.task now
  else if now - flow.lastActive > conf.inactiveTimeoutMs then
    inactiveTask rid x flow
  else pure ()

/-- A sample was answered: check the activity and count the bytes. -/
def countSample (conf : Conf) (rid : Oid) (x : Sjob) (flow : Flow)
    (transferred : Int) : Handler Int := do
  let txBytes := transferred - lastTxBytes x flow.block
  let now : Int ← ask .epochMs
  checkActivity conf rid x flow txBytes now
  incrementSjobBlockField flow.block txBytes
  incrementSjobFlowField flow.task txBytes
  pure txBytes

/-- One flow of the pass: the bytes it adds, or `none` when the pass
ends here. -/
def pollFlow (conf : Conf) (rid : Oid) (x : Sjob) (flow : Flow) :
    Handler (Option Int) := do
  if flow.state = .setting ∨ flow.state = .transferring then
    launcherQueue
    let rate : RateAnswer ← ask (.mldRate flow.task)
    if rate.timedOut then pure (some 0)
    else if rate.code = 1 then
      unknownTask rid x flow
      pure none
    else if rate.code ≠ 0 then pure (some 0)
    else
      let d ← countSample conf rid x flow rate.transferred
      pure (some d)
  else pure (some 0)

/-- The flows of one sjob, from the sjob's document as the pass read
it. -/
def pollFlows (conf : Conf) (rid : Oid) (x : Sjob) :
    List Flow → Int → Handler (Option Int)
  | [], acc => pure (some acc)
  | f :: fs, acc => do
      match ← pollFlow conf rid x f with
      | none => pure none
      | some d => pollFlows conf rid x fs (acc + d)

/-- The sjobs of one rawjob. -/
def pollSjobs (conf : Conf) (rid : Oid) :
    List Sjob → Int → Handler (Option Int)
  | [], acc => pure (some acc)
  | x :: xs, acc => do
      match ← pollFlows conf rid x x.flows 0 with
      | none => pure none
      | some d =>
          incrementSjobTxBytes x.id d
          pollSjobs conf rid xs (acc + d)

/-- One rawjob of the pass; `false` when the pass ends here. -/
def pollRawjob (conf : Conf) (r : Rawjob) : Handler Bool := do
  let sjobs ← getSjobsFromRawjobId r.id
  match ← pollSjobs conf r.id sjobs 0 with
  | none => pure false
  | some d =>
      incrementRawjobField r.id d
      incrementSiteTx r.srcsite d
      incrementSiteRx r.dstsite d
      pure true

/-- The rawjobs of the pass. -/
def pollRawjobs (conf : Conf) : List Rawjob → Handler Unit
  | [] => pure ()
  | r :: rs => do
      if ← pollRawjob conf r then pollRawjobs conf rs

def pollRate (conf : Conf) : Handler Unit := do
  let rjobs ← getRawjobsFromState .transferring
  if rjobs.isEmpty then pure ()
  else if !(← Prog.read (·.hasLauncher)) then pure ()
  else pollRawjobs conf rjobs

end BigDataExpress
