/-
Network path handling of the scheduler: WAN paths over SENSE
(server/wan.cc), LAN paths over the SDN agents of the two sites, path
verification and teardown, and the choice of a DTN pair
(server/scheduler.cc, `find_best_effort_dtn_pair` to
`network_handling`).

Result objects are JSON in the source, with `code`, `error` and the ids
obtained; they are records here. Sleeps and log lines are left out, and
so is the SENSE token request that precedes each WAN request: a token
that cannot be obtained shows as a refused request.
-/
import BigDataExpress.Server.SiteStore

namespace BigDataExpress

open Interact SiteStore

-- ============================================================ wan.cc

namespace WAN

/-- One SENSE request, tried until it is accepted, at most `n` times. -/
def attempts (e : Call) (ok : Reply e → Bool) : Nat → Handler Bool
  | 0 => pure false
  | n + 1 => do
      let r ← ask e
      if ok r then pure true else attempts e ok n

/-- `while (++retry < max_retry)` with `max_retry = 5`. -/
def tries : Nat := 4

def release (job : Oid) (uuid : String) : Handler Bool :=
  attempts (.wanRelease job uuid) (fun http : Int => http == 200) tries

def terminate (job : Oid) (uuid : String) : Handler Bool :=
  attempts (.wanTerminate job uuid) (fun http : Int => http == 200) tries

def del (job : Option Oid) (uuid : String) : Handler Bool :=
  attempts (.wanDelete job uuid) (fun http : Int => http == 200) tries

end WAN

-- ==================================================== choosing a DTN pair

/-- What `find_best_effort_dtn_pair` finds. -/
structure DtnPair where
  isPrivate : Bool
  srcDtn : Dtn
  dstDtn : Dtn
  srcStorage : Option String
  dstStorage : Option String

/-- Private pair first, then the public pair. The storage of the
destination answer overwrites the one of the source answer, and
`dst_storage` is never set. -/
def findBestEffortDtnPair (srcStorage dstStorage : String)
    (src dst : SiteInfo) : Handler (Except (Int × String) DtnPair) := do
  let rSrc : DtnAnswer ←
    ask (.availableDtn src.url srcStorage dst.siteAbbrev)
  let rDst : DtnAnswer ←
    ask (.availableDtn dst.url dstStorage src.siteAbbrev)
  if rSrc.http ≠ 200 then
    pure (.error (100, "source site portal unreachable"))
  else if rDst.http ≠ 200 then
    pure (.error (101, "destination site portal unreachable"))
  else match rSrc.privateDtns, rDst.privateDtns with
    | s :: _, d :: _ =>
        pure (.ok ⟨true, { s with site := src }, { d with site := dst },
          rDst.storage, none⟩)
    | _, _ =>
      match rSrc.publicDtns, rDst.publicDtns with
      | s :: _, d :: _ =>
          pure (.ok ⟨false, { s with site := src }, { d with site := dst },
            rDst.storage, none⟩)
      | _, _ =>
          pure (.error (201,
            "unable to find either private or public DTN pairs"))

-- ============================================================ WAN paths

/-- The result object of `setup_wan_path`. -/
structure WanRes where
  code : Int
  error : String
  wanUuid : String
  wanSrcVlan : Int
  wanDstVlan : Int
  wanMaxBw : Int

/-- `stp["name"]`. -/
def Dtn.stpName (d : Dtn) : String :=
  match d.stp with
  | some s => s.name
  | none => ""

/-- Create, reserve and commit; a path that cannot be reserved or
committed is deleted. -/
def setupWanPath (src dst : Dtn) (srcVlan dstVlan : String) :
    Handler WanRes := do
  let cres : WanCreateRes ←
    ask (.wanCreate src.stpName dst.stpName srcVlan dstVlan)
  if cres.uuid = "" then
    pure ⟨300, "WAN path creation failure", "", 0, 0, 0⟩
  else
    let r1 : Int ← ask (.wanReserve cres.uuid src.stpName dst.stpName
      cres.srcVlan cres.dstVlan)
    if r1 ≠ 201 then
      let _ ← WAN.del none cres.uuid
      pure ⟨301, "WAN path reservation faiure", "", cres.srcVlan,
        cres.dstVlan, cres.maxBw⟩
    else
      let r2 : Int ← ask (.wanCommit cres.uuid)
      if r2 ≠ 200 then
        let _ ← WAN.del none cres.uuid
        pure ⟨302, "WAN path commit faiure", "", cres.srcVlan,
          cres.dstVlan, cres.maxBw⟩
      else
        pure ⟨0, "", cres.uuid, cres.srcVlan, cres.dstVlan, cres.maxBw⟩

/-- Release, terminate, delete; a step that is refused ends the
teardown. -/
def teardownWanPath (sid : Oid) (uuid : String) : Handler Int := do
  if uuid = "" then pure 0
  else
    updateSjobState sid .wanTeardown
    updateSjobStage sid .teardownWanDynamic .working
    if !(← WAN.release sid uuid) then
      updateSjobStage sid .teardownWanDynamic .error
      pure 1
    else if !(← WAN.terminate sid uuid) then
      updateSjobStage sid .teardownWanDynamic .error
      pure 2
    else if !(← WAN.del (some sid) uuid) then
      updateSjobStage sid .teardownWanDynamic .error
      pure 3
    else
      updateSjobStage sid .teardownWanDynamic .success
      pure 0

-- ============================================================ SDN paths

/-- The result object of `setup_sdn_path`. -/
structure SdnRes where
  code : Int
  error : String
  srcPathId : Int
  dstPathId : Int

/-- The request for the LAN path of `dtn` towards `peer`. -/
def reserveRequest (dtn peer : Dtn) (rate oscar : Int) :
    ReserveRequest where
  sdnSetup := dtn.sdnSetup
  vlanId := if dtn.sdnSetup then dtn.dataVlanId else 0
  oscarsVlanId := oscar
  rate := rate
  srcId := dtn.id
  dstId := peer.id
  srcIp := dtn.dataIp
  dstIp := peer.dataIp
  srcMac := dtn.dataMac
  dstMac := peer.dataMac

/-- The path an answer reports: it is taken for installed when the
answer has code 0 and carries an `InstalledPathId`. -/
def ReserveAnswer.path? (r : ReserveAnswer) : Option Int :=
  if r.code = 0 then r.installedPathId else none

/-- One reservation attempt and what follows a failed one. -/
def reserveAttempt (sid : Oid) (url : String) (req : ReserveRequest)
    (setup : Bool) (lan tear : StageName)
    (failed : ReserveAnswer → Handler (Except ReserveAnswer Int)) :
    Handler (Except ReserveAnswer Int) := do
  updateSjobStageIf setup sid lan .working
  let r : ReserveAnswer ← ask (.sdnReserve sid url req)
  match r.path? with
  | some pathId =>
      updateSjobStageIf setup sid lan .success
      updateSjobStageIf setup sid tear .pending
      pure (.ok pathId)
  | none => failed r

/-- One of the two reservation loops: `n` further attempts after the
first. -/
def reserveLoop (sid : Oid) (url : String) (req : ReserveRequest)
    (setup : Bool) (lan tear : StageName) :
    Nat → Handler (Except ReserveAnswer Int)
  | 0 => reserveAttempt sid url req setup lan tear fun r => do
      updateSjobStage sid lan .error
      pure (.error r)
  | n + 1 => reserveAttempt sid url req setup lan tear fun _ =>
      reserveLoop sid url req setup lan tear n

/-- Pings that let the switches see the source addresses. -/
def prePings (prePing : Bool) (src dst : Dtn) : Handler Unit := do
  if prePing then
    let _ ← ask (.icmpPing src.site.url src.id dst.dataIp)
    let _ ← ask (.icmpPing dst.site.url dst.id src.dataIp)

/-- Reserve the LAN path at the source and then at the destination, with
up to three attempts each. -/
def setupSdnPath (sid : Oid) (src dst : Dtn) (rate : Int)
    (prePing : Bool) (oscarSrc oscarDst : Int) : Handler SdnRes := do
  prePings prePing src dst
  match ← reserveLoop sid src.site.url (reserveRequest src dst rate oscarSrc)
      src.sdnSetup .networkLanSrc .teardownLanSrc 2 with
  | .error r =>
      pure ⟨-1, "Error at SDN source site. Code: " ++ r.errorCode
        ++ ". Desc: " ++ r.description, -1, -1⟩
  | .ok srcId =>
      match ← reserveLoop sid dst.site.url
          (reserveRequest dst src rate oscarDst)
          dst.sdnSetup .networkLanDst .teardownLanDst 2 with
      | .error r =>
          pure ⟨-2, "Error at SDN destination site. Code: " ++ r.errorCode
            ++ ". Desc: " ++ r.description, srcId, -1⟩
      | .ok dstId => pure ⟨0, "", srcId, dstId⟩

/-- The request to release the LAN path of `dtn` towards `peer`. -/
def releaseRequest (dtn peer : Dtn) : ReleaseRequest where
  installedPathId := dtn.pathId
  dtn := dtn.id
  ip := peer.dataIp

/-- The release of one side; `-1` is no path. -/
def releasePath (sid : Oid) (dtn peer : Dtn) (tear : StageName) :
    Handler Unit := do
  if dtn.pathId ≠ -1 then
    updateSjobStageIf dtn.sdnSetup sid tear .working
    let _ ← ask (.sdnRelease sid dtn.site.url (releaseRequest dtn peer))
    updateSjobStageIf dtn.sdnSetup sid tear .success

/-- Release the LAN paths at both sites; the answers are not looked at. -/
def teardownSdnPath (sid : Oid) (src dst : Dtn) : Handler Int := do
  updateSjobState sid .sdnTeardown
  releasePath sid src dst .teardownLanSrc
  releasePath sid dst src .teardownLanDst
  pure 0

-- ==================================================== path verification

/-- One ping and what follows a failed one. A missing code counts as
0. -/
def pingAttempt (url dtn destination : String)
    (failed : PingAnswer → Handler (Except (Int × String) Unit)) :
    Handler (Except (Int × String) Unit) := do
  let r : PingAnswer ← ask (.icmpPing url dtn destination)
  if r.code.getD 0 = 0 then pure (.ok ()) else failed r

/-- `n` further pings after the first. -/
def pingLoop (url dtn destination : String) :
    Nat → Handler (Except (Int × String) Unit)
  | 0 => pingAttempt url dtn destination fun r =>
      pure (.error (r.code.getD 0, "path verification error: " ++ r.error))
  | n + 1 => pingAttempt url dtn destination fun _ =>
      pingLoop url dtn destination n

/-- Ping the destination from the source: 5 attempts, 30 on a dynamic
WAN path. -/
def verifyPath (src dst : Dtn) : Handler (Except (Int × String) Unit) :=
  pingLoop src.site.url src.id dst.dataIp
    (if src.wanUuid = "" then 4 else 29)

-- ===================================================== network handling

/-- The result object of `network_handling`. -/
structure NetRes where
  code : Int
  error : String
  wanUuid : String
  srcSdnPathId : Int
  dstSdnPathId : Int

/-- `stp["local_vlan_constraints"].asString()`. -/
def Dtn.vlanConstraints (d : Dtn) : String :=
  match d.stp with
  | some s => s.localVlanConstraints.getD ""
  | none => ""

/-- `stp.isMember("local_vlan_constraints")`. -/
def Dtn.hasVlanConstraints (d : Dtn) : Bool :=
  match d.stp with
  | some s => s.localVlanConstraints.isSome
  | none => false

/-- The VLAN label requested for the source terminal. -/
def wanSrcVlanLabel (src : Dtn) : String :=
  if src.sdnSetup then
    if src.hasVlanConstraints ∧ src.vlanConstraints ≠ "" then
      src.vlanConstraints
    else "any"
  else toString src.dataVlanId

/-- The VLAN label requested for the destination terminal; the emptiness
test looks at the source's constraints. -/
def wanDstVlanLabel (src dst : Dtn) : String :=
  if dst.sdnSetup then
    if dst.hasVlanConstraints ∧ src.vlanConstraints ≠ "" then
      dst.vlanConstraints
    else "any"
  else toString dst.dataVlanId

/-- The first circuit of the static path from `src` to the site of
`dst`. -/
def staticCircuit (src dst : Dtn) : Option Circuit :=
  (src.wanStatic.find? (·.remoteSite == dst.site.siteAbbrev)).map
    fun p => p.circuits.headD ⟨0, 0, 0⟩

/-- Stage updates common to static and dynamic paths. -/
def networkPending (sid : Oid) (src dst : Dtn) : Handler Unit := do
  updateSjobStage sid .networkPing .pending
  updateSjobStageIf src.sdnSetup sid .networkLanSrc .pending
  updateSjobStageIf dst.sdnSetup sid .networkLanDst .pending

/-- The SDN part, once the WAN VLANs are known; the path ids are kept
whether or not both could be set up. -/
def networkSdn (sid : Oid) (src dst : Dtn) (uuid : String)
    (maxBw vlanSrc vlanDst : Int) : Handler NetRes := do
  updateSjobState sid .sdnSetup
  let res ← setupSdnPath sid src dst maxBw false vlanSrc vlanDst
  if res.code ≠ 0 then
    pure ⟨res.code, res.error, uuid, res.srcPathId, res.dstPathId⟩
  else
    pure ⟨0, "success", uuid, res.srcPathId, res.dstPathId⟩

/-- Static WAN path if one is configured, else a dynamic one, then the
LAN paths at both sites. -/
def networkHandling (sid : Oid) (src dst : Dtn) : Handler NetRes := do
  match staticCircuit src dst with
  | some c =>
      updateSjobStage sid .networkPlanning .success
      updateSjobStage sid .networkWanStatic .success
      networkPending sid src dst
      networkSdn sid src dst "" c.bandwidth c.localVlanId c.remoteVlanId
  | none =>
      if src.stp.isSome && dst.stp.isSome then
        updateSjobState sid .wanSetup
        updateSjobStage sid .networkPlanning .success
        updateSjobStage sid .networkWanDynamic .working
        networkPending sid src dst
        let res ← setupWanPath src dst (wanSrcVlanLabel src)
          (wanDstVlanLabel src dst)
        if res.code ≠ 0 then
          updateSjobStage sid .networkWanDynamic .error
          pure ⟨res.code, res.error, "", -1, -1⟩
        else
          updateSjobStage sid .networkWanDynamic .success
          updateSjobStage sid .teardownWanDynamic .pending
          networkSdn sid src dst res.wanUuid 10000 res.wanSrcVlan
            res.wanDstVlan
      else
        updateSjobStage sid .networkPlanning .error
        pure ⟨101, "unable to find valid static or dynamic WAN path.", "",
          -1, -1⟩

-- ============================================================ clean up

/-- Tear both paths down and record the outcome as a stage. -/
def teardownPaths (sid : Oid) (src dst : Dtn) : Handler Unit := do
  let resSdn ← teardownSdnPath sid src dst
  let resWan ← teardownWanPath sid src.wanUuid
  updateSjobStage sid .teardownGeneral
    (if resSdn ≠ 0 ∨ resWan ≠ 0 then .error else .success)

/-- Fail an sjob during scheduling; without DTNs there is no path to
tear down. -/
def scheduleCleanUp (rid sid : Oid) (error : String)
    (dtns : Option (Dtn × Dtn)) : Handler Unit := do
  updateSjobStage sid .teardownGeneral .working
  match dtns with
  | some (src, dst) => teardownPaths sid src dst
  | none => updateSjobStage sid .teardownGeneral .success
  updateSjobState sid .error
  updateRawjobState rid .error
  updateSjobError sid error
  updateRawjobError rid error

end BigDataExpress
