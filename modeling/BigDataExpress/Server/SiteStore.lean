/-
The operations of `SiteStore` that the transfer handlers use
(server/sitestore.cc, server/sitestore.h).

Each operation is one atomic action on the world: Mongo applies an
`update_one` atomically. An update goes to the first document that
matches the filter, and inside it to the first array entry that matches
(the positional `$`). `update_sjob_state` also inserts an `sjobevent`
document; nothing reads that collection, so the two writes are one
action here. `get_sjobs_from_rawjob_id` walks a cursor and may read each
document at a different moment: it is one action per document.
-/
import BigDataExpress.Lib.Collection
import BigDataExpress.Server.World
import Mathlib.Data.List.Sort

namespace BigDataExpress

open Interact Collection

-- =========================================== updates inside a document

namespace Sjob

/-- Update the flow with a given task. -/
def onFlow (t : Guid) (g : Flow → Flow) (x : Sjob) : Sjob :=
  { x with flows := updateOne (·.task == t) g x.flows }

/-- Update the block with a given id. -/
def onBlock (b : Oid) (g : Block → Block) (x : Sjob) : Sjob :=
  { x with blocks := updateOne (·.id == b) g x.blocks }

/-- The filter `flows.task: t`. -/
def hasTask (t : Guid) (x : Sjob) : Bool := x.flows.any (·.task == t)

/-- The filter `blocks.id: b`. -/
def hasBlock (b : Oid) (x : Sjob) : Bool := x.blocks.any (·.id == b)

end Sjob

-- ================================================ updates of the world

namespace World

/-- `update_one` on the `sjob` collection. -/
def updateSjob (p : Sjob → Bool) (f : Sjob → Sjob) (w : World) : World :=
  { w with sjobs := updateOne p f w.sjobs }

/-- `update_one` on the `rawjob` collection, by id. -/
def updateRawjob (rid : Oid) (f : Rawjob → Rawjob) (w : World) : World :=
  { w with rawjobs := updateOne (·.id == rid) f w.rawjobs }

/-- `update_one` on the `site` collection, by id. -/
def updateSite (id : Oid) (f : Site → Site) (w : World) : World :=
  { w with sites := updateOne (·.id == id) f w.sites }

/-- Puts a rawjob in a state. -/
def updateRawjobState (rid : Oid) (st : RawjobState) : World → World :=
  updateRawjob rid fun r => { r with state := st }

/-- Sets the error message of a rawjob. -/
def updateRawjobError (rid : Oid) (msg : String) : World → World :=
  updateRawjob rid fun r => { r with error := some msg }

/-- Adds to the finished bytes of a rawjob. -/
def incrementRawjobField (rid : Oid) (val : Int) : World → World :=
  updateRawjob rid fun r => { r with txBytes := r.txBytes + val }

/-- Puts an sjob in a state, and records that. -/
def updateSjobState (sid : Oid) (st : SjobState) (w : World) : World :=
  { w.updateSjob (·.id == sid) fun x => { x with state := st } with
    sjobevents := w.sjobevents ++ [(sid, st)] }

/-- Sets a stage of an sjob. -/
def updateSjobStage (sid : Oid) (stage : StageName) (val : SjobStage)
    (w : World) : World :=
  { w with stages := fun i s =>
      if i = sid ∧ s = stage then some val else w.stages i s }

/-- Sets the error message of an sjob. -/
def updateSjobError (sid : Oid) (msg : String) : World → World :=
  updateSjob (·.id == sid) fun x => { x with error := some msg }

/-- Sets the number of flows an sjob may have. -/
def updateSjobMaxFlows (sid : Oid) (n : Int) : World → World :=
  updateSjob (·.id == sid) fun x => { x with maxFlows := n }

/-- Adds to the finished bytes of an sjob. -/
def incrementSjobTxBytes (sid : Oid) (val : Int) : World → World :=
  updateSjob (·.id == sid) fun x => { x with txBytes := x.txBytes + val }

/-- Adds to the retries of an sjob. -/
def incrementTransferRetry (sid : Oid) (val : Int) : World → World :=
  updateSjob (·.id == sid) fun x =>
    { x with transferRetry := x.transferRetry + val }

/-- Adds a flow to an sjob. -/
def insertFlow (sid : Oid) (f : Flow) : World → World :=
  updateSjob (·.id == sid) fun x => { x with flows := x.flows ++ [f] }

/-- An update of one flow, found by its task. -/
def updateFlow (t : Guid) (g : Flow → Flow) : World → World :=
  updateSjob (Sjob.hasTask t) (Sjob.onFlow t g)

/-- An update of one block, found by its id. -/
def updateBlock (b : Oid) (g : Block → Block) : World → World :=
  updateSjob (Sjob.hasBlock b) (Sjob.onBlock b g)

/-- Puts the flow of a task in a state. -/
def updateSjobFlowState (t : Guid) (st : FlowState) : World → World :=
  updateFlow t fun f => { f with state := st }

/-- Gives the flow of a task another block. -/
def updateSjobFlowBlock (t : Guid) (b : Oid) : World → World :=
  updateFlow t fun f => { f with block := b }

/-- Notes when the flow of a task was last active. -/
def updateSjobFlowLastActive (t : Guid) (ms : Int) : World → World :=
  updateFlow t fun f => { f with lastActive := ms }

/-- Adds to the bytes of the flow of a task. -/
def incrementSjobFlowField (t : Guid) (val : Int) : World → World :=
  updateFlow t fun f => { f with txBytes := f.txBytes + val }

/-- Puts a block in a state. -/
def updateSjobBlockState (b : Oid) (st : BlockState) : World → World :=
  updateBlock b fun k => { k with state := st }

/-- Notes the start of a block. -/
def updateSjobBlockStart (b : Oid) (ms : Int) : World → World :=
  updateBlock b fun k => { k with start := ms }

/-- Notes the stop of a block. -/
def updateSjobBlockStop (b : Oid) (ms : Int) : World → World :=
  updateBlock b fun k => { k with stop := ms }

/-- Adds to the finished bytes of a block. -/
def incrementSjobBlockField (b : Oid) (val : Int) : World → World :=
  updateBlock b fun k => { k with txBytes := k.txBytes + val }

/-- Adds to the bytes a site has sent. -/
def incrementSiteTx (id : Oid) (val : Int) : World → World :=
  updateSite id fun s => { s with txBytes := s.txBytes + val }

/-- Adds to the bytes a site has received. -/
def incrementSiteRx (id : Oid) (val : Int) : World → World :=
  updateSite id fun s => { s with rxBytes := s.rxBytes + val }

/-- Hand out the next guid. -/
def drawGuid (job : Oid) (w : World) : World :=
  { w with guids := w.guids ++ [job] }

-- ================================================== queries of the world

/-- The content of a block document; a missing document has no files. -/
def blockFiles (w : World) (b : Oid) : BlockFiles :=
  match w.blockDocs.find? (·.id == b) with
  | some d => d.content
  | none => ⟨[], 0, none⟩

/-- The site description; a missing site has empty fields. -/
def siteInfo (w : World) (id : Oid) : SiteInfo :=
  match w.sites.find? (·.id == id) with
  | some s => s.info
  | none => ⟨"", ""⟩

/-- Best-effort sjobs in state bootstrap or transferring. -/
def isActive (x : Sjob) : Bool :=
  x.type == .bestEffort
    && (x.state == .bootstrap || x.state == .transferring)

/-- The sjobs whose best-effort transfer is going on, by the time they were
submitted. -/
def activeBestEffortSjobs (w : World) : List Sjob :=
  (w.sjobs.filter isActive).insertionSort fun a b =>
    a.submittedAt ≤ b.submittedAt

end World

-- ====================================================== the operations

namespace SiteStore

/-- `utils::guid()`, for an sjob: a token that was never handed out
before. -/
def guid (job : Oid) : Handler Guid :=
  .act (World.drawGuid job) fun w => .pure w.guids.length

/-- Reads what is known of a site. -/
def getSiteInfo (id : Oid) : Handler SiteInfo := .read (·.siteInfo id)

/-- Reads a rawjob. -/
def getRawjobFromId (rid : Oid) : Handler (Option Rawjob) :=
  .read (·.rawjob? rid)

/-- Reads the rawjobs in a state. -/
def getRawjobsFromState (st : RawjobState) : Handler (List Rawjob) :=
  .read fun w => w.rawjobs.filter (·.state == st)

/-- Reads the files of a block. -/
def getBlockFiles (b : Oid) : Handler BlockFiles := .read (·.blockFiles b)

/-- Reads the active best-effort sjobs. -/
def getActiveBestEffortSjobs : Handler (List Sjob) :=
  .read (·.activeBestEffortSjobs)

/-- Reads the sjob that has the flow of a task. -/
def getSjobFromTaskId (t : Guid) : Handler (Option Sjob) :=
  .read fun w => w.sjobs.find? (Sjob.hasTask t)

/-- The cursor over a list of documents, each read in its turn. -/
def readSjobs : List Oid → Handler (List Sjob)
  | [] => pure []
  | i :: is => do
      let x ← .read (·.sjob? i)
      let xs ← readSjobs is
      pure (x.toList ++ xs)

/-- Reads the sjobs of a rawjob. -/
def getSjobsFromRawjobId (rid : Oid) : Handler (List Sjob) := do
  let ids ← .read fun w =>
    (w.sjobs.filter (·.rawjob == rid)).map (·.id)
  readSjobs ids

def updateRawjobState (rid : Oid) (st : RawjobState) : Handler Unit :=
  .modify (World.updateRawjobState rid st)

def updateRawjobError (rid : Oid) (msg : String) : Handler Unit :=
  .modify (World.updateRawjobError rid msg)

def incrementRawjobField (rid : Oid) (val : Int) : Handler Unit :=
  .modify (World.incrementRawjobField rid val)

def updateSjobState (sid : Oid) (st : SjobState) : Handler Unit :=
  .modify (World.updateSjobState sid st)

def updateSjobStage (sid : Oid) (stage : StageName) (val : SjobStage) :
    Handler Unit :=
  .modify (World.updateSjobStage sid stage val)

/-- A stage update made under a condition only. -/
def updateSjobStageIf (c : Bool) (sid : Oid) (stage : StageName)
    (val : SjobStage) : Handler Unit :=
  if c then updateSjobStage sid stage val else pure ()

def updateSjobError (sid : Oid) (msg : String) : Handler Unit :=
  .modify (World.updateSjobError sid msg)

def updateSjobMaxFlows (sid : Oid) (n : Int) : Handler Unit :=
  .modify (World.updateSjobMaxFlows sid n)

def incrementSjobTxBytes (sid : Oid) (val : Int) : Handler Unit :=
  .modify (World.incrementSjobTxBytes sid val)

def incrementTransferRetry (sid : Oid) (val : Int) : Handler Unit :=
  .modify (World.incrementTransferRetry sid val)

def insertFlow (sid : Oid) (f : Flow) : Handler Unit :=
  .modify (World.insertFlow sid f)

def updateSjobFlowState (t : Guid) (st : FlowState) : Handler Unit :=
  .modify (World.updateSjobFlowState t st)

def updateSjobFlowBlock (t : Guid) (b : Oid) : Handler Unit :=
  .modify (World.updateSjobFlowBlock t b)

def updateSjobFlowLastActive (t : Guid) (ms : Int) : Handler Unit :=
  .modify (World.updateSjobFlowLastActive t ms)

def incrementSjobFlowField (t : Guid) (val : Int) : Handler Unit :=
  .modify (World.incrementSjobFlowField t val)

def updateSjobBlockState (b : Oid) (st : BlockState) : Handler Unit :=
  .modify (World.updateSjobBlockState b st)

def updateSjobBlockStart (b : Oid) (ms : Int) : Handler Unit :=
  .modify (World.updateSjobBlockStart b ms)

def updateSjobBlockStop (b : Oid) (ms : Int) : Handler Unit :=
  .modify (World.updateSjobBlockStop b ms)

def incrementSjobBlockField (b : Oid) (val : Int) : Handler Unit :=
  .modify (World.incrementSjobBlockField b val)

def incrementSiteTx (id : Oid) (val : Int) : Handler Unit :=
  .modify (World.incrementSiteTx id val)

def incrementSiteRx (id : Oid) (val : Int) : Handler Unit :=
  .modify (World.incrementSiteRx id val)

end SiteStore

end BigDataExpress
