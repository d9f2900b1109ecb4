/-
Jobs on the resource graph, and the admission of new ones
(server/jobmanager.h, resourcegraph.cc, and the last functions of
resourcemanager.cc).

A job is an object of the job manager. The nodes and the edges it runs
over hold a pointer to it in a table of their own, by job id, so a state
set at one of them is seen at all of them. Here a table is the list of
the ids in the order of the map, and the object is looked up in the
manager. The `stream` collection of the site store has a document for
each job.

Rates and capacities are exact rationals.
-/
import BigDataExpress.Server.ResourceGraph
import Mathlib.Algebra.Order.Ring.Unbundled.Rat
import Mathlib.Data.String.Basic
import Mathlib.Data.List.Sort

namespace BigDataExpress

-- =============================================================== the jobs

inductive JobState
  | running
  | stopped
  | finished
  | reserved
  | markedForPrealloc
deriving DecidableEq, Repr

inductive JobGroup
  | base
  | extra
deriving DecidableEq, Repr

/-- A job from DTN to DTN. -/
structure BaseJob where
  id : String
  group : JobGroup
  state : JobState
  rate : Rat
deriving DecidableEq

/-- `JobManager`: a map of jobs by id. -/
structure JobManager where
  basicJobs : List BaseJob := []
  distinct : (basicJobs.map BaseJob.id).Nodup := by exact List.nodup_nil

namespace JobManager

def find (jm : JobManager) (id : String) : Option BaseJob :=
  jm.basicJobs.find? fun job => job.id == id

/-- `emplace`: a job that is there is kept. -/
def addBasicJob (jm : JobManager) (job : BaseJob) : JobManager :=
  if h : job.id ∈ jm.basicJobs.map BaseJob.id then jm
  else
    { basicJobs := jm.basicJobs ++ [job]
      distinct := by
        rw [List.map_append]
        refine List.nodup_append.mpr ⟨jm.distinct, List.nodup_singleton _, ?_⟩
        intro a ha b hb heq
        exact h (List.mem_singleton.mp hb ▸ heq ▸ ha) }

/-- `BaseJob::set_state`, on the object of a job. -/
def setState (jm : JobManager) (id : String) (state : JobState) :
    JobManager where
  basicJobs := jm.basicJobs.map fun job =>
    if job.id = id then { job with state := state } else job
  distinct := by
    rw [List.map_map]
    refine (congrArg List.Nodup ?_).mp jm.distinct
    apply List.map_congr_left
    intro job _
    simp only [Function.comp_apply]
    split <;> rfl

end JobManager

/-- A document of the `stream` collection. -/
structure Stream where
  rawjob : String
  guid : String
  srcstorage : String
  dststorage : String
  srcdtn : String
  dstdtn : String
  rate : Rat
  type : JobGroup
  state : JobState
deriving DecidableEq

/-- `SiteStore::update_stream_state` -/
def updateStreamState (guid : String) (state : JobState) :
    List Stream → List Stream :=
  Collection.updateOne (fun d => d.guid == guid)
    fun d => { d with state := state }

-- ================================================================ RBase

def BaseJob.runs (group : JobGroup) (job : BaseJob) : Bool :=
  decide (job.state = .running ∧ job.group = group)

/-- The rates of the running jobs of a group. -/
def sumRates (group : JobGroup) (jobs : List BaseJob) : Rat :=
  jobs.foldl (fun sum job => if job.runs group then sum + job.rate else sum) 0

def sumRe (jobs : List BaseJob) : Rat := sumRates .extra jobs

def sumRb (jobs : List BaseJob) : Rat := sumRates .base jobs

/-- `available_rate` -/
def availableRate (capacity : Rat) (jobs : List BaseJob) : Rat :=
  capacity - sumRe jobs - sumRb jobs

/-- One turn of the loop of `find_largest_re_job`. -/
def largerRe (largest : Rat × Option BaseJob) (job : BaseJob) :
    Rat × Option BaseJob :=
  if job.group = .extra ∧ job.state = .running ∧ job.rate > largest.1 then
    (job.rate, some job)
  else largest

def findLargestReJob (jobs : List BaseJob) : Except String BaseJob :=
  if jobs.length = 0 then
    .error "find_largest_re_job: no job on this node."
  else match (jobs.foldl largerRe (-1, none)).2 with
    | none => .error "find_largest_re_job: all job rate < -1.0?"
    | some job => .ok job

-- ============================================================== the site

/-- The graph with the jobs on it, and the streams in the store. -/
structure Manager where
  graph : RGraph := {}
  jm : JobManager := {}
  /-- the job table of the node at an address -/
  nodeJobs : Nat → List String := fun _ => []
  /-- the job table of the edge with an id -/
  edgeJobs : Nat → List String := fun _ => []
  streams : List Stream := []

/-- A member function of the resource manager. -/
abbrev Manage : Type → Type := EStateM String Manager

namespace Manager

/-- The jobs a table points to. -/
def jobs (s : Manager) (table : List String) : List BaseJob :=
  table.filterMap s.jm.find

/-- The jobs on the node at an address. -/
def jobsAt (s : Manager) (a : Nat) : List BaseJob := s.jobs (s.nodeJobs a)

/-- The jobs on the edge with an id. -/
def jobsOn (s : Manager) (i : Nat) : List BaseJob := s.jobs (s.edgeJobs i)

/-- A getter of the resource graph. -/
def look {α : Type} (s : Manager) (getter : Resource α) : Except String α :=
  match getter s.graph with
  | .ok a _ => .ok a
  | .error e _ => .error e

/-- The edge a node points to. -/
def edgeAt (s : Manager) (i : Nat) : Except String (PtrGraph.Edge Rat) :=
  match s.graph.edge? i with
  | some e => .ok e
  | none => .error "dangling edge pointer"

/-- The node an edge points to. -/
def dstNode (s : Manager) (e : PtrGraph.Edge Rat) :
    Except String (PtrGraph.Node RNode) :=
  match s.graph.node? e.dst with
  | some n => .ok n
  | none => .error "dangling node pointer"

-- ======================================================= probe_path_rate

/-- A rate below 1000 is taken to be none. -/
def cutOff (rate : Rat) : Rat := if rate < 1000 then 0 else rate

/-- One turn of the loop over the edges of a storage: the rate of the path
over an edge to the gateway, and what it is without the extra jobs. -/
def pathRates (s : Manager) (i : Nat) : Except String (Rat × Rat) := do
  let sd ← s.edgeAt i
  let sdSre := sumRe (s.jobsOn sd.rid)
  let sdSrb := sumRb (s.jobsOn sd.rid)
  let sdRate := sd.data - sdSre - sdSrb
  let sdRateExtra := sd.data - sdSrb
  let dtn ← s.dstNode sd
  match dtn.outs with
  | [j] =>
      let dg ← s.edgeAt j
      let dgSre := sumRe (s.jobsOn dg.rid)
      let dgSrb := sumRb (s.jobsOn dg.rid)
      let dgRate := dg.data - dgSre - dgSrb
      let dgRateExtra := dg.data - dgSrb
      let rate := if sdRate < dgRate then sdRate else dgRate
      let rateExtra :=
        if sdRateExtra < dgRateExtra then sdRateExtra else dgRateExtra
      pure (cutOff rate, cutOff rateExtra)
  | _ => throw "dtn to gateway edge != 1"

/-- The loop: the rates of all paths, added up. -/
def edgeRates (s : Manager) : List Nat → Except String (Rat × Rat)
  | [] => pure (0, 0)
  | i :: l => do
      let (rate, rateExtra) ← s.pathRates i
      let (avail, availExtra) ← s.edgeRates l
      pure (rate + avail, rateExtra + availExtra)

/-- The test of the storage: 3 and 4 are returned at once. -/
def probeStorage (cap sre srb rate : Rat) : Nat :=
  if cap < rate then 4
  else if cap - srb - sre > rate then 1
  else if cap - srb > rate then 2
  else 3

/-- The test of the paths: 3 is returned at once. -/
def probeEdges (avail availExtra rate : Rat) : Nat :=
  if avail > rate then 1
  else if availExtra > rate then 2
  else 3

def probePathRate (s : Manager) (storage : String) (rate : Rat) :
    Except String Nat := do
  let snode ← s.look (RGraph.getStorageNode storage)
  let sre := sumRe (s.jobsAt snode.addr)
  let srb := sumRb (s.jobsAt snode.addr)
  let resStorage := probeStorage snode.data.cap sre srb rate
  if resStorage = 3 ∨ resStorage = 4 then pure resStorage
  else do
    let (avail, availExtra) ← s.edgeRates snode.outs
    let resEdges := probeEdges avail availExtra rate
    if resEdges = 3 then pure 3
    else if resStorage = 1 ∧ resEdges = 1 then pure 1
    else pure 2

-- ======================================================= query_path_dtns

/-- Suspend a job, in memory and in the store. -/
def mark (job : BaseJob) (s : Manager) : Manager :=
  { s with jm := s.jm.setState job.id .markedForPrealloc,
           streams := updateStreamState job.id .markedForPrealloc s.streams }

end Manager

namespace Manage

/-- A read that may throw. -/
def read {α : Type} (f : Manager → Except String α) : Manage α := fun s =>
  match f s with
  | .ok a => .ok a s
  | .error e => .error e s

end Manage

/-- How the suspension loop ends when it does not throw. -/
inductive LoopEnd
  /-- the condition is false: there is room -/
  | enough
  /-- the empty list is returned -/
  | noSpace
deriving DecidableEq, Repr

/-- The suspension loop of `query_path_dtns`, a number of turns of it at
most. In the condition `!=` binds stronger than `=`, so `r` is not the
code of the probe: it is 1 in every turn. -/
def suspendJobs (storageid : String) (snode : PtrGraph.Node RNode)
    (rate : Rat) : Nat → Manage (Option LoopEnd)
  | 0 => pure none
  | turns + 1 => do
      let code ← Manage.read fun s => s.probePathRate storageid rate
      let r := if code ≠ 1 then 1 else 0
      if r = 0 then pure (some .enough)
      else if r = 3 then pure (some .noSpace)
      else if ((← get).nodeJobs snode.addr).length = 0 then
        pure (some .noSpace)
      else do
        let job ← Manage.read fun s => findLargestReJob (s.jobsAt snode.addr)
        modify (Manager.mark job)
        suspendJobs storageid snode rate turns

/-- The loop of `query_path_dtns` that gives the rate to the DTNs. The
index of the first edge to the gateway is not checked. -/
def fillDtns (s : Manager) : List Nat → Rat → Except String (List (String × Rat))
  | [], _ => pure []
  | i :: l, remaining => do
      let sd ← s.edgeAt i
      let dtn ← s.dstNode sd
      let sdRate := availableRate sd.data (s.jobsOn sd.rid)
      match dtn.outs with
      | [] => throw "no edge to the gateway"
      | j :: _ =>
          let dg ← s.edgeAt j
          let dgRate := availableRate dg.data (s.jobsOn dg.rid)
          let edgeRate := min sdRate dgRate
          if edgeRate < 1000 then fillDtns s l remaining
          else if edgeRate > remaining then pure [(dtn.data.rid, remaining)]
          else do
            let rest ← fillDtns s l (remaining - edgeRate)
            pure ((dtn.data.rid, edgeRate) :: rest)

/-- `query_path_dtns`, with a bound on the turns of its first loop. -/
def queryPathDtns (turns : Nat) (storageid : String) (rate : Rat) :
    Manage (Option (List (String × Rat))) := do
  let snode ← Manage.read fun s => s.look (RGraph.getStorageNode storageid)
  match ← suspendJobs storageid snode rate turns with
  | none => pure none
  | some .noSpace => pure (some [])
  | some .enough => do
      let dtns ← Manage.read fun s => fillDtns s snode.outs rate
      pure (some dtns)

-- ======================================================= match_path_dtns

/-- A pair of DTNs with its rate, and the positions in the two lists it
was made for, which the source does not keep. -/
structure MatchedPair where
  isrc : Nat
  idst : Nat
  src : String
  dst : String
  rate : Rat
deriving DecidableEq

/-- The state of `match_path_dtns`: the indices, the two lists, from whose
rates it subtracts in place, and the result so far. -/
structure Matching where
  isrc : Nat := 0
  idst : Nat := 0
  src : List (String × Rat)
  dst : List (String × Rat)
  dtnPairs : List MatchedPair := []

/-- `dtns[i].second -= rate` -/
def lowerRate (dtns : List (String × Rat)) (i : Nat) (rate : Rat) :
    List (String × Rat) :=
  dtns.modify i fun dr => (dr.1, dr.2 - rate)

namespace Matching

/-- The block for equal rates. The source has no `else` after it. -/
def both (m : Matching) (sRate dRate : Rat) : Matching :=
  { m with src := lowerRate m.src m.isrc sRate,
           dst := lowerRate m.dst m.idst dRate,
           isrc := m.isrc + 1, idst := m.idst + 1 }

/-- The body of the loop up to the push, at the entries `s` and `d`. The
references to them were taken at the start. -/
def turn (m : Matching) (s d : String × Rat) : Matching :=
  let m' := if s.2 = d.2 then m.both s.2 d.2 else m
  if s.2 > d.2 then
    { src := lowerRate m'.src m.isrc d.2
      dst := lowerRate m'.dst m.idst d.2
      isrc := m'.isrc
      idst := m'.idst + 1
      dtnPairs := m.dtnPairs ++ [⟨m.isrc, m.idst, s.1, d.1, d.2⟩] }
  else
    { src := lowerRate m'.src m.isrc s.2
      dst := lowerRate m'.dst m.idst s.2
      isrc := m'.isrc + 1
      idst := m'.idst
      dtnPairs := m.dtnPairs ++ [⟨m.isrc, m.idst, s.1, d.1, s.2⟩] }

end Matching

/-- How `match_path_dtns` ends. -/
inductive MatchEnd
  | pairs (l : List MatchedPair)
  | thrown (what : String)
  /-- a list is read past its end -/
  | outOfRange
deriving DecidableEq

/-- The loop of `match_path_dtns`, a number of turns of it at most. -/
def matchLoop : Nat → Matching → Option MatchEnd
  | 0, _ => none
  | turns + 1, m =>
      match m.src[m.isrc]?, m.dst[m.idst]? with
      | some s, some d =>
          let m := m.turn s d
          if m.src.length ≤ m.isrc ∧ m.dst.length ≤ m.idst then
            some (.pairs m.dtnPairs)
          else if m.src.length ≤ m.isrc ∨ m.dst.length ≤ m.idst then
            some (.thrown "something wrong in dtn matching")
          else matchLoop turns m
      | _, _ => some .outOfRange

def matchPathDtns (turns : Nat) (srcDtns dstDtns : List (String × Rat)) :
    Option MatchEnd :=
  matchLoop turns { src := srcDtns, dst := dstDtns }

-- ============================================================ create_job

/-- `RBase::add_job`, on a table: `emplace` at the place of the id. -/
def addJob (id : String) (table : List String) : List String :=
  if id ∈ table then table else table.orderedInsert (· ≤ ·) id

namespace Manager

def addNodeJob (a : Nat) (id : String) (s : Manager) : Manager :=
  { s with nodeJobs := fun b =>
      if b = a then addJob id (s.nodeJobs b) else s.nodeJobs b }

def addEdgeJob (i : Nat) (id : String) (s : Manager) : Manager :=
  { s with edgeJobs := fun j =>
      if j = i then addJob id (s.edgeJobs j) else s.edgeJobs j }

end Manager

/-- `create_job`; the id of the job is what `guid()` returned. -/
def createJob (guid rawjobId srcStorage dstStorage srcDtn dstDtn : String)
    (rate : Rat) (extra : Bool) : Manage Unit := do
  let jg := if extra then JobGroup.extra else JobGroup.base
  modify fun s => { s with jm := s.jm.addBasicJob ⟨guid, jg, .running, rate⟩ }
  let snode ← Manage.read fun s => s.look (RGraph.getStorageNode srcStorage)
  let dnode ← Manage.read fun s => s.look (RGraph.getDtnNode srcDtn)
  let gnode ← Manage.read fun s => s.look (RGraph.getGeneralNode "gateway")
  modify (Manager.addNodeJob snode.addr guid)
  modify (Manager.addNodeJob dnode.addr guid)
  modify (Manager.addNodeJob gnode.addr guid)
  let sd ← Manage.read fun s => s.look (RGraph.getEdge srcStorage srcDtn)
  modify (Manager.addEdgeJob sd.rid guid)
  let dg ← Manage.read fun s => s.look (RGraph.getEdge srcDtn "gateway")
  modify (Manager.addEdgeJob dg.rid guid)
  modify fun s => { s with streams := s.streams ++
    [{ rawjob := rawjobId, guid := guid, srcstorage := srcStorage,
       dststorage := dstStorage, srcdtn := srcDtn, dstdtn := dstDtn,
       rate := rate, type := jg, state := .running }] }

end BigDataExpress
