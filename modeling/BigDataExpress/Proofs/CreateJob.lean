/-
`create_job` over every graph that registrations build.

The gateway is a general node with the rid "gateway", but its key in the
map is an id of its own. `create_job` asks the map for "gateway", and no
sequence of registrations puts a general node there: the keys of the
general nodes are the three reserved ones (`Keyed`). So the call throws on
every site, and the job it added to the job manager before its first
look-up stays there.
-/
import BigDataExpress.Proofs.Probe

namespace BigDataExpress

open Stateful

namespace RGraph

-- ============================================================== the keys

/-- A general node is under one of the reserved keys. -/
def KeyOk (d : RNode) : Prop := d.kind = .general → ReservedKey d.key

/-- All general nodes are. -/
def Keyed (g : RGraph) : Prop := PtrGraph.Every KeyOk g

theorem keyed_emplace {d : RNode} (hd : KeyOk d) : Keeps Keyed (emplace d) := by
  intro g h
  rw [wp_emplace]
  cases find g d.nodeName with
  | none => exact .inr ⟨rfl, h.insert hd⟩
  | some n => exact .inl ⟨n, rfl, h⟩

theorem keyed_setAt (a : Nat) {f : RNode → RNode}
    (hf : ∀ d, KeyOk d → KeyOk (f d)) : Keeps Keyed (setAt a f) :=
  fun _ h => PtrGraph.Every.modify h hf a

theorem keyed_setQueue (a : Nat) (queue : String) :
    Keeps Keyed (setQueue a queue) :=
  keyed_setAt a fun _ hd => hd

theorem keyed_addEdge (src dst : String) (cap : Rat) :
    Keeps Keyed (addEdge src dst cap) := by
  intro g h
  rw [wp_addEdge]
  split
  · exact h
  · cases lookup g src with
    | none => exact .inr ⟨.inl rfl, h⟩
    | some s =>
        cases lookup g dst with
        | none => exact .inr ⟨.inr rfl, h⟩
        | some d => exact .inl ⟨s, d, rfl, rfl, h.connect _ _ _⟩

theorem keyed_addEdgeToGateway (src : String) (cap : Rat) :
    Keeps Keyed (addEdgeToGateway src cap) := by
  intro g h
  rw [wp_addEdgeToGateway]
  split
  · exact keyed_addEdge src gatewayId cap g h
  · exact h

theorem keyed_delNode (id : String) : Keeps Keyed (delNode id) := by
  intro g h
  apply wp_of_after
  rw [after_delNode, deleted]
  cases target g id with
  | none => exact h
  | some n => exact h.remove n.addr

theorem keyed_delLauncher : Keeps Keyed delLauncher :=
  .get_bind fun _ => .ite (.pure _) (keyed_delNode launcherId)

theorem keyed_delSdn : Keeps Keyed delSdn :=
  .get_bind fun _ => .ite (.pure _) (keyed_delNode sdnId)

theorem keyed_addStorageNode (id name : String) (cap : Rat) :
    Keeps Keyed (addStorageNode id name cap) := by
  apply keyed_emplace
  intro hk
  cases hk

theorem keyed_addDtnNode (id name : String) (cap : Rat) :
    Keeps Keyed (addDtnNode id name cap) := by
  apply keyed_emplace
  intro hk
  cases hk

theorem keyed_addLauncher (rid queue : String) :
    Keeps Keyed (addLauncher rid queue) :=
  .bind (keyed_emplace fun _ => .inr (.inl rfl)) fun a => keyed_setQueue a queue

theorem keyed_addSdn (rid queue : String) :
    Keeps Keyed (addSdn rid queue) :=
  .bind (keyed_emplace fun _ => .inr (.inr rfl)) fun a => keyed_setQueue a queue

theorem keyed_bare (g : RGraph) : Keyed (bare g) :=
  (PtrGraph.Every.clear g).insert fun _ => .inl rfl

-- ============================================================= the calls

open ResourceManager

/-- A storage or a DTN is configured field by field. -/
theorem keyed_addModule (queue : String) (m : Module) :
    Keeps Keyed (addModule queue m) := by
  unfold addModule
  cases m.type with
  | dtn =>
      refine .bind (keyed_addDtnNode m.id m.name 0) fun a => ?_
      refine .bind (keyed_setAt a fun _ hd => hd) fun _ => ?_
      refine .bind (keyed_setQueue a queue) fun _ => ?_
      refine .bind (keyed_setAt a fun _ hd => hd) fun _ => ?_
      exact keyed_addEdgeToGateway m.id m.rate
  | localStorage =>
      refine .bind (keyed_addStorageNode m.id m.name 1000000) fun a => ?_
      refine .bind (keyed_setQueue a queue) fun _ => ?_
      refine .bind (keyed_setAt a fun _ hd => hd) fun _ => ?_
      exact keyed_setAt a fun _ hd => hd
  | launcher =>
      refine .get_bind fun g => .ite ?_ (keyed_addLauncher m.id queue)
      exact .bind keyed_delLauncher fun _ => keyed_addLauncher m.id queue
  | sdn =>
      refine .get_bind fun g => .ite ?_ (keyed_addSdn m.id queue)
      exact .bind keyed_delSdn fun _ => keyed_addSdn m.id queue
  | other type => exact .pure _

theorem keyed_mapStorageCaught (sid did : String) :
    Keeps Keyed (mapStorageCaught sid did) := by
  apply Keeps.catch
  refine .bind (keyed_addEdge sid did 40000000000) fun _ => ?_
  refine .bind (Keeps.get_bind fun g => ?_) fun s => ?_
  · cases find g (.storage, sid) with
    | none => exact fun _ h => h
    | some n => exact .pure n
  · refine .bind (Keeps.get_bind fun g => ?_) fun d => ?_
    · cases find g (.dtn, did) with
      | none => exact fun _ h => h
      | some n => exact .pure n
    · exact keyed_setAt s.addr fun _ hd => hd

theorem keyed_linkModule (m : Module) : Keeps Keyed (linkModule m) := by
  unfold linkModule
  cases m.type with
  | dtn =>
      apply Keeps.forM
      intro s
      exact keyed_mapStorageCaught s.id m.id
  | localStorage | launcher | sdn | other => exact .pure _

theorem keyed_constructStorage (m : Module) :
    Keeps Keyed (constructStorage m) := by
  refine .bind (keyed_addStorageNode m.id m.name m.ioCapacity) fun a => ?_
  refine .bind (keyed_setQueue a m.queueName) fun _ => ?_
  refine .bind (keyed_setAt a fun _ hd => hd) fun _ => ?_
  exact keyed_setAt a fun _ hd => hd

theorem keyed_constructDtn (m : Module) : Keeps Keyed (constructDtn m) := by
  refine .bind (keyed_addDtnNode m.id m.name 0) fun a => ?_
  refine .bind (keyed_setAt a fun _ hd => hd) fun _ => ?_
  refine .bind (keyed_setQueue a m.queueName) fun _ => ?_
  refine .bind (keyed_setAt a fun _ hd => hd) fun _ => ?_
  exact keyed_addEdgeToGateway m.id m.rate

theorem keyed_call (c : Call) : Keeps Keyed c.run := by
  cases c with
  | addModules queue modules =>
      refine .bind (.forM (keyed_addModule queue) modules) fun _ => ?_
      exact .forM keyed_linkModule modules
  | delModules modules => exact .forM (fun m => keyed_delNode m.id) modules
  | construct store =>
      refine .bind (fun g _ => PtrGraph.Every.clear g) fun _ => ?_
      refine .bind (keyed_emplace fun _ => .inl rfl) fun _ => ?_
      refine .bind (.forM keyed_constructStorage _) fun _ => ?_
      refine .bind (.forM keyed_constructDtn _) fun _ => ?_
      exact .forM (fun _ => keyed_mapStorageCaught _ _) store.storageDtnMap

/-- The graphs that registrations build. -/
def built (calls : List Call) : RGraph :=
  runAll (calls.map Call.run) initial

/-- No general node is under the key "gateway". -/
theorem built_gateway (calls : List Call) :
    find (built calls) (.general, "gateway") = none := by
  have h : Keyed (built calls) := by
    refine runAll_inv ?_ (keyed_bare {})
    intro x hx g hg
    obtain ⟨c, -, rfl⟩ := List.mem_map.mp hx
    exact (keyed_call c g hg).after
  cases hf : find (built calls) (.general, "gateway") with
  | none => rfl
  | some n =>
      obtain ⟨hmem, hname⟩ := PtrGraph.find_some hf
      injection hname with hkind hkey
      have hreserved := h n hmem hkind
      rw [hkey] at hreserved
      simp [ReservedKey, gatewayId, launcherId, sdnId] at hreserved

end RGraph

-- ========================================================= all or nothing

namespace Manager

/-- An edge from a node to another. -/
def Joined (g : RGraph) (n m : PtrGraph.Node RNode) (e : PtrGraph.Edge Rat) :
    Prop :=
  e ∈ g.edges ∧ e.src = n.addr ∧ e.dst = m.addr

/-- The nodes and the edges a job runs over. -/
structure Route (g : RGraph) (srcStorage srcDtn : String) where
  storage : PtrGraph.Node RNode
  dtn : PtrGraph.Node RNode
  gateway : PtrGraph.Node RNode
  sd : PtrGraph.Edge Rat
  dg : PtrGraph.Edge Rat
  findStorage : RGraph.find g (.storage, srcStorage) = some storage
  findDtn : RGraph.find g (.dtn, srcDtn) = some dtn
  findGateway : RGraph.find g RGraph.gatewayName = some gateway
  joinStorage : Joined g storage dtn sd
  joinDtn : Joined g dtn gateway dg

/-- A job with its ends. -/
structure NewJob where
  guid : String
  rawjobId : String
  srcStorage : String
  dstStorage : String
  srcDtn : String
  dstDtn : String
  rate : Rat
  extra : Bool

namespace NewJob

def create (j : NewJob) : Manage Unit :=
  createJob j.guid j.rawjobId j.srcStorage j.dstStorage j.srcDtn j.dstDtn
    j.rate j.extra

def group (j : NewJob) : JobGroup := if j.extra then .extra else .base

/-- The entry of the job manager. -/
def job (j : NewJob) : BaseJob := ⟨j.guid, j.group, .running, j.rate⟩

/-- The document of the store. -/
def stream (j : NewJob) : Stream where
  rawjob := j.rawjobId
  guid := j.guid
  srcstorage := j.srcStorage
  dststorage := j.dstStorage
  srcdtn := j.srcDtn
  dstdtn := j.dstDtn
  rate := j.rate
  type := j.group
  state := .running

/-- The job is at every place along a route. -/
structure Registered (j : NewJob) {g : RGraph}
    (r : Route g j.srcStorage j.srcDtn) (t : Manager) : Prop where
  manager : t.jm.find j.guid = some j.job
  storage : j.guid ∈ t.nodeJobs r.storage.addr
  dtn : j.guid ∈ t.nodeJobs r.dtn.addr
  gateway : j.guid ∈ t.nodeJobs r.gateway.addr
  sd : j.guid ∈ t.edgeJobs r.sd.rid
  dg : j.guid ∈ t.edgeJobs r.dg.rid
  stream : j.stream ∈ t.streams

end NewJob

/-- Two sites with the same jobs, at the same places. -/
structure SameJobs (s t : Manager) : Prop where
  jm : t.jm = s.jm
  nodeJobs : t.nodeJobs = s.nodeJobs
  edgeJobs : t.edgeJobs = s.edgeJobs
  streams : t.streams = s.streams

/-- On a route the job is created along it; without one the call throws and
changes no job. -/
def AllOrNothing (s : Manager) (j : NewJob) : Prop :=
  (Nonempty (Route s.graph j.srcStorage j.srcDtn) →
      ∃ (r : Route s.graph j.srcStorage j.srcDtn) (t : Manager),
        j.create s = .ok () t ∧ j.Registered r t)
    ∧ (¬ Nonempty (Route s.graph j.srcStorage j.srcDtn) →
      ∃ e t, j.create s = .error e t ∧ SameJobs s t)

variable {s : Manager}

theorem look_getDtnNode {id : String} {n : PtrGraph.Node RNode}
    (h : RGraph.find s.graph (.dtn, id) = some n) :
    s.look (RGraph.getDtnNode id) = .ok n := by
  unfold look
  rw [RGraph.getDtnNode, Stateful.get_bind_run, h]
  rfl

theorem look_none {id : String} :
    (RGraph.find s.graph (.storage, id) = none →
        ∃ e, s.look (RGraph.getStorageNode id) = .error e)
      ∧ (RGraph.find s.graph (.dtn, id) = none →
        ∃ e, s.look (RGraph.getDtnNode id) = .error e)
      ∧ (RGraph.find s.graph (.general, id) = none →
        ∃ e, s.look (RGraph.getGeneralNode id) = .error e) := by
  unfold look RGraph.getStorageNode RGraph.getDtnNode RGraph.getGeneralNode
  simp only [Stateful.get_bind_run]
  refine ⟨?_, ?_, ?_⟩ <;> (intro h; rw [h]; exact ⟨_, rfl⟩)

/-- The job is added to the manager, then the look-up of the gateway, or
one before it, throws. -/
theorem create_throws (j : NewJob)
    (h : RGraph.find s.graph (.general, "gateway") = none) :
    ∃ e, j.create s = .error e { s with jm := s.jm.addBasicJob j.job } := by
  unfold NewJob.create createJob
  show ∃ e, (Manage.read _ >>= _) { s with jm := s.jm.addBasicJob j.job } = _
  generalize hs' : { s with jm := s.jm.addBasicJob j.job } = s'
  have hg : s'.graph = s.graph := hs' ▸ rfl
  cases hstorage : RGraph.find s'.graph (.storage, j.srcStorage) with
  | none =>
      obtain ⟨e, he⟩ := look_none.1 hstorage
      exact ⟨e, read_bind_error he⟩
  | some n =>
      rw [read_bind_ok (look_getStorageNode hstorage)]
      cases hdtn : RGraph.find s'.graph (.dtn, j.srcDtn) with
      | none =>
          obtain ⟨e, he⟩ := look_none.2.1 hdtn
          exact ⟨e, read_bind_error he⟩
      | some d =>
          rw [read_bind_ok (look_getDtnNode hdtn)]
          obtain ⟨e, he⟩ := look_none.2.2 (hg ▸ h)
          exact ⟨e, read_bind_error he⟩

/-- On the graphs that registrations build, a job is created in whole or not
at all only when its id was taken before and there is no way for it. -/
theorem create_job_all_or_nothing_iff (calls : List ResourceManager.Call)
    (s : Manager) (j : NewJob) :
    AllOrNothing { s with graph := RGraph.built calls } j
      ↔ j.guid ∈ s.jm.basicJobs.map BaseJob.id
        ∧ ¬ Nonempty (Route (RGraph.built calls) j.srcStorage j.srcDtn) := by
  generalize hs' : { s with graph := RGraph.built calls } = s'
  have hgraph : s'.graph = RGraph.built calls := hs' ▸ rfl
  have hjm : s'.jm = s.jm := hs' ▸ rfl
  obtain ⟨e, hthrows⟩ := create_throws (s := s') j
    (hgraph ▸ RGraph.built_gateway calls)
  rw [← hgraph, ← hjm]
  constructor
  · intro ⟨hcreated, hnothing⟩
    have hnone : ¬ Nonempty (Route s'.graph j.srcStorage j.srcDtn) := by
      intro hr
      obtain ⟨r, t, hres, -⟩ := hcreated hr
      rw [hthrows] at hres
      cases hres
    obtain ⟨e', t, hres, hsame⟩ := hnothing hnone
    rw [hthrows] at hres
    injection hres with _ hst
    refine ⟨?_, hnone⟩
    -- a new id would have made the manager longer
    by_contra hnew
    have hjobs : s'.jm.addBasicJob j.job = s'.jm := by
      subst hst
      exact hsame.jm
    unfold JobManager.addBasicJob at hjobs
    rw [dif_neg (show j.job.id ∉ _ from hnew)] at hjobs
    have hlen := congrArg (fun jm => jm.basicJobs.length) hjobs
    simp at hlen
  · intro ⟨hold, hnone⟩
    refine ⟨fun hr => absurd hr hnone, fun _ => ⟨e, _, hthrows, ?_⟩⟩
    have hkept : s'.jm.addBasicJob j.job = s'.jm := by
      unfold JobManager.addBasicJob
      exact dif_pos hold
    exact ⟨hkept, rfl, rfl, rfl⟩

/-- A storage and a DTN of it, registered together. -/
def registerDisk : List ResourceManager.Call :=
  [.addModules "q1"
    [{ id := "disk1", type := .localStorage },
      { id := "dtn1", type := .dtn, storages := [{ id := "disk1" }] }]]

/-- A job from the storage. -/
def diskJob : NewJob where
  guid := "j1"
  rawjobId := "r1"
  srcStorage := "disk1"
  dstStorage := "disk2"
  srcDtn := "dtn1"
  dstDtn := "dtn2"
  rate := 1000
  extra := false

/-- The registered storage has a route, and the call throws. -/
theorem create_job_throws :
    ¬ ∀ (calls : List ResourceManager.Call) (s : Manager) (j : NewJob),
      j.guid ∉ s.jm.basicJobs.map BaseJob.id →
      AllOrNothing { s with graph := RGraph.built calls } j := by
  intro h
  have hroute : Nonempty (Route (RGraph.built registerDisk) "disk1" "dtn1") := by
    refine ⟨_, _, _, ⟨4, 1, 2, 40000000000⟩, ⟨3, 2, 0, 0⟩, rfl, rfl, rfl, ?_, ?_⟩
    · exact ⟨by decide +kernel, rfl, rfl⟩
    · exact ⟨by decide +kernel, rfl, rfl⟩
  obtain ⟨r, t, hres, -⟩ :=
    (h registerDisk {} diskJob List.not_mem_nil).1 hroute
  obtain ⟨e, hthrows⟩ :=
    create_throws (s := { graph := RGraph.built registerDisk }) diskJob
      (RGraph.built_gateway registerDisk)
  rw [hthrows] at hres
  cases hres

end Manager

end BigDataExpress
