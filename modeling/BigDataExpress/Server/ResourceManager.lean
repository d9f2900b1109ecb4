/-
Registration of agent modules (server/resourcemanager.cc,
`add_modules`, `del_modules` and `construct`).

The messages of all agents are processed one at a time, on the
"resource" strand of the scheduler, so a run is a sequence of them. An
exception that leaves one of the functions keeps what it did so far.
-/
import BigDataExpress.Server.ResourceGraph

namespace BigDataExpress

namespace ResourceManager

open RGraph

/-- The constructor: a graph with the gateway only. -/
def init : Resource Unit := do
  reset
  let _ ← addGateway

/-- `add_modules`, iteration 1: the module becomes a node. -/
def addModule (queue : String) (m : Module) : Resource Unit := do
  match m.type with
  | .dtn =>
      let node ← addDtnNode m.id m.name 0
      setAt node fun d => { d with ctrlIp := m.ctrlIp }
      setQueue node queue
      setAt node fun d => { d with prop := m }
      addEdgeToGateway m.id m.rate
  | .localStorage =>
      let node ← addStorageNode m.id m.name 1000000
      setQueue node queue
      setAt node fun d => { d with rootFolder := m.rootFolder }
      setAt node fun d => { d with prop := m }
  | .launcher =>
      if hasLauncher (← get) then
        delLauncher
      addLauncher m.id queue
  | .sdn =>
      if hasSdn (← get) then
        delSdn
      addSdn m.id queue
  | .other _ => return

/-- The edge from a storage to a DTN, and the storage's pointer back. -/
def mapStorage (sid did : String) : Resource Unit := do
  addEdge sid did 40000000000
  let s ← getStorageNode sid
  let d ← getDtnNode did
  setAt s.addr fun n => { n with pDtn := some d.addr }

/-- The catch-all around a storage mapping. -/
def mapStorageCaught (sid did : String) : Resource Unit :=
  tryCatch (mapStorage sid did) fun _ => return

/-- `add_modules`, iteration 2: the links of a DTN to its storages. -/
def linkModule (m : Module) : Resource Unit :=
  match m.type with
  | .dtn => m.storages.forM fun s => mapStorageCaught s.id m.id
  | _ => return

def addModules (queue : String) (modules : List Module) : Resource Unit := do
  modules.forM (addModule queue)
  modules.forM linkModule

def delModules (modules : List Module) : Resource Unit :=
  modules.forM fun m => delNode m.id

-- =============================================================== messages

/-- A run of an agent daemon: a restarted agent is another instance, with
the same modules. -/
structure Instance where
  cid : String
  queue : String
  modules : List Module
deriving DecidableEq

/-- A message on `reg/<cid>`: the registration of an instance, sent at
every connect, or its deregistration, sent as last will or at shutdown. -/
inductive RegMsg
  | online (i : Instance)
  | offline (i : Instance)

/-- `Scheduler::resource_construct` -/
def resourceConstruct : RegMsg → Resource Unit
  | .online i => addModules i.queue i.modules
  | .offline i => delModules i.modules

-- ============================================================== construct

/-- The lists of the site store that the graph is rebuilt from. -/
structure Inventory where
  storages : List Module := []
  dtns : List Module := []
  /-- pairs of a storage and a DTN -/
  storageDtnMap : List (String × String) := []
deriving DecidableEq

/-- `construct`: one storage of the store. -/
def constructStorage (s : Module) : Resource Unit := do
  let node ← addStorageNode s.id s.name s.ioCapacity
  setQueue node s.queueName
  setAt node fun d => { d with rootFolder := s.rootFolder }
  setAt node fun d => { d with prop := s }

/-- `construct`: one DTN of the store. -/
def constructDtn (m : Module) : Resource Unit := do
  let node ← addDtnNode m.id m.name 0
  setAt node fun d => { d with ctrlIp := m.ctrlIp }
  setQueue node m.queueName
  setAt node fun d => { d with prop := m }
  addEdgeToGateway m.id m.rate

def construct (store : Inventory) : Resource Unit := do
  reset
  let _ ← addGateway
  store.storages.forM constructStorage
  store.dtns.forM constructDtn
  store.storageDtnMap.forM fun sd => mapStorageCaught sd.1 sd.2

/-- A call that changes the resource graph. -/
inductive Call
  | addModules (queue : String) (modules : List Module)
  | delModules (modules : List Module)
  | construct (store : Inventory)

def Call.run : Call → Resource Unit
  | .addModules queue modules => ResourceManager.addModules queue modules
  | .delModules modules => ResourceManager.delModules modules
  | .construct store => ResourceManager.construct store

end ResourceManager

end BigDataExpress
