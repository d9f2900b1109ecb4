/-
The resource graph of a site (server/resourcegraph.{h,cc}): storages,
DTNs and the general nodes (gateway, launcher, SDN agent), with the edges
along which data can flow.

# Representation

The three maps of the source are one list of nodes that carry the map
they live in (`kind`) and their key there; a name is the two together. A
node is an allocated object, and edges and `pDtn` point to it by address.
The ids of edges come from the same counter as the addresses: `guid()`
gives a new one every time.

A member function is a program over the graph that may throw; what it
did before the exception stays done. `add_edge` has no `return` at its
end, so its result is modelled as nothing.

The jobs of a component are kept beside the graph (`Manager`). Left out: its
`connected` flag and the type of a storage, which no function here reads.
-/
import BigDataExpress.Lib.Named

namespace BigDataExpress

/-- The map a node lives in. -/
inductive NodeKind
  | storage
  | dtn
  | general
deriving DecidableEq, Repr

/-- A storage as the registration of a DTN names it. -/
structure StorageRef where
  id : String
  type : String := ""
  name : String := ""
deriving DecidableEq, Repr

/-- The type a module registers under. -/
inductive ModuleType
  | dtn
  | localStorage
  | launcher
  | sdn
  | other (type : String)
deriving DecidableEq, Repr

/-- A JSON object as the resource manager reads it, from a registration
message or from the site store: a field that is missing reads as its
default. -/
structure Module where
  id : String := ""
  type : ModuleType := .other ""
  name : String := ""
  /-- `ctrl_interface.ip` -/
  ctrlIp : String := ""
  /-- `data_interfaces[0].rate` -/
  rate : Rat := 0
  rootFolder : String := ""
  storages : List StorageRef := []
  queueName : String := ""
  ioCapacity : Rat := 0
deriving DecidableEq

/-- What a node holds, apart from its edges. -/
structure RNode where
  kind : NodeKind
  key : String
  rid : String
  name : String
  cap : Rat := 0
  queue : String := ""
  prop : Module := {}
  rootFolder : String := "/"
  ctrlIp : String := ""
  /-- the DTN a storage designates, by address -/
  pDtn : Option Nat := none
deriving DecidableEq

/-- A node by its map and its key there. -/
abbrev NodeName : Type := NodeKind × String

/-- The name of a node: its kind and its key. -/
def RNode.nodeName (d : RNode) : NodeName := (d.kind, d.key)

/-- The graph; an edge carries its capacity. -/
abbrev RGraph : Type := PtrGraph RNode Rat

/-- A member function of the graph or of the resource manager. -/
abbrev Resource : Type → Type := EStateM String RGraph

/-- The key of the gateway. -/
def gatewayId : String := "RGRAPH_ID_GATEWAY"
/-- The key of the launcher, whatever its module's id. -/
def launcherId : String := "RGRAPH_ID_LAUNCHER"
/-- The key of the SDN agent, likewise. -/
def sdnId : String := "RGRAPH_ID_SDN"

namespace RGraph

-- ================================================================ testers

/-- The node under a name. -/
def find (g : RGraph) (x : NodeName) : Option (PtrGraph.Node RNode) :=
  PtrGraph.find RNode.nodeName g x

/-- There is a storage with the id. -/
def hasStorageNode (g : RGraph) (id : String) : Bool :=
  (find g (.storage, id)).isSome

/-- There is a DTN with the id. -/
def hasDtnNode (g : RGraph) (id : String) : Bool :=
  (find g (.dtn, id)).isSome

/-- There is a general node with the key. -/
def hasGeneralNode (g : RGraph) (id : String) : Bool :=
  (find g (.general, id)).isSome

/-- There is a node of some kind with the id. -/
def hasNode (g : RGraph) (id : String) : Bool :=
  hasStorageNode g id || hasDtnNode g id || hasGeneralNode g id

/-- There is a gateway. -/
def hasGateway (g : RGraph) : Bool := hasGeneralNode g gatewayId
/-- There is a launcher. -/
def hasLauncher (g : RGraph) : Bool := hasGeneralNode g launcherId
/-- There is an SDN agent. -/
def hasSdn (g : RGraph) : Bool := hasGeneralNode g sdnId

/-- The rid of the node at an address. -/
def ridAt (g : RGraph) (a : Nat) : Option String :=
  (g.node? a).map fun n => n.data.rid

/-- The ends of an edge are compared by rid, not by key. -/
def hasEdge (g : RGraph) (src dst : String) : Bool :=
  g.edges.any fun e => ridAt g e.src == some src && ridAt g e.dst == some dst

/-- What `get_node` looks up: a storage, else a DTN, else a general
node. -/
def lookup (g : RGraph) (id : String) : Option (PtrGraph.Node RNode) :=
  ((find g (.storage, id)).or (find g (.dtn, id))).or (find g (.general, id))

-- ================================================================ getters

/-- The node of some kind with the id, or an exception. -/
def getNode (id : String) : Resource (PtrGraph.Node RNode) := do
  match lookup (← get) id with
  | some n => pure n
  | none => throw ("node not fund. id: " ++ id)

/-- The storage with the id, or an exception. -/
def getStorageNode (sid : String) : Resource (PtrGraph.Node RNode) := do
  match find (← get) (.storage, sid) with
  | some n => pure n
  | none => throw ("storage node not found. id: " ++ sid)

/-- The DTN with the id, or an exception. -/
def getDtnNode (did : String) : Resource (PtrGraph.Node RNode) := do
  match find (← get) (.dtn, did) with
  | some n => pure n
  | none => throw ("dtn node not found. id: " ++ did)

/-- The general node with the key, or an exception. -/
def getGeneralNode (gid : String) : Resource (PtrGraph.Node RNode) := do
  match find (← get) (.general, gid) with
  | some n => pure n
  | none => throw ("general node not found. id: " ++ gid)

/-- As in `has_edge`, the ends are compared by rid. -/
def getEdge (src dst : String) : Resource (PtrGraph.Edge Rat) := do
  let g ← get
  match g.edges.find? fun e =>
      ridAt g e.src == some src && ridAt g e.dst == some dst with
  | some e => pure e
  | none => throw ("edge not found. from id: " ++ src ++ ", to id: " ++ dst)

-- ================================================================ setters

/-- `map::emplace`: a node that is there is kept. The result is the
address of the node under the name. -/
def emplace (d : RNode) : Resource Nat := do
  let g ← get
  match find g d.nodeName with
  | some n => pure n.addr
  | none =>
      set (g.insert d)
      pure g.next

/-- Adds a storage. -/
def addStorageNode (id name : String) (cap : Rat) : Resource Nat :=
  emplace { kind := .storage, key := id, rid := id, name := name, cap := cap }

/-- Adds a DTN. -/
def addDtnNode (id name : String) (cap : Rat) : Resource Nat :=
  emplace { kind := .dtn, key := id, rid := id, name := name, cap := cap }

/-- Adds a general node. -/
def addGeneralNode (id rid name : String) (cap : Rat) : Resource Nat :=
  emplace { kind := .general, key := id, rid := rid, name := name, cap := cap }

/-- Set fields of the node at an address. -/
def setAt (a : Nat) (f : RNode → RNode) : Resource Unit :=
  modify fun g => g.modify a f

/-- Sets the queue of a node. -/
def setQueue (a : Nat) (queue : String) : Resource Unit :=
  setAt a fun d => { d with queue := queue }

/-- Adds the gateway. -/
def addGateway : Resource Nat :=
  addGeneralNode gatewayId "gateway" "Gateway" 0

/-- Adds the launcher, with its queue. -/
def addLauncher (rid queue : String) : Resource Unit := do
  let a ← addGeneralNode launcherId rid "Launcher Agent" 0
  setQueue a queue

/-- Adds the SDN agent, with its queue. -/
def addSdn (rid queue : String) : Resource Unit := do
  let a ← addGeneralNode sdnId rid "SDN Agent" 0
  setQueue a queue

/-- Links two nodes by their ids. -/
def addEdge (src dst : String) (cap : Rat) : Resource Unit := do
  if hasEdge (← get) src dst then
    return
  let s ← getNode src
  let d ← getNode dst
  modify fun g => g.connect s.addr d.addr cap

/-- Links a node to the gateway. -/
def addEdgeToGateway (src : String) (cap : Rat) : Resource Unit := do
  if !hasDtnNode (← get) src then
    throw ("node " ++ src
      ++ " does not exist, or is not registered as a DTN node")
  addEdge src gatewayId cap

-- =============================================================== deletion

/-- The key a module id is deleted under: launcher and SDN agent have a
key of their own. -/
def nodeKey (g : RGraph) (id : String) : Option String :=
  if hasNode g id then some id
  else if (find g (.general, launcherId)).any (fun n => id == n.data.rid) then
    some launcherId
  else if (find g (.general, sdnId)).any (fun n => id == n.data.rid) then
    some sdnId
  else none

/-- Deletes the node with the id, if it is there. The gateway stays. -/
def delNode (id : String) : Resource Unit := do
  if id == "gateway" then
    throw "not allowed to delete the gateway node"
  match nodeKey (← get) id with
  | none => return
  | some nid =>
      let node ← getNode nid
      modify fun g => g.remove node.addr

/-- Deletes the launcher. -/
def delLauncher : Resource Unit := do
  if !hasLauncher (← get) then
    return
  delNode launcherId

/-- Deletes the SDN agent. -/
def delSdn : Resource Unit := do
  if !hasSdn (← get) then
    return
  delNode sdnId

/-- Clears the graph. -/
def reset : Resource Unit :=
  modify PtrGraph.clear

end RGraph

end BigDataExpress
