/-
The agent daemon (agent/agent.{h,cc}, agent/agentmanager.{h,cc}): its
modules, their way through the stages of `prepare`, the registration that
comes out of it, and the dispatch of RPC messages to the modules.

A module is known by its place in the store. What its virtual methods do
to it is a list of calls of the three functions that change a module, so a
statement about all lists is one about all kinds of modules; a module may
also add others when it bootstraps, as a DTN does with its storages. An
exception that leaves `prepare` ends the process; later an exception leaves
the call that threw it. Left out are the connection and its encryption, the
timers and the log.
-/
import BigDataExpress.Lib.Stateful
import BigDataExpress.Server.Commands

namespace BigDataExpress

/-- `Agent`; `prop_` is an object. -/
structure AgentModule where
  id : String
  name : String
  type : String
  queue : String := ""
  prop : List (String × Json)
  stage : Nat := 0

namespace AgentModule

def setProp (m : AgentModule) (key : String) (val : Json) : AgentModule :=
  { m with prop := Json.assign key val m.prop }

/-- The constructor. -/
def make (id name type : String) : AgentModule :=
  (((AgentModule.mk id name type "" [] 0).setProp "id" (.str id)).setProp
    "name" (.str name)).setProp "type" (.str type) |>.setProp "queue" (.str "")

/-- `Agent::manager`, of a module that was just made. -/
def manage (queue : String) (m : AgentModule) : AgentModule :=
  { m with queue := queue }.setProp "queue" (.str queue)

/-- The properties that a module may not set itself. -/
def reserved : List String := ["id", "name", "type", "queue"]

end AgentModule

/-- `AgentManager`; `queue` is that of its RPC server, and `capacity` what
the vector of the modules has room for. -/
structure Daemon where
  queue : String
  mstore : List AgentModule := []
  capacity : Nat := 100

/-- What a module does to itself. -/
inductive ModuleCall
  | updateId (id : String)
  | updateName (name : String)
  | setProp (key : String) (val : Json)

/-- What a module does when it bootstraps; it adds others by their ids,
names and types. -/
inductive BootCall
  | self (c : ModuleCall)
  | add (id name type : String)

/-- What the virtual methods of a module do, at each stage. -/
structure Behaviour where
  bootstrap : List BootCall := []
  init : List ModuleCall := []
  registration : List ModuleCall := []

namespace Daemon

abbrev Managing : Type → Type := EStateM String Daemon

def hasModule (d : Daemon) (id : String) : Bool :=
  d.mstore.any fun m => m.id = id

/-- `add`, of a module as it is constructed. A vector that is full moves to
another twice as large. -/
def add (d : Daemon) (m : AgentModule) : Daemon :=
  { d with
    mstore := d.mstore ++ [m.manage d.queue]
    capacity :=
      if d.mstore.length = d.capacity then 2 * d.capacity else d.capacity }

/-- A daemon with the modules of its configuration, by their ids, names and
types. -/
def start (queue : String) (mods : List (String × String × String)) :
    Daemon :=
  mods.foldl (fun d m => d.add (.make m.1 m.2.1 m.2.2)) { queue := queue }

/-- Write to the module at a place. -/
def setAt (i : Nat) (f : AgentModule → AgentModule) : Managing Unit :=
  modify fun d => { d with mstore := d.mstore.modify i f }

/-- What a call does to a module, where it may be made. -/
def changed (d : Daemon) (m : AgentModule) :
    ModuleCall → Except String AgentModule
  | .updateId id =>
      if 3 ≤ m.stage then throw "Agent::update_id() called at wrong stage"
      else if d.hasModule id then
        throw "Agent::update_id() has a duplicated id"
      else pure ({ m with id := id }.setProp "id" (.str id))
  | .updateName name =>
      if 3 ≤ m.stage then throw "Agent::update_name() called at wrong stage"
      else pure ({ m with name := name }.setProp "name" (.str name))
  | .setProp key val =>
      if key ∈ AgentModule.reserved then throw "reserved prop key"
      else pure (m.setProp key val)

/-- A call that the module at a place makes. -/
def call (i : Nat) (c : ModuleCall) : Managing Unit := do
  let d ← get
  match d.mstore[i]? with
  | none => pure ()
  | some m =>
      let m ← Stateful.ofExcept (d.changed m c)
      setAt i fun _ => m

/-- A call while the modules are bootstrapped. If the vector moves, the loop
over it goes on in memory that was freed. -/
def bootCall (i : Nat) : BootCall → Managing Unit
  | .self c => call i c
  | .add id name type => do
      let d ← get
      if d.mstore.length = d.capacity then throw "mstore has moved"
      else set (d.add (.make id name type))

/-- The stage that a virtual method leaves its module at. -/
def setStage (i n : Nat) : Managing Unit :=
  setAt i fun m => { m with stage := n }

/-- A loop over the store, by the places there are when it begins. -/
def forEach (f : Nat → Managing Unit) : Managing Unit := do
  let d ← get
  (List.range d.mstore.length).forM f

/-- `reg_val` of the daemon, or its `de_reg_val`. -/
def regVal (d : Daemon) (online : Bool) : Json :=
  .object [("online", .bool online), ("queue", .str d.queue),
    ("modules", .arr (d.mstore.map fun m => .obj m.prop))]

/-- `prepare`, with what the modules do by their places. What was added in
the first loop is first seen by the second. -/
def prepare (does : Nat → Behaviour) : Managing Unit := do
  forEach fun i => do
    (does i).bootstrap.forM (bootCall i)
    setStage i 1
  forEach fun i => do
    (does i).init.forM (call i)
    setStage i 2
    (does i).registration.forM (call i)
    setStage i 3

/-- The state after calls of modules by their places, some of which may have
thrown. -/
def afterCalls (d : Daemon) (cs : List (Nat × ModuleCall)) : Daemon :=
  cs.foldl (fun d c => Stateful.after (call c.1 c.2) d) d

-- ============================================================ RPC messages

/-- What becomes of an RPC message: a reply at once, or a command that a
module is to execute, whose result is then the reply. -/
inductive Dispatched
  | replied (res : Json)
  | command (m : AgentModule) (cmd : String) (params : Json)

/-- The reply to a message that no module gets. -/
def refusal (status : String) : Json :=
  .object [("code", .int 1), ("message", .str status)]

/-- `get<Agent>` -/
def getModule (d : Daemon) (id : String) : Except String AgentModule :=
  match d.mstore.find? fun m => m.id = id with
  | some m => pure m
  | none => throw (id ++ " agent module not found")

/-- The `try` block: what is dispatched. -/
def resolve (d : Daemon) (tgt : String) (msg : Json) :
    Except String (AgentModule × String × Json) := do
  let m ← d.getModule tgt
  let cmd ← textOf msg "cmd"
  let arg ← msg.get "params"
  pure (m, cmd, arg)

/-- `rpc_msg_handler`. Reading the target is outside of the `try` block. -/
def rpcMsgHandler (d : Daemon) (msg : Json) : Except String Dispatched := do
  let tgt ← textOf msg "target"
  if tgt = "" then
    pure (.replied (refusal "Ignoring message; no target."))
  else if tgt = "daemon" then
    pure (.replied (refusal "Ignoring message; daemon target."))
  else
    match d.resolve tgt msg with
    | .ok (m, cmd, arg) => pure (.command m cmd arg)
    | .error what => pure (.replied (refusal ("Error: " ++ what)))

end Daemon

end BigDataExpress
