/-
Messages to the server over MQTT (server/main.cc, `on_msg`), and the
registration of an agent as the resource manager reads it
(server/resourcemanager.cc, `add_modules` and `del_modules`).

A topic is the list of its levels, as the library splits it. `on_msg` runs
on the thread that listens to the broker, and what it dispatches on the
"resource" strand; an exception in either ends the server. The modules of a
message are read before the graph is changed: where a field does not
convert, the server ends with the graph, at whatever module it is.
-/
import BigDataExpress.Lib.Stateful
import BigDataExpress.Server.Commands
import BigDataExpress.Server.ResourceManager

namespace BigDataExpress

open ResourceManager

-- ================================================================= topics

namespace Mqtt

/-- `topic_match`, for subscriptions whose only wildcard is `+`. -/
def topicMatch : List String → List String → Bool
  | [], [] => true
  | level :: sub, token :: topic =>
      (level = "+" ∨ level = token) && topicMatch sub topic
  | _, _ => false

end Mqtt

-- ================================================================ handler

/-- What `on_msg` calls. -/
inductive MainCall
  | clrRetain (topic : List String)
  | resourceConstruct (online : Bool) (cid queue : String) (modules : Json)
  | mldStatus (jobId : String) (params : Json)

/-- `tokens[i]` -/
def tokenAt (topic : List String) (i : Nat) : Except String String :=
  match topic[i]? with
  | some token => pure token
  | none => throw "token out of range"

/-- A message on `reg/<cid>`. -/
def onRegistration (topic : List String) (msg : Json) :
    Except String (List MainCall) := do
  let hasOnline ← msg.isMember "online"
  let online ← msg.get "online"
  match hasOnline, online with
  | true, .bool online => do
      let hasQueue ← msg.isMember "queue"
      let queue ← msg.get "queue"
      match hasQueue, queue with
      | true, .str queue => do
          let cid ← tokenAt topic 1
          let modules ← msg.get "modules"
          let construct := MainCall.resourceConstruct online cid queue modules
          -- the offline message is cleared at the broker
          pure (if online then [construct] else [construct, .clrRetain topic])
      | _, _ => pure [.clrRetain topic]
  | _, _ => pure [.clrRetain topic]

/-- `on_msg`: the calls it makes, in their order. -/
def onMsg (topic : List String) (msg : Json) :
    Except String (List MainCall) := do
  if Mqtt.topicMatch ["reg", "+"] topic then
    onRegistration topic msg
  else if Mqtt.topicMatch ["ld", "status", "+"] topic then
    let jobId ← tokenAt topic 2
    let params ← msg.get "params"
    pure [.mldStatus jobId params, .clrRetain topic]
  else
    pure []

-- =========================================================== registration

def ModuleType.ofString (type : String) : ModuleType :=
  if type = "DTN" then .dtn
  else if type = "LocalStorage" then .localStorage
  else if type = "Launcher" then .launcher
  else if type = "SDN" then .sdn
  else .other type

/-- A storage in the list of a DTN. -/
def readStorageRef (s : Json) : Except String StorageRef := do
  pure ⟨← textOf s "id", ← textOf s "type", ← textOf s "name"⟩

/-- The number that `m["data_interfaces"][0]["rate"]` stands for. -/
def readRate (value : Float → Rat) (m : Json) : Except String Rat := do
  let interfaces ← m.get "data_interfaces"
  let first ← interfaces.index 0
  let rate ← (← first.get "rate").asDouble
  pure (value rate)

/-- What is read of every module. -/
def readHead (m : Json) : Except String Module := do
  let id ← textOf m "id"
  let type ← textOf m "type"
  let name ← textOf m "name"
  pure { id := id, type := .ofString type, name := name }

/-- What `add_modules` reads of a module, by its type; `value` is the number
that a double is. -/
def readModule (value : Float → Rat) (m : Json) : Except String Module := do
  let head ← readHead m
  match head.type with
  | .dtn => do
      let ctrlIp ← textOf (← m.get "ctrl_interface") "ip"
      let rate ← readRate value m
      let storages ← (← m.get "storages").items.mapM readStorageRef
      pure { head with ctrlIp := ctrlIp, rate := rate, storages := storages }
  | .localStorage => do
      let rootFolder ← textOf m "root_folder"
      pure { head with rootFolder := rootFolder }
  | _ => pure head

/-- What a registration message says of its agent. -/
def readRegistration (value : Float → Rat) (cid queue : String)
    (modules : Json) : Except String Instance := do
  pure ⟨cid, queue, ← modules.items.mapM (readModule value)⟩

/-- What a deregistration says. -/
def readDeregistration (cid queue : String) (modules : Json) :
    Except String Instance := do
  pure ⟨cid, queue, ← modules.items.mapM readHead⟩

/-- The handler that `Scheduler::resource_construct` dispatches. -/
def constructResource (value : Float → Rat) (online : Bool)
    (cid queue : String) (modules : Json) : Resource Unit := do
  if online then
    let i ← Stateful.ofExcept (readRegistration value cid queue modules)
    ResourceManager.resourceConstruct (.online i)
  else
    let i ← Stateful.ofExcept (readDeregistration cid queue modules)
    ResourceManager.resourceConstruct (.offline i)

end BigDataExpress
