/-
Agents that register over the broker, and the server's resource graph.

An agent (agent/agentmanager.cc) has a connection id of its own, drawn
when its process starts, and publishes on `reg/<cid>`. Before it connects
it leaves its deregistration with the broker as last will (`prepare`);
at every connect it publishes its registration (`on_mqtt_conn`), and at
the end of `run` its deregistration. All of them are retained. What is in
them does not change while the process lives, so a process is an
`Instance` and its messages are `regMsg`. The library delivers a message
again when it was not acknowledged, so an agent may announce itself any
number of times.

The server (server/main.cc, `on_msg`) gets the messages on one thread, in
the order the broker sends them, and dispatches each onto the "resource"
strand (`Scheduler::resource_construct`), where they are handled one after
the other. A deregistration is cleared at the broker when it is received.
An exception in a handler stops the io service, and with it the server
(`Scheduler::run`). When the connection of the server is lost, `Mqtt::loop`
connects and subscribes again.

That is presence over a broker as in `Lib.Presence`, with connection ids
for keys. Shutting down an agent is one step: its listening thread sleeps
for ten seconds before it connects again, and the process ends before
that. Modules are taken as they are read, as in `Server.ResourceGraph`.
-/
import BigDataExpress.Lib.Presence
import BigDataExpress.Lib.Stateful
import BigDataExpress.Server.ResourceManager

namespace BigDataExpress

open ResourceManager

/-- `reg_val` and `de_reg_val` of an agent. -/
def regMsg (i : Instance) : Bool → RegMsg
  | true => .online i
  | false => .offline i

section

variable (inst : String → Instance)

/-- A handler on the "resource" strand. -/
def handleReg (m : Presence.Msg String) (g : RGraph) : Option RGraph :=
  match resourceConstruct (regMsg (inst m.1) m.2) g with
  | .ok _ g' => some g'
  | .error _ _ => none

/-- The graph of the resource manager when the server starts. -/
def firstGraph : RGraph := Stateful.after ResourceManager.init {}

abbrev SiteState : Type := Presence.State String RGraph

/-- The runs of the server, the broker and the agents whose every event is
taken in a state that satisfies `C`. -/
abbrev SiteRun (C : Presence.Event String → SiteState → Prop) :
    SiteState → SiteState → Prop :=
  Presence.Run firstGraph (handleReg inst) C

end

end BigDataExpress
