/-
RPC over MQTT (utils/rpcclient.cc, utils/rpcserver.cc): the client's
table of promises, the messages under way, and the threads that work on
them.

# The threads

`call` runs on the thread of its caller, any number of them at a time.
`on_msg` runs on the one thread that listens to the broker, so on one
message at a time. They share the table without a lock; the single
operations on it are the steps that interleave here. A wait ends when the
value is set or the time is up, whichever the step finds.

# Iterators

A call keeps the iterator of its entry and `on_msg` the one it found.
Using one whose entry is gone is undefined in the source; here it sets
`fault` and does nothing else.

# Messages

The broker delivers with at least once semantics: a published reply can
arrive late, and any number of times. Correlation ids are guids, so the
one a call draws was not drawn before. Fields that are only looked at by
people (log lines) are left out, and so is the time a call waits.
-/
import BigDataExpress.Lib.Phases
import BigDataExpress.Utils.Json

namespace BigDataExpress

open Interact

/-- `utils::RpcProps` -/
structure RpcProps where
  correlationId : String
  replyTo : String
deriving DecidableEq

/-- A request, and the topic it is published on. -/
structure RpcRequest where
  topic : String
  props : RpcProps
  body : Json

/-- A reply, and the topic it is published on. -/
structure RpcReply where
  topic : String
  corrId : String
  body : Json

-- ============================================================ the server

/-- A server either hands every request to one handler, which answers by
`send_response`, or has a handler for each command. -/
structure RpcServer where
  bypass : Bool
  handlers : String → Option (Json → Json)

namespace RpcServer

/-- `send_response`: usable in bypass mode only. -/
def sendResponse (sv : RpcServer) (reply : Json) (props : RpcProps) :
    Option RpcReply :=
  if sv.bypass then some ⟨props.replyTo, props.correlationId, reply⟩
  else none

/-- The reply of a registered handler, or the one for a command that has
none. -/
def handled (sv : RpcServer) (body : Json) : Except String Json := do
  let cmd ← body.get "cmd"
  let name ← cmd.asString
  let params ← body.get "params"
  match sv.handlers name with
  | none => pure (.object [("error", .str "no registered handler"),
      ("cmd", cmd), ("params", params)])
  | some handler => pure (handler params)

/-- `on_msg` when handlers are registered by command. -/
def onMsg (sv : RpcServer) (msg : RpcRequest) :
    Except String (Option RpcReply) := do
  if sv.bypass then pure none
  else
    let body ← sv.handled msg.body
    pure (some ⟨"rpc/" ++ msg.props.replyTo, msg.props.correlationId, body⟩)

/-- The server replies to a request: through its handler, at any time and
with anything, or as the registered handler has it. -/
def Replies (sv : RpcServer) (msg : RpcRequest) (m : RpcReply) : Prop :=
  (∃ reply, sv.sendResponse reply msg.props = some m)
    ∨ sv.onMsg msg = .ok (some m)

end RpcServer

-- ============================================================ the client

/-- The arguments of a call. -/
structure CallArgs where
  target : String
  params : Json
  verbose : Bool

/-- How a call ended for its caller. -/
inductive CallEnd
  | returned (v : Json)
  | raised (msg : String)

/-- The client and what has been exchanged. -/
structure RpcState where
  /-- the calls made, with the correlation ids they drew -/
  calls : List (String × CallArgs) := []
  /-- the keys of the table -/
  promises : List String := []
  /-- the values of the futures -/
  values : String → Option Json := fun _ => none
  requests : List RpcRequest := []
  replies : List RpcReply := []
  /-- the replies `on_msg` was called with -/
  delivered : List RpcReply := []
  /-- the correlation id of the reply `on_msg` is at work on -/
  handling : Option String := none
  /-- the calls whose wait timed out -/
  expired : List String := []
  /-- the entries erased from the table -/
  removed : List String := []
  ends : String → Option CallEnd := fun _ => none
  fault : Bool := false

/-- `f.wait_for(timeout)` of a call. -/
inductive Wait
  | waitFor (c : String) (args : CallArgs)

/-- A program of the client; a wait is answered by whether the future was
ready. -/
abbrev RpcProg : Type → Type := Prog RpcState Wait fun _ => Bool

namespace RpcClient

/-- `promises.emplace`: whether the id was not in the table. -/
def emplace (c : String) : RpcProg Bool :=
  .act (fun w => if c ∈ w.promises then w
      else { w with promises := c :: w.promises })
    fun w => .pure (decide (c ∉ w.promises))

/-- `promises.erase`, of an iterator. -/
def erase (c : String) : RpcProg Unit :=
  Prog.modify fun w =>
    if c ∈ w.promises then
      { w with promises := w.promises.erase c, removed := c :: w.removed }
    else { w with fault := true }

/-- `iter->second.set_value` -/
def setValue (c : String) (v : Json) : RpcProg Unit :=
  Prog.modify fun w =>
    if c ∈ w.promises ∧ w.values c = none then
      { w with values := Function.update w.values c (some v) }
    else { w with fault := true }

def publish (msg : RpcRequest) : RpcProg Unit :=
  Prog.modify fun w => { w with requests := w.requests ++ [msg] }

/-- The call is over. -/
def finish (c : String) (e : CallEnd) : RpcProg Unit :=
  Prog.modify fun w => { w with ends := Function.update w.ends c (some e) }

/-- The topic of a request: the prefix is added if it is not there. -/
def topicOf (target : String) : String :=
  if target.startsWith "rpc/" then target else "rpc/" ++ target

/-- What a call returns when its wait times out: an object without a
code. -/
def timeoutReply (params : Json) : Json :=
  .object [("timed_out", .bool true), ("error", .str "rpc call timed out"),
    ("params", params)]

/-- The end of `call`: wait for the reply, and check and return it. With
`verbose` the value is taken from the future twice, once to be logged;
the second time the future has none. -/
def awaitReply (c : String) (args : CallArgs) : RpcProg Unit := do
  let ready ← Prog.ask (.waitFor c args)
  if !ready then
    erase c
    finish c (.returned (timeoutReply args.params))
  else if args.verbose then
    finish c (.raised "std::future_error: No associated state")
  else
    let v ← Prog.read fun w => (w.values c).getD .null
    finish c (.returned v)

/-- `RpcClient::call`, of the client that listens on `queue`. -/
def call (queue c : String) (args : CallArgs) : RpcProg Unit := do
  let fresh ← emplace c
  if !fresh then
    finish c (.raised "correlation id already exists in rpc call")
  else if topicOf args.target = "rpc/" then
    finish c (.raised "RpcClient::call() empty target not allowed")
  else
    publish ⟨topicOf args.target, ⟨c, queue⟩, args.params⟩
    awaitReply c args

/-- The listening thread is done with a message. -/
def ignore : RpcProg Unit :=
  Prog.modify fun w => { w with handling := none }

/-- `RpcClient::on_msg` -/
def onMsg (m : RpcReply) : RpcProg Unit := do
  let found ← Prog.read fun w => decide (m.corrId ∈ w.promises)
  if !found then ignore
  else
    setValue m.corrId m.body
    erase m.corrId
    ignore

end RpcClient

-- ============================================================ the system

/-- The threads of the client. -/
inductive RpcThread
  | call (c : String)
  | listen
deriving DecidableEq

abbrev RpcPool : Type := Pool RpcState RpcThread Wait fun _ => Bool

/-- What is allowed to happen: which calls are made, when a wait ends,
when a reply is handled, and which servers reply. -/
structure RpcRules where
  start : CallArgs → Prop
  ready : CallArgs → Prop
  expire : RpcState → String → Prop
  handle : RpcState → String → Prop
  server : RpcServer → Prop

def RpcRules.free : RpcRules where
  start _ := True
  ready _ := True
  expire _ _ := True
  handle _ _ := True
  server _ := True

/-- A wait finds the future ready exactly when its value is set. -/
def RpcRules.env (ru : RpcRules) : Env RpcState Wait fun _ => Bool where
  eff w
    | .waitFor c _, ready =>
        if ready then w else { w with expired := c :: w.expired }
  adm w
    | .waitFor c args, ready => ready = (w.values c).isSome
        ∧ if ready then ru.ready args else ru.expire w c

inductive RpcStarts (queue : String) (ru : RpcRules) :
    RpcPool → RpcThread → RpcProg Unit → RpcState → Prop
  /-- a call, with a fresh correlation id -/
  | call {P : RpcPool} {c : String} {args : CallArgs} :
      c ∉ P.world.calls.map Prod.fst → ru.start args →
      RpcStarts queue ru P (.call c) (RpcClient.call queue c args)
        { P.world with calls := P.world.calls ++ [(c, args)] }
  /-- a reply on the client's topic, for the first time or again -/
  | listen {P : RpcPool} {m : RpcReply} : m ∈ P.world.replies →
      m.topic = queue → RpcThread.listen ∉ P.threads.map Prod.fst →
      ru.handle P.world m.corrId →
      RpcStarts queue ru P .listen (RpcClient.onMsg m)
        { P.world with
          delivered := P.world.delivered ++ [m]
          handling := some m.corrId }

/-- A server replies to a request. -/
inductive RpcServed (ru : RpcRules) : RpcPool → RpcState → Prop
  | reply {P : RpcPool} {msg : RpcRequest} {sv : RpcServer} {m : RpcReply} :
      msg ∈ P.world.requests → ru.server sv → sv.Replies msg m →
      RpcServed ru P { P.world with replies := P.world.replies ++ [m] }

/-- A client that listens on `queue`, and its servers. -/
def rpcSystem (queue : String) (ru : RpcRules) :
    System RpcState RpcThread Wait fun _ => Bool where
  env _ := ru.env
  spawn := RpcStarts queue ru
  outside := RpcServed ru

end BigDataExpress
