/-
The messages of the RPC protocol on the wire (utils/mqtt.h, mqtt.cc,
rpcclient.cc, rpcserver.cc): a request and a reply are JSON objects, and
what is published is the text of one.

The broker is in `Utils.Rpc`; a message is here what one side publishes
and the other side's callback is called with. That runs inside the library,
on the thread that listens to the broker: a payload which cannot be parsed
is dropped, and one that makes the parser throw ends the program.
-/
import BigDataExpress.Utils.JsonText
import BigDataExpress.Utils.Rpc

namespace BigDataExpress

open Text Json

namespace Mqtt

/-- `Mqtt::publish`: the payload. -/
def frame (msg : Json) : Chars := FastWriter.write msg

/-- The message callback: what it calls the handler with, if it does. -/
def onMessage (extract : Chars → Option Float) (payload : Chars) :
    Except Reader.Failure (Option Json) :=
  if payload = [] then .ok none
  else
    match Reader.parse extract payload with
    | .ok msg => .ok (some msg)
    | .error .invalid => .ok none
    | .error .stackLimit => .error .stackLimit

/-- The message that the handler gets of a payload, if it gets one. -/
def handled (extract : Chars → Option Float) (payload : Chars) : Option Json :=
  (onMessage extract payload).toOption.join

end Mqtt

namespace RpcRequest

/-- The message that `RpcClient::call` publishes. -/
def toJson (m : RpcRequest) : Json :=
  .object [("corr_id", .str m.props.correlationId),
    ("reply_to", .str m.props.replyTo), ("body", m.body)]

/-- What `RpcServer::on_msg` takes from a message. -/
def ofJson (topic : String) (msg : Json) : Read RpcRequest := do
  let corrId ← (← msg.get "corr_id").asString
  let replyTo ← (← msg.get "reply_to").asString
  pure ⟨topic, ⟨corrId, replyTo⟩, ← msg.get "body"⟩

/-- A request as it reaches its server. -/
def arrived (extract : Chars → Option Float) (m : RpcRequest) :
    Option RpcRequest :=
  (Mqtt.handled extract (Mqtt.frame m.toJson)).bind fun msg =>
    (ofJson m.topic msg).toOption

end RpcRequest

namespace RpcReply

/-- The message that a server publishes. -/
def toJson (m : RpcReply) : Json :=
  .object [("corr_id", .str m.corrId), ("body", m.body)]

/-- What `RpcClient::on_msg` takes from a message. -/
def ofJson (topic : String) (msg : Json) : Read RpcReply := do
  let corrId ← (← msg.get "corr_id").asString
  pure ⟨topic, corrId, ← msg.get "body"⟩

/-- A reply as it reaches its client. -/
def arrived (extract : Chars → Option Float) (m : RpcReply) :
    Option RpcReply :=
  (Mqtt.handled extract (Mqtt.frame m.toJson)).bind fun msg =>
    (ofJson m.topic msg).toOption

end RpcReply

/-- What a server makes of a request: in bypass mode its handler is called,
which answers by `send_response` at once, otherwise the handler that is
registered for the command. A server that throws sends nothing. -/
def RpcServer.answers (sv : RpcServer) (answer : Json → Json)
    (m : RpcRequest) : Option RpcReply :=
  if sv.bypass then sv.sendResponse (answer m.body) m.props
  else (sv.onMsg m).toOption.join

/-- A request and its answer over the wire. The server gets what is
published on the topic it has subscribed, and the client what is published
on the one it names in the request. -/
def exchanged (extract : Chars → Option Float) (sv : RpcServer)
    (subscribed : String) (answer : Json → Json) (m : RpcRequest) :
    Option RpcReply := do
  guard (m.topic = subscribed)
  let request ← m.arrived extract
  let reply ← sv.answers answer request
  guard (reply.topic = m.props.replyTo)
  reply.arrived extract

end BigDataExpress
