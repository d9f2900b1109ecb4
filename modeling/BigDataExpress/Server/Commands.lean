/-
The commands of the server that answer through a callback
(server/scheduler.cc, `get_dtn_info` to `get_total_size`).

A command is a program over a session: the RPC calls it has made, the
responses it has sent, and what the calls are going to be answered, the
n-th call by the n-th outcome. Quantifying over sessions quantifies over
every sequence of outcomes: a reply, or the object `RpcClient::call` makes
up when the wait times out. An exception keeps what was sent before it.

The resource graph does not change during a command. Its nodes carry
their properties as JSON, as they were registered; the graph module keeps
the fields it reads, and the whole value is looked up here by the address
of the node. Following a pointer to a deleted node is undefined in the
source and an exception here.
-/
import BigDataExpress.Lib.Stateful
import BigDataExpress.Server.ResourceGraph
import BigDataExpress.Utils.Rpc

namespace BigDataExpress

open RGraph

-- ========================================================== the session

structure Session where
  /-- what the RPC calls return, in the order they are made -/
  outcomes : Nat → Json
  /-- the queue and the request of every call made -/
  calls : List (String × Json) := []
  /-- the responses sent -/
  sent : List (RpcProps × Json) := []

/-- A command at work. -/
abbrev Serve : Type → Type := EStateM String Session

namespace Serve

/-- A read that may throw. -/
def read {α : Type} : Except String α → Serve α
  | .ok a => pure a
  | .error e => throw e

/-- A call that is published, and its outcome. -/
def call (queue : String) (request : Json) : Serve Json := fun s =>
  .ok (s.outcomes s.calls.length)
    { s with calls := s.calls ++ [(queue, request)] }

/-- `RpcClient::call`. There is no topic for an empty target. -/
def rpc (target : String) (request : Json) : Serve Json :=
  if RpcClient.topicOf target = "rpc/" then
    throw "RpcClient::call() empty target not allowed"
  else call target request

/-- `RpcServer::send_response` -/
def sendResponse (props : RpcProps) (res : Json) : Serve Unit :=
  modify fun s => { s with sent := s.sent ++ [(props, res)] }

end Serve

-- ============================================================= the site

/-- What the commands read: the resource graph, and the JSON each of its
nodes was registered with. -/
structure SiteView where
  graph : RGraph
  properties : Nat → Json

namespace SiteView

variable (site : SiteView)

/-- A getter of the resource graph. -/
def look {α : Type} (getter : Resource α) : Except String α :=
  match getter site.graph with
  | .ok a _ => .ok a
  | .error e _ => .error e

/-- `StorageNode::get_one_dtn_node` -/
def getOneDtnNode (s : PtrGraph.Node RNode) :
    Except String (PtrGraph.Node RNode) :=
  match s.data.pDtn with
  | none => .error "no associated dtn node with this storage"
  | some a =>
      match site.graph.node? a with
      | some d => .ok d
      | none => .error "dangling dtn pointer"

end SiteView

/-- `utils::split`: the pieces that `getline` reads, so no empty one at
the end. -/
def split (s : String) (delim : Char) : List String :=
  let pieces := s.toList.splitOn delim
  (if pieces.getLast? = some [] then pieces.dropLast else pieces).map
    String.ofList

-- ========================================================= get_dtn_info

/-- `params[key].asString()` -/
def textOf (params : Json) (key : String) : Except String String := do
  let v ← params.get key
  v.asString

/-- `r["code"].asInt()`: a missing code reads as 0. -/
def codeOf (r : Json) : Except String Int := do
  let v ← r.get "code"
  v.asInt

/-- The request for the usage of a disk. -/
def diskUsageRequest (rid path : String) : Json :=
  .object [("cmd", .str "dtn_get_disk_usage"), ("target", .str rid),
    ("params", .object [("path", .str path)])]

/-- What is answered, given the DTN's reply on its disk. -/
def diskAnswer (dtn r : Json) : Except String Json := do
  let code ← codeOf r
  if code ≠ 0 then
    let error ← r.get "error"
    pure (.object [("dtn", dtn), ("error", error), ("code", .int 101)])
  else
    let result ← r.get "result"
    pure (.object [("dtn", dtn), ("disk", result)])

/-- An empty answer for a DTN that is not there; the command does not end
with it. -/
def answerMissing (missing : Bool) (cb : Json → Serve Unit) : Serve Unit :=
  if missing then cb (.obj []) else pure ()

def getDtnInfo (site : SiteView) (params : Json) (cb : Json → Serve Unit) :
    Serve Unit := do
  let dtnId ← Serve.read (textOf params "dtn")
  answerMissing (!hasDtnNode site.graph dtnId) cb
  let dtn ← Serve.read (site.look (getDtnNode dtnId))
  let path ← Serve.read (textOf params "path")
  if path = "" then cb (.object [("dtn", site.properties dtn.addr)])
  else
    let r ← Serve.rpc dtn.data.queue (diskUsageRequest dtn.data.rid path)
    let res ← Serve.read (diskAnswer (site.properties dtn.addr) r)
    cb res

-- ======================================================= get_total_size

/-- The request to expand a path. -/
def expandRequest (rid path : String) : Json :=
  .object [("cmd", .str "dtn_expand"), ("target", .str rid),
    ("params", .object [("files", .str path)])]

/-- The entry for a file, if the DTN's reply does not report an error. -/
def sizeEntry (fileid : String) (filesize : Json) :
    Except String (Option Json) := do
  let code ← codeOf filesize
  if code ≠ 0 then pure none
  else
    let total ← filesize.get "total_size"
    let bytes ← total.asDouble
    let files ← filesize.get "files"
    pure (some (.object [("id", .str fileid), ("bytes", .real bytes),
      ("number", .int files.size)]))

/-- The DTN that expands the files of a storage. -/
def expandingDtn (site : SiteView) (storage : String) :
    Except String (PtrGraph.Node RNode) := do
  let snode ← site.look (getStorageNode storage)
  site.getOneDtnNode snode

/-- The result object, without or with an error. -/
def sizesOf (sizes : List Json) : Json := .object [("sizes", .arr sizes)]

def sizesFailed (sizes : List Json) (error : String) : Json :=
  .object [("sizes", .arr sizes), ("error", .str error)]

/-- The loop over the files, with the sizes found so far. The map from
storages to files that the source fills is read by nothing. -/
def totalSizes (site : SiteView) : List Json → List Json → Serve Json
  | [], sizes => pure (sizesOf sizes)
  | file :: files, sizes => do
      let fileid ← Serve.read file.asString
      match split fileid '|' with
      | [_, host, store, path] =>
          let dnode ← Serve.read (expandingDtn site (host ++ "|" ++ store))
          let filesize ← Serve.rpc dnode.data.queue
            (expandRequest dnode.data.rid path)
          match ← Serve.read (sizeEntry fileid filesize) with
          | none => pure (sizesFailed sizes "error at expanding the files")
          | some v => totalSizes site files (sizes ++ [v])
      | _ => pure (sizesFailed sizes "invalid parameters")

def getTotalSize (site : SiteView) (params : Json)
    (cb : Json → Serve Unit) : Serve Unit := do
  let res ← totalSizes site params.items []
  cb res

end BigDataExpress
