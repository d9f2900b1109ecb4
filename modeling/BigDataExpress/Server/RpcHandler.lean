/-
The RPC commands of the server (server/main.cc, `rpc_msg_handler`;
server/scheduler.cc, `get_storage_list` to `dtn_icmp_ping`), with the
lists of the resource manager they ask for. `get_dtn_info` and
`get_total_size` are in `Server.Commands`.

A command here returns what the source passes to its callback, or returns,
at its end; only `get_dtn_info` calls back earlier. What it asks the
agents are the calls of its session, in their order. The times the calls
may take are left out, a reply that times out being one of the outcomes,
and so is the log, except where logging changes a value.

A JSON value that may be changed gets a member, null, when a missing one
is read; a constant one does not.
-/
import BigDataExpress.Server.Commands
import Mathlib.Data.List.Sort
import Mathlib.Data.String.Basic

namespace BigDataExpress

open RGraph

namespace Json

/-- `operator[](key)` of a value that may be changed: the member, and the
value with it. -/
def fetch (v : Json) (key : String) : Read (Json × Json) := do
  let fields ← v.members
  match lookup key fields with
  | some x => pure (x, .obj fields)
  | none => pure (.null, .obj (assign key .null fields))

end Json

/-- What the commands work with: the graph, two queries of the store, the
network configuration, and the rates of the resource manager, which
`Server.Admission` computes exactly and the source in floating point. -/
structure ServerView extends SiteView where
  getCnDtnUserMapping : Except String (List Json)
  getUserFromCn : String → String → Except String String
  netConf : Json
  probePathRate : String → Float → Except String Int
  queryPathDtns : String → Float → Except String (List (String × Float))

-- =================================================== the resource manager

namespace SiteView

variable (site : SiteView)

/-- The nodes in a map, by their keys. -/
def nodesOf (k : NodeKind) : List (PtrGraph.Node RNode) :=
  (site.graph.nodes.filter fun n => n.data.kind = k).insertionSort
    fun n m => n.data.key ≤ m.data.key

/-- The node at an address. -/
def nodeAt (a : Nat) : Except String (PtrGraph.Node RNode) :=
  match site.graph.node? a with
  | some n => .ok n
  | none => .error "dangling node pointer"

/-- The edge with an id. -/
def edgeAt (i : Nat) : Except String (PtrGraph.Edge Rat) :=
  match site.graph.edge? i with
  | some e => .ok e
  | none => .error "dangling edge pointer"

/-- The node an edge leads to, as a DTN; another node makes the cast
fail. -/
def dstDtn (i : Nat) : Except String (PtrGraph.Node RNode) := do
  let e ← site.edgeAt i
  let d ← site.nodeAt e.dst
  if d.data.kind = .dtn then pure d else throw "std::bad_cast"

/-- `get_node_queue_name` -/
def getNodeQueueName (nid : String) : Except String String := do
  let n ← site.look (getNode nid)
  pure n.data.queue

/-- The entry of a storage, unless it is isolated. -/
def activeStorage (s : PtrGraph.Node RNode) : Except String (Option Json) :=
  match s.outs with
  | [] => pure none
  | i :: _ => do
      let dtn ← site.dstDtn i
      let js ← (site.properties s.addr).set "dtn" (.str dtn.data.ctrlIp)
      pure (some js)

/-- The storages that a DTN is linked to. -/
def getActiveStorageList : Except String Json := do
  let res ← (site.nodesOf .storage).mapM site.activeStorage
  pure (.arr res.reduceOption)

/-- The DTNs that are not isolated. -/
def activeDtns : List (PtrGraph.Node RNode) :=
  (site.nodesOf .dtn).filter fun d => d.outs ≠ []

/-- The properties of these DTNs. -/
def getActiveDtnList : List Json :=
  site.activeDtns.map fun d => site.properties d.addr

/-- The entry of a storage below its DTN, for the edge that leads there. -/
def storageEntry (i : Nat) : Except String Json := do
  let e ← site.edgeAt i
  let s ← site.nodeAt e.src
  let js := site.properties s.addr
  let device ← js.get "name"
  let roots ← js.get "root_folders"
  let id ← js.get "id"
  pure (.object [("device", device), ("roots", roots), ("id", id)])

/-- A DTN with its storages, as the topology shows it. -/
def dtnEntry (d : PtrGraph.Node RNode) : Except String Json := do
  let jd := site.properties d.addr
  let id ← jd.get "id"
  let label ← jd.get "name"
  let ls ← d.ins.mapM site.storageEntry
  pure (.object [("id", id), ("label", label), ("ls", .arr ls)])

/-- These DTNs, each with its storages. -/
def getActiveDtnTopology : Except String Json := do
  let dtns ← site.activeDtns.mapM site.dtnEntry
  pure (.object [("dtns", .arr dtns)])

/-- `get_storage_connected_dtns` -/
def getStorageConnectedDtns (storageId : String) :
    Except String (List (PtrGraph.Node RNode)) := do
  if hasStorageNode site.graph storageId then
    let snode ← site.look (getStorageNode storageId)
    snode.outs.mapM site.dstDtn
  else throw "invalid storage id while trying to get the connected dtns"

end SiteView

-- =============================================== publish_dtn_user_mapping

/-- The entries of a DTN in `per_dtn`: its id, and the map so far. -/
abbrev PerDtn : Type := List (String × List Json)

/-- The request that `per_dtn` has for a DTN. -/
def pushRequest (dtnid : String) (map : List Json) : Json :=
  .object [("cmd", .str "dtn_push_gridmap_entries"), ("target", .str dtnid),
    ("params", .object [("map", .arr map)])]

/-- `per_dtn[dtnid] = ...`, by the order of the ids. -/
def PerDtn.assign (dtnid : String) (map : List Json) : PerDtn → PerDtn
  | [] => [(dtnid, map)]
  | (id, m) :: rest =>
      if id = dtnid then (id, map) :: rest
      else if dtnid < id then (dtnid, map) :: (id, m) :: rest
      else (id, m) :: PerDtn.assign dtnid map rest

/-- The loop over the DTNs. -/
def preparePerDtn : List Json → PerDtn → Except String PerDtn
  | [], perDtn => pure perDtn
  | dtn :: dtns, perDtn => do
      let dtnid ← textOf dtn "id"
      preparePerDtn dtns (perDtn.assign dtnid [])

/-- The pair of names of a mapping. -/
def mapEntry (entry : Json) : Except String Json := do
  let dn ← entry.get "cn"
  let ln ← entry.get "username"
  pure (.object [("dn", dn), ("ln", ln)])

/-- `per_dtn[dtnid]["params"]["map"].append(map)` -/
def PerDtn.append (dtnid : String) (map : Json) (perDtn : PerDtn) : PerDtn :=
  perDtn.map fun p => if p.1 = dtnid then (p.1, p.2 ++ [map]) else p

/-- The loop over the mappings; those of other DTNs are skipped. -/
def fillPerDtn : List Json → PerDtn → Except String PerDtn
  | [], perDtn => pure perDtn
  | entry :: entries, perDtn => do
      let dtnid ← textOf entry "dtnid"
      if perDtn.any fun p => p.1 = dtnid then
        let map ← mapEntry entry
        fillPerDtn entries (perDtn.append dtnid map)
      else fillPerDtn entries perDtn

/-- The loop that sends; what the DTNs reply is logged. -/
def sendPerDtn (site : SiteView) : PerDtn → Serve Unit
  | [] => pure ()
  | (dtnid, map) :: rest => do
      let dtn ← Serve.read (site.look (getDtnNode dtnid))
      let _ ← Serve.rpc dtn.data.queue (pushRequest dtnid map)
      sendPerDtn site rest

/-- Sends every DTN its part of the user mapping. -/
def publishDtnUserMapping (server : ServerView) : Serve Json := do
  let perDtn ← Serve.read (preparePerDtn server.getActiveDtnList [])
  let cnDtn ← Serve.read server.getCnDtnUserMapping
  let perDtn ← Serve.read (fillPerDtn cnDtn perDtn)
  sendPerDtn server.toSiteView perDtn
  pure (.object [("code", .int 0)])

-- ======================================================== files of a DTN

/-- `res["error"]` and `res["code"]` alone. -/
def failure (code : Int) (error : String) : List (String × Json) :=
  [("code", .int code), ("error", .str error)]

/-- What is answered, given the DTN's reply on a listing. The log line
reads the code before it is tested for, so it is always there. -/
def listAnswer (res : Json) : Except String Json := do
  let (_, res) ← res.fetch "code"
  let coded ← res.isMember "code"
  let code ← codeOf res
  if !coded ∨ code ≠ 0 then res.set "entries" (.arr []) else pure res

/-- The request to list a path. -/
def listRequest (dtnId path : String) (checksum : Bool) : Json :=
  .object [("target", .str dtnId), ("cmd", .str "dtn_list"),
    ("params", .object [("path", .str path), ("checksum", .bool checksum)])]

/-- The mapped user is read, and not used. -/
def getFileList (server : ServerView) (params : Json) : Serve Json := do
  let dtnId ← Serve.read (textOf params "dtn")
  let path ← Serve.read (textOf params "path")
  let _ ← Serve.read (textOf params "site")
  let cn ← Serve.read (textOf params "cn")
  let checksum ← Serve.read (do
    let v ← params.get "checksum"
    v.asBool)
  if hasDtnNode server.graph dtnId then
    let _ ← Serve.read (server.getUserFromCn cn dtnId)
    let dtn ← Serve.read (server.look (getDtnNode dtnId))
    let res ← Serve.rpc dtn.data.queue (listRequest dtnId path checksum)
    Serve.read (listAnswer res)
  else pure (.object (("entries", .arr []) :: failure 400 "invalid dtn"))

/-- The request to make a directory. -/
def mkdirRequest (dtnId path user : String) : Json :=
  .object [("target", .str dtnId), ("cmd", .str "dtn_mkdir"),
    ("params", .object [("path", .str path), ("user", .str user)])]

/-- Makes a directory on a DTN. -/
def createFolder (server : ServerView) (params : Json) : Serve Json := do
  let dtnId ← Serve.read (textOf params "dtn")
  let path ← Serve.read (textOf params "path")
  let _ ← Serve.read (textOf params "user")
  let _ ← Serve.read (textOf params "site")
  let cn ← Serve.read (textOf params "cn")
  if hasDtnNode server.graph dtnId then
    let username ← Serve.read (server.getUserFromCn cn dtnId)
    let dtn ← Serve.read (server.look (getDtnNode dtnId))
    let res ← Serve.rpc dtn.data.queue (mkdirRequest dtnId path username)
    -- the log line reads the code
    let (_, res) ← Serve.read (res.fetch "code")
    pure res
  else pure (.object (failure 2 "invalid dtn"))

/-- A request of the client's, to the queue of the node it names. -/
def forward (site : SiteView) (req : Json) : Serve Json := do
  let (target, req) ← Serve.read (req.fetch "target")
  let nid ← Serve.read target.asString
  let q ← Serve.read (site.getNodeQueueName nid)
  Serve.rpc q req

/-- Passes an expansion on to its target. -/
def expandAndGroup (site : SiteView) (params : Json) : Serve Json := do
  let req ← Serve.read (params.get "params")
  let req ← Serve.read (req.set "cmd" (.str "dtn_expand_and_group_v2"))
  forward site req

/-- The request to verify checksums, from the parameters. -/
def verifyRequest (params : Json) : Except String Json := do
  let dtn ← params.getIn ["params", "dtn"]
  let algorithm ← params.getIn ["params", "algorithm"]
  let checksums ← params.getIn ["params", "checksums"]
  pure (.object [("cmd", .str "dtn_verify_checksums"), ("target", dtn),
    ("params",
      .object [("algorithm", algorithm), ("checksums", checksums)])])

/-- Passes a verification on to its DTN. -/
def verifyChecksum (site : SiteView) (params : Json) : Serve Json := do
  let req ← Serve.read (verifyRequest params)
  forward site req

-- ================================================================== rates

/-- `params["storage"]` and `params["rate"]` -/
def storageRate (params : Json) : Except String (String × Float) := do
  let s ← textOf params "storage"
  let v ← params.get "rate"
  let r ← v.asDouble
  pure (s, r)

/-- Asks whether a path has the rate. -/
def probeRate (server : ServerView) (params : Json) : Serve Json := do
  let (s, r) ← Serve.read (storageRate params)
  let res ← Serve.read (server.probePathRate s r)
  pure (.object [("code", .int res)])

/-- Asks which DTNs a path would get. -/
def queryPathDtnsCommand (server : ServerView) (params : Json) :
    Serve Json := do
  let (s, r) ← Serve.read (storageRate params)
  let res ← Serve.read (server.queryPathDtns s r)
  pure (.object [("code", .int 0), ("dtns", .arr (res.map fun dr =>
    .object [("host", .str dr.1), ("rate", .real dr.2)]))])

-- ======================================================= best effort DTNs

/-- `utils::is_private_ip` -/
def isPrivateIp (ip : String) : Bool :=
  "192.".toList.isPrefixOf ip.toList || "172.".toList.isPrefixOf ip.toList
    || "10.".toList.isPrefixOf ip.toList

/-- Whether a value is read as a text. -/
def holdsText (text : String) : List Json → Except String Bool
  | [] => pure false
  | d :: ds => do
      let s ← d.asString
      if s = text then pure true else holdsText text ds

/-- `needs_sdn_setup` -/
def needsSdnSetup (netConf : Json) (dtn : String) : Except String Bool := do
  let dtns ← netConf.getIn ["lan", "dtns"]
  holdsText dtn dtns.items

/-- The loop of `find_dtn_stp`. -/
def findStp (dtn : String) : List Json → Except String Json
  | [] => pure (.obj [])
  | stp :: stps => do
      let dtns ← stp.get "dtns"
      if ← holdsText dtn dtns.items then pure stp else findStp dtn stps

/-- The network entry of a DTN. -/
def findDtnStp (netConf : Json) (dtn : String) : Except String Json := do
  let stps ← netConf.getIn ["wan_dynamic", "stps"]
  findStp dtn stps.items

/-- `data_interfaces[0]` -/
def dataInterface (props : Json) (key : String) : Except String Json := do
  let ifaces ← props.get "data_interfaces"
  let iface ← ifaces.index 0
  iface.get key

/-- The entry of a DTN, given its reply on its status, and whether its
address is private. -/
def bestEffortEntry (server : ServerView) (dtn : PtrGraph.Node RNode)
    (res : Json) : Except String (Json × Bool) := do
  let props := server.properties dtn.addr
  let ip ← props.getIn ["ctrl_interface", "ip"]
  let dataIp ← dataInterface props "ip"
  let dataMac ← dataInterface props "mac"
  let cap ← dataInterface props "rate"
  let port ← props.getIn ["data_transfer_program", "port"]
  let rx ← res.getIn ["status", "rate", "rx-bytes"]
  let tx ← res.getIn ["status", "rate", "tx-bytes"]
  let rxRate ← rx.asDouble
  let txRate ← tx.asDouble
  let capRate ← cap.asDouble
  let sdnSetup ← needsSdnSetup server.netConf dtn.data.name
  let vlan ← dataInterface props "vlan_id"
  let vlanId ← vlan.asInt
  let wanStatic ← server.netConf.get "wan_static"
  let stp ← findDtnStp server.netConf dtn.data.name
  let address ← dataIp.asString
  pure (.object [("id", .str dtn.data.rid), ("name", .str dtn.data.name),
    ("ip", ip), ("data_ip", dataIp), ("data_mac", dataMac), ("cap", cap),
    ("dtp_ctrl_port", port), ("rx_rate", rx), ("tx_rate", tx),
    ("load", .real ((rxRate + txRate) / (capRate * 1000))),
    ("sdn_setup", .bool sdnSetup), ("data_vlan_id", .int vlanId),
    ("wan_static", wanStatic), ("stp", stp)], isPrivateIp address)

/-- The request for the status of an interface. -/
def statusRequest (rid : String) (interface : Json) : Json :=
  .object [("cmd", .str "dtn_status"), ("target", .str rid),
    ("params", .object [("interface", interface)])]

/-- The loop over the DTNs, with the private and the public ones so far. -/
def bestEffortDtns (server : ServerView) :
    List (PtrGraph.Node RNode) → List Json → List Json →
      Serve (List Json × List Json)
  | [], privates, publics => pure (privates, publics)
  | dtn :: dtns, privates, publics => do
      let interface ← Serve.read
        ((server.properties dtn.addr).getIn ["ctrl_interface", "name"])
      let res ← Serve.rpc dtn.data.queue (statusRequest dtn.data.rid interface)
      let (d, isPrivate) ← Serve.read (bestEffortEntry server dtn res)
      if isPrivate then bestEffortDtns server dtns (privates ++ [d]) publics
      else bestEffortDtns server dtns privates (publics ++ [d])

/-- The request for the rates of a storage. -/
def rateRequest (storage : String) : Json :=
  .object [("cmd", .str "ls_get_rate"), ("target", .str storage),
    ("params", .obj [])]

/-- `r["storage"]` -/
def storageLoad (storage : String) (res : Json) : Except String Json := do
  let rd ← (← res.get "rate_read").asDouble
  let wr ← (← res.get "rate_write").asDouble
  pure (.object [("id", .str storage), ("rd_rate", .real (rd * 1000000)),
    ("wr_rate", .real (wr * 1000000)), ("load", .real 0.1)])

/-- The DTNs that could serve a storage, with their loads. -/
def getAvailableBestEffortDtn (server : ServerView) (params : Json) :
    Serve Json := do
  let _ ← Serve.read (textOf params "remote")
  let storage ← Serve.read (textOf params "storage")
  let q ← Serve.read (server.getNodeQueueName storage)
  let res ← Serve.rpc q (rateRequest storage)
  let load ← Serve.read (storageLoad storage res)
  let dtns ← Serve.read (server.getStorageConnectedDtns storage)
  let (privates, publics) ← bestEffortDtns server dtns [] []
  pure (.object [("storage", load), ("private_dtns", .arr privates),
    ("public_dtns", .arr publics)])

-- ==================================================================== SDN

/-- The request that a DTN adds a neighbor. -/
def neighborRequest (rid : String) (ip mac : Json) : Json :=
  .object [("cmd", .str "dtn_add_neighbor"), ("target", .str rid),
    ("params", .object [("ip", ip), ("mac", mac)])]

/-- The request that a DTN adds a route. -/
def routeRequest (rid : String) (destination via : Json) : Json :=
  .object [("cmd", .str "dtn_add_route"), ("target", .str rid),
    ("params", .object [("destination", destination), ("via", via)])]

/-- `rm.sdn()` -/
def SiteView.sdn (site : SiteView) : Except String (PtrGraph.Node RNode) :=
  site.look (getGeneralNode sdnId)

/-- Prepares the DTN, and then reserves a path at the SDN agent if one is
asked for. -/
def sdnReserveCommand (site : SiteView) (params : Json) : Serve Json := do
  let srcId ← Serve.read (params.getIn ["params", "dtns", "srcId"])
  let dtnId ← Serve.read srcId.asString
  if hasDtnNode site.graph dtnId then
    let dtn ← Serve.read (site.look (getDtnNode dtnId))
    let dstIp ← Serve.read (params.getIn ["params", "dtns", "dstIp"])
    let dstMac ← Serve.read (params.getIn ["params", "dtns", "dstMac"])
    let arp ← Serve.rpc dtn.data.queue
      (neighborRequest dtn.data.rid dstIp dstMac)
    let srcIp ← Serve.read (params.getIn ["params", "dtns", "srcIp"])
    let route ← Serve.rpc dtn.data.queue
      (routeRequest dtn.data.rid dstIp srcIp)
    let setup ← Serve.read (params.getIn ["params", "sdn_setup"])
    if ← Serve.read setup.asBool then
      if hasSdn site.graph then
        let sdn ← Serve.read site.sdn
        let req ← Serve.read (params.get "params")
        let res ← Serve.rpc sdn.data.queue req
        pure (.object [("code", .int 0), ("arp", arp), ("route", route),
          ("sdn", res)])
      else
        pure (.object (("arp", arp) :: ("route", route)
          :: failure (-2) "SDN agent offline"))
    else
      pure (.object [("code", .int 0), ("arp", arp), ("route", route),
        ("sdn", .object [("InstalledPathId", .int 0)])])
  else pure (.object (failure (-3) "requested DTN offline"))

/-- `req` as it was sent to the SDN agent, if it was. -/
def pathReleaseRequest (installedPathId : Option Json) : List (String × Json) :=
  match installedPathId with
  | none => []
  | some id => [("cmd", .str "release_request"), ("installedPathId", id)]

/-- The request for the DTN, written over the one for the SDN agent. -/
def deleteRequest (sent : List (String × Json)) (cmd dtnId key : String)
    (ip : Json) : Json :=
  .object (sent ++ [("cmd", .str cmd), ("target", .str dtnId),
    ("params", .object [(key, ip)])])

/-- The part of a release that is about the DTN. -/
def releaseDtn (site : SiteView) (params : Json)
    (sent res : List (String × Json)) : Serve Json := do
  let dtn ← Serve.read (params.getIn ["params", "dtn"])
  let dtnId ← Serve.read dtn.asString
  if hasDtnNode site.graph dtnId then
    let dtn ← Serve.read (site.look (getDtnNode dtnId))
    let ip ← Serve.read (params.getIn ["params", "ip"])
    let route ← Serve.rpc dtn.data.queue
      (deleteRequest sent "dtn_delete_route" dtnId "destination" ip)
    let arp ← Serve.rpc dtn.data.queue
      (deleteRequest sent "dtn_delete_neighbor" dtnId "ip" ip)
    pure (.object (res ++ [("route", route), ("arp", arp)]))
  else if res = [] then pure .null else pure (.object res)

/-- Releases it again. -/
def sdnReleaseCommand (site : SiteView) (params : Json) : Serve Json := do
  let id ← Serve.read (params.getIn ["params", "installedPathId"])
  let path ← Serve.read id.asInt
  if 0 < path then
    if hasSdn site.graph then
      let sdn ← Serve.read site.sdn
      let sent := pathReleaseRequest (some id)
      let res ← Serve.rpc sdn.data.queue (.object sent)
      releaseDtn site params sent [("sdn", res)]
    else pure (.object (failure (-2) "SDN agent offline"))
  else releaseDtn site params (pathReleaseRequest none) []

/-- Passes a ping on to its DTN. -/
def dtnIcmpPing (site : SiteView) (params : Json) : Serve Json := do
  let dtnId ← Serve.read (textOf params "dtn")
  let dtn ← Serve.read (site.look (getDtnNode dtnId))
  let p ← Serve.read (params.get "params")
  let p ← Serve.read (p.set "target" (.str dtnId))
  Serve.rpc dtn.data.queue p

-- =============================================================== dispatch

/-- The response callback: nothing is sent without a topic to reply to. -/
def respond (props : RpcProps) (res : Json) : Serve Unit :=
  if props.replyTo = "" then pure () else Serve.sendResponse props res

/-- The commands that answer once, at their end. A submitted job is
bootstrapped by another handler, and answered at once. -/
def command (server : ServerView) (cmd : String) (params : Json) :
    Serve Json :=
  let site := server.toSiteView
  match cmd with
  | "get_storage_list" => Serve.read site.getActiveStorageList
  | "get_dtn_list" => pure (.arr site.getActiveDtnList)
  | "get_dtn_topology" => Serve.read site.getActiveDtnTopology
  | "get_file_list" => getFileList server params
  | "create_folder" => createFolder server params
  | "get_total_size" => totalSizes site params.items []
  | "submit_job" => do
      let _ ← Serve.read (textOf params "id")
      pure .null
  | "file_expand_and_group" => expandAndGroup site params
  | "verify_checksum" => verifyChecksum site params
  | "publish_dtn_user_mapping" => publishDtnUserMapping server
  | "probe_rate" => probeRate server params
  | "query_path_dtns" => queryPathDtnsCommand server params
  | "get_available_best_effort_dtn" =>
      getAvailableBestEffortDtn server params
  | "sdn_reserve_request" => sdnReserveCommand site params
  | "sdn_release_request" => sdnReleaseCommand site params
  | "dtn_icmp_ping" => dtnIcmpPing site params
  | _ => pure (.object (failure 101 "unknown command"))

/-- `Main::rpc_msg_handler`, with the handlers it dispatches. -/
def rpcMsgHandler (server : ServerView) (msg : Json) (props : RpcProps) :
    Serve Unit := do
  let cmd ← Serve.read (textOf msg "cmd")
  let params ← Serve.read (msg.get "params")
  if cmd = "get_dtn_info" then
    getDtnInfo server.toSiteView params (respond props)
  else
    let res ← command server cmd params
    respond props res

end BigDataExpress
