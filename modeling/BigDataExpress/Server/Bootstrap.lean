/-
The bootstrap of a transfer job (server/scheduler.cc,
`bootstrap_transfer_job` to `create_per_storage_job`).

A submitted job is a document of the rawjob collection, with whatever
fields the portal gave it. The bootstrap looks up the certificates, asks
the destination and the source sites about their DTNs, has every source
storage expand its paths into groups of files, stores each group as a
block, and in the end one sjob for each source storage. The documents are
JSON here as in the source: a field is read by its name, and reading one
of the wrong type throws.

What happens comes in three kinds (`Lib.Trying`). A parsing function
returns the changed job; it gives up with the text it puts under "error"
(the source returns false), and then the caller refuses the job; or an
exception leaves it, and keeps what was stored before. A division by zero
and an access outside of a vector or a string are exceptions here, too.

Documents come back from the database as they were written. An insertion
gets the next of a supply of ids, and the n-th request to a portal the
n-th of a supply of answers, so that a statement about every intake is
one about every sequence of answers. The certificates are made by
OpenSSL, which is a parameter.
-/
import BigDataExpress.Lib.Collection
import BigDataExpress.Lib.Trying
import BigDataExpress.Server.Commands
import BigDataExpress.Server.Types

namespace BigDataExpress

open Stateful (Trying giveUp perform)

-- ====================================================== the object ids

/-- A digit of an object id. -/
def isHexDigit (c : Char) : Bool :=
  ('0' ≤ c && c ≤ '9') || ('a' ≤ c && c ≤ 'f')

/-- An id of the database, by its 24 hexadecimal digits. -/
structure ObjectId where
  digits : List Char
  length_digits : digits.length = 24
  all_hex : digits.all isHexDigit = true
  deriving DecidableEq

namespace ObjectId

/-- `bsoncxx::oid(s)`: capitals are read as well. -/
def parse (s : String) : Except String ObjectId :=
  let digits := s.toList.map Char.toLower
  if h : digits.length = 24 ∧ digits.all isHexDigit = true then
    .ok ⟨digits, h.1, h.2⟩
  else .error "could not parse Object ID string"

/-- `to_string` -/
def text (o : ObjectId) : String := String.ofList o.digits

/-- An id in extended JSON. -/
def toJson (o : ObjectId) : Json := .obj [("$oid", .str o.text)]

/-- The id that a value of extended JSON is stored as. -/
def ofJson : Json → Option ObjectId
  | .obj [("$oid", .str s)] => (parse s).toOption
  | _ => none

end ObjectId

/-- A document, its `_id` and its other fields. -/
structure Document where
  id : ObjectId
  fields : List (String × Json)

namespace Document

/-- A document as it is read. -/
def toJson (d : Document) : Json :=
  .obj (Json.assign "_id" d.id.toJson d.fields)

/-- `$set` of a field. -/
def set (key : String) (v : Json) (d : Document) : Document :=
  { d with fields := Json.assign key v d.fields }

/-- Whether a field holds an id. -/
def refersTo (key : String) (o : ObjectId) (d : Document) : Bool :=
  (Json.lookup key d.fields).bind ObjectId.ofJson = some o

end Document

-- ========================================================== the intake

/-- The two collections that documents are inserted into. -/
inductive CollectionName
  | sjob | block
  deriving DecidableEq

/-- The side of the portals. -/
structure Mail where
  /-- what the portals answer, in the order they are asked -/
  outcomes : Nat → Int × Json
  /-- the address and the request of every question -/
  posts : List (String × Json) := []

/-- What the bootstrap has of the store, and of the calls it makes. -/
structure Intake where
  rawjobs : List Document
  sjobs : List Document
  blocks : List Document
  /-- the ids the insertions get, in the order they are made -/
  oids : Nat → ObjectId
  /-- the insertions made -/
  inserts : List (CollectionName × ObjectId) := []
  mail : Mail

/-- A proxy certificate that was made. -/
structure ProxyCert where
  proxyPrivateKey : String
  signedProxyCert : String

/-- What the bootstrap reads and leaves as it is: two collections, the
launcher's presence, the configuration, and `utils::generate_proxy_cert`
of a key and a certificate. -/
structure Premises where
  sites : List Document
  usercerts : List Document
  hasLauncher : Bool
  generateProxyCert : String → String → Except String ProxyCert
  ldGroupSize : UInt64
  ldChecksum : Bool
  ldChecksumAlg : String

/-- The bootstrap at work. -/
abbrev Boot : Type → Type := EStateM String Intake

/-- A part of it that may give up on the job. -/
abbrev Parse : Type → Type := Trying String Intake String

/-- A part that only asks, and does not come near the database. -/
abbrev Inquiry : Type → Type := Trying String Mail String

/-- A read that may throw. -/
def Inquiry.read {α : Type} (x : Except String α) : Inquiry α :=
  perform (Stateful.ofExcept x)

/-- `Portal::post` -/
def Mail.post (url : String) (params : Json) :
    EStateM String Mail (Int × Json) := fun m =>
  .ok (m.outcomes m.posts.length)
    { m with posts := m.posts ++ [(url, params)] }

/-- One call of a portal, and its answer. -/
def Inquiry.post (url : String) (params : Json) : Inquiry (Int × Json) :=
  perform (Mail.post url params)

/-- A part that reads values. -/
def Parse.read {α : Type} (x : Except String α) : Parse α :=
  perform (Stateful.ofExcept x)

/-- A part that only makes calls. -/
def Parse.ask {α : Type} (x : Inquiry α) : Parse α :=
  Stateful.zoom Intake.mail (fun s m => { s with mail := m }) x

namespace Boot

/-- A part of the bootstrap that reads values. -/
def read {α : Type} (x : Except String α) : Boot α := Stateful.ofExcept x

/-- What a lookup gives that finds nothing. -/
def notFound (error : String) : Json := .obj [("error", .str error)]

/-- The document of a rawjob. -/
def getRawjobFromId (id : String) : Boot Json := do
  let o ← read (ObjectId.parse id)
  let s ← get
  match s.rawjobs.find? fun d => d.id = o with
  | some d => pure d.toJson
  | none => pure (notFound "raw job not found")

/-- `update_collection_field` of the rawjob collection. -/
def updateRawjobField (id key : String) (v : Json) : Boot Unit := do
  let o ← read (ObjectId.parse id)
  modify fun s => { s with
    rawjobs := Collection.updateOne (fun d => d.id = o) (Document.set key v)
      s.rawjobs }

/-- `(int)rawjob_state::error` -/
def rawjobError : Int := 3

/-- Puts a rawjob in a state. -/
def updateRawjobState (id : String) (state : Int) : Boot Unit :=
  updateRawjobField id "state" (.int state)

/-- Sets the size of a rawjob. -/
def updateRawjobSize (id : String) (size : Float) : Boot Unit :=
  updateRawjobField id "size" (.real size)

/-- `insert("block", doc)` -/
def insertBlock (fields : List (String × Json)) : Boot ObjectId := fun s =>
  let o := s.oids s.inserts.length
  .ok o { s with blocks := s.blocks ++ [⟨o, fields⟩],
                 inserts := s.inserts ++ [(.block, o)] }

/-- `insert("sjob", doc)` -/
def insertSjob (fields : List (String × Json)) : Boot ObjectId := fun s =>
  let o := s.oids s.inserts.length
  .ok o { s with sjobs := s.sjobs ++ [⟨o, fields⟩],
                 inserts := s.inserts ++ [(.sjob, o)] }

/-- Deletes the sjobs of a rawjob. -/
def delSjobs (rawjobId : String) : Boot Unit := do
  let o ← read (ObjectId.parse rawjobId)
  modify fun s => { s with
    sjobs := s.sjobs.filter fun d => !d.refersTo "rawjob" o }

end Boot

-- ====================================================== what is looked up

namespace Premises

variable (pr : Premises)

/-- What the store has of a site. -/
def getSiteInfo (id : String) : Except String Json := do
  let o ← ObjectId.parse id
  match pr.sites.find? fun d => d.id = o with
  | some d => pure d.toJson
  | none => pure (Boot.notFound "site not found")

/-- The keys of a user at a site. -/
def getUserKeys (user site : String) : Except String Json := do
  let u ← ObjectId.parse user
  let s ← ObjectId.parse site
  match pr.usercerts.find? fun d =>
      d.refersTo "user" u && d.refersTo "site" s with
  | some d => pure d.toJson
  | none => pure (Boot.notFound "certificate not found")

end Premises

/-- `job[key]["$oid"].asString()` -/
def oidOf (job : Json) (key : String) : Except String String := do
  let v ← job.get key
  let o ← v.get "$oid"
  o.asString

/-- Where the portal of a site takes commands. -/
def commandUrl (siteInfo : Json) : Except String String := do
  let url ← textOf siteInfo "url"
  pure ("https://" ++ url ++ "/bde/command")

-- =========================================== create_raw_job_proxy_cert

/-- The keys of the user at a site, or the text of the error. -/
def siteKeys (pr : Premises) (user site : String) :
    Except String (Except String Json) := do
  let keys ← pr.getUserKeys user site
  if ← keys.isMember "error" then
    let error ← textOf keys "error"
    pure (.error
      ("error at getting source site user certificate from db: " ++ error))
  else pure (.ok keys)

/-- A proxy certificate of these keys. -/
def proxyOf (pr : Premises) (keys : Json) : Except String ProxyCert := do
  let key ← textOf keys "keypem"
  let cert ← textOf keys "cert"
  pr.generateProxyCert key cert

/-- What is stored of one side's certificates. -/
def certsDoc (keys : Json) (proxy : ProxyCert) : Except String Json := do
  let key ← keys.get "keypem"
  let cert ← keys.get "cert"
  pure (.object [("user_key", key), ("user_cert", cert),
    ("proxy_key", .str proxy.proxyPrivateKey),
    ("proxy_cert", .str proxy.signedProxyCert)])

/-- The certificates of both sides, or the text of the error. -/
def rawJobCerts (pr : Premises) (job : Json) :
    Except String (Except String (Json × Json)) := do
  let user ← oidOf job "user"
  let srcsite ← oidOf job "srcsite"
  let dstsite ← oidOf job "dstsite"
  match ← siteKeys pr user srcsite with
  | .error e => pure (.error e)
  | .ok srcKeys =>
      match ← siteKeys pr user dstsite with
      | .error e => pure (.error e)
      | .ok dstKeys =>
          let srcProxy ← proxyOf pr srcKeys
          let dstProxy ← proxyOf pr dstKeys
          let srcCerts ← certsDoc srcKeys srcProxy
          let dstCerts ← certsDoc dstKeys dstProxy
          pure (.ok (srcCerts, dstCerts))

/-- Puts the proxy certificates of a job into its document. -/
def createRawJobProxyCert (pr : Premises) (job : Json) : Parse Unit := do
  let rid ← Parse.read (oidOf job "_id")
  match ← Parse.read (rawJobCerts pr job) with
  | .error e => giveUp e
  | .ok (srcCerts, dstCerts) =>
      perform (Boot.updateRawjobField rid "src_certs" srcCerts)
      perform (Boot.updateRawjobField rid "dst_certs" dstCerts)

-- =================================================== parse_raw_job_dst

/-- The request for a DTN, and for the disk a path is on. -/
def dstInfoRequest (dtn storage path : String) : Json :=
  .object [("cmd", .str "get_dtn_info"), ("dtn", .str dtn),
    ("storage", .str storage), ("path", .str path)]

/-- `dtn["ctrl_interface"]["ip"]` -/
def ctrlIp (dtn : Json) : Except String Json := do
  let ctrl ← dtn.get "ctrl_interface"
  ctrl.get "ip"

/-- The job with its destination in it, off the answer of the site. -/
def withDestination (job : Json) (site dtn storage path : String)
    (answer : Json) : Except String Json := do
  let job ← job.setIn ["dst", "site", "$oid"] (.str site)
  let job ← job.setIn ["dst", "storage"] (.str storage)
  let job ← job.setIn ["dst", "dtn"] (.str dtn)
  let node ← answer.get "dtn"
  let addr ← ctrlIp node
  let job ← job.setIn ["dst", "dtn_addr"] addr
  let job ← job.setIn ["dst", "path"] (.str path)
  let disk ← answer.get "disk"
  let job ← job.setIn ["dst", "disk"] disk
  pure ((job.removeMember "dstfile").removeMember "dstsite")

/-- Completes the destination of a job. -/
def parseRawJobDst (pr : Premises) (job : Json) : Inquiry Json := do
  let dstsite ← Inquiry.read (oidOf job "dstsite")
  let dstfile ← Inquiry.read (textOf job "dstfile")
  match split dstfile '|' with
  | [site, dtn, store, path] =>
      if dstsite ≠ site then
        giveUp ("scheduler::parse_raw_job_dst(): dst path is not "
          ++ "consistent with dst site.")
      else
        let siteInfo ← Inquiry.read (pr.getSiteInfo dstsite)
        let url ← Inquiry.read (commandUrl siteInfo)
        let storage := dtn ++ "|" ++ store
        let r ← Inquiry.post url (dstInfoRequest dtn storage path)
        if r.1 ≠ 200 then giveUp "error get_dtn_info()."
        else Inquiry.read (withDestination job dstsite dtn storage path r.2)
  | _ => giveUp "scheduler::parse_raw_job_dst(): unknown dst path"

-- ================================================= the source storages

/-- An entry of `smap`: a source storage and what is taken from it. -/
structure Source (α : Type) where
  srcsite : String
  srcstorage : String
  srcdtn : String
  srcdtnAddr : Json
  srcpath : List α

/-- What the loop over the sources has gathered: the DTNs it asked for,
and the storages, in the order of their names. -/
structure Gathered (α : Type) where
  dtninfo : List (String × Json) := []
  smap : List (Source α) := []

variable {α : Type}

/-- `smap[storage]` as a new entry. -/
def addStorage (s : Source α) : List (Source α) → List (Source α)
  | [] => [s]
  | t :: rest =>
      if s.srcstorage < t.srcstorage then s :: t :: rest
      else t :: addStorage s rest

/-- `smap[storage]["srcpath"].append(path)` -/
def appendPath (storage : String) (path : α) (smap : List (Source α)) :
    List (Source α) :=
  Collection.updateOne (fun s => s.srcstorage = storage)
    (fun s => { s with srcpath := s.srcpath ++ [path] }) smap

/-- Ask for a DTN that has not been asked for. -/
def dtnInfo (siteInfo : Json) (dtn : String) (info : List (String × Json)) :
    Inquiry (List (String × Json)) :=
  if (Json.lookup dtn info).isSome then pure info
  else do
    let url ← Inquiry.read (commandUrl siteInfo)
    let r ← Inquiry.post url
      (.object [("cmd", .str "get_dtn_info"), ("dtn", .str dtn)])
    if r.1 ≠ 200 then giveUp "error get_dtn_info()"
    else
      let node ← Inquiry.read (r.2.get "dtn")
      pure (Json.assign dtn node info)

/-- The storages with one that may be new. -/
def initStorage (srcsite storage dtn : String) (g : Gathered α) :
    Except String (Gathered α) :=
  if g.smap.any fun s => s.srcstorage = storage then pure g
  else do
    let addr ← ctrlIp ((Json.lookup dtn g.dtninfo).getD .null)
    let s : Source α := ⟨srcsite, storage, dtn, addr, []⟩
    pure { g with smap := addStorage s g.smap }

/-- One source: four fields, of which the first is the site. -/
def gatherSource (siteInfo : Json) (srcsite : String) (fields : List String)
    (entry : String → Except String α) (g : Gathered α) :
    Inquiry (Gathered α) :=
  match fields with
  | [site, dtn, store, path] =>
      if srcsite ≠ site then
        giveUp ("scheduler::parse_raw_job_src(): src path is not "
          ++ "consisitent with the src site.")
      else do
        let info ← dtnInfo siteInfo dtn g.dtninfo
        let storage := dtn ++ "|" ++ store
        let g ← Inquiry.read
          (initStorage srcsite storage dtn { g with dtninfo := info })
        let e ← Inquiry.read (entry path)
        pure { g with smap := appendPath storage e g.smap }
  | _ => giveUp "scheduler::parse_raw_job_src(): unknown src path"

-- ============================================================ the rate

/-- The expected duration, in milliseconds: a product of 64 bits. -/
def durationOf (job : Json) : Except String Int := do
  let submitted ← job.get "submittedat"
  let _begin ← submitted.asInt64
  let deadline ← job.get "deadline"
  let endTime ← deadline.asInt64
  pure ((endTime * 1000).bmod (2 ^ 64))

/-- `size / (time/1000)`, the divisor taken as unsigned. -/
def baseRate (size : Nat) (time : Int) : Except String Nat :=
  let seconds := time.tdiv 1000
  if seconds = 0 then .error "division by zero"
  else .ok (size / (seconds % 2 ^ 64).toNat)

-- =========================================================== the parts

/-- A source storage with its blocks. -/
structure Part (α : Type) extends Source α where
  size : Nat
  baserate : Nat
  blocks : List Json
  files : Nat

/-- The metadata of a block in an sjob. -/
def blockMeta (id : ObjectId) (size : Json) (files : Nat) : Json :=
  .object [("id", .str id.text), ("state", .int 0), ("size", size),
    ("files", .int files), ("tx_bytes", .int 0)]

/-- A part as an element of `job["src"]`. -/
def Part.toJson (render : α → Json) (p : Part α) : Json :=
  .object [("srcsite", .obj [("$oid", .str p.srcsite)]),
    ("srcstorage", .str p.srcstorage), ("srcdtn", .str p.srcdtn),
    ("srcdtn_addr", p.srcdtnAddr), ("srcpath", .arr (p.srcpath.map render)),
    ("size", .int p.size), ("baserate", .int p.baserate),
    ("blocks", .arr p.blocks), ("files", .int p.files)]

/-- The sum of the sizes, in a `double`. -/
def totalSize (parts : List (Part α)) : Float :=
  parts.foldl (fun t p => t + Float.ofNat p.size) 0

/-- The end of both parsing functions: the job with its sources in it. -/
def withSources (render : α → Json) (job : Json) (parts : List (Part α)) :
    Parse Json := do
  let job ← Parse.read (job.set "src" (.arr (parts.map (Part.toJson render))))
  let job := (job.removeMember "srcfile").removeMember "srcsite"
  let job ← Parse.read (job.set "size" (.real (totalSize parts)))
  let rid ← Parse.read (oidOf job "_id")
  perform (Boot.updateRawjobSize rid (totalSize parts))
  pure job

-- =================================================== parse_raw_job_src

/-- The loop over the source files. -/
def gatherSources (siteInfo : Json) (srcsite : String) :
    List String → Gathered String → Inquiry (Gathered String)
  | [], g => pure g
  | src :: rest, g => do
      let g ← gatherSource siteInfo srcsite (split src '|') .ok g
      gatherSources siteInfo srcsite rest g

/-- What is known before the first storage is expanded. -/
structure Listed (α : Type) where
  siteInfo : Json
  smap : List (Source α)
  time : Int

/-- `parse_raw_job_src`, up to the loop over the storages. -/
def listSources (pr : Premises) (job : Json) : Inquiry (Listed String) := do
  let _user ← Inquiry.read (oidOf job "user")
  let srcsite ← Inquiry.read (oidOf job "srcsite")
  let srcfile ← Inquiry.read (textOf job "srcfile")
  let siteInfo ← Inquiry.read (pr.getSiteInfo srcsite)
  let g ← gatherSources siteInfo srcsite (split srcfile ',') {}
  let time ← Inquiry.read (durationOf job)
  pure ⟨siteInfo, g.smap, time⟩

/-- The request to expand the paths of a storage. -/
def groupRequest (pr : Premises) (dstPath : Json) (s : Source String) :
    Json :=
  .object [("cmd", .str "file_expand_and_group"),
    ("params", .object [("target", .str s.srcdtn),
      ("params", .object [("dst_path", dstPath),
        ("group_size", .int pr.ldGroupSize.toNat),
        ("max_files", .int 2000),
        ("src_path", .arr (s.srcpath.map .str)),
        ("result_in_db", .bool false),
        ("checksum", .object [("compute", .bool pr.ldChecksum),
          ("algorithm", .str pr.ldChecksumAlg)])])])]

/-- What an answer to this holds. -/
structure Expansion where
  size : Nat
  baserate : Nat
  groups : List Json

/-- An answer, or the text of the error. -/
def readExpansion (time : Int) (r : Int × Json) :
    Except String (Except String Expansion) :=
  if r.1 ≠ 200 then pure (.error "error expand_and_group rest call")
  else do
    let error ← textOf r.2 "error"
    let failed ← if error ≠ "OK" then pure true
      else do
        let code ← codeOf r.2
        pure (decide (code ≠ 0))
    if failed then
      pure (.error "error expand_and_group response code")
    else
      let total ← r.2.get "total_size"
      let size ← total.asUInt64
      let rate ← baseRate size time
      let files ← r.2.get "files"
      let groups ← files.get "groups"
      pure (.ok ⟨size, rate, groups.items⟩)

/-- Whether a group is the one of the parent folders. -/
def parentFolderList (group : Json) : Except String Bool := do
  if ← group.isMember "parent_folder_list" then
    let v ← group.get "parent_folder_list"
    v.asBool
  else pure false

/-- A group as it is stored, with the transfer mode. Counting the files
leaves a null under `files` where there are none. -/
def groupDoc (group : Json) : Except String (List (String × Json)) := do
  let folders ← parentFolderList group
  let fields ← group.members
  if folders then pure (Json.assign "mode" (.int 1) fields)
  else
    let files := (Json.lookup "files" fields).getD .null
    let mode := if files.size = 1 then 0 else 1
    pure (Json.assign "mode" (.int mode) (Json.assign "files" files fields))

/-- The number of files of a stored group. -/
def fileCount (fields : List (String × Json)) : Nat :=
  ((Json.lookup "files" fields).getD .null).size

/-- Store the groups: the metadata of the blocks, and the number of
files. -/
def insertGroups : List Json → Boot (List Json × Nat)
  | [] => pure ([], 0)
  | group :: rest => do
      let fields ← Boot.read (groupDoc group)
      let id ← Boot.insertBlock fields
      let size := (Json.lookup "size" fields).getD .null
      let (blocks, files) ← insertGroups rest
      pure (blockMeta id size (fileCount fields) :: blocks,
        fileCount fields + files)

/-- Expand one storage. -/
def expandStorage (pr : Premises) (siteInfo dstPath : Json) (time : Int)
    (s : Source String) : Parse (Part String) := do
  let url ← Parse.read (commandUrl siteInfo)
  let r ← Parse.ask (Inquiry.post url (groupRequest pr dstPath s))
  match ← Parse.read (readExpansion time r) with
  | .error e => giveUp e
  | .ok x =>
      let (blocks, files) ← perform (insertGroups x.groups)
      pure { s with size := x.size, baserate := x.baserate,
                    blocks := blocks, files := files }

/-- The loop over the storages. -/
def expandStorages (pr : Premises) (siteInfo dstPath : Json) (time : Int) :
    List (Source String) → Parse (List (Part String))
  | [] => pure []
  | s :: rest => do
      let p ← expandStorage pr siteInfo dstPath time s
      let ps ← expandStorages pr siteInfo dstPath time rest
      pure (p :: ps)

/-- `job["dst"]["path"]` -/
def dstPathOf (job : Json) : Except String Json := do
  let dst ← job.get "dst"
  dst.get "path"

/-- Completes the sources of a plain job: one part for each storage, with the
groups of its expansion. -/
def parseRawJobSrc (pr : Premises) (job : Json) : Parse Json := do
  let l ← Parse.ask (listSources pr job)
  let dstPath ← Parse.read (dstPathOf job)
  let parts ← expandStorages pr l.siteInfo dstPath l.time l.smap
  withSources Json.str job parts

-- ================================================ parse_raw_job_src_ds

/-- A file of a dataset: where it is, its name, where it goes. -/
structure DatasetEntry where
  spath : String
  sfile : String
  dpath : String
  size : Json

/-- The entry of a file, as it is sent. -/
def DatasetEntry.toJson (e : DatasetEntry) : Json :=
  .object [("spath", .str e.spath), ("sfile", .str e.sfile),
    ("dpath", .str e.dpath), ("size", e.size)]

/-- A slash of either kind. -/
def isSlash (c : Char) : Bool := c == '/' || c == '\\'

/-- A path up to its last slash, and what comes after. -/
def cutPath (path : String) : String × String :=
  let name := path.toList.reverse.takeWhile fun c => !isSlash c
  let dir := path.toList.reverse.dropWhile fun c => !isSlash c
  (String.ofList dir.reverse, String.ofList name.reverse)

/-- The destination directory with a slash at its end. `dsts[3]` and
`back()` are not guarded. -/
def destinationDir (dsts : List String) : Except String String :=
  match dsts[3]? with
  | none => .error "vector index out of range"
  | some dpath =>
      match dpath.toList.getLast? with
      | none => .error "back() of an empty string"
      | some c => .ok (if c ≠ '/' then dpath ++ "/" else dpath)

/-- The entry of a file of a dataset. -/
def datasetEntry (dsts : List String) (size : Json) (path : String) :
    Except String DatasetEntry := do
  let dpath ← destinationDir dsts
  pure ⟨(cutPath path).1, (cutPath path).2, dpath, size⟩

/-- `file[i].asString()` -/
def fileField (file : Json) (i : Nat) : Except String String := do
  let v ← file.index i
  v.asString

/-- The loop over the files. -/
def gatherFiles (siteInfo : Json) (srcsite : String) :
    List Json → Gathered DatasetEntry → Inquiry (Gathered DatasetEntry)
  | [], g => pure g
  | file :: rest, g => do
      let src ← Inquiry.read (fileField file 0)
      let dst ← Inquiry.read (fileField file 1)
      let size ← Inquiry.read (file.index 2)
      let g ← gatherSource siteInfo srcsite (split src '|')
        (datasetEntry (split dst '|') size) g
      gatherFiles siteInfo srcsite rest g

/-- `parse_raw_job_src_ds`, up to the loop over the storages. -/
def listFiles (pr : Premises) (job : Json) :
    Inquiry (Listed DatasetEntry) := do
  let _user ← Inquiry.read (oidOf job "user")
  let srcsite ← Inquiry.read (oidOf job "srcsite")
  let siteInfo ← Inquiry.read (pr.getSiteInfo srcsite)
  let files ← Inquiry.read (job.get "files")
  let g ← gatherFiles siteInfo srcsite files.items {}
  let time ← Inquiry.read (durationOf job)
  pure ⟨siteInfo, g.smap, time⟩

/-- The sum of the sizes, in 64 bits. -/
def entrySizes : List DatasetEntry → Except String Nat
  | [] => pure 0
  | e :: rest => do
      let n ← e.size.asUInt64
      let m ← entrySizes rest
      pure ((n + m) % 2 ^ 64)

/-- What a file is in a block: its folder, then the file. -/
def datasetFiles (e : DatasetEntry) : List Json :=
  [.arr [.str e.spath, .str e.dpath, .int 0, .int 0],
   .arr [.str (e.spath ++ e.sfile), .str (e.dpath ++ e.sfile), e.size,
     .int 0]]

/-- The one block of a storage. -/
def datasetBlock (entries : List DatasetEntry) (size : Nat) :
    List (String × Json) :=
  Json.assign "size" (.int size) (Json.assign "files"
    (.arr (entries.flatMap datasetFiles)) [("mode", .int 1)])

/-- One storage: its block is stored before the rate is computed. -/
def datasetStorage (time : Int) (s : Source DatasetEntry) :
    Boot (Part DatasetEntry) := do
  let size ← Boot.read (entrySizes s.srcpath)
  let id ← Boot.insertBlock (datasetBlock s.srcpath size)
  let rate ← Boot.read (baseRate size time)
  let count := (s.srcpath.flatMap datasetFiles).length
  pure { s with size := size, baserate := rate,
                blocks := [blockMeta id (.int size) count],
                files := count / 2 }

/-- The loop over the storages. -/
def datasetStorages (time : Int) :
    List (Source DatasetEntry) → Boot (List (Part DatasetEntry))
  | [] => pure []
  | s :: rest => do
      let p ← datasetStorage time s
      let ps ← datasetStorages time rest
      pure (p :: ps)

/-- Completes the sources of a dataset job. -/
def parseRawJobSrcDs (pr : Premises) (job : Json) : Parse Json := do
  let l ← Parse.ask (listFiles pr job)
  let parts ← perform (datasetStorages l.time l.smap)
  withSources DatasetEntry.toJson job parts

-- ============================================== bootstrap_transfer_job

/-- The check of the space at the destination. -/
def insufficientSpace (job : Json) : Except String Bool := do
  let dst ← job.get "dst"
  let dist ← dst.get "dist"
  if dist.empty then pure false
  else
    let total ← job.get "size"
    let size ← total.asInt64
    let disk ← dst.get "disk"
    let sizes ← disk.get "size"
    let available ← sizes.get "available"
    let space ← available.asInt64
    pure (decide (Float.ofInt space * 0.95 < Float.ofInt size))

/-- Assign fields one after the other. -/
def setFields (s : Json) : List (String × Json) → Except String Json
  | [] => pure s
  | (key, v) :: rest => do
      let s ← s.set key v
      setFields s rest

/-- The sjob of one source storage. -/
def perStorageJob (job s : Json) : Except String Json := do
  let id ← job.get "_id"
  let type ← job.get "type"
  let submitted ← job.get "submittedat"
  let priority ← job.get "priority"
  let dst ← job.get "dst"
  let site ← dst.get "site"
  let storage ← dst.get "storage"
  let dtn ← dst.get "dtn"
  let addr ← dst.get "dtn_addr"
  let path ← dst.get "path"
  let rate ← s.get "baserate"
  setFields s [("rawjob", id), ("type", type), ("submittedat", submitted),
    ("priority", priority), ("dstsite", site), ("dststorage", storage),
    ("dstdtn", dtn), ("dstdtn_addr", addr), ("dstpath", path),
    ("rate", rate)]

/-- Makes an sjob of each part. -/
def createPerStorageJob (job : Json) : Except String (List Json) := do
  let src ← job.get "src"
  src.items.mapM (perStorageJob job)

/-- `(int)sjob_stage` -/
def SjobStage.toJson : SjobStage → Json
  | .pending => .int 0
  | .working => .int 1
  | .success => .int 2
  | .error => .int 3

/-- The stages of a new sjob. -/
def initialStages (checksum : Bool) : Json :=
  let pending := SjobStage.pending.toJson
  let working := SjobStage.working.toJson
  .object [
    ("bootstrap", .object [("general", working), ("query", working),
      ("match", pending)]),
    ("network", .object [("general", pending), ("planning", pending)]),
    ("transfer", .object ([("general", pending), ("launch", pending),
      ("transfer", pending)]
        ++ if checksum then [("checksum", pending)] else [])),
    ("teardown", .object [("general", pending)])]

/-- The sjob as it is inserted, in state bootstrap. -/
def initialSjob (pr : Premises) (sjob : Json) : Except String Json :=
  setFields sjob [("state", .int 12), ("tx_bytes", .int 0),
    ("max_flows", .int 1), ("flows", .arr []), ("transfer_retry", .int 0),
    ("path_retry", .int 0), ("stage", initialStages pr.ldChecksum)]

/-- Insert the sjobs. -/
def insertSjobs (pr : Premises) : List Json → Boot Unit
  | [] => pure ()
  | sjob :: rest => do
      let sjob ← Boot.read (initialSjob pr sjob)
      let fields ← Boot.read sjob.members
      let _id ← Boot.insertSjob fields
      insertSjobs pr rest

/-- Put a job in error. -/
def refuse (id error : String) : Boot Unit := do
  Boot.updateRawjobState id Boot.rawjobError
  Boot.updateRawjobField id "error" (.str error)

/-- `job.get("dataset", false).asBool()` -/
def datasetOf (job : Json) : Except String Bool := do
  let v ← job.get "dataset"
  v.asBool

/-- The parsing functions, one after the other. -/
def parseRawJob (pr : Premises) (job : Json) : Parse Json := do
  let job ← Parse.read (job.set "type" (.str "best_effort"))
  let ds ← Parse.read (datasetOf job)
  createRawJobProxyCert pr job
  let job ← Parse.ask (parseRawJobDst pr job)
  if ds then parseRawJobSrcDs pr job else parseRawJobSrc pr job

/-- Store the sjobs of a job, in the place of those it may have. -/
def storeSjobs (pr : Premises) (job : Json) (sjobs : List Json) :
    Boot Unit := do
  let first := sjobs.headD .null
  let srcsite ← Boot.read (oidOf first "srcsite")
  let _ssite ← Boot.read (pr.getSiteInfo srcsite)
  let dstsite ← Boot.read (oidOf first "dstsite")
  let _dsite ← Boot.read (pr.getSiteInfo dstsite)
  let rid ← Boot.read (oidOf job "_id")
  Boot.delSjobs rid
  insertSjobs pr sjobs
  let type ← Boot.read (textOf job "type")
  if type = "reserved" ∨ type = "best_effort" then pure ()
  else throw "unknown job type"

/-- What follows the parsing: the checks, then the sjobs. -/
def admitJob (pr : Premises) (id : String) (job : Json) : Boot Unit := do
  if ← Boot.read (insufficientSpace job) then
    refuse id "insufficient disk space"
  else
    let sjobs ← Boot.read (createPerStorageJob job)
    if sjobs.length < 1 then refuse id "create_per_storage_job() failed"
    else storeSjobs pr job sjobs

/-- Bootstraps a rawjob: parse, check the space, and store the sjobs. -/
def bootstrapTransferJob (pr : Premises) (id : String) : Boot Unit := do
  let job ← Boot.getRawjobFromId id
  if ← Boot.read (job.isMember "error") then pure ()
  else if !pr.hasLauncher then
    refuse id "no active launcher agent available"
  else
    match ← (parseRawJob pr job).run with
    | .error e => refuse id e
    | .ok job => admitJob pr id job

end BigDataExpress
