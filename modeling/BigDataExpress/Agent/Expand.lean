/-
The expansion of source paths into groups of files, and the verification
of their checksums (agent/dtnagent.cc).

A group becomes a block of the transfer. `expandAndGroup` and
`expandAndGroupV2` are the two commands that make groups; the second one
computes the checksums that the destination's agent is asked to compare
after the transfer (`verifyChecksums`).
-/
import BigDataExpress.Utils.Checksum

namespace BigDataExpress

-- ==================================================== messages, replies

/-- The parameters of both commands. A `src_path` that is one string is
read as a list of one; `algorithm` may be missing. -/
structure ExpandMessage where
  srcPath : List PathName
  dstPath : PathName
  groupSize : UInt64
  maxFiles : UInt64 := 0
  user : String := ""
  resultInDb : Bool := false
  compute : Bool := false
  algorithm : Option String := none

/-- An entry of a group, `[src, dst, size, 0]`, and the path it was made
of. -/
structure Entry where
  path : Path
  src : PathName
  dst : PathName
  size : UInt64

/-- The `checksum` member of a group. -/
structure GroupChecksum where
  algorithm : String
  checksums : List (PathName × String)

/-- A group of a response. The group of parent folders has no size. -/
structure FileGroup where
  files : List Entry := []
  checksum : Option GroupChecksum := none
  size : Option UInt64 := none
  parentFolderList : Bool := false

/-- The `groups` of a response: as they are, or the ids of the block
documents that hold them, with their sizes. -/
inductive ResponseGroups where
  | inline (groups : List FileGroup)
  | stored (ids : List (Nat × Option UInt64))

/-- A response: code 0 with the files, or another code with an error. -/
inductive ExpandReply where
  | ok (totalSize : UInt64) (groups : ResponseGroups)
  | failed (code : Nat) (error : String)

-- ============================================================ the agent

/-- What getpwnam_r(3) says of a user. -/
inductive UserLookup where
  | found
  | missing
  | failed
  deriving DecidableEq

/-- The agent's configuration and the machine it runs on. -/
structure DTNAgent extends Hashing where
  dataFolders : List PathName
  checksumThreads : Nat := 256
  checksumFileSizeThreshold : UInt64 := 1024 * 1024 * 1024
  useExpandV2ParentList : Bool := false
  getpwnam : String → UserLookup

/-- The state of an agent: its task counter, and the block collection,
where the id of a document is its position. -/
structure AgentState where
  tasks : TaskCounter := {}
  blocks : List FileGroup := []

/-- The body of a command, up to the exception it ends with. -/
abbrev Command := EStateM String AgentState

/-- A computation of the checksum library. -/
def Command.tasked {α : Type} (x : Tasked α) : Command α := fun s =>
  match x s.tasks with
  | .ok a t => .ok a { s with tasks := t }
  | .error e t => .error e { s with tasks := t }

def Command.lift {α : Type} (x : Except String α) : Command α :=
  match x with
  | .ok a => pure a
  | .error e => throw e

/-- Throw unless the test holds. -/
def require (ok : Bool) (e : String) : Except String Unit :=
  if ok then .ok () else .error e

/-- Insert a block document. -/
def addBlock (g : FileGroup) : Command Nat := do
  let s ← get
  set { s with blocks := s.blocks ++ [g] }
  pure s.blocks.length

/-- Insert the groups of a response: their ids and sizes. -/
def addBlocks : List FileGroup → Command (List (Nat × Option UInt64))
  | [] => pure []
  | g :: gs => do
      let id ← addBlock g
      let rest ← addBlocks gs
      pure ((id, g.size) :: rest)

/-- Remove every slash at the end. On a name of slashes only, the loop
ends with the empty string. -/
def stripSlashes (s : PathName) : PathName :=
  (s.reverse.dropWhile (· == '/')).reverse

/-- A name with a slash at its end. -/
def withSlash (s : PathName) : PathName :=
  if s.getLast? = some '/' then s else s ++ ['/']

/-- `make_dst_path_name`. The prefixes are not looked at. -/
def makeDstPathName (src dst : PathName) (_prefixes : List PathName) :
    PathName :=
  withSlash dst ++ baseName src

namespace DTNAgent

variable (a : DTNAgent)

/-- `data_folder_contains`: by the spelling of the two real paths. -/
def dataFolderContains (path : PathName) : List PathName → Bool
  | [] => false
  | df :: dfs =>
      match a.fs.realpath path, a.fs.realpath df with
      | .ok p, .ok d =>
          if (spell d).isPrefixOf (spell p) then true
          else dataFolderContains path dfs
      | _, _ => false

/-- `check_expand_params`. -/
def checkExpandParams : List PathName → Except String Unit
  | [] => .ok ()
  | p :: ps =>
      if a.dataFolderContains p a.dataFolders then checkExpandParams ps
      else .error
        ("path " ++ String.ofList p ++ " is not under a data folder")

/-- The user a command names has to exist. -/
def checkUser (user : String) : Except String Unit :=
  if user = "" then .ok ()
  else match a.getpwnam user with
    | .found => .ok ()
    | .missing => .error ("no such user: " ++ user)
    | .failed => .error "getpwnam_r() failed"

/-- The prefixes of the source paths. -/
def pathPrefixes (paths : List PathName) :
    Except String (List PathName) :=
  paths.mapM fun p => (Path.ofName a.fs p).dirName

-- ================================================= dtn_expand_and_group

/-- The entry of a path, in the first form of the command. -/
def entryOf (dst : PathName) (prefixes : List PathName) (p : Path) :
    Entry :=
  let realDst := makeDstPathName p.name dst prefixes
  if p.isDirectory then
    { path := p, src := p.name ++ ['/'], dst := realDst ++ ['/'],
      size := p.size }
  else
    { path := p, src := p.name, dst := realDst, size := p.size }

/-- A group of the response. -/
def groupOf (dst : PathName) (prefixes : List PathName)
    (paths : List Path) : FileGroup where
  files := paths.map (entryOf dst prefixes)
  size := some (sumSizes (paths.map Path.size))

/-- All paths at and below the source paths. -/
def allSubPaths (paths : List PathName) : Except String (List Path) :=
  (paths.mapM fun p => subPaths (Path.ofName a.fs p)).map List.flatten

/-- The body of `handle_expand_and_group_command`. -/
def expandAndGroupBody (m : ExpandMessage) :
    Except String (UInt64 × List FileGroup) := do
  require (!m.srcPath.isEmpty) "empty parmeter: src_path"
  a.checkExpandParams m.srcPath
  require (!m.dstPath.isEmpty) "empty parmeter: dst_path"
  let dst := stripSlashes m.dstPath
  a.checkUser m.user
  require (m.groupSize != 0) "group_size is empty or zero"
  let prefixes ← a.pathPrefixes m.srcPath
  let paths ← a.allSubPaths m.srcPath
  let groups := groupBySize paths m.groupSize m.maxFiles
  pure (sumSizes (groups.flatten.map Path.size),
    groups.map (groupOf dst prefixes))

/-- `handle_expand_and_group_command`. -/
def handleExpandAndGroup (m : ExpandMessage) : ExpandReply :=
  match a.expandAndGroupBody m with
  | .ok (total, groups) => .ok total (.inline groups)
  | .error e => .failed 1 ("error: " ++ e)

-- ============================================== dtn_expand_and_group_v2

/-- `expand_and_group_v2_params`, decoded. -/
structure V2Params where
  srcPaths : List PathName
  dstPath : PathName
  groupSize : UInt64
  maxFiles : UInt64
  user : String
  resultInDb : Bool
  compute : Bool
  algorithm : String
  md : Option Digest

/-- The digest the command names; without one it is sha1. -/
def decodeAlgorithm (m : ExpandMessage) :
    Except String (String × Option Digest) :=
  match m.compute, m.algorithm with
  | true, some name =>
      match a.digestByName name with
      | some md => .ok (name, some md)
      | none => .error ("Unknown message digest algorithm: " ++ name)
  | _, _ => .ok ("sha1", a.digestByName "sha1")

/-- `decode_expand_and_group_command_v2_params`. -/
def decodeV2 (m : ExpandMessage) : Except String V2Params := do
  require (!m.srcPath.isEmpty) "empty parmeter: src_path"
  require (!m.dstPath.isEmpty) "empty parmeter: dst_path"
  require (m.groupSize != 0) "group_size is empty or zero"
  let (algorithm, md) ← a.decodeAlgorithm m
  pure { srcPaths := m.srcPath, dstPath := stripSlashes m.dstPath,
         groupSize := m.groupSize, maxFiles := m.maxFiles, user := m.user,
         resultInDb := m.resultInDb, compute := m.compute,
         algorithm := algorithm, md := md }

variable (ps : V2Params) (prefixes : List PathName)

/-- `add_dir_checksum_of_checksums`. -/
def addDirChecksumOfChecksums (p : Path) (realDst : PathName) :
    Command (List (PathName × String)) := do
  let sum ← Command.tasked
    (a.dirChecksumOfChecksums p ps.md a.checksumThreads)
  pure [(joinPaths realDst (baseName p.name) ++ ['/'], sum)]

/-- A large file of a group is left to a task, if the counter allows
it. -/
def useTask (g : PathGroup) (p : Path) : Command Bool :=
  if 2 < g.size ∧ a.checksumFileSizeThreshold < p.size then do
    let n ← Command.tasked a.running
    pure (decide (n < a.checksumThreads))
  else pure false

/-- The checksum of a file, by a task or at once. -/
def addFileChecksum (g : PathGroup) (p : Path) (src realDst : PathName) :
    Command (List (PathName × String)) := do
  if ← a.useTask g p then
    Command.tasked TaskCounter.increment
    let sum ← Command.lift (a.checksum src ps.md)
    Command.tasked TaskCounter.decrement
    pure [(realDst, sum)]
  else
    let sum ← Command.lift (a.checksum src ps.md)
    pure [(realDst, sum)]

/-- The entry of a path and its checksums. -/
def entryV2 (g : PathGroup) (p : Path) :
    Command (Entry × List (PathName × String)) := do
  let src ← Command.lift p.canonicalName
  if p.isDirectory then
    let sums ←
      if ps.compute then a.addDirChecksumOfChecksums ps p ps.dstPath
      else pure []
    pure ({ path := p, src := src, dst := withSlash ps.dstPath,
            size := p.size }, sums)
  else
    let realDst := makeDstPathName src ps.dstPath prefixes
    let sums ←
      if ps.compute then a.addFileChecksum ps g p src realDst else pure []
    pure ({ path := p, src := src, dst := realDst, size := p.size }, sums)

/-- The loop over the paths of a group. What was assigned to the group's
checksums before is replaced. -/
def addPaths (g : PathGroup) : List Path → FileGroup → Command FileGroup
  | [], fg => pure fg
  | p :: rest, fg => do
      let (e, sums) ← a.entryV2 ps prefixes g p
      let fg := { fg with files := fg.files ++ [e] }
      let fg :=
        if ps.compute then
          { fg with checksum := some ⟨ps.algorithm, sums⟩ }
        else fg
      addPaths g rest fg

/-- The group made of a group of paths. -/
def groupV2 (g : PathGroup) : Command FileGroup := do
  let fg ← a.addPaths ps prefixes g g.paths {}
  pure { fg with size := some g.size }

/-- The groups made of the groups of a tree. -/
def groupsV2 : List PathGroup → Command (List FileGroup)
  | [] => pure []
  | g :: gs => do
      let fg ← a.groupV2 ps prefixes g
      let rest ← groupsV2 gs
      pure (fg :: rest)

/-- The entry of a parent folder. -/
def parentEntry (p : Path) : Except String Entry :=
  p.canonicalName.map fun src =>
    { path := p, src := src,
      dst := withSlash (makeDstPathName p.name ps.dstPath prefixes),
      size := 0 }

/-- The group of parent folders, when it is asked for. -/
def headGroup (parents : List Path) : Except String (List FileGroup) :=
  if a.useExpandV2ParentList && !parents.isEmpty then
    (parents.mapM (parentEntry ps prefixes)).map fun files =>
      [{ files := files, parentFolderList := true }]
  else .ok []

/-- Store the groups of a response, or put them in it. -/
def respond (groups : List FileGroup) : Command ResponseGroups :=
  if ps.resultInDb then do
    let ids ← addBlocks groups
    pure (.stored ids)
  else pure (.inline groups)

/-- What the loop over the source paths has gathered. -/
structure Expanding where
  total : UInt64 := 0
  groups : List FileGroup := []
  parents : List Path := []
  response : ResponseGroups := .inline []

/-- One source path. -/
def expandSource (st : Expanding) (src : PathName) :
    Command Expanding := do
  let tree := Path.ofName a.fs src
  let results ← Command.lift (divide a.fs tree ps.groupSize ps.maxFiles)
  let size ← Command.lift (treeSize a.fs tree)
  let parents := results.dirs.foldl (fun l p => insertPath p l) st.parents
  let new ← a.groupsV2 ps prefixes results.groups
  let head ← Command.lift (a.headGroup ps prefixes parents)
  let groups := st.groups ++ new
  let response ← respond ps (head ++ groups)
  pure { total := st.total + size, groups := groups, parents := parents,
         response := response }

/-- The loop over the source paths. -/
def expandSources : List PathName → Expanding → Command Expanding
  | [], st => pure st
  | src :: rest, st => do
      let st ← a.expandSource ps prefixes st src
      expandSources rest st

/-- The source paths as a set. -/
def srcPathsSet (paths : List PathName) : List PathName :=
  paths.foldl (fun l p => insertBy id p l) []

/-- The body of `handle_expand_and_group_command_v2`. -/
def expandAndGroupV2Body (m : ExpandMessage) : Command Expanding := do
  let ps ← Command.lift (a.decodeV2 m)
  Command.lift (a.checkExpandParams ps.srcPaths)
  let prefixes ← Command.lift (a.pathPrefixes ps.srcPaths)
  Command.lift (a.checkUser ps.user)
  a.expandSources ps prefixes (srcPathsSet ps.srcPaths) {}

/-- `handle_expand_and_group_command_v2`: the response, and the state it
leaves. -/
def handleExpandAndGroupV2 (m : ExpandMessage) (s : AgentState) :
    ExpandReply × AgentState :=
  match a.expandAndGroupV2Body m s with
  | .ok st s' => (.ok st.total st.response, s')
  | .error e s' => (.failed 1 ("dtn_expand_and_group_v2 error: " ++ e), s')

-- ================================================= dtn_verify_checksums

/-- The details of a mismatch. -/
structure Mismatch where
  algorithm : String
  path : PathName
  computed : String
  claimed : String
  deriving DecidableEq

/-- A response to the verification. -/
structure VerifyReply where
  code : Nat
  error : String
  details : Option Mismatch := none
  deriving DecidableEq

/-- The checksum of what a path names here: of a directory, or of what
opening it reads. -/
def localChecksum (algorithm : String) (path : PathName) :
    Tasked String :=
  let p := Path.ofName a.fs path
  if p.isDirectory then
    a.dirChecksumNamed p algorithm a.checksumThreads
  else Tasked.lift (a.checksumNamed path algorithm)

/-- The loop of `handle_verify_checksums_command`: the first mismatch, if
there is one. -/
def compareChecksums (algorithm : String) :
    List (PathName × String) → Tasked (Option Mismatch)
  | [] => pure none
  | (path, claimed) :: rest => do
      Tasked.lift (require (!path.isEmpty) "No path given")
      Tasked.lift (require (!claimed.isEmpty) "No checksum given")
      let computed ← a.localChecksum algorithm path
      if claimed ≠ computed then
        pure (some ⟨algorithm, path, computed, claimed⟩)
      else compareChecksums algorithm rest

/-- `handle_verify_checksums_command`. An empty algorithm is sha1. -/
def handleVerifyChecksums (algorithm : String)
    (checksums : List (PathName × String)) (t : TaskCounter) :
    VerifyReply :=
  let algorithm := if algorithm = "" then "sha1" else algorithm
  if checksums.isEmpty then
    { code := 1, error := "Command contains no checksum" }
  else match a.compareChecksums algorithm checksums t with
    | .ok none _ => { code := 0, error := "OK" }
    | .ok (some d) _ =>
        { code := 1, error := "mismatch", details := some d }
    | .error e _ =>
        { code := 2, error := "Error when running checksum: " ++ e }

end DTNAgent

end BigDataExpress
