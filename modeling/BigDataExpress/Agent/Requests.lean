/-
The commands of the DTN agent that take paths (agent/dtnagent.cc,
`do_command`), on a disk.

The two commands that make groups and the verification of checksums are
those of `Agent/Expand`, with the answers of the disk. A reply that is an
exception leaves `do_command`. What a command makes or changes on the disk
is returned beside its reply.
-/
import BigDataExpress.Agent.Expand
import BigDataExpress.Utils.Disk

namespace BigDataExpress

/-- An agent on a machine: `ids` are the uid and gid of a user, `ftw` what
nftw(3) reports. -/
structure Host where
  agent : DTNAgent
  ids : String → Nat × Nat
  ftw : Disk → Place → Except String (List UInt64)

/-- An entry of a listing: `[name, size, is directory]`, and the adler32
and md5 checksums if they were asked for. -/
structure ListEntry where
  name : PathName
  size : UInt64
  isDir : Bool
  checksum : Option (String × String) := none
deriving DecidableEq

inductive AgentReply
  /-- `json_response` -/
  | status (code : Nat) (error : String)
  | files (totalSize : UInt64) (files : List (PathName × UInt64))
  | groups (reply : ExpandReply)
  | entries (entries : List ListEntry)
  | size (path : PathName) (size : UInt64)
  | checksums (algorithm : String) (checksums : List (PathName × String))
  | verified (reply : DTNAgent.VerifyReply)
  | usage (usage : Usage)

/-- A change of the disk: a new directory, for a user perhaps, or an object
that changes hands. -/
inductive Effect
  | made (dir : Place) (name : PathName) (owner : Option (Nat × Nat))
  | chowned (place : Place) (owner : Nat × Nat)

-- ============================================================== walkers

/-- A directory that can be opened. -/
def Kind.isOpen : Kind → Bool
  | .dir none _ => true
  | _ => false

/-- A recursive `DirectoryWalker`: names and objects. -/
def Tree.walk (name : PathName) : Tree → List (PathName × Object)
  | nil => []
  | entry n owner kind sub rest =>
      let p := joinPaths name n.chars
      (p, ⟨owner, kind, sub⟩)
        :: ((if kind.isOpen then sub.walk p else []) ++ rest.walk name)

/-- One that does not recurse. -/
def Tree.entries (name : PathName) : Tree → List (PathName × Object)
  | nil => []
  | entry n owner kind sub rest =>
      (joinPaths name n.chars, ⟨owner, kind, sub⟩) :: rest.entries name

/-- The directories that cannot be opened, for a walker that throws. -/
def Tree.shutDirs (name : PathName) : Tree → List String
  | nil => []
  | entry n _ kind sub rest =>
      let p := joinPaths name n.chars
      (match kind with
        | .dir none _ => sub.shutDirs p
        | .dir (some why) _ => [String.ofList p ++ ": " ++ why]
        | _ => []) ++ rest.shutDirs name

def Object.walk (o : Object) (name : PathName) : List (PathName × Object) :=
  if o.kind.isOpen then o.sub.walk name else []

def Object.entries (o : Object) (name : PathName) : List (PathName × Object) :=
  if o.kind.isOpen then o.sub.entries name else []

/-- The sizes a walker adds up that throws. -/
def Object.walkSize (o : Object) (name : PathName) : Except String UInt64 :=
  match o.kind with
  | .dir none _ =>
      match o.sub.shutDirs name with
      | [] => .ok (sumSizes ((o.walk name).map fun q => q.2.size))
      | e :: _ => .error e
  | .dir (some why) _ => .error (String.ofList name ++ ": " ++ why)
  | _ => .error (String.ofList name ++ " is not a directory")

namespace Host

variable (h : Host) (d : Disk)

/-- The agent with the disk's answers. -/
def on : DTNAgent :=
  { h.agent with fs := d.fileSystem h.ftw }

def contains (path : PathName) : Bool :=
  (h.on d).dataFolderContains path h.agent.dataFolders

/-- The user of a request may read an object; without a user anyone
may. -/
def mayRead (user : String) (o : Object) : Bool :=
  user == "" || o.readableBy (h.ids user).1 (h.ids user).2

-- ============================================================ dtn_expand

def listFile (name : PathName) (o : Object) : ListEntry where
  name := baseName name
  size := o.size
  isDir := false

def listDirectory (name : PathName) : ListEntry where
  name := baseName name
  size := 0
  isDir := true

/-- `list_symlink`: every exception is caught. -/
def listSymlink (user : String) (name parent : PathName) :
    Option ListEntry :=
  match d.realpath name with
  | .error _ => none
  | .ok r =>
      let newp := spell r
      match d.lstat newp with
      | .error _ => none
      | .ok o =>
          let dir := (Path.ofName (d.fileSystem h.ftw) newp).dirName
          if !h.contains d newp then none
          else if !h.mayRead user o then none
          else if parent ≠ [] ∧ dir.toOption.getD parent = parent then none
          else if o.isFile then some (listFile newp o)
          else if o.isDir then some (listDirectory newp)
          else none

end Host

end BigDataExpress
