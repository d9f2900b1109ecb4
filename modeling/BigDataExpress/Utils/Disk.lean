/-
A host's file system as a tree of objects, and how it answers about path
names.

A name is resolved component by component. A symbolic link on the way is
replaced by its target, at the last component only if it is to be
followed, and at most 40 times. The calls of the program that follow a
last link (`realpath`, `open`, `statvfs`, `chown`) and the one that does
not (`lstat`) differ in nothing else. `mkdir` resolves all components but
the last.

Permission to search a directory is not modelled: the agent runs as root.
-/
import BigDataExpress.Utils.Path

namespace BigDataExpress

/-- The errors of the calls. -/
inductive Errno
  | enoent
  | eexist
  | enotdir
  | eloop
  | other (code : Nat) (text : String)
deriving DecidableEq, Repr

namespace Errno

def code : Errno → Nat
  | enoent => 2
  | eexist => 17
  | enotdir => 20
  | eloop => 40
  | other code _ => code

/-- strerror(3) -/
def text : Errno → String
  | enoent => "No such file or directory"
  | eexist => "File exists"
  | enotdir => "Not a directory"
  | eloop => "Too many levels of symbolic links"
  | other _ text => text

end Errno

/-- Owner and permissions of an object, and how `chown` fails on it. -/
structure Owner where
  uid : Nat := 0
  gid : Nat := 0
  userRead : Bool := true
  groupRead : Bool := true
  otherRead : Bool := true
  chown : Option Errno := none

/-- What an object is. A directory may refuse to be opened, and to take a
new entry. -/
inductive Kind
  | file (size : UInt64) (content : Except ReadError (List UInt8))
  | dir (shut : Option String) (full : Option Errno)
  | link (target : PathName)
  | other (size : UInt64) (content : Except ReadError (List UInt8))

/-- The entries of a directory, in the order of `readdir`; `sub` are the
entries of an entry that is a directory itself. -/
inductive Tree
  | nil
  | entry (name : Name) (owner : Owner) (kind : Kind) (sub rest : Tree)

structure Object where
  owner : Owner
  kind : Kind
  sub : Tree

/-- What statvfs(3) and the quota say: the members of `fs_usage` that are
reported. -/
structure Usage where
  type : String
  quotaLimitType : String
  fragmentSize : Nat
  availableBlocks : Nat
  blocksUsage : Nat
  availableSize : Nat
  sizeUsage : Nat
  availableInodes : Nat
  inodeUsage : Nat
deriving DecidableEq, Repr

-- =============================================================== objects

def Tree.find (c : PathName) : Tree → Option (Name × Object)
  | nil => none
  | entry name owner kind sub rest =>
      if name.chars = c then some (name, ⟨owner, kind, sub⟩) else find c rest

/-- What `readdir` and `lstat` say of the entries. -/
def Tree.listing : Tree → Listing
  | nil => .done
  | entry name _ kind sub rest =>
      match kind with
      | .file size _ => .file name size rest.listing
      | .dir none _ => .dir name sub.listing rest.listing
      | .dir (some why) _ => .shut name why rest.listing
      | .link target => .other name (UInt64.ofNat target.length) rest.listing
      | .other size _ => .other name size rest.listing

namespace Object

def isDir (o : Object) : Bool :=
  match o.kind with
  | .dir _ _ => true
  | _ => false

def isFile (o : Object) : Bool :=
  match o.kind with
  | .file _ _ => true
  | _ => false

def isLink (o : Object) : Bool :=
  match o.kind with
  | .link _ => true
  | _ => false

/-- `st_size`, of a directory 0. -/
def size (o : Object) : UInt64 :=
  match o.kind with
  | .file size _ => size
  | .dir _ _ => 0
  | .link target => UInt64.ofNat target.length
  | .other size _ => size

/-- `readable_by` -/
def readableBy (o : Object) (uid gid : Nat) : Bool :=
  (uid == o.owner.uid && o.owner.userRead)
    || (gid == o.owner.gid && o.owner.groupRead) || o.owner.otherRead

/-- What opening it reads. -/
def content (o : Object) : Except ReadError (List UInt8) :=
  match o.kind with
  | .file _ content => content
  | .other _ content => content
  | _ => .error .bad

def node (o : Object) : Node :=
  match o.kind with
  | .file size _ => .file size
  | .dir none _ => .dir o.sub.listing
  | .dir (some why) _ => .shut why
  | .link target => .other (UInt64.ofNat target.length)
  | .other size _ => .other size

/-- The entry of a directory under a name. -/
def child (o : Object) (c : PathName) : Option (Name × Object) :=
  if o.isDir then o.sub.find c else none

/-- The object at a place below. -/
def at? (o : Object) : Place → Option Object
  | [] => some o
  | n :: l =>
      match o.child n.chars with
      | some (_, o') => o'.at? l
      | none => none

/-- From an object to one below it, by entries that are not links. -/
inductive Reach : Object → Place → Object → Prop
  | refl (o : Object) : Reach o [] o
  | step {o o' o'' : Object} {n : Name} {l : Place} :
      o.child n.chars = some (n, o') → o'.isLink = false → Reach o' l o'' →
      Reach o (n :: l) o''

end Object

def Tree.names : Tree → List Name
  | nil => []
  | entry name _ _ _ rest => name :: rest.names

/-- The entries of a directory have different names. -/
def Tree.Distinct : Tree → Prop
  | nil => True
  | entry name _ _ sub rest =>
      name ∉ rest.names ∧ sub.Distinct ∧ rest.Distinct

structure Disk where
  root : Object
  /-- the working directory of the agent -/
  cwd : Place
  /-- usage of the volume a place is on, as a user sees it -/
  usage : Place → String → Except String Usage
  root_dir : root.isDir = true
  distinct : root.sub.Distinct
  cwd_reach : ∃ o, root.Reach cwd o

namespace Disk

def object (d : Disk) (p : Place) : Option Object := d.root.at? p

-- ============================================================ resolution

/-- The components of a name one after the other, from a directory.
`next` goes on from a directory with the components of a link's target in
front of those that are left. -/
def follow (d : Disk) (last : Bool)
    (next : Place → List PathName → Except Errno Place) :
    Place → List PathName → Except Errno Place
  | cur, [] => .ok cur
  | cur, c :: cs =>
      match d.object cur with
      | none => .error .enoent
      | some o =>
          if o.isDir = false then .error .enotdir
          else if c = ['.'] then follow d last next cur cs
          else if c = ['.', '.'] then follow d last next cur.dropLast cs
          else
            match o.child c with
            | none => .error .enoent
            | some (n, o') =>
                match o'.kind with
                | .link target =>
                    if cs = [] ∧ last = false then .ok (cur ++ [n])
                    else
                      next (if target.head? = some '/' then [] else cur)
                        (components target ++ cs)
                | _ => follow d last next (cur ++ [n]) cs

/-- A number of links may be followed. -/
def resolve (d : Disk) (last : Bool) :
    Nat → Place → List PathName → Except Errno Place
  | 0 => d.follow last fun _ _ => .error .eloop
  | links + 1 => d.follow last (d.resolve last links)

def start (d : Disk) (s : PathName) : Place :=
  if s.head? = some '/' then [] else d.cwd

/-- The place a name stands for. A slash at the end of a name asks for a
directory. -/
def place (d : Disk) (last : Bool) (s : PathName) : Except Errno Place :=
  if s = [] then .error .enoent
  else
    let slash := s.getLast? == some '/'
    match d.resolve (last || slash) 40 (d.start s) (components s) with
    | .error e => .error e
    | .ok p =>
        if slash && !((d.object p).any Object.isDir) then .error .enotdir
        else .ok p

/-- realpath(3) -/
def realpath (d : Disk) (s : PathName) : Except Errno Place := d.place true s

/-- lstat(2) -/
def lstat (d : Disk) (s : PathName) : Except Errno Object :=
  match d.place false s with
  | .error e => .error e
  | .ok p =>
      match d.object p with
      | some o => .ok o
      | none => .error .enoent

/-- chown(2), of an object that is there: the place that is changed. -/
def chown (d : Disk) (s : PathName) : Except Errno Place :=
  match d.realpath s with
  | .error e => .error e
  | .ok p =>
      match d.object p with
      | none => .error .enoent
      | some o =>
          match o.owner.chown with
          | some e => .error e
          | none => .ok p

/-- The answers by name. An object that `lstat` cannot reach for another
reason than that it is not there is of no kind. What nftw(3) reports of a
directory is a function of the disk and the directory's place. -/
def fileSystem (ftw : Disk → Place → Except String (List UInt64)) (d : Disk) :
    FileSystem where
  lstat s :=
    match d.lstat s with
    | .ok o => o.node
    | .error .enoent => .missing
    | .error _ => .other 0
  realpath s :=
    match d.realpath s with
    | .ok p => .ok p
    | .error e => .error e.text
  nftw s :=
    match d.realpath s with
    | .ok p => ftw d p
    | .error e => .error e.text
  read s :=
    match d.realpath s with
    | .ok p =>
        match d.object p with
        | some o => o.content
        | none => .error .opening
    | .error _ => .error .opening

end Disk

end BigDataExpress
