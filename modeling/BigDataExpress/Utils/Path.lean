/-
Path names, and the file system behind them (utils/paths/path.cc).

A path name is a string of characters, any characters: nothing says that
it is normalised, absolute, or names anything. What the operating system
makes of a name is a parameter (`FileSystem`): the object `lstat` finds,
the place `realpath` resolves to, the files `nftw` reports below it and
the bytes that opening it reads. The directories themselves are data
(`Listing`): what `readdir` returns, in the order it returns it.
-/
import Mathlib.Data.List.Basic

namespace BigDataExpress

/-- A path as the program holds it. -/
abbrev PathName := List Char

/-- The name of a directory entry. -/
structure Name where
  chars : PathName
  ne_nil : chars ≠ []
  no_slash : '/' ∉ chars
  not_dot : chars ≠ ['.'] ∧ chars ≠ ['.', '.']
  deriving DecidableEq

@[ext] theorem Name.ext {m n : Name} (h : m.chars = n.chars) : m = n := by
  cases m
  cases n
  cases h
  rfl

/-- A place in the tree, from the root. -/
abbrev Place := List Name

-- ================================================== strings of slashes

/-- Drop leading slashes, but not the last character. -/
def trimFront : PathName → PathName
  | c :: d :: s => if c = '/' then trimFront (d :: s) else c :: d :: s
  | s => s

/-- Drop trailing slashes, but not the last character. -/
def trimBack (s : PathName) : PathName := (trimFront s.reverse).reverse

/-- `utils::join_paths`. -/
def joinPaths (a b : PathName) : PathName :=
  if a = [] then b
  else if b = [] then a
  else
    let a2 := trimBack a
    let b2 := trimBack (trimFront b)
    if b2 = ['/'] then a2
    else if a2 = ['/'] then a2 ++ b2
    else a2 ++ '/' :: b2

/-- basename(3). -/
def baseName (s : PathName) : PathName :=
  if s = [] then ['.']
  else
    let r := s.reverse.dropWhile (· == '/')
    if r = [] then ['/'] else (r.takeWhile (· != '/')).reverse

/-- dirname(3). -/
def dirName (s : PathName) : PathName :=
  let r := (s.reverse.dropWhile (· == '/')).dropWhile (· != '/')
  let d := (r.dropWhile (· == '/')).reverse
  if d ≠ [] then d
  else if s.head? = some '/' then ['/'] else ['.']

/-- A place spelled as an absolute path. -/
def spell : Place → PathName
  | [] => ['/']
  | n :: l => (n :: l).flatMap fun n => '/' :: n.chars

/-- The components of a path name: the strings between slashes that are not
empty. -/
def components (s : PathName) : List PathName :=
  (s.splitOn '/').filter fun c => !c.isEmpty

-- ===================================================== the file system

/-- What `readdir` returns, entry by entry, `.` and `..` left out. A
directory is listed with its own entries, or as `shut` when `opendir`
refuses it; `other` is a link, a device, a socket. -/
inductive Listing where
  | done
  | file (name : Name) (size : UInt64) (rest : Listing)
  | dir (name : Name) (entries : Listing) (rest : Listing)
  | shut (name : Name) (why : String) (rest : Listing)
  | other (name : Name) (size : UInt64) (rest : Listing)

/-- What `lstat` finds under a name. -/
inductive Node where
  | file (size : UInt64)
  | dir (entries : Listing)
  | shut (why : String)
  | other (size : UInt64)
  | missing

/-- How reading a file fails: it cannot be opened, or the stream goes
bad. -/
inductive ReadError where
  | opening
  | bad

/-- The operating system's answers about path names. `nftw` gives the
sizes of the objects it reports as files; it follows links, and `read`
does. A directory that may not be read is no error of nftw(3), which
reports it as one that it did not enter; an error is a name that leads
nowhere, or a walk that breaks off. -/
structure FileSystem where
  lstat : PathName → Node
  realpath : PathName → Except String Place
  nftw : PathName → Except String (List UInt64)
  read : PathName → Except ReadError (List UInt8)

/-- `utils::Path`: a name, and what the operating system said of it. The
last two fields are no members of the class: they record the name a walk
through the tree set out from, and the way from there. -/
structure Path where
  name : PathName
  real : Except String Place
  node : Node
  source : PathName
  below : Place

namespace Path

/-- The path a name denotes. -/
def ofName (fs : FileSystem) (s : PathName) : Path where
  name := s
  real := fs.realpath s
  node := fs.lstat s
  source := s
  below := []

/-- The path of an entry read from a directory. -/
def child (p : Path) (n : Name) (node : Node) : Path where
  name := joinPaths p.name n.chars
  real := p.real.map (· ++ [n])
  node := node
  source := p.source
  below := p.below ++ [n]

def isDirectory (p : Path) : Bool :=
  match p.node with
  | .dir _ => true
  | .shut _ => true
  | _ => false

def isRegularFile (p : Path) : Bool :=
  match p.node with
  | .file _ => true
  | _ => false

def exists? (p : Path) : Bool :=
  match p.node with
  | .missing => false
  | _ => true

/-- The size of a directory is taken to be 0. -/
def size (p : Path) : UInt64 :=
  match p.node with
  | .file s => s
  | .other s => s
  | _ => 0

/-- `canonical_name`: realpath(3), a directory's with a slash after it. -/
def canonicalName (p : Path) : Except String PathName :=
  match p.real with
  | .error e =>
      .error ("realpath(" ++ String.ofList p.name ++ ") error: " ++ e)
  | .ok l => .ok (if p.isDirectory then spell l ++ ['/'] else spell l)

/-- `dir_name`: of the canonical name, with a slash after it. -/
def dirName (p : Path) : Except String PathName :=
  p.canonicalName.map fun s => BigDataExpress.dirName s ++ ['/']

end Path

end BigDataExpress
