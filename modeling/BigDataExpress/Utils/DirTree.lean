/-
Groups of paths: how a tree is divided into blocks
(utils/paths/dirtree.cc, dirwalker.cc and pathgroups.cc).

Three groupings are in use. `divide` walks a tree and keeps one open
group across all its directories: a directory that fits a block is a
group of its own, the files of a larger one go into the open group one
after the other. `groupBySize` does the same to a flat list of paths.
`partition` spreads the files of a tree over a fixed number of groups.

Sizes are `size_t`, so they wrap.
-/
import BigDataExpress.Utils.Path

namespace BigDataExpress

/-- A sum of sizes. -/
def sumSizes (sizes : List UInt64) : UInt64 :=
  sizes.foldl (fun sum size => sum + size) 0

-- ======================================================== sets of paths

/-- `std::set::insert` into a sorted list, elements ordered and told
apart by a key. -/
def insertBy {α : Type} (key : α → PathName) (a : α) : List α → List α
  | [] => [a]
  | b :: l =>
      if key a < key b then a :: b :: l
      else if key b < key a then b :: insertBy key a l
      else b :: l

/-- Paths are ordered, and told apart, by name. -/
def insertPath (p : Path) (l : List Path) : List Path :=
  insertBy Path.name p l

/-- `utils::PathGroup`. -/
structure PathGroup where
  size : UInt64 := 0
  paths : List Path := []

namespace PathGroup

def count (g : PathGroup) : Nat := g.paths.length

/-- Both forms of `add`, each of which refuses the other's kind of path:
every caller has just tested the kind. A file is added with its own size,
a directory with one that is given. -/
def add (g : PathGroup) (p : Path) (size : UInt64) : PathGroup where
  size := g.size + size
  paths := insertPath p g.paths

end PathGroup

/-- `utils::PathSuperGroup`. -/
structure PathSuperGroup where
  size : UInt64 := 0
  groups : List PathGroup := []
  dirs : List Path := []

namespace PathSuperGroup

def add (s : PathSuperGroup) (g : PathGroup) : PathSuperGroup :=
  { s with size := s.size + g.size, groups := s.groups ++ [g] }

def addDir (s : PathSuperGroup) (p : Path) : PathSuperGroup :=
  { s with dirs := insertPath p s.dirs }

end PathSuperGroup

-- ======================================================== DirectoryTree

/-- `dir_size`: what nftw(3) adds up. -/
def dirSize (fs : FileSystem) (p : Path) : Except String UInt64 :=
  if !p.isDirectory then
    .error ("dir_size(): " ++ String.ofList p.name ++ " is not a directory")
  else match fs.nftw p.name with
    | .error e =>
        .error ("dir_size(" ++ String.ofList p.name ++ ") failed: " ++ e)
    | .ok sizes => .ok (sumSizes sizes)

/-- `DirectoryTree::size`. -/
def treeSize (fs : FileSystem) (p : Path) : Except String UInt64 :=
  if p.isDirectory then dirSize fs p else .ok p.size

/-- The two arguments `divide_helper` changes. -/
structure Dividing where
  super : PathSuperGroup := {}
  group : PathGroup := {}

namespace Dividing

/-- Close the open group. -/
def flush (st : Dividing) : Dividing where
  super := st.super.add st.group
  group := {}

/-- Close the open group if it has contents. -/
def finish (st : Dividing) : Dividing :=
  if 0 < st.group.count then st.flush else st

/-- The open group has no room for a file of this size. A group whose
size is 0 has room for every file. -/
def full (st : Dividing) (maxSize maxFiles size : UInt64) : Bool :=
  decide (0 < st.group.size ∧ 0 < st.group.count ∧
    (maxSize < st.group.size + size ∨
      (maxFiles ≠ 0 ∧ maxFiles.toNat < st.group.count + 1)))

/-- A regular file goes into the open group, or into a new one. The
second test counts the file's size twice. -/
def addFile (maxSize maxFiles : UInt64) (p : Path) (st : Dividing) :
    Dividing :=
  let st := if st.full maxSize maxFiles p.size then st.flush else st
  let st := { st with group := st.group.add p p.size }
  if st.group.size + p.size = maxSize then st.flush else st

/-- A directory that fits is a group of its own. -/
def addWhole (p : Path) (size : UInt64) (st : Dividing) : Dividing :=
  { st with super := st.super.add (({} : PathGroup).add p size) }

def addDir (p : Path) (st : Dividing) : Dividing :=
  { st with super := st.super.addDir p }

end Dividing

/-- The start of `divide_helper` on a directory: it is added whole, or
`loop` goes through its entries. -/
def enter (fs : FileSystem) (maxSize : UInt64) (p : Path)
    (loop : Dividing → Except String Dividing) (st : Dividing) :
    Except String Dividing :=
  match dirSize fs p with
  | .error e => .error e
  | .ok size =>
      if size ≤ maxSize then .ok (st.addWhole p size)
      else loop (st.addDir p)

/-- The error of an `opendir` that fails. -/
def openError (p : Path) (why : String) : String :=
  String.ofList p.name ++ ": " ++ why

/-- The loop of `divide_helper` over the entries of the directory `p`. -/
def divideEntries (fs : FileSystem) (maxSize maxFiles : UInt64) (p : Path) :
    Listing → Dividing → Except String Dividing
  | .done, st => .ok st.finish
  | .file n size rest, st =>
      divideEntries fs maxSize maxFiles p rest
        (st.addFile maxSize maxFiles (p.child n (.file size)))
  | .dir n entries rest, st =>
      let q := p.child n (.dir entries)
      match enter fs maxSize q
          (fun st => divideEntries fs maxSize maxFiles q entries st) st with
      | .error e => .error e
      | .ok st => divideEntries fs maxSize maxFiles p rest st
  | .shut n why rest, st =>
      let q := p.child n (.shut why)
      match enter fs maxSize q (fun _ => .error (openError q why)) st with
      | .error e => .error e
      | .ok st => divideEntries fs maxSize maxFiles p rest st
  | .other _ _ rest, st => divideEntries fs maxSize maxFiles p rest st

/-- What `divide` starts a directory with: its root is in the open
group. -/
def seeded (p : Path) : Dividing where
  super := ({} : PathSuperGroup).addDir p
  group := ({} : PathGroup).add p 0

/-- `DirectoryTree::divide`. -/
def divide (fs : FileSystem) (p : Path) (maxSize maxFiles : UInt64) :
    Except String PathSuperGroup :=
  match p.node with
  | .file size =>
      .ok (({} : PathSuperGroup).add (({} : PathGroup).add p size))
  | .dir entries =>
      (enter fs maxSize p (divideEntries fs maxSize maxFiles p entries)
        (seeded p)).map Dividing.super
  | .shut why =>
      (enter fs maxSize p (fun _ => .error (openError p why))
        (seeded p)).map Dividing.super
  | _ => .ok {}

/-- `PathSuperGroup::flatten`: the regular files in the groups. -/
def PathSuperGroup.flatten (s : PathSuperGroup) : List Path :=
  s.groups.flatMap fun g => g.paths.filter Path.isRegularFile

namespace DirectoryTree

/-- The groups of `utils::partition`, and the size from which on a group
takes no more files. -/
structure Filling where
  groups : List PathGroup
  maxSize : UInt64

/-- The loop over the groups for one file, from the group `gi` on. If no
group takes the file, the limit is raised by the file's size, and `gi` is
set to 0 before the loop counts on: the search goes on with the group
after the first. A loop that ends leaves the file out. -/
def place (maxGroups : Nat) (p : Path) :
    (fuel gi : Nat) → Filling → Option Filling
  | 0, _, _ => none
  | fuel + 1, gi, st =>
      if gi < maxGroups then
        let group := st.groups.getD gi {}
        if group.size < st.maxSize then
          some { st with groups := st.groups.set gi (group.add p p.size) }
        else if gi + 1 = maxGroups then
          place maxGroups p fuel 1
            { st with maxSize := st.maxSize + p.size }
        else place maxGroups p fuel (gi + 1) st
      else some st

/-- The loop over the files. -/
def placeAll (maxGroups fuel : Nat) : List Path → Filling → Option Filling
  | [], st => some st
  | p :: ps, st =>
      (place maxGroups p fuel 0 st).bind (placeAll maxGroups fuel ps)

/-- What `utils::partition` starts with. -/
def start (size : UInt64) (maxGroups : Nat) : Filling where
  groups := List.replicate maxGroups {}
  maxSize := UInt64.ofNat
    (size.toNat / maxGroups + size.toNat % maxGroups)

/-- `utils::partition`. -/
def partition (fs : FileSystem) (dir : Path) (maxGroups fuel : Nat) :
    Except String (Option (List PathGroup)) := do
  if maxGroups = 0 then
    throw "max_groups cannot be <= 0 (max_groups=0)"
  let paths := (← divide fs dir 0 0).flatten
  let size ← treeSize fs dir
  pure ((placeAll maxGroups fuel paths (start size maxGroups)).map
    Filling.groups)

end DirectoryTree

-- ====================================================== DirectoryWalker

/-- `DirectoryWalker::recurse`, recursing: a directory that cannot be
opened is listed and passed over. -/
def walkEntries (p : Path) : Listing → List Path
  | .done => []
  | .file n size rest => p.child n (.file size) :: walkEntries p rest
  | .dir n entries rest =>
      let q := p.child n (.dir entries)
      q :: walkEntries q entries ++ walkEntries p rest
  | .shut n why rest => p.child n (.shut why) :: walkEntries p rest
  | .other n size rest => p.child n (.other size) :: walkEntries p rest

/-- The paths a `DirectoryWalker` holds. -/
def walk (p : Path) : List Path :=
  match p.node with
  | .dir entries => walkEntries p entries
  | _ => []

/-- `size()` of a walker. -/
def walkSize (paths : List Path) : UInt64 :=
  sumSizes ((paths.filter Path.isRegularFile).map Path.size)

/-- `std::sort` by size, the largest first: in which order it leaves
paths of one size is not said. -/
structure SortBySize where
  sort : List Path → List Path
  perm : ∀ l, (sort l).Perm l
  sorted : ∀ l, (sort l).Pairwise fun p q => q.size ≤ p.size

/-- The group size `partition` settles on: the first sum of leading sizes
that reaches the even share, if one of the leading `n` does. -/
def adjustSize (share : UInt64) : Nat → List Path → UInt64 → UInt64
  | n + 1, p :: l, sum =>
      let sum := sum + p.size
      if share ≤ sum then sum else adjustSize share n l sum
  | _, _, _ => share

/-- Put a file into the first group that is below the size, if any. -/
def placeFile (size : UInt64) (p : Path) : List PathGroup → List PathGroup
  | [] => []
  | g :: gs =>
      if g.size < size then g.add p p.size :: gs
      else g :: placeFile size p gs

/-- `DirectoryWalker::partition(max_groups)`. -/
def partition (s : SortBySize) (paths : List Path) (maxGroups : Nat) :
    Except String (List PathGroup) :=
  if maxGroups = 0 then .error "max_groups cannot be 0"
  else
    let sorted := s.sort paths
    let size := adjustSize
      (UInt64.ofNat ((walkSize paths).toNat / maxGroups))
      (sorted.length / maxGroups) sorted 0
    .ok ((sorted.filter Path.isRegularFile).foldl
      (fun gs p => placeFile size p gs) (List.replicate maxGroups {}))

-- ===================================================== PathGroupsHelper

/-- `add_sub_path`: a file, or a directory with everything below it. -/
def subPaths (p : Path) : Except String (List Path) :=
  if !p.exists? then .error (String.ofList p.name ++ " not found")
  else if p.isRegularFile then .ok [p]
  else if p.isDirectory then .ok (p :: walk p)
  else .ok []

/-- The groups so far, and the open one with its size. -/
structure Grouping where
  result : List (List Path) := []
  current : List Path := []
  size : UInt64 := 0

namespace Grouping

/-- Close the open group. -/
def close (s : Grouping) : Grouping where
  result := s.result ++ [s.current]

/-- One turn of the loop of `group_by_size`. -/
def step (maxSize maxFiles : UInt64) (s : Grouping) (p : Path) :
    Grouping :=
  if !(p.isRegularFile || p.isDirectory) then s
  else if maxSize < p.size then
    { s with result := s.result ++ [[p]] }
  else if p.size + s.size ≤ maxSize then
    let s := { s with current := s.current ++ [p], size := s.size + p.size }
    if maxSize ≤ s.size ∨
        (0 < maxFiles ∧ maxFiles.toNat ≤ s.current.length) then s.close
    else s
  else
    { s.close with current := [p], size := p.size }

end Grouping

/-- `PathGroupsHelper::group_by_size`. -/
def groupBySize (paths : List Path) (maxSize maxFiles : UInt64) :
    List (List Path) :=
  let s := paths.foldl (Grouping.step maxSize maxFiles) {}
  if s.current.isEmpty then s.result else s.result ++ [s.current]

/-- `find_total_size`. -/
def findTotalSize (paths : List Path) : UInt64 :=
  sumSizes ((paths.filter fun p => p.exists? && p.isRegularFile).map
    Path.size)

/-- The inner loop of `group_into`: each group in turn gets the last of
the paths that are left. -/
def dealRound : List (List Path) → List Path → List (List Path) × List Path
  | [], last => ([], last)
  | g :: gs, last =>
      match last.getLast? with
      | none => (g :: gs, last)
      | some f =>
          let (gs', rest) := dealRound gs last.dropLast
          ((g ++ [f]) :: gs', rest)

theorem length_dealRound (gs : List (List Path)) (last : List Path) :
    (dealRound gs last).2.length ≤ last.length := by
  induction gs generalizing last with
  | nil => exact Nat.le_refl _
  | cons g gs ih =>
      unfold dealRound
      cases h : last.getLast? with
      | none => exact Nat.le_refl _
      | some f => exact Nat.le_trans (ih _) (by simp)

/-- The loop around it, which goes on for ever when there is no group to
deal to: `none`. -/
def deal (groups : List (List Path)) (last : List Path) :
    Option (List (List Path)) :=
  match last, groups with
  | [], _ => some groups
  | _ :: _, [] => none
  | f :: fs, g :: gs =>
      let r := dealRound (g :: gs) (f :: fs)
      deal r.1 r.2
termination_by last.length
decreasing_by
  unfold dealRound
  have hlast : (f :: fs).getLast? = some ((f :: fs).getLast (by simp)) :=
    List.getLast?_eq_getLast_of_ne_nil _
  rw [hlast]
  have hle := length_dealRound gs (f :: fs).dropLast
  simp only [List.length_dropLast, List.length_cons] at hle ⊢
  omega

/-- The loop over the groups that are too many, each dealt to those
before it. -/
def redistribute : Nat → List (List Path) → Option (List (List Path))
  | 0, groups => some groups
  | n + 1, groups =>
      match groups.getLast? with
      | none => none
      | some last =>
          (deal groups.dropLast last).bind fun groups =>
            redistribute n groups

/-- `PathGroupsHelper::group_into`; `none` where it does not return. -/
def groupInto (paths : List Path) (numGroups : UInt64) :
    Except String (Option (List (List Path))) :=
  if numGroups = 0 then .error "groups should be greater than 0"
  else
    let groups := groupBySize paths (findTotalSize paths / numGroups) 0
    .ok (redistribute (groups.length - numGroups.toNat) groups)

end BigDataExpress
