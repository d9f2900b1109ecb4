/-
Mounted file systems (utils/mounts.cc).

A helper has the mount points of a path in an ordered set: the one found
for the path itself, and, if it is to scan, all those mounted below it. In
the set a mount point is a source and a target; its other members are not
looked at.

The table of mounts is libmount's: what it finds for a target, and the
children of an entry, in its order. Children are a tree. A table that
cannot be read is left out.
-/
import BigDataExpress.Lib.RbSet
import BigDataExpress.Utils.Path
import Mathlib.Data.Char
import Mathlib.Data.List.Lex
import Mathlib.Order.Basic

namespace BigDataExpress

/-- `libmnt_fs`: the members in use, which may be null. -/
structure LibmntFs where
  srcpath : Option PathName
  target : Option PathName
deriving DecidableEq, Repr

/-- `utils::MountPoint` -/
@[ext]
structure MountPoint where
  source : PathName
  target : PathName
deriving DecidableEq, Repr

namespace MountPoint

def ofEntry (entry : LibmntFs) : MountPoint where
  source := entry.srcpath.getD "<nil>".toList
  target := entry.target.getD "<nil>".toList

/-- `operator<` -/
def lt (x y : MountPoint) : Bool :=
  decide (x.source < y.source ∨ x.target < y.target)

end MountPoint

/-- The entries below an entry: an entry, those below it, and the entries
that follow it. -/
inductive Children
  | none
  | entry (fs : LibmntFs) (below next : Children)

/-- `libmnt_table`. The path of an entry that was not found has children
too, if the library says so. -/
structure MountTable where
  findTarget : PathName → Option (LibmntFs × Children)
  orphans : Children

namespace MountPointsHelper

/-- `std::set<MountPoint>` -/
abbrev MountPoints : Type := RbSet.Tree MountPoint

def emplace (points : MountPoints) (entry : LibmntFs) : MountPoints :=
  RbSet.Tree.emplace MountPoint.lt (.ofEntry entry) points

/-- `MountPointsHelper::recurse` -/
def recurse : Children → MountPoints → MountPoints
  | .none, points => points
  | .entry fs below next, points =>
      recurse next (recurse below (emplace points fs))

/-- `MountPointsHelper::init`, and so the set of a new helper. -/
def init (table : MountTable) (rootPath : PathName) (scan : Bool) :
    MountPoints :=
  match table.findTarget rootPath with
  | some (entry, below) =>
      let points := emplace .nil entry
      if scan then recurse below points else points
  | none => if scan then recurse table.orphans .nil else .nil

end MountPointsHelper

end BigDataExpress
