/-
How often is a mount point in the set?

A mount point is less than another if its source or its target is. That is
the negation of the other being at most equal to it in both
(`lt_eq_notGe`), so of two mount points with sources and targets in
opposite orders each is less than the other, and the comparison is a
strict weak order on the mount points of a table only if there are no two
such. What the set then holds is what the library says of such
comparisons: no pair is ever lost, but a pair that is mounted twice may be
there twice.
-/
import BigDataExpress.Utils.Mounts
import Mathlib.Order.Lattice

namespace BigDataExpress

open RbSet (Tree)
open RbSet.Tree (notGe build StrictWeakOn Hides)

namespace MountPoint

/-- At most equal in both. -/
instance : PartialOrder MountPoint :=
  PartialOrder.lift (fun m => (m.source, m.target)) fun x y h => by
    injection h with hs ht
    exact MountPoint.ext hs ht

theorem le_iff {x y : MountPoint} :
    x ≤ y ↔ x.source ≤ y.source ∧ x.target ≤ y.target := Iff.rfl

instance : DecidableLE MountPoint := fun _ _ => decidable_of_iff' _ le_iff

theorem lt_eq_notGe : MountPoint.lt = notGe := by
  funext x y
  unfold MountPoint.lt notGe
  rw [decide_eq_decide, le_iff, not_and_or, not_le, not_le]

end MountPoint

namespace MountPointsHelper

-- ================================================================ visits

/-- The mount points below an entry, in the order of the recursion. -/
def points : Children → List MountPoint
  | .none => []
  | .entry fs below next => .ofEntry fs :: (points below ++ points next)

/-- The mount points that are inserted. -/
def visited (table : MountTable) (rootPath : PathName) (scan : Bool) :
    List MountPoint :=
  match table.findTarget rootPath with
  | some (entry, below) =>
      .ofEntry entry :: if scan then points below else []
  | none => if scan then points table.orphans else []

/-- A set after insertions in this order. -/
def inserted (l : List MountPoint) : MountPoints :=
  l.foldl (fun points p => Tree.emplace MountPoint.lt p points) .nil

theorem recurse_eq (c : Children) (t : MountPoints) :
    recurse c t
      = (points c).foldl (fun t p => Tree.emplace MountPoint.lt p t) t := by
  induction c generalizing t with
  | none => rfl
  | entry fs below next ihb ihn =>
      unfold recurse points
      rw [ihb, ihn, List.foldl_cons, List.foldl_append]
      rfl

/-- A helper inserts the entries one after the other. -/
theorem init_eq (table : MountTable) (rootPath : PathName) (scan : Bool) :
    init table rootPath scan = inserted (visited table rootPath scan) := by
  unfold init visited inserted
  cases table.findTarget rootPath with
  | none =>
      cases scan with
      | false => rfl
      | true => exact recurse_eq table.orphans .nil
  | some found =>
      cases scan with
      | false => rfl
      | true => exact recurse_eq found.2 _

theorem inserted_eq (l : List MountPoint) : inserted l = build l := by
  unfold inserted build
  rw [MountPoint.lt_eq_notGe]

/-- No mount point is lost. -/
theorem mem_init (table : MountTable) (rootPath : PathName) (scan : Bool)
    (p : MountPoint) :
    p ∈ (init table rootPath scan).toList
      ↔ p ∈ visited table rootPath scan := by
  rw [init_eq, inserted_eq, RbSet.Tree.mem_build]

-- ================================================================== once

/-- The set has every mount point once, and would have in any order of
insertion. -/
def KeptOnce (table : MountTable) (rootPath : PathName) (scan : Bool) : Prop :=
  (∀ p ∈ visited table rootPath scan,
      (init table rootPath scan).toList.count p = 1)
    ∧ ∀ l, l.Perm (visited table rootPath scan) →
      ∀ p ∈ visited table rootPath scan, (inserted l).toList.count p = 1

theorem keptOnce_iff (table : MountTable) (rootPath : PathName) (scan : Bool) :
    KeptOnce table rootPath scan
      ↔ ∀ e x z, ¬ Hides (visited table rootPath scan) e x z := by
  unfold KeptOnce
  simp only [init_eq, inserted_eq]
  rw [← RbSet.Tree.exactly_once_iff]
  constructor
  · intro h
    exact h.2
  · intro h
    exact ⟨h _ (List.Perm.refl _), h⟩

/-- The comparison is fit for a set if any two mount points have sources
and targets in the same order, and every mount point is kept once if none
is hidden. -/
theorem mounts_once_iff (table : MountTable) (rootPath : PathName)
    (scan : Bool) :
    (StrictWeakOn MountPoint.lt (visited table rootPath scan)
        ↔ ∀ x ∈ visited table rootPath scan,
          ∀ y ∈ visited table rootPath scan, x ≤ y ∨ y ≤ x)
      ∧ (KeptOnce table rootPath scan
        ↔ ∀ e x z, ¬ Hides (visited table rootPath scan) e x z) := by
  rw [MountPoint.lt_eq_notGe]
  exact ⟨RbSet.Tree.strictWeakOn_iff _, keptOnce_iff table rootPath scan⟩

def entryOf (source target : String) : LibmntFs where
  srcpath := some source.toList
  target := some target.toList

/-- A disk, with two images mounted in it, that is then mounted over
itself. -/
def overmounted : MountTable where
  findTarget _ := some (entryOf "/dev/sda" "/data",
    .entry (entryOf "/dev/loop0" "/data/x") .none
      (.entry (entryOf "/dev/loop1" "/data/y") .none
        (.entry (entryOf "/dev/sda" "/data") .none .none)))
  orphans := .none

theorem overmounted_twice :
    (init overmounted "/data".toList true).toList.count
      (.ofEntry (entryOf "/dev/sda" "/data")) = 2 := by
  decide +kernel

/-- The disk and an image are less than each other, and the disk is in the
set twice. -/
theorem mounts_not_once :
    (¬ ∀ l : List MountPoint, StrictWeakOn MountPoint.lt l)
      ∧ ¬ ∀ (table : MountTable) (rootPath : PathName) (scan : Bool),
        KeptOnce table rootPath scan := by
  refine ⟨?_, ?_⟩
  · intro h
    have hweak := h [.ofEntry (entryOf "/dev/sda" "/data"),
      .ofEntry (entryOf "/dev/loop0" "/data/x")]
    have hlt := hweak.asymm _ (List.mem_cons_self ..) _
      (List.mem_cons_of_mem _ (List.mem_cons_self ..)) (by decide +kernel)
    exact absurd hlt (by decide +kernel)
  · intro h
    have hone := (h overmounted "/data".toList true).1
      (.ofEntry (entryOf "/dev/sda" "/data")) (List.mem_cons_self ..)
    rw [overmounted_twice] at hone
    cases hone

end MountPointsHelper

end BigDataExpress
