/-
The checksum of a directory does not depend on how it was computed.

`partition` may leave files out: a group takes a file only while it is
below the size. It never takes one twice, so what the groups hold is a
sub-multiset of the files found by the walk, and the final count of
checksums makes it all of them. The checksums are sorted before they are
digested, so neither the groups nor the tasks show in the result
(`parallel_eq_sequential`).
-/
import BigDataExpress.Utils.Checksum
import Mathlib.Data.List.Perm.Subperm

namespace BigDataExpress

open Stateful

-- ======================================================== sorted sets

theorem mem_insertBy {α : Type} {key : α → PathName} {a b : α}
    {l : List α} (h : b ∈ insertBy key a l) : b = a ∨ b ∈ l := by
  induction l with
  | nil => exact .inl (List.mem_singleton.mp h)
  | cons c l ih =>
      unfold insertBy at h
      split at h
      · exact List.mem_cons.mp h
      · split at h
        · rcases List.mem_cons.mp h with rfl | h
          · exact .inr (List.mem_cons_self ..)
          · exact (ih h).imp_right (List.mem_cons_of_mem c)
        · exact .inr h

theorem subset_insertBy {α : Type} (key : α → PathName) (a : α)
    (l : List α) : l ⊆ insertBy key a l := by
  induction l with
  | nil => exact List.nil_subset _
  | cons c l ih =>
      unfold insertBy
      split
      · exact List.subset_cons_self a (c :: l)
      · split
        · exact List.cons_subset_cons c ih
        · exact List.Subset.refl _

/-- After an insertion the key is there. -/
theorem key_mem_insertBy {α : Type} (key : α → PathName) (a : α)
    (l : List α) : ∃ b ∈ insertBy key a l, key b = key a := by
  induction l with
  | nil => exact ⟨a, List.mem_singleton_self a, rfl⟩
  | cons c l ih =>
      unfold insertBy
      split
      · exact ⟨a, List.mem_cons_self .., rfl⟩
      · rename_i hac
        split
        · obtain ⟨b, hb, hkey⟩ := ih
          exact ⟨b, List.mem_cons_of_mem c hb, hkey⟩
        · rename_i hca
          exact ⟨c, List.mem_cons_self .., List.le_antisymm hac hca⟩

-- ================================================== what partition keeps

theorem insertBy_subperm {α : Type} (key : α → PathName) (a : α)
    (l : List α) : (insertBy key a l).Subperm (a :: l) := by
  induction l with
  | nil => exact List.Subperm.refl _
  | cons b l ih =>
      unfold insertBy
      split
      · exact List.Subperm.refl _
      · split
        · exact ((List.subperm_cons b).mpr ih).trans
            (List.Perm.swap a b l).subperm
        · exact (List.sublist_cons_self a (b :: l)).subperm

theorem placeFile_subperm (size : UInt64) (p : Path)
    (gs : List PathGroup) :
    ((placeFile size p gs).flatMap PathGroup.paths).Subperm
      (p :: gs.flatMap PathGroup.paths) := by
  induction gs with
  | nil => exact List.nil_subperm
  | cons g gs ih =>
      unfold placeFile
      split
      · show (insertPath p g.paths ++ gs.flatMap PathGroup.paths).Subperm
          (p :: g.paths ++ gs.flatMap PathGroup.paths)
        apply (List.subperm_append_right (gs.flatMap PathGroup.paths)).mpr
        exact insertBy_subperm Path.name p g.paths
      · show (g.paths ++ (placeFile size p gs).flatMap _).Subperm
          (p :: (g.paths ++ gs.flatMap PathGroup.paths))
        refine ((List.subperm_append_left g.paths).mpr ih).trans ?_
        exact List.perm_middle.subperm

/-- Files placed one after the other: no path is there more often than
in the groups at the start and in the files together. -/
theorem placeFiles_subperm (size : UInt64) (files : List Path)
    (gs : List PathGroup) :
    ((files.foldl (fun gs p => placeFile size p gs) gs).flatMap
      PathGroup.paths).Subperm (files ++ gs.flatMap PathGroup.paths) := by
  induction files generalizing gs with
  | nil => exact List.Subperm.refl _
  | cons p files ih =>
      refine (ih (placeFile size p gs)).trans ?_
      refine ((List.subperm_append_left files).mpr
        (placeFile_subperm size p gs)).trans ?_
      exact List.perm_middle.subperm

/-- The groups of a partition hold files of the walk, none twice. -/
theorem partition_subperm {s : SortBySize} {paths : List Path} {n : Nat}
    {gs : List PathGroup} (h : partition s paths n = .ok gs) :
    (gs.flatMap PathGroup.paths).Subperm
      (paths.filter Path.isRegularFile) := by
  unfold partition at h
  split at h
  · cases h
  · injection h with h
    subst h
    refine (placeFiles_subperm _ _ _).trans ?_
    have hempty : (List.replicate n ({} : PathGroup)).flatMap
        PathGroup.paths = [] := by
      rw [List.flatMap_eq_nil_iff]
      intro g hg
      rw [List.eq_of_mem_replicate hg]
    rw [hempty, List.append_nil]
    exact ((s.perm paths).filter _).subperm

/-- One way to sort by size: paths of one size stay in their order. -/
def SortBySize.stable : SortBySize where
  sort l := l.insertionSort fun p q => q.size ≤ p.size
  perm l := List.perm_insertionSort _ l
  sorted l := by
    have : Std.Total (fun p q : Path => q.size ≤ p.size) :=
      ⟨fun p q => UInt64.le_total q.size p.size⟩
    have : IsTrans Path (fun p q : Path => q.size ≤ p.size) :=
      ⟨fun p q r h1 h2 => UInt64.le_trans h2 h1⟩
    exact List.pairwise_insertionSort _ l

-- ================================================ checksums of the files

namespace Hashing

variable (h : Hashing) (md : Digest)

/-- The checksum of a file that can be read. -/
def sumOf (p : Path) : String := (h.checksum p.name (some md)).toOption.getD ""

/-- A group's checksums are those of its files, one by one, and each of
them could be read. -/
theorem checksumGroup_ok {paths : List Path} {sums : List String}
    (hs : h.checksumGroup md paths = .ok sums) :
    sums = (paths.filter Path.isRegularFile).map (h.sumOf md)
      ∧ ∀ p ∈ paths.filter Path.isRegularFile,
          h.checksum p.name (some md) = .ok (h.sumOf md p) := by
  unfold checksumGroup at hs
  generalize paths.filter Path.isRegularFile = files at hs ⊢
  induction files generalizing sums with
  | nil =>
      injection hs with hs
      subst hs
      exact ⟨rfl, fun p hp => absurd hp List.not_mem_nil⟩
  | cons p files ih =>
      rw [List.mapM_cons] at hs
      cases hp : h.checksum p.name (some md) with
      | error e => rw [hp] at hs; cases hs
      | ok c =>
          cases hr : files.mapM fun p => h.checksum p.name (some md) with
          | error e => rw [hp, hr] at hs; cases hs
          | ok rest =>
              rw [hp, hr] at hs
              injection hs with hs
              obtain ⟨hrest, hall⟩ := ih hr
              have hc : h.sumOf md p = c := by
                unfold sumOf
                rw [hp]
                rfl
              constructor
              · rw [← hs, List.map_cons, hc, ← hrest]
              · intro q hq
                rcases List.mem_cons.mp hq with rfl | hq
                · rw [hp, hc]
                · exact hall q hq

theorem checksumGroup_eq {paths : List Path}
    (hr : ∀ p ∈ paths.filter Path.isRegularFile,
      h.checksum p.name (some md) = .ok (h.sumOf md p)) :
    h.checksumGroup md paths
      = .ok ((paths.filter Path.isRegularFile).map (h.sumOf md)) := by
  unfold checksumGroup
  generalize paths.filter Path.isRegularFile = files at hr ⊢
  induction files with
  | nil => rfl
  | cons p files ih =>
      have hp := hr p (List.mem_cons_self ..)
      have hrest := ih fun q hq => hr q (List.mem_cons_of_mem _ hq)
      rw [List.mapM_cons, hp, hrest]
      rfl

-- ============================================================ the tasks

theorem wp_lift {α : Type} {x : Except String α} {Q : α → TaskCounter → Prop}
    {t : TaskCounter} :
    wp (Tasked.lift x) Q (fun _ => True) t ↔ ∀ a, x = .ok a → Q a t := by
  cases x with
  | error e =>
      constructor
      · intro _ a ha
        cases ha
      · exact fun _ => trivial
  | ok a =>
      constructor
      · intro hQ b hb
        injection hb with hb
        exact hb ▸ hQ
      · exact fun hQ => hQ a rfl

/-- The groups with tasks and the remainders are the groups that have
files. -/
theorem launchGroups_perm (n : Nat) (gs : List PathGroup)
    (t : TaskCounter) :
    wp (h.launchGroups n gs)
      (fun r _ => ((r.1 ++ r.2).flatMap PathGroup.paths).Perm
        (gs.flatMap PathGroup.paths)) (fun _ => True) t := by
  induction gs generalizing t with
  | nil => exact List.Perm.refl _
  | cons g gs ih =>
      unfold launchGroups
      split
      · rename_i hg
        have hnil : g.paths = [] := List.length_eq_zero_iff.mp hg
        refine (ih t).mono ?_ fun _ _ => trivial
        intro r _ hr
        rw [List.flatMap_cons, hnil]
        exact hr
      · simp only [running, wp_bind, wp_get, wp_set, wp_pure]
        split
        · simp only [TaskCounter.increment, wp_bind, wp_modify]
          refine (ih _).mono ?_ fun _ _ => trivial
          intro r _ hr
          exact hr.append_left g.paths
        · simp only [wp_bind]
          refine (ih _).mono ?_ fun _ _ => trivial
          intro r _ hr
          show ((r.1 ++ g :: r.2).flatMap PathGroup.paths).Perm _
          refine (List.perm_middle.flatMap_right PathGroup.paths).trans ?_
          exact hr.append_left g.paths

/-- The checksums of groups, in whatever way they are computed. -/
def GroupSums (gs : List PathGroup) (sums : List String) : Prop :=
  sums = ((gs.flatMap PathGroup.paths).filter Path.isRegularFile).map
      (h.sumOf md)
    ∧ ∀ p ∈ (gs.flatMap PathGroup.paths).filter Path.isRegularFile,
        h.checksum p.name (some md) = .ok (h.sumOf md p)

theorem GroupSums.cons {g : PathGroup} {gs : List PathGroup}
    {sums rest : List String} (hg : h.checksumGroup md g.paths = .ok sums)
    (hgs : h.GroupSums md gs rest) :
    h.GroupSums md (g :: gs) (sums ++ rest) := by
  obtain ⟨h1, h2⟩ := h.checksumGroup_ok md hg
  obtain ⟨h3, h4⟩ := hgs
  unfold GroupSums
  rw [List.flatMap_cons, List.filter_append, List.map_append, ← h1, ← h3]
  refine ⟨rfl, ?_⟩
  intro p hp
  rcases List.mem_append.mp hp with hp | hp
  · exact h2 p hp
  · exact h4 p hp

theorem checksumRemainders_sums (gs : List PathGroup) (t : TaskCounter) :
    wp (h.checksumRemainders md gs) (fun sums _ => h.GroupSums md gs sums)
      (fun _ => True) t := by
  induction gs generalizing t with
  | nil => exact ⟨rfl, fun p hp => absurd hp List.not_mem_nil⟩
  | cons g gs ih =>
      unfold checksumRemainders
      rw [wp_bind, wp_lift]
      intro sums hg
      rw [wp_bind]
      refine (ih t).mono ?_ fun _ _ => trivial
      intro rest _ hgs
      exact hgs.cons h md hg

theorem collectTasks_sums (gs : List PathGroup) (t : TaskCounter) :
    wp (h.collectTasks md gs) (fun sums _ => h.GroupSums md gs sums)
      (fun _ => True) t := by
  induction gs generalizing t with
  | nil => exact ⟨rfl, fun p hp => absurd hp List.not_mem_nil⟩
  | cons g gs ih =>
      unfold collectTasks
      rw [wp_bind, wp_lift]
      intro sums hg
      simp only [TaskCounter.decrement, wp_bind, wp_modify]
      refine (ih _).mono ?_ fun _ _ => trivial
      intro rest _ hgs
      exact hgs.cons h md hg

-- ========================================================= the directory

/-- Checksums that differ in their order only have one digest. -/
theorem checksumOfChecksums_perm {xs ys : List String} (hp : xs.Perm ys) :
    checksumOfChecksums md xs = checksumOfChecksums md ys := by
  unfold checksumOfChecksums
  have hsort : xs.insertionSort (· ≤ ·) = ys.insertionSort (· ≤ ·) := by
    apply List.Perm.eq_of_pairwise
      (fun a b _ _ hab hba => String.le_antisymm hab hba)
    · exact List.pairwise_insertionSort (· ≤ ·) xs
    · exact List.pairwise_insertionSort (· ≤ ·) ys
    · exact (List.perm_insertionSort _ xs).trans
        (hp.trans (List.perm_insertionSort _ ys).symm)
  rw [hsort]

/-- A checksum the parallel computation returns is the one a sequential
walk gives. -/
theorem parallel_eq_sequential (p : Path) (n : Nat) (t : TaskCounter) :
    wp (h.parallelDirectoryChecksum p md n)
      (fun sum _ => h.sequentialDirectoryChecksum p md = .ok sum)
      (fun _ => True) t := by
  unfold parallelDirectoryChecksum
  rw [wp_bind, wp_lift]
  intro gs hgs
  have hsub := partition_subperm hgs
  rw [wp_bind]
  refine (h.launchGroups_perm n gs t).mono ?_ fun _ _ => trivial
  intro r t1 hr
  rw [wp_bind]
  refine (h.checksumRemainders_sums md r.2 t1).mono ?_ fun _ _ => trivial
  intro sums t2 hsums
  rw [wp_bind]
  refine (h.collectTasks_sums md r.1 t2).mono ?_ fun _ _ => trivial
  intro more t3 hmore
  dsimp only
  split
  · exact trivial
  · rename_i hlen
    have hlen := not_not.mp hlen
    obtain ⟨hs1, hs2⟩ := hsums
    obtain ⟨hm1, hm2⟩ := hmore
    -- what the groups hold is all of the files
    have hall : ((r.1.flatMap PathGroup.paths).filter Path.isRegularFile
        ++ (r.2.flatMap PathGroup.paths).filter Path.isRegularFile).Perm
        ((walk p).filter Path.isRegularFile) := by
      rw [← List.filter_append, ← List.flatMap_append]
      apply List.Subperm.perm_of_length_le
      · refine ((hr.filter _).subperm).trans ?_
        refine (hsub.filter _).trans ?_
        rw [List.filter_filter]
        simp only [Bool.and_self]
        exact List.Subperm.refl _
      · rw [hlen, hs1, hm1, List.flatMap_append, List.filter_append]
        simp only [List.length_append, List.length_map]
        omega
    have hread : ∀ q ∈ (walk p).filter Path.isRegularFile,
        h.checksum q.name (some md) = .ok (h.sumOf md q) := by
      intro q hq
      rcases List.mem_append.mp (hall.mem_iff.mpr hq) with hq | hq
      · exact hm2 q hq
      · exact hs2 q hq
    show h.sequentialDirectoryChecksum p md = _
    unfold sequentialDirectoryChecksum
    rw [h.checksumGroup_eq md hread]
    show Except.ok _ = Except.ok _
    congr 1
    apply checksumOfChecksums_perm
    rw [hs1, hm1]
    refine ((hall.map (h.sumOf md)).symm).trans ?_
    rw [List.map_append]
    exact List.perm_append_comm

end Hashing

end BigDataExpress
