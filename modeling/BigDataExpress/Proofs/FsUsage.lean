/-
Do the figures of a usage wrap?

What is available of a quota is its soft limit less what is in use, and
nothing stops the use from being more: a soft limit may be exceeded for a
while, which is what it is for. The difference of two 64-bit numbers is no
more than the first exactly if the second is not (`sub_le_iff`), so over
the limit the figures wrap, and the space reported is close to 2^64 bytes
(`availableSize_exceeded`). The limit in bytes is a product and may wrap
as well. A volume's figures wrap only if its size has more than 64 bits.

Which record a figure is from is told by two lemmas for blocks and two for
inodes (`blocks_of_quota`, `blocks_of_volume`, `inodes_of_quota`,
`inodes_of_volume`); `usage_sound_iff` puts them together.
-/
import BigDataExpress.Utils.FsUsage
import Mathlib.Algebra.Ring.Nat

namespace BigDataExpress

open Volumes (getFsUsage usageOf qifDqblksize quotaFigures fillIn
  getGenericQuotaUsage)

-- =========================================================== differences

theorem sub_le_iff (a b : UInt64) : a - b ≤ a ↔ b ≤ a := by
  have ha := a.toNat_lt
  have hb := b.toNat_lt
  rw [UInt64.le_iff_toNat_le, UInt64.le_iff_toNat_le, UInt64.toNat_sub]
  omega

/-- What a difference that wraps comes to. -/
theorem toNat_sub_of_lt {a b : UInt64} (h : a < b) :
    (a - b).toNat + (b.toNat - a.toNat) = 2 ^ 64 := by
  have ha := a.toNat_lt
  have hb := b.toNat_lt
  rw [UInt64.lt_iff_toNat_lt] at h
  rw [UInt64.toNat_sub]
  omega

/-- A limit in blocks that holds in bytes, cut to 64 bits, holds. -/
theorem usedBlocks_le {limit used : UInt64} (h : used ≤ limit * qifDqblksize) :
    used / qifDqblksize ≤ limit := by
  rw [UInt64.le_iff_toNat_le, UInt64.toNat_mul] at h
  rw [UInt64.le_iff_toNat_le, UInt64.toNat_div]
  have hsize : qifDqblksize.toNat = 1024 := rfl
  rw [hsize] at h ⊢
  have hmod := Nat.mod_le (limit.toNat * 1024) (2 ^ 64)
  omega

-- ================================================= where figures are from

/-- The figures of the blocks. -/
def FsUsage.blockFigures (u : FsUsage) :=
  (u.blockSize, u.fragmentSize, u.totalBlocks, u.freeBlocks,
    u.availableBlocks, u.blocksUsage, u.totalSize, u.freeSize,
    u.availableSize, u.sizeUsage)

/-- The figures of the inodes. -/
def FsUsage.inodeFigures (u : FsUsage) :=
  (u.totalInodes, u.freeInodes, u.availableInodes, u.inodeUsage)

variable {v : Volumes} {path device : PathName} {uid : Nat} {dqb : Dqblk}
  {u : FsUsage}

theorem getFsUsage_ok {fs : FsUsage} (h : v.getFsUsage path = .ok fs) :
    ∃ st, v.statvfs path = .ok st ∧ fs = usageOf st := by
  unfold getFsUsage at h
  cases hst : v.statvfs path with
  | error e =>
      rw [hst] at h
      cases h
  | ok st =>
      rw [hst] at h
      injection h with h
      exact ⟨st, rfl, h.symm⟩

/-- What a usage is made of: the quota's figures, and if there is no limit
on one of the two the volume's. -/
theorem getGenericQuotaUsage_ok (hq : v.getQuota device uid = .ok dqb)
    (hu : v.getGenericQuotaUsage path device uid = .ok u) :
    (dqb.bsoftlimit ≠ 0 ∧ dqb.isoftlimit ≠ 0 ∧ u = quotaFigures dqb)
      ∨ ((dqb.bsoftlimit = 0 ∨ dqb.isoftlimit = 0)
        ∧ ∃ st, v.statvfs path = .ok st
          ∧ u = fillIn dqb (usageOf st) (quotaFigures dqb)) := by
  unfold getGenericQuotaUsage at hu
  rw [hq] at hu
  dsimp only at hu
  by_cases hzero : dqb.bsoftlimit = 0 ∨ dqb.isoftlimit = 0
  · rw [if_pos hzero] at hu
    refine .inr ⟨hzero, ?_⟩
    cases hfs : v.getFsUsage path with
    | error what =>
        rw [hfs] at hu
        cases hu
    | ok fs =>
        rw [hfs] at hu
        obtain ⟨st, hst, rfl⟩ := getFsUsage_ok hfs
        injection hu with hu
        exact ⟨st, hst, hu.symm⟩
  · rw [if_neg hzero] at hu
    rw [not_or] at hzero
    injection hu with hu
    exact .inl ⟨hzero.1, hzero.2, hu.symm⟩

theorem blocks_of_quota (hq : v.getQuota device uid = .ok dqb)
    (hu : v.getGenericQuotaUsage path device uid = .ok u)
    (hb : dqb.bsoftlimit ≠ 0) :
    u.blockFigures = (quotaFigures dqb).blockFigures := by
  rcases getGenericQuotaUsage_ok hq hu with ⟨_, _, rfl⟩ | ⟨_, st, _, rfl⟩
  · rfl
  · by_cases hi : dqb.isoftlimit = 0
    · simp [fillIn, FsUsage.blockFigures, hb, hi]
    · simp [fillIn, hb, hi]

theorem blocks_of_volume (hq : v.getQuota device uid = .ok dqb)
    (hu : v.getGenericQuotaUsage path device uid = .ok u)
    (hb : dqb.bsoftlimit = 0) :
    ∃ st, v.statvfs path = .ok st
      ∧ u.blockFigures = (usageOf st).blockFigures := by
  rcases getGenericQuotaUsage_ok hq hu with ⟨hne, _⟩ | ⟨_, st, hst, rfl⟩
  · exact absurd hb hne
  · refine ⟨st, hst, ?_⟩
    by_cases hi : dqb.isoftlimit = 0
    · simp [fillIn, FsUsage.blockFigures, hb, hi]
    · simp [fillIn, FsUsage.blockFigures, hb, hi]

theorem inodes_of_quota (hq : v.getQuota device uid = .ok dqb)
    (hu : v.getGenericQuotaUsage path device uid = .ok u)
    (hi : dqb.isoftlimit ≠ 0) :
    u.inodeFigures = (quotaFigures dqb).inodeFigures := by
  rcases getGenericQuotaUsage_ok hq hu with ⟨_, _, rfl⟩ | ⟨_, st, _, rfl⟩
  · rfl
  · by_cases hb : dqb.bsoftlimit = 0
    · simp [fillIn, FsUsage.inodeFigures, hb, hi]
    · simp [fillIn, hb, hi]

theorem inodes_of_volume (hq : v.getQuota device uid = .ok dqb)
    (hu : v.getGenericQuotaUsage path device uid = .ok u)
    (hi : dqb.isoftlimit = 0) :
    ∃ st, v.statvfs path = .ok st
      ∧ u.inodeFigures = (usageOf st).inodeFigures := by
  rcases getGenericQuotaUsage_ok hq hu with ⟨_, hne, _⟩ | ⟨_, st, hst, rfl⟩
  · exact absurd hi hne
  · refine ⟨st, hst, ?_⟩
    simp [fillIn, FsUsage.inodeFigures, hi]

/-- The block figures of a quota that has a limit. -/
theorem quotaFigures_blocks (hb : dqb.bsoftlimit ≠ 0) :
    (quotaFigures dqb).blockFigures =
      (qifDqblksize, qifDqblksize, dqb.bsoftlimit,
        dqb.bsoftlimit - dqb.curspace / qifDqblksize,
        dqb.bsoftlimit - dqb.curspace / qifDqblksize,
        percentUsage (dqb.curspace / qifDqblksize) dqb.bsoftlimit,
        dqb.bsoftlimit * qifDqblksize,
        dqb.bsoftlimit * qifDqblksize - dqb.curspace,
        dqb.bsoftlimit * qifDqblksize - dqb.curspace,
        percentUsage dqb.curspace (dqb.bsoftlimit * qifDqblksize)) := by
  by_cases hi : dqb.isoftlimit = 0
  · simp [quotaFigures, FsUsage.blockFigures, hb, hi]
  · simp [quotaFigures, FsUsage.blockFigures, hb, hi]

theorem quotaFigures_inodes (hi : dqb.isoftlimit ≠ 0) :
    (quotaFigures dqb).inodeFigures =
      (dqb.isoftlimit, dqb.isoftlimit - dqb.curinodes,
        dqb.isoftlimit - dqb.curinodes,
        percentUsage dqb.curinodes dqb.isoftlimit) := by
  simp [quotaFigures, FsUsage.inodeFigures, hi]

-- ============================================================== soundness

/-- The block figures are those of a quota with this limit. -/
structure QuotaBlocks (dqb : Dqblk) (u : FsUsage) : Prop where
  blockSize : u.blockSize = qifDqblksize
  fragmentSize : u.fragmentSize = qifDqblksize
  totalBlocks : u.totalBlocks = dqb.bsoftlimit
  totalSize : u.totalSize = dqb.bsoftlimit * qifDqblksize
  exceeded : dqb.bsoftlimit.toNat * 1024 < dqb.curspace.toNat →
    u.availableBlocks = 0 ∧ u.availableSize = 0

/-- The inode figures are those of a quota with this limit. -/
structure QuotaInodes (dqb : Dqblk) (u : FsUsage) : Prop where
  totalInodes : u.totalInodes = dqb.isoftlimit
  exceeded : dqb.isoftlimit < dqb.curinodes → u.availableInodes = 0

/-- What a usage should be: no more is available than there is, nothing is
over the limit, and the quota stands behind the figures it limits. -/
structure UsageSound (v : Volumes) (path : PathName) (dqb : Dqblk)
    (u : FsUsage) : Prop where
  blocks_le : u.availableBlocks ≤ u.totalBlocks
  size_le : u.availableSize ≤ u.totalSize
  inodes_le : u.availableInodes ≤ u.totalInodes
  blocks :
    if dqb.bsoftlimit = 0 then
      ∃ st, v.statvfs path = .ok st
        ∧ u.blockFigures = (usageOf st).blockFigures
    else QuotaBlocks dqb u
  inodes :
    if dqb.isoftlimit = 0 then
      ∃ st, v.statvfs path = .ok st
        ∧ u.inodeFigures = (usageOf st).inodeFigures
    else QuotaInodes dqb u

/-- The records of statvfs(3) are in order. -/
def Statvfs.Ordered (st : Statvfs) : Prop :=
  st.bavail ≤ st.blocks ∧ st.favail ≤ st.files

/-- The use of a quota, in bytes and in inodes, is within the limits, cut
to 64 bits; and so is what is available of a volume whose blocks have no
limit. -/
structure WithinLimits (v : Volumes) (path : PathName) (dqb : Dqblk) :
    Prop where
  space : dqb.bsoftlimit ≠ 0 →
    dqb.curspace.toNat ≤ dqb.bsoftlimit.toNat * 1024 % 2 ^ 64
  volume : dqb.bsoftlimit = 0 → ∀ st, v.statvfs path = .ok st →
    st.bavail.toNat * st.frsize.toNat % 2 ^ 64
      ≤ st.blocks.toNat * st.frsize.toNat % 2 ^ 64
  inodes : dqb.isoftlimit ≠ 0 → dqb.curinodes ≤ dqb.isoftlimit

/-- The members of a usage whose block figures are known. -/
theorem blockFigures_eq {u w : FsUsage} (h : u.blockFigures = w.blockFigures) :
    u.blockSize = w.blockSize ∧ u.fragmentSize = w.fragmentSize
      ∧ u.totalBlocks = w.totalBlocks
      ∧ u.availableBlocks = w.availableBlocks ∧ u.totalSize = w.totalSize
      ∧ u.availableSize = w.availableSize := by
  unfold FsUsage.blockFigures at h
  simp only [Prod.mk.injEq] at h
  obtain ⟨h₁, h₂, h₃, _, h₅, _, h₇, _, h₉, _⟩ := h
  exact ⟨h₁, h₂, h₃, h₅, h₇, h₉⟩

/-- The six of a quota. -/
theorem blocks_of_quota_eq (hq : v.getQuota device uid = .ok dqb)
    (hu : v.getGenericQuotaUsage path device uid = .ok u)
    (hb : dqb.bsoftlimit ≠ 0) :
    u.blockSize = qifDqblksize ∧ u.fragmentSize = qifDqblksize
      ∧ u.totalBlocks = dqb.bsoftlimit
      ∧ u.availableBlocks = dqb.bsoftlimit - dqb.curspace / qifDqblksize
      ∧ u.totalSize = dqb.bsoftlimit * qifDqblksize
      ∧ u.availableSize = dqb.bsoftlimit * qifDqblksize - dqb.curspace := by
  have h := (blocks_of_quota hq hu hb).trans (quotaFigures_blocks hb)
  unfold FsUsage.blockFigures at h
  simp only [Prod.mk.injEq] at h
  obtain ⟨h₁, h₂, h₃, _, h₅, _, h₇, _, h₉, _⟩ := h
  exact ⟨h₁, h₂, h₃, h₅, h₇, h₉⟩

/-- Space in bytes that is over the limit makes the figures wrap, and
nothing else does. -/
theorem space_ordered_iff (hq : v.getQuota device uid = .ok dqb)
    (hu : v.getGenericQuotaUsage path device uid = .ok u)
    (hb : dqb.bsoftlimit ≠ 0) :
    u.availableSize ≤ u.totalSize
      ↔ dqb.curspace.toNat ≤ dqb.bsoftlimit.toNat * 1024 % 2 ^ 64 := by
  obtain ⟨_, _, _, _, htotal, havail⟩ := blocks_of_quota_eq hq hu hb
  rw [htotal, havail, sub_le_iff, UInt64.le_iff_toNat_le, UInt64.toNat_mul]
  rfl

theorem quota_blocks (hq : v.getQuota device uid = .ok dqb)
    (hu : v.getGenericQuotaUsage path device uid = .ok u)
    (hb : dqb.bsoftlimit ≠ 0)
    (hspace : dqb.curspace.toNat ≤ dqb.bsoftlimit.toNat * 1024 % 2 ^ 64) :
    u.availableBlocks ≤ u.totalBlocks ∧ QuotaBlocks dqb u := by
  obtain ⟨hsize, hfrag, hblocks, havail, htotal, _⟩ :=
    blocks_of_quota_eq hq hu hb
  have hin : dqb.curspace ≤ dqb.bsoftlimit * qifDqblksize := by
    rw [UInt64.le_iff_toNat_le, UInt64.toNat_mul]
    exact hspace
  refine ⟨?_, hsize, hfrag, hblocks, htotal, ?_⟩
  · rw [hblocks, havail, sub_le_iff]
    exact usedBlocks_le hin
  · intro hover
    have hmod := Nat.mod_le (dqb.bsoftlimit.toNat * 1024) (2 ^ 64)
    omega

/-- A volume's blocks are in order, its size if the products are. -/
theorem volume_blocks (hfs : ∀ st, v.statvfs path = .ok st → st.Ordered)
    {st : Statvfs} (hst : v.statvfs path = .ok st)
    (hfig : u.blockFigures = (usageOf st).blockFigures) :
    u.availableBlocks ≤ u.totalBlocks
      ∧ (u.availableSize ≤ u.totalSize
        ↔ st.bavail.toNat * st.frsize.toNat % 2 ^ 64
          ≤ st.blocks.toNat * st.frsize.toNat % 2 ^ 64) := by
  obtain ⟨_, _, hblocks, havail, htotal, hsize⟩ := blockFigures_eq hfig
  rw [hblocks, havail, htotal, hsize]
  refine ⟨(hfs st hst).1, ?_⟩
  show st.bavail * st.frsize ≤ st.blocks * st.frsize ↔ _
  rw [UInt64.le_iff_toNat_le, UInt64.toNat_mul, UInt64.toNat_mul]

theorem quota_inodes_iff (hq : v.getQuota device uid = .ok dqb)
    (hu : v.getGenericQuotaUsage path device uid = .ok u)
    (hi : dqb.isoftlimit ≠ 0) :
    (u.availableInodes ≤ u.totalInodes ↔ dqb.curinodes ≤ dqb.isoftlimit)
      ∧ (dqb.curinodes ≤ dqb.isoftlimit → QuotaInodes dqb u) := by
  have h := (inodes_of_quota hq hu hi).trans (quotaFigures_inodes hi)
  unfold FsUsage.inodeFigures at h
  simp only [Prod.mk.injEq] at h
  obtain ⟨htotal, _, havail, _⟩ := h
  rw [htotal, havail, sub_le_iff]
  refine ⟨Iff.rfl, ?_⟩
  intro hin
  exact ⟨htotal, fun hover => absurd hover (UInt64.not_lt.mpr hin)⟩

theorem volume_inodes (hfs : ∀ st, v.statvfs path = .ok st → st.Ordered)
    {st : Statvfs} (hst : v.statvfs path = .ok st)
    (hfig : u.inodeFigures = (usageOf st).inodeFigures) :
    u.availableInodes ≤ u.totalInodes := by
  unfold FsUsage.inodeFigures at hfig
  simp only [Prod.mk.injEq] at hfig
  obtain ⟨htotal, _, havail, _⟩ := hfig
  rw [htotal, havail]
  exact (hfs st hst).2

/-- A usage is sound if and only if the quota is not exceeded; of a volume
without a limit, if its size does not wrap below what is available. -/
theorem usage_sound_iff (hq : v.getQuota device uid = .ok dqb)
    (hfs : ∀ st, v.statvfs path = .ok st → st.Ordered)
    (hu : v.getGenericQuotaUsage path device uid = .ok u) :
    UsageSound v path dqb u ↔ WithinLimits v path dqb := by
  constructor
  · intro h
    refine ⟨?_, ?_, ?_⟩
    · intro hb
      exact (space_ordered_iff hq hu hb).mp h.size_le
    · intro hb st hst
      obtain ⟨st', hst', hfig⟩ := blocks_of_volume hq hu hb
      have hsame : st' = st := Except.ok.inj (hst'.symm.trans hst)
      subst hsame
      exact (volume_blocks hfs hst hfig).2.mp h.size_le
    · intro hi
      exact (quota_inodes_iff hq hu hi).1.mp h.inodes_le
  · intro h
    have hblocks : u.availableBlocks ≤ u.totalBlocks
        ∧ u.availableSize ≤ u.totalSize
        ∧ if dqb.bsoftlimit = 0 then
            ∃ st, v.statvfs path = .ok st
              ∧ u.blockFigures = (usageOf st).blockFigures
          else QuotaBlocks dqb u := by
      by_cases hb : dqb.bsoftlimit = 0
      · obtain ⟨st, hst, hfig⟩ := blocks_of_volume hq hu hb
        obtain ⟨hle, hiff⟩ := volume_blocks hfs hst hfig
        rw [if_pos hb]
        exact ⟨hle, hiff.mpr (h.volume hb st hst), st, hst, hfig⟩
      · obtain ⟨hle, hquota⟩ := quota_blocks hq hu hb (h.space hb)
        rw [if_neg hb]
        exact ⟨hle, (space_ordered_iff hq hu hb).mpr (h.space hb), hquota⟩
    have hinodes : u.availableInodes ≤ u.totalInodes
        ∧ if dqb.isoftlimit = 0 then
            ∃ st, v.statvfs path = .ok st
              ∧ u.inodeFigures = (usageOf st).inodeFigures
          else QuotaInodes dqb u := by
      by_cases hi : dqb.isoftlimit = 0
      · obtain ⟨st, hst, hfig⟩ := inodes_of_volume hq hu hi
        rw [if_pos hi]
        exact ⟨volume_inodes hfs hst hfig, st, hst, hfig⟩
      · obtain ⟨hiff, hquota⟩ := quota_inodes_iff hq hu hi
        rw [if_neg hi]
        exact ⟨hiff.mpr (h.inodes hi), hquota (h.inodes hi)⟩
    exact ⟨hblocks.1, hblocks.2.1, hinodes.1, hblocks.2.2, hinodes.2⟩

/-- One user on one device, with a quota. -/
def oneQuota (dqb : Dqblk) (st : Statvfs) : Volumes where
  statvfs _ := .ok st
  getQuota _ _ := .ok dqb

/-- A volume of 1000 blocks. -/
def smallVolume : Statvfs where
  bsize := 4096
  frsize := 4096
  blocks := 1000
  bfree := 600
  bavail := 500
  files := 100
  ffree := 90
  favail := 90

/-- 100 blocks and any number of inodes are allowed, half of the blocks are
in use. -/
def halfUsed : Dqblk where
  bsoftlimit := 100
  curspace := 51200
  isoftlimit := 0
  curinodes := 7

/-- Twice as many blocks are in use as are allowed. -/
def overused : Dqblk where
  bsoftlimit := 100
  curspace := 204800
  isoftlimit := 10
  curinodes := 7

theorem usage_sound_half :
    ∃ u, (oneQuota halfUsed smallVolume).getGenericQuotaUsage
        "/data".toList "/dev/sda".toList 1000 = .ok u
      ∧ (UsageSound (oneQuota halfUsed smallVolume) "/data".toList halfUsed u
        ↔ WithinLimits (oneQuota halfUsed smallVolume) "/data".toList
            halfUsed) := by
  have hq : (oneQuota halfUsed smallVolume).getQuota "/dev/sda".toList 1000
      = .ok halfUsed := rfl
  refine ⟨_, rfl, usage_sound_iff hq ?_ rfl⟩
  intro st hst
  cases hst
  exact ⟨by decide, by decide⟩

/-- The space that is reported to a user over the limit. -/
theorem availableSize_exceeded (hq : v.getQuota device uid = .ok dqb)
    (hu : v.getGenericQuotaUsage path device uid = .ok u)
    (hb : dqb.bsoftlimit ≠ 0) (hover : u.totalSize < dqb.curspace) :
    u.availableSize.toNat + (dqb.curspace.toNat - u.totalSize.toNat)
      = 2 ^ 64 := by
  obtain ⟨_, _, _, _, htotal, havail⟩ := blocks_of_quota_eq hq hu hb
  rw [havail, ← htotal]
  exact toNat_sub_of_lt hover

/-- A user who has twice the space that is allowed has almost 2^64 bytes
left. -/
theorem usage_wraps :
    ¬ ∀ (v : Volumes) (path device : PathName) (uid : Nat) (dqb : Dqblk)
      (u : FsUsage), v.getQuota device uid = .ok dqb →
      (∀ st, v.statvfs path = .ok st → st.Ordered) →
      v.getGenericQuotaUsage path device uid = .ok u →
      UsageSound v path dqb u := by
  intro h
  have hfs : ∀ st, (oneQuota overused smallVolume).statvfs "/data".toList
      = .ok st → st.Ordered := by
    intro st hst
    cases hst
    exact ⟨by decide, by decide⟩
  have hsound := h (oneQuota overused smallVolume) "/data".toList
    "/dev/sda".toList 1000 overused (quotaFigures overused) rfl hfs rfl
  have hle : (quotaFigures overused).availableSize
      ≤ (quotaFigures overused).totalSize := hsound.size_le
  exact absurd hle (by decide)

end BigDataExpress
