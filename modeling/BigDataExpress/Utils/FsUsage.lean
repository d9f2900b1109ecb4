/-
The usage of a volume, from the kernel's records of it (utils/fsusage.cc).

A user who has a quota is shown the quota's figures, with the soft limits
for totals. Blocks and inodes are limited apart: where a limit is 0 there
is none, and the figures of the whole volume stand in its place. All
figures are `unsigned long`, so products and differences of them wrap.

What the kernel answers is a parameter (`Volumes`).
-/
import BigDataExpress.Utils.Disk

namespace BigDataExpress

-- ========================================================== the records

/-- statvfs(3): the members in use. -/
structure Statvfs where
  bsize : UInt64
  frsize : UInt64
  blocks : UInt64
  bfree : UInt64
  bavail : UInt64
  files : UInt64
  ffree : UInt64
  favail : UInt64

/-- quotactl(2), `Q_GETQUOTA`: the members in use. Space is in bytes, its
limit in blocks of the quota. -/
structure Dqblk where
  bsoftlimit : UInt64
  curspace : UInt64
  isoftlimit : UInt64
  curinodes : UInt64

/-- `utils::fs_usage` -/
structure FsUsage where
  type : String
  quotaLimitType : String := ""
  blockSize : UInt64 := 0
  fragmentSize : UInt64 := 0
  totalBlocks : UInt64 := 0
  freeBlocks : UInt64 := 0
  availableBlocks : UInt64 := 0
  blocksUsage : Float32 := 0
  totalSize : UInt64 := 0
  freeSize : UInt64 := 0
  availableSize : UInt64 := 0
  sizeUsage : Float32 := 0
  totalInodes : UInt64 := 0
  freeInodes : UInt64 := 0
  availableInodes : UInt64 := 0
  inodeUsage : Float32 := 0

/-- The answers of the system. -/
structure Volumes where
  statvfs : PathName → Except Errno Statvfs
  getQuota : PathName → Nat → Except Errno Dqblk

-- ========================================================== percentages

/-- `percent_usage`: a percentage with two digits behind the point. -/
def percentUsage (used max : UInt64) : Float32 :=
  if max = 0 then 100
  else
    let val := used.toFloat32 / max.toFloat32 * 100
    (val * 100).round / 100

namespace Volumes

-- ============================================================ the volume

/-- The usage a record of statvfs(3) amounts to. -/
def usageOf (statbuf : Statvfs) : FsUsage :=
  let totalSize := statbuf.blocks * statbuf.frsize
  let availableSize := statbuf.bavail * statbuf.frsize
  { type := "filesystem usage"
    blockSize := statbuf.bsize
    fragmentSize := statbuf.frsize
    totalBlocks := statbuf.blocks
    freeBlocks := statbuf.bfree
    availableBlocks := statbuf.bavail
    totalSize := totalSize
    freeSize := statbuf.bfree * statbuf.frsize
    availableSize := availableSize
    totalInodes := statbuf.files
    freeInodes := statbuf.ffree
    availableInodes := statbuf.favail
    blocksUsage := percentUsage (statbuf.blocks - statbuf.bavail) statbuf.blocks
    sizeUsage := percentUsage (totalSize - availableSize) totalSize
    inodeUsage := percentUsage (statbuf.files - statbuf.favail) statbuf.files }

/-- `utils::get_fs_usage` -/
def getFsUsage (v : Volumes) (path : PathName) : Except String FsUsage :=
  match v.statvfs path with
  | .error e =>
      .error ("Error on usage of " ++ String.ofList path ++ ": " ++ e.text)
  | .ok statbuf => .ok (usageOf statbuf)

-- ============================================================= the quota

/-- `QIF_DQBLKSIZE` -/
def qifDqblksize : UInt64 := 1024

/-- The figures of a quota. Those that have no limit are 0. -/
def quotaFigures (dqb : Dqblk) : FsUsage :=
  let usedBlocks := dqb.curspace / qifDqblksize
  let usage : FsUsage :=
    { type := "quota"
      quotaLimitType := "soft"
      blockSize := qifDqblksize
      fragmentSize := qifDqblksize }
  let usage :=
    if dqb.bsoftlimit = 0 then usage
    else
      let totalSize := dqb.bsoftlimit * qifDqblksize
      { usage with
        totalBlocks := dqb.bsoftlimit
        freeBlocks := dqb.bsoftlimit - usedBlocks
        availableBlocks := dqb.bsoftlimit - usedBlocks
        blocksUsage := percentUsage usedBlocks dqb.bsoftlimit
        totalSize := totalSize
        freeSize := totalSize - dqb.curspace
        availableSize := totalSize - dqb.curspace
        sizeUsage := percentUsage dqb.curspace totalSize }
  if dqb.isoftlimit = 0 then usage
  else
    { usage with
      totalInodes := dqb.isoftlimit
      freeInodes := dqb.isoftlimit - dqb.curinodes
      availableInodes := dqb.isoftlimit - dqb.curinodes
      inodeUsage := percentUsage dqb.curinodes dqb.isoftlimit }

/-- The volume's figures in place of those that have no limit. -/
def fillIn (dqb : Dqblk) (fsusage usage : FsUsage) : FsUsage :=
  let usage :=
    if dqb.bsoftlimit = 0 then
      { usage with
        blockSize := fsusage.blockSize
        fragmentSize := fsusage.fragmentSize
        totalBlocks := fsusage.totalBlocks
        freeBlocks := fsusage.freeBlocks
        availableBlocks := fsusage.availableBlocks
        blocksUsage := fsusage.blocksUsage
        totalSize := fsusage.totalSize
        freeSize := fsusage.freeSize
        availableSize := fsusage.availableSize
        sizeUsage := fsusage.sizeUsage }
    else usage
  if dqb.isoftlimit = 0 then
    { usage with
      totalInodes := fsusage.totalInodes
      freeInodes := fsusage.freeInodes
      availableInodes := fsusage.availableInodes
      inodeUsage := fsusage.inodeUsage }
  else usage

def quotactlFailed (device : PathName) (e : Errno) : String :=
  "quotactl(QCMD(Q_GETQUOTA,USRQUOTA),..) failed on "
    ++ String.ofList device ++ "; errno: " ++ toString e.code
    ++ " (" ++ e.text ++ ")"

/-- `get_generic_quota_usage` -/
def getGenericQuotaUsage (v : Volumes) (path device : PathName) (uid : Nat) :
    Except String FsUsage :=
  match v.getQuota device uid with
  | .error e => .error (quotactlFailed device e)
  | .ok dqb =>
      let usage := quotaFigures dqb
      if dqb.bsoftlimit = 0 ∨ dqb.isoftlimit = 0 then
        match v.getFsUsage path with
        | .error what => .error what
        | .ok fsusage => .ok (fillIn dqb fsusage usage)
      else .ok usage

end Volumes

end BigDataExpress
