/-
Checksums of files and of directories (utils/checksum.cc).

The digest functions are parameters, as the OpenSSL library gives them by
name. A directory's checksum is the digest of the sorted checksums of the
regular files below it; they are computed in groups, some of them by
asynchronous tasks. How many tasks run at a time is bounded by a counter
that all threads of the process share, so what a test of the counter sees
is this thread's own tasks and those of the others, whatever these are at
that moment.
-/
import BigDataExpress.Utils.DirTree
import BigDataExpress.Lib.Stateful
import Mathlib.Data.String.Basic
import Mathlib.Data.List.Sort

namespace BigDataExpress

/-- A message digest: from bytes to the hexadecimal string. -/
abbrev Digest := List UInt8 → String

/-- The global task counter as one thread knows it: the tasks it has
started and not collected, and how often it has looked. -/
structure TaskCounter where
  own : Nat := 0
  reads : Nat := 0

/-- What the checksums are computed with. `others k` is the number of
tasks other threads have running when this one looks for the `k`-th
time. -/
structure Hashing where
  fs : FileSystem
  digestByName : String → Option Digest
  adler32 : Digest
  sortBySize : SortBySize
  others : Nat → Nat

/-- A computation that starts tasks, and may throw. -/
abbrev Tasked := EStateM String TaskCounter

namespace TaskCounter

def increment : Tasked Unit := modify fun c => { c with own := c.own + 1 }

def decrement : Tasked Unit := modify fun c => { c with own := c.own - 1 }

end TaskCounter

/-- A computation without tasks. -/
def Tasked.lift {α : Type} (x : Except String α) : Tasked α :=
  match x with
  | .ok a => pure a
  | .error e => throw e

namespace Hashing

variable (h : Hashing)

/-- `task_counter.get()`. -/
def running : Tasked Nat := do
  let c ← get
  set { c with reads := c.reads + 1 }
  pure (c.own + h.others c.reads)

-- ============================================================ one file

/-- `utils::checksum(path, md)`, and `checksum_file`. The digest is a
pointer, and may be null. -/
def checksum (path : PathName) (md : Option Digest) :
    Except String String :=
  match h.fs.read path, md with
  | .error .opening, _ => .error ("Error opening " ++ String.ofList path)
  | _, none => .error "EVP_DigestInit_ex() failed"
  | .error .bad, _ =>
      .error ("Bad stream status at: \"" ++ String.ofList path ++ "\"")
  | .ok bytes, some md => .ok (md bytes)

/-- `utils::checksum(path, digest)`, the digest given by name. -/
def checksumNamed (path : PathName) (digest : String) :
    Except String String :=
  match h.digestByName digest with
  | some md => h.checksum path (some md)
  | none =>
      if digest = "adler32" then h.checksum path (some h.adler32)
      else .error ("Unknown message digest " ++ digest)

-- ======================================================= a directory

/-- `utils::checksum_of_checksums`. -/
def checksumOfChecksums (md : Digest) (sums : List String) : String :=
  md ((sums.insertionSort (· ≤ ·)).flatMap fun c => c.toUTF8.toList)

/-- `checksum_group`. -/
def checksumGroup (md : Digest) (paths : List Path) :
    Except String (List String) :=
  (paths.filter Path.isRegularFile).mapM fun p =>
    h.checksum p.name (some md)

/-- The first loop of `parallel_directory_checksum`: a task for each
group that has files, as long as the counter allows it. Returns the
groups with tasks and the remainders. -/
def launchGroups (maxThreads : Nat) :
    List PathGroup → Tasked (List PathGroup × List PathGroup)
  | [] => pure ([], [])
  | g :: gs => do
      if g.count = 0 then
        launchGroups maxThreads gs
      else if (← h.running) < maxThreads then
        TaskCounter.increment
        let (tasks, rest) ← launchGroups maxThreads gs
        pure (g :: tasks, rest)
      else
        let (tasks, rest) ← launchGroups maxThreads gs
        pure (tasks, g :: rest)

/-- The remainders, computed by the thread itself. -/
def checksumRemainders (md : Digest) :
    List PathGroup → Tasked (List String)
  | [] => pure []
  | g :: gs => do
      let sums ← Tasked.lift (h.checksumGroup md g.paths)
      let rest ← checksumRemainders md gs
      pure (sums ++ rest)

/-- The tasks, collected: a task that threw throws here, and is not
taken off the counter. -/
def collectTasks (md : Digest) : List PathGroup → Tasked (List String)
  | [] => pure []
  | g :: gs => do
      let sums ← Tasked.lift (h.checksumGroup md g.paths)
      TaskCounter.decrement
      let rest ← collectTasks md gs
      pure (sums ++ rest)

/-- `parallel_directory_checksum`. The text of its last error gives three
numbers. -/
def parallelDirectoryChecksum (p : Path) (md : Digest)
    (maxThreads : Nat) : Tasked String := do
  let tree := walk p
  let groups ← Tasked.lift (partition h.sortBySize tree maxThreads)
  let (tasks, rest) ← h.launchGroups maxThreads groups
  let sums ← h.checksumRemainders md rest
  let more ← h.collectTasks md tasks
  let sums := sums ++ more
  let files := (tree.filter Path.isRegularFile).length
  if files ≠ sums.length then
    throw ("Mismatch: files: " ++ toString files ++ ", checksums: "
      ++ toString sums.length ++ ", max threads: " ++ toString maxThreads)
  else
    pure (checksumOfChecksums md sums)

/-- `sequential_directory_checksum`. -/
def sequentialDirectoryChecksum (p : Path) (md : Digest) :
    Except String String :=
  (h.checksumGroup md (walk p)).map (checksumOfChecksums md)

/-- `utils::dir_checksum_of_checksums`, as every caller calls it: in
parallel. -/
def dirChecksumOfChecksums (p : Path) (md : Option Digest)
    (maxThreads : Nat) : Tasked String :=
  match md with
  | none =>
      throw ("dir_checksum_of_checksums(): "
        ++ "Received null message digest parameter")
  | some md =>
      if !p.isDirectory then
        throw ("dir_checksum_of_checksums(): \"" ++ String.ofList p.name
          ++ "\" is not a directory.")
      else h.parallelDirectoryChecksum p md maxThreads

/-- `utils::dir_checksum_of_checksums`, the digest given by name. -/
def dirChecksumNamed (p : Path) (algorithm : String) (maxThreads : Nat) :
    Tasked String :=
  match h.digestByName algorithm with
  | none => throw ("Unknown message digest algorithm: " ++ algorithm)
  | some md => h.dirChecksumOfChecksums p (some md) maxThreads

end Hashing

end BigDataExpress
