/-
What the commands of the agent ask a file system.

A command about a path asks for the path itself, for the contents of the
regular files at or below it (`SameFiles`) and, if it is divided, for the
sizes of the directories (`SameSizes`). Two file systems that answer these
questions alike get the same reply, whatever else they hold.
-/
import BigDataExpress.Proofs.Divide
import BigDataExpress.Proofs.Groups

namespace BigDataExpress

open Stateful

/-- The same machine with another file system. -/
def Hashing.withFs (h : Hashing) (fs : FileSystem) : Hashing :=
  { h with fs := fs }

/-- The agent on another file system. -/
def DTNAgent.withFs (a : DTNAgent) (fs : FileSystem) : DTNAgent :=
  { a with fs := fs }

/-- The regular files at or below a path read alike, by the name a walk
gives them and by their canonical names. -/
def SameFiles (fs fs' : FileSystem) (p : Path) : Prop :=
  ∀ q ∈ p :: walk p, q.isRegularFile = true →
    fs.read q.name = fs'.read q.name
      ∧ ∀ c, q.canonicalName = .ok c → fs.read c = fs'.read c

/-- The directories at or below a path have the same sizes. -/
def SameSizes (fs fs' : FileSystem) (p : Path) : Prop :=
  ∀ q ∈ p :: walk p, q.isDirectory = true → fs.nftw q.name = fs'.nftw q.name

variable {fs fs' : FileSystem}

namespace Hashing

variable (h : Hashing) {md : Digest}

end Hashing

-- ============================================================== below

/-- What a walk finds below something it found is found by it. -/
theorem walkEntries_trans {p q r : Path} {l : Listing}
    (hq : q ∈ walkEntries p l) (hr : r ∈ walk q) : r ∈ walkEntries p l := by
  induction l generalizing p with
  | done => cases hq
  | file n size rest ih =>
      obtain hq | hq := List.mem_cons.mp hq
      · subst hq
        cases hr
      · exact List.mem_cons_of_mem _ (ih hq)
  | dir n entries rest ih₁ ih₂ =>
      obtain hq | hq := List.mem_append.mp hq
      · apply List.mem_append_left
        obtain hq | hq := List.mem_cons.mp hq
        · subst hq
          exact List.mem_cons_of_mem _ hr
        · exact List.mem_cons_of_mem _ (ih₁ hq)
      · exact List.mem_append_right _ (ih₂ hq)
  | shut n why rest ih =>
      obtain hq | hq := List.mem_cons.mp hq
      · subst hq
        cases hr
      · exact List.mem_cons_of_mem _ (ih hq)
  | other n size rest ih =>
      obtain hq | hq := List.mem_cons.mp hq
      · subst hq
        cases hr
      · exact List.mem_cons_of_mem _ (ih hq)

/-- The walk of a directory is that of its entries. -/
theorem walk_of_dir {p : Path} {l : Listing} (h : p.node = .dir l) :
    walk p = walkEntries p l := by
  unfold walk
  rw [h]

/-- What is below something below is below. -/
theorem walk_trans {p q r : Path} (hq : q ∈ p :: walk p)
    (hr : r ∈ q :: walk q) : r ∈ p :: walk p := by
  obtain hr | hr := List.mem_cons.mp hr
  · exact hr ▸ hq
  obtain hq | hq := List.mem_cons.mp hq
  · subst hq
    exact List.mem_cons_of_mem q hr
  refine List.mem_cons_of_mem p ?_
  cases hnode : p.node with
  | dir l =>
      rw [walk_of_dir hnode] at hq ⊢
      exact walkEntries_trans hq hr
  | file | shut | other | missing =>
      unfold walk at hq
      rw [hnode] at hq
      cases hq

/-- The files below something below are the same. -/
theorem SameFiles.below {p q : Path} (h : SameFiles fs fs' p)
    (hq : q ∈ p :: walk p) : SameFiles fs fs' q :=
  fun r hr => h r (walk_trans hq hr)

/-- A piece of a division is a file or a directory of the walk. -/
theorem pieces_walk {maxSize : UInt64} {p q : Path} {l : Listing}
    (hq : q ∈ pieces fs maxSize p l) :
    q ∈ walkEntries p l ∧ (q.isRegularFile || q.isDirectory) = true := by
  induction l generalizing p with
  | done => cases hq
  | file n size rest ih =>
      obtain hq | hq := List.mem_cons.mp hq
      · subst hq
        exact ⟨List.mem_cons_self .., rfl⟩
      · exact (ih hq).imp_left (List.mem_cons_of_mem _)
  | dir n entries rest ih₁ ih₂ =>
      obtain hq | hq := List.mem_append.mp hq
      · refine And.imp_left (List.mem_append_left _) ?_
        split at hq
        · obtain rfl := List.mem_singleton.mp hq
          exact ⟨List.mem_cons_self .., rfl⟩
        · exact (ih₁ hq).imp_left (List.mem_cons_of_mem _)
      · exact (ih₂ hq).imp_left (List.mem_append_right _)
  | shut n why rest ih =>
      obtain hq | hq := List.mem_cons.mp hq
      · subst hq
        exact ⟨List.mem_cons_self .., rfl⟩
      · exact (ih hq).imp_left (List.mem_cons_of_mem _)
  | other n size rest ih => exact (ih hq).imp_left (List.mem_cons_of_mem _)

/-- So is every entry of the groups. -/
theorem Division.walk {maxSize : UInt64} {p q : Path} {es : List Path}
    (h : Division fs maxSize p es) (hq : q ∈ es) :
    q ∈ p :: BigDataExpress.walk p
      ∧ (q.isRegularFile || q.isDirectory) = true := by
  obtain rfl | ⟨l, hnode, -, hpiece⟩ := h.sub q hq
  · exact ⟨List.mem_cons_self .., h.kind (List.ne_nil_of_mem hq)⟩
  · rw [walk_of_dir hnode]
    exact (pieces_walk hpiece).imp_left (List.mem_cons_of_mem p)

-- ======================================================== the division

/-- The answers about a name, and about the files below what it names. -/
structure SameAnswers (fs fs' : FileSystem) (s : PathName) : Prop where
  path : Path.ofName fs s = Path.ofName fs' s
  read : fs.read s = fs'.read s
  files : SameFiles fs fs' (Path.ofName fs s)

namespace DTNAgent

variable (a : DTNAgent)

/-- The entries up to the first that ends the loop have the same answers:
one without a path or a checksum, one whose checksum cannot be computed,
or is another. -/
def SameListed (fs fs' : FileSystem) (algorithm : String) :
    List (PathName × String) → TaskCounter → Prop
  | [], _ => True
  | (path, claimed) :: rest, t => path ≠ [] → claimed ≠ "" →
      SameAnswers fs fs' path
        ∧ ∀ t', (a.withFs fs).localChecksum algorithm path t
            = .ok claimed t' → SameListed fs fs' algorithm rest t'

/-- Up to the first path that is not in a data folder, the tests agree. -/
def SameTests (fs fs' : FileSystem) : List PathName → Prop
  | [] => True
  | s :: ss =>
      (a.withFs fs).dataFolderContains s a.dataFolders
          = (a.withFs fs').dataFolderContains s a.dataFolders
        ∧ ((a.withFs fs).dataFolderContains s a.dataFolders = true →
            SameTests fs fs' ss)

/-- The tests agree, and if all paths are found in a data folder and the
command goes on to use them, they have the same answers. -/
structure SameSources (fs fs' : FileSystem) (paths : List PathName)
    (used : Prop) : Prop where
  tests : a.SameTests fs fs' paths
  answers : (∀ s ∈ paths,
      (a.withFs fs).dataFolderContains s a.dataFolders = true) →
    used → ∀ s ∈ paths, SameAnswers fs fs' s

variable (ps : V2Params) (prefixes : List PathName)

/-- The tests are passed on both file systems. -/
theorem SameTests.passed {paths : List PathName}
    (h : a.SameTests fs fs' paths)
    (hin : ∀ s ∈ paths,
      (a.withFs fs).dataFolderContains s a.dataFolders = true) :
    ∀ s ∈ paths,
      (a.withFs fs').dataFolderContains s a.dataFolders = true := by
  induction paths with
  | nil =>
      intro s hs
      cases hs
  | cons s ss ih =>
      obtain ⟨htest, hrest⟩ := h
      have hself := hin s (List.mem_cons_self ..)
      intro q hq
      obtain hq | hq := List.mem_cons.mp hq
      · rw [hq, ← htest, hself]
      · exact ih (hrest hself) (fun r hr => hin r (List.mem_cons_of_mem s hr))
          q hq

end DTNAgent

end BigDataExpress
