/-
A division as a sequence of deposits.

`divide_helper` recurses into directories and keeps one open group across
all of them. What it does with that group does not depend on the
recursion, only on the order in which it comes to things: a file goes
into the open group, a directory that fits becomes a group, a directory
that is split is noted, and at its end the open group is closed.
`deposits` lists that, and a division is a fold over the list
(`divideEntries_eq`); what is to be said of groups is then said by
induction over the deposits.

The division of a tree of directories and regular files in which nftw(3)
reports the files does not fail (`divideEntries_total`).
-/
import BigDataExpress.Proofs.Divide
import BigDataExpress.Proofs.Partition

namespace BigDataExpress

-- =========================================================== the deposits

/-- What a division comes to. -/
inductive Deposit
  /-- a regular file -/
  | file (p : Path)
  /-- a directory that is taken whole -/
  | whole (p : Path) (size : UInt64)
  /-- a directory that is split -/
  | split (p : Path)
  /-- the end of a directory -/
  | stop

namespace Deposit

/-- What `divide_helper` does with it. -/
def put (maxSize maxFiles : UInt64) (st : Dividing) : Deposit → Dividing
  | file p => st.addFile maxSize maxFiles p
  | whole p size => st.addWhole p size
  | split p => st.addDir p
  | stop => st.finish

/-- The path that is put into a group. -/
def added : Deposit → Option Path
  | file p => some p
  | whole p _ => some p
  | _ => none

end Deposit

variable (fs : FileSystem) (maxSize : UInt64)

/-- A directory: whole, or split and gone through. -/
def depositDir (q : Path) (inside : List Deposit) : List Deposit :=
  match dirSize fs q with
  | .error _ => []
  | .ok size =>
      if size ≤ maxSize then [.whole q size] else .split q :: inside

/-- The deposits from the entries of the directory `q`. -/
def deposits (q : Path) : Listing → List Deposit
  | .done => [.stop]
  | .file n size rest => .file (q.child n (.file size)) :: deposits q rest
  | .dir n entries rest =>
      let d := q.child n (.dir entries)
      depositDir fs maxSize d (deposits d entries) ++ deposits q rest
  | .shut n why rest =>
      depositDir fs maxSize (q.child n (.shut why)) [] ++ deposits q rest
  | .other _ _ rest => deposits q rest

/-- All deposits, one after the other. -/
def putAll (maxSize maxFiles : UInt64) (ds : List Deposit) (st : Dividing) :
    Dividing :=
  ds.foldl (Deposit.put maxSize maxFiles) st

variable {fs maxSize} {maxFiles : UInt64}

theorem putAll_append (ds es : List Deposit) (st : Dividing) :
    putAll maxSize maxFiles (ds ++ es) st
      = putAll maxSize maxFiles es (putAll maxSize maxFiles ds st) :=
  List.foldl_append

/-- Entering a directory makes its deposits. -/
theorem enter_eq (maxFiles : UInt64) {q : Path} (inside : List Deposit)
    {st st' : Dividing} {loop : Dividing → Except String Dividing}
    (h : enter fs maxSize q loop st = .ok st')
    (hloop : loop (st.addDir q) = .ok st' →
      st' = putAll maxSize maxFiles inside (st.addDir q)) :
    st' = putAll maxSize maxFiles (depositDir fs maxSize q inside) st := by
  unfold enter at h
  unfold depositDir
  cases hd : dirSize fs q with
  | error e => rw [hd] at h; cases h
  | ok size =>
      rw [hd] at h
      dsimp only at h ⊢
      by_cases hs : size ≤ maxSize
      · rw [if_pos hs] at h ⊢
        injection h with h
        exact h.symm
      · rw [if_neg hs] at h ⊢
        exact hloop h

/-- The loop makes the deposits. -/
theorem divideEntries_eq {q : Path} {l : Listing} {st st' : Dividing}
    (h : divideEntries fs maxSize maxFiles q l st = .ok st') :
    st' = putAll maxSize maxFiles (deposits fs maxSize q l) st := by
  induction l generalizing q st st' with
  | done =>
      injection h with h
      exact h.symm
  | file n size rest ih => exact ih h
  | dir n entries rest ih₁ ih₂ =>
      unfold divideEntries at h
      dsimp only at h
      split at h
      · cases h
      · rename_i st₁ henter
        have h₁ := enter_eq maxFiles _ henter fun hl => ih₁ hl
        unfold deposits
        dsimp only
        rw [putAll_append, ← h₁]
        exact ih₂ h
  | shut n why rest ih =>
      unfold divideEntries at h
      dsimp only at h
      split at h
      · cases h
      · rename_i st₁ henter
        have h₁ := enter_eq maxFiles [] henter
          fun hl => nomatch hl
        unfold deposits
        rw [putAll_append, ← h₁]
        exact ih h
  | other n size rest ih => exact ih h

-- ============================================================ plain trees

/-- Directories and regular files only. -/
def Listing.Plain : Listing → Prop
  | .done => True
  | .file _ _ rest => rest.Plain
  | .dir _ entries rest => entries.Plain ∧ rest.Plain
  | .shut _ _ _ => False
  | .other _ _ _ => False

/-- The sizes of the regular files below a directory. -/
def Listing.sizes : Listing → List UInt64
  | .done => []
  | .file _ size rest => size :: rest.sizes
  | .dir _ entries rest => entries.sizes ++ rest.sizes
  | .shut _ _ rest => rest.sizes
  | .other _ _ rest => rest.sizes

/-- A tree of directories and regular files, each name once in a
directory, of which nftw(3) reports the files. -/
structure Path.Regular (fs : FileSystem) (p : Path) : Prop where
  kind : (∃ size, p.node = .file size) ∨ ∃ l, p.node = .dir l
  plain : ∀ l, p.node = .dir l → l.Plain ∧ l.Distinct
  nftw : ∀ q ∈ p :: walk p, ∀ l, q.node = .dir l →
    ∃ sizes, fs.nftw q.name = .ok sizes ∧ sizes.Perm l.sizes

theorem Path.isDirectory_of {q : Path} {l : Listing} (h : q.node = .dir l) :
    q.isDirectory = true := by
  unfold Path.isDirectory
  rw [h]

/-- The size of a directory is that of the files below it. -/
theorem dirSize_eq {q : Path} {l : Listing} {sizes : List UInt64}
    (hl : q.node = .dir l) (h : fs.nftw q.name = .ok sizes)
    (hperm : sizes.Perm l.sizes) : dirSize fs q = .ok (sumSizes l.sizes) := by
  unfold dirSize
  rw [Path.isDirectory_of hl, h]
  show Except.ok (sumSizes sizes) = _
  rw [sumSizes_perm hperm]

/-- Every directory below `q` has its size. -/
def Sized (fs : FileSystem) (q : Path) (l : Listing) : Prop :=
  ∀ d ∈ walkEntries q l, ∀ m, d.node = .dir m →
    dirSize fs d = .ok (sumSizes m.sizes)

theorem Sized.rest {q : Path} {l m : Listing} (h : Sized fs q l)
    (ps : List Path)
    (hl : walkEntries q l = ps ++ walkEntries q m) : Sized fs q m := by
  intro d hd
  refine h d ?_
  rw [hl]
  exact List.mem_append_right _ hd

theorem Sized.inside {q : Path} {n : Name} {entries rest : Listing}
    (h : Sized fs q (.dir n entries rest)) :
    dirSize fs (q.child n (.dir entries)) = .ok (sumSizes entries.sizes)
      ∧ Sized fs (q.child n (.dir entries)) entries := by
  constructor
  · exact h _ (List.mem_append_left _ (List.mem_cons_self ..)) entries rfl
  · intro d hd
    exact h d (List.mem_append_left _ (List.mem_cons_of_mem _ hd))

theorem Path.Regular.sized {p : Path} {l : Listing}
    (h : p.Regular fs) (hl : p.node = .dir l) :
    dirSize fs p = .ok (sumSizes l.sizes) ∧ Sized fs p l := by
  have hsize : ∀ q ∈ p :: walk p, ∀ m, q.node = .dir m →
      dirSize fs q = .ok (sumSizes m.sizes) := by
    intro q hq m hm
    obtain ⟨sizes, hn, hperm⟩ := h.nftw q hq m hm
    exact dirSize_eq hm hn hperm
  have hwalk : walk p = walkEntries p l := by
    unfold walk
    rw [hl]
  constructor
  · exact hsize p (List.mem_cons_self ..) l hl
  · intro d hd
    refine hsize d (List.mem_cons_of_mem _ ?_)
    rw [hwalk]
    exact hd

theorem divideEntries_total (maxSize maxFiles : UInt64) {q : Path}
    {l : Listing} (hp : l.Plain) (hs : Sized fs q l) (st : Dividing) :
    ∃ st', divideEntries fs maxSize maxFiles q l st = .ok st' := by
  induction l generalizing q st with
  | done => exact ⟨_, rfl⟩
  | file n size rest ih => exact ih hp (hs.rest [_] rfl) _
  | dir n entries rest ih₁ ih₂ =>
      obtain ⟨hsize, hin⟩ := hs.inside
      obtain ⟨st₁, h₁⟩ : ∃ st₁, enter fs maxSize (q.child n (.dir entries))
          (fun st => divideEntries fs maxSize maxFiles _ entries st) st
            = .ok st₁ := by
        unfold enter
        rw [hsize]
        dsimp only
        split
        · exact ⟨_, rfl⟩
        · exact ih₁ hp.1 hin _
      obtain ⟨st₂, h₂⟩ := ih₂ hp.2 (hs.rest _ rfl) st₁
      refine ⟨st₂, ?_⟩
      unfold divideEntries
      dsimp only
      rw [h₁]
      exact h₂
  | shut n why rest ih => exact hp.elim
  | other n size rest ih => exact hp.elim

/-- The division of a regular tree: a file, a directory that fits, or the
deposits of one that does not. -/
theorem divide_cases {p : Path} (hp : p.Regular fs)
    (maxSize maxFiles : UInt64) :
    (∃ size, p.node = .file size ∧ divide fs p maxSize maxFiles
      = .ok (({} : PathSuperGroup).add (({} : PathGroup).add p size)))
    ∨ (∃ l, p.node = .dir l ∧ sumSizes l.sizes ≤ maxSize
      ∧ divide fs p maxSize maxFiles
        = .ok ((seeded p).addWhole p (sumSizes l.sizes)).super)
    ∨ ∃ l, p.node = .dir l ∧ maxSize < sumSizes l.sizes
      ∧ divide fs p maxSize maxFiles
        = .ok (putAll maxSize maxFiles (deposits fs maxSize p l)
          ((seeded p).addDir p)).super
      ∧ (putAll maxSize maxFiles (deposits fs maxSize p l)
          ((seeded p).addDir p)).group.paths = [] := by
  rcases hp.kind with ⟨size, hnode⟩ | ⟨l, hnode⟩
  · refine .inl ⟨size, hnode, ?_⟩
    unfold divide
    rw [hnode]
  · obtain ⟨hsize, hsized⟩ := hp.sized hnode
    have hdiv : divide fs p maxSize maxFiles = (enter fs maxSize p
        (divideEntries fs maxSize maxFiles p l) (seeded p)).map
          Dividing.super := by
      unfold divide
      rw [hnode]
    unfold enter at hdiv
    rw [hsize] at hdiv
    dsimp only at hdiv
    right
    by_cases hle : sumSizes l.sizes ≤ maxSize
    · rw [if_pos hle] at hdiv
      exact .inl ⟨l, hnode, hle, hdiv⟩
    · rw [if_neg hle] at hdiv
      obtain ⟨st, hst⟩ := divideEntries_total maxSize maxFiles
        (hp.plain l hnode).1 hsized
        ((seeded p).addDir p)
      rw [hst] at hdiv
      refine .inr ⟨l, hnode, UInt64.not_le.mp hle, ?_⟩
      rw [← divideEntries_eq hst]
      exact ⟨hdiv, divideEntries_group hst⟩

-- ------------------------------------------------- a directory of files

/-- Regular files. -/
def Listing.ofFiles : List (Name × UInt64) → Listing
  | [] => .done
  | (n, size) :: l => .file n size (.ofFiles l)

/-- A file system in which nftw(3) reports these sizes. -/
def reporting (sizes : List UInt64) : FileSystem where
  lstat _ := .missing
  realpath _ := .error "No such file or directory"
  nftw _ := .ok sizes
  read _ := .ok []

theorem ofFiles_plain {l : List (Name × UInt64)}
    (h : (l.map Prod.fst).Nodup) :
    (Listing.ofFiles l).Plain ∧ (Listing.ofFiles l).Distinct
      ∧ (Listing.ofFiles l).names = l.map Prod.fst := by
  induction l with
  | nil => exact ⟨trivial, trivial, rfl⟩
  | cons a l ih =>
      obtain ⟨hn, hl⟩ := List.nodup_cons.mp h
      obtain ⟨hp, hd, hnames⟩ := ih hl
      refine ⟨hp, ⟨?_, hd⟩, ?_⟩
      · rw [hnames]
        exact hn
      · show a.1 :: (Listing.ofFiles l).names = _
        rw [hnames]
        rfl

theorem topOf_regular {l : List (Name × UInt64)}
    (h : (l.map Prod.fst).Nodup) :
    (Hashing.topOf (.ofFiles l)).Regular
      (reporting (Listing.ofFiles l).sizes) where
  kind := .inr ⟨_, rfl⟩
  plain := by
    intro m hm
    injection hm with hm
    subst hm
    exact ⟨(ofFiles_plain h).1, (ofFiles_plain h).2.1⟩
  nftw := by
    intro q hq m hm
    rcases List.mem_cons.mp hq with rfl | hq
    · injection hm with hm
      subst hm
      exact ⟨_, rfl, List.Perm.refl _⟩
    · -- there are no directories in it
      have hfile : ∀ (l : List (Name × UInt64)) (p : Path),
          q ∈ walkEntries p (.ofFiles l) → q.isDirectory = false := by
        intro l p
        induction l with
        | nil => exact fun hc => absurd hc List.not_mem_nil
        | cons a l ih =>
            intro hq
            rcases List.mem_cons.mp hq with rfl | hq
            · rfl
            · exact ih hq
      have hno := hfile l _ hq
      rw [Path.isDirectory_of hm] at hno
      cases hno

end BigDataExpress
