/-
What `partition` loses, and what a checksum over it is worth.

Whether or not `partition` places every file, the parallel checksum
counts its checksums at the end, so a value it returns is the sequential
one. It is so for every order in which `readdir` may list the entries of
the tree (`parallel_checksum_sound`).

`partition` itself does lose files. It goes through them from the largest
on and gives each to the first group below a size; a group that has
reached the size is closed for good. The groups are therefore consecutive
runs of the files, each of which stops where its sum reaches the size, and
a file that comes after the last run has ended is in no group. Nothing is
lost exactly when that does not happen (`partition_keeps_all_iff`).
-/
import BigDataExpress.Proofs.Divide
import BigDataExpress.Proofs.Groups

namespace BigDataExpress

open Stateful
open DTNAgent (letter)

-- ================================================ the order of readdir

/-- A listing with one more entry in front. -/
def Listing.put (n : Name) : Node → Listing → Listing
  | .file size, rest => .file n size rest
  | .dir entries, rest => .dir n entries rest
  | .shut why, rest => .shut n why rest
  | .other size, rest => .other n size rest
  | .missing, rest => rest

/-- Listings of one tree: `readdir` returned the entries in another
order, in this directory or in one below it. -/
inductive Listing.Reordered : Listing → Listing → Prop
  | refl (l : Listing) : Reordered l l
  | put (n : Name) (node : Node) {l m : Listing} (h : Reordered l m) :
      Reordered (l.put n node) (m.put n node)
  | dir (n : Name) (rest : Listing) {l m : Listing} (h : Reordered l m) :
      Reordered (.dir n l rest) (.dir n m rest)
  | swap (m n : Name) (a b : Node) (l : Listing) :
      Reordered ((l.put n b).put m a) ((l.put m a).put n b)
  | trans {l m k : Listing} (h : Reordered l m) (h' : Reordered m k) :
      Reordered l k

/-- The regular files a walk of a listing finds. -/
def listedFiles (p : Path) (l : Listing) : List Path :=
  (walkEntries p l).filter Path.isRegularFile

/-- Those of one entry. -/
def entryFiles (p : Path) (n : Name) (node : Node) : List Path :=
  listedFiles p (Listing.done.put n node)

theorem listedFiles_put (p : Path) (n : Name) (node : Node) (l : Listing) :
    listedFiles p (l.put n node) = entryFiles p n node ++ listedFiles p l := by
  unfold entryFiles listedFiles
  rw [← List.filter_append]
  congr 1
  cases node with
  | dir entries =>
      show _ = (_ :: walkEntries _ entries ++ []) ++ walkEntries p l
      rw [List.append_nil]
      rfl
  | file | shut | other | missing => rfl

/-- A walk does not look at the listing kept in the path it is at. -/
theorem listedFiles_node (p : Path) (node : Node) (l : Listing) :
    listedFiles { p with node := node } l = listedFiles p l := by
  unfold listedFiles
  congr 1
  induction l with
  | done => rfl
  | file n size rest ih => exact congrArg (p.child n (.file size) :: ·) ih
  | dir n entries rest _ ih =>
      exact congrArg (p.child n (.dir entries)
        :: walkEntries (p.child n (.dir entries)) entries ++ ·) ih
  | shut n why rest ih => exact congrArg (p.child n (.shut why) :: ·) ih
  | other n size rest ih => exact congrArg (p.child n (.other size) :: ·) ih

theorem listedFiles_dir (p : Path) (n : Name) (entries rest : Listing) :
    listedFiles p (.dir n entries rest)
      = listedFiles (p.child n .missing) entries ++ listedFiles p rest := by
  rw [← listedFiles_node (p.child n .missing) (.dir entries)]
  unfold listedFiles
  rw [← List.filter_append]
  apply List.filter_cons_of_neg
  exact Bool.false_ne_true

/-- Walks of listings of one tree find the same files. -/
theorem Listing.Reordered.files_perm {l m : Listing} (h : l.Reordered m)
    (p : Path) : (listedFiles p l).Perm (listedFiles p m) := by
  induction h generalizing p with
  | refl l => exact .refl _
  | put n node _ ih =>
      rw [listedFiles_put, listedFiles_put]
      exact (ih p).append_left _
  | dir n rest _ ih =>
      rw [listedFiles_dir, listedFiles_dir]
      exact (ih _).append_right _
  | swap m n a b l =>
      simp only [listedFiles_put, ← List.append_assoc]
      exact List.perm_append_comm.append_right _
  | trans _ _ ih ih' => exact (ih p).trans (ih' p)

namespace Hashing

variable (h : Hashing) (md : Digest)

/-- A checksum does not depend on the order in which the entries of the
tree were listed. -/
theorem sequential_reordered {p : Path} {l m : Listing}
    (hl : l.Reordered m) {sum : String}
    (hs : h.sequentialDirectoryChecksum { p with node := .dir l } md
      = .ok sum) :
    h.sequentialDirectoryChecksum { p with node := .dir m } md = .ok sum := by
  have hperm : ((walk { p with node := .dir l }).filter
        Path.isRegularFile).Perm
      ((walk { p with node := .dir m }).filter Path.isRegularFile) := by
    show (listedFiles { p with node := .dir l } l).Perm
      (listedFiles { p with node := .dir m } m)
    rw [listedFiles_node p (.dir l), listedFiles_node p (.dir m)]
    exact hl.files_perm p
  unfold sequentialDirectoryChecksum at hs ⊢
  cases hg : h.checksumGroup md (walk { p with node := .dir l }) with
  | error e =>
      rw [hg] at hs
      cases hs
  | ok sums =>
      obtain ⟨heq, hread⟩ := h.checksumGroup_ok md hg
      rw [hg] at hs
      injection hs with hs
      rw [h.checksumGroup_eq md fun q hq => hread q (hperm.mem_iff.mpr hq),
        ← hs, heq]
      exact congrArg Except.ok
        (checksumOfChecksums_perm md (hperm.map _)).symm

/-- What the parallel computation returns, whatever the split into tasks
and whatever the order of the listing, is what the sequential one returns
on the tree, in whatever order it lists it. -/
theorem parallel_checksum_sound (p : Path) {l m : Listing}
    (hl : l.Reordered m) (n : Nat) (t t' : TaskCounter) (sum : String)
    (hrun : h.parallelDirectoryChecksum { p with node := .dir l } md n t
      = .ok sum t') :
    h.sequentialDirectoryChecksum { p with node := .dir m } md = .ok sum := by
  have hseq := h.parallel_eq_sequential md { p with node := .dir l } n t
  unfold wp at hseq
  rw [hrun] at hseq
  exact h.sequential_reordered md hl hseq

/-- A directory in the root. -/
def topOf (l : Listing) : Path where
  name := ['/', 't']
  real := .ok [letter 't']
  node := .dir l
  source := ['/', 't']
  below := []

/-- Files that hold one byte each, and other threads with a task each time
this one looks. -/
def sampleHashing : Hashing where
  fs :=
    { lstat := fun _ => .missing
      realpath := fun _ => .error "No such file or directory"
      nftw := fun _ => .error "No such file or directory"
      read := fun s => .ok [UInt8.ofNat s.length] }
  digestByName _ := none
  adler32 := fun bytes => String.ofList (bytes.map fun b => Char.ofNat b.toNat)
  sortBySize := .stable
  others _ := 1

/-- A file and a directory with another file, in both orders. -/
theorem parallel_checksum_sound_two_files :
    ∃ sum t',
      sampleHashing.parallelDirectoryChecksum
        (topOf (.file (letter 'a') 1
          (.dir (letter 'd') (.file (letter 'b') 2 .done) .done)))
        sampleHashing.adler32 2 {} = .ok sum t'
      ∧ sampleHashing.sequentialDirectoryChecksum
        (topOf (.dir (letter 'd') (.file (letter 'b') 2 .done)
          (.file (letter 'a') 1 .done)))
        sampleHashing.adler32 = .ok sum :=
  ⟨_, _, rfl, sampleHashing.parallel_checksum_sound sampleHashing.adler32
    (topOf .done) (.swap (letter 'a') (letter 'd') (.file 1)
      (.dir (.file (letter 'b') 2 .done)) .done) 2 {} _ _ rfl⟩

end Hashing

-- ======================================================= distinct names

/-- The names in a directory. -/
def Listing.names : Listing → List Name
  | .done => []
  | .file n _ rest | .dir n _ rest | .shut n _ rest | .other n _ rest =>
      n :: rest.names

/-- No directory has two entries of one name. -/
def Listing.Distinct : Listing → Prop
  | .done => True
  | .file n _ rest | .shut n _ rest | .other n _ rest =>
      n ∉ rest.names ∧ rest.Distinct
  | .dir n entries rest =>
      n ∉ rest.names ∧ entries.Distinct ∧ rest.Distinct

/-- What a walk finds is below an entry of the directory. -/
theorem walkEntries_names {q p : Path} {l : Listing}
    (h : p ∈ walkEntries q l) :
    ∃ n ∈ l.names, ∃ r, p.below = q.below ++ n :: r := by
  induction l generalizing q with
  | done => cases h
  | file n _ rest ih | shut n _ rest ih | other n _ rest ih =>
      obtain heq | h := List.mem_cons.mp h
      · exact ⟨n, List.mem_cons_self .., [], heq ▸ rfl⟩
      · obtain ⟨m, hm, hr⟩ := ih h
        exact ⟨m, List.mem_cons_of_mem n hm, hr⟩
  | dir n entries rest ih₁ ih₂ =>
      obtain h | h := List.mem_append.mp h
      · obtain heq | h := List.mem_cons.mp h
        · exact ⟨n, List.mem_cons_self .., [], heq ▸ rfl⟩
        · obtain ⟨m, -, r, hr⟩ := ih₁ h
          refine ⟨n, List.mem_cons_self .., m :: r, ?_⟩
          rw [hr]
          show (q.below ++ [n]) ++ m :: r = _
          rw [List.append_assoc]
          rfl
      · obtain ⟨m, hm, hr⟩ := ih₂ h
        exact ⟨m, List.mem_cons_of_mem n hm, hr⟩

/-- An entry, and what is below it, beside the entries after it. -/
theorem walkEntries_beside {q p p' : Path} {n : Name} {r : Place}
    {rest : Listing} (hn : n ∉ rest.names)
    (hp : p.below = q.below ++ n :: r) (hp' : p' ∈ walkEntries q rest) :
    p.below ≠ p'.below := by
  obtain ⟨m, hm, r', hr'⟩ := walkEntries_names hp'
  intro heq
  rw [hp, hr'] at heq
  have hmn := List.append_cancel_left heq
  injection hmn with hmn
  exact hn (hmn ▸ hm)

/-- A walk comes to no place twice. -/
theorem walkEntries_below {l : Listing} (hd : l.Distinct) (q : Path) :
    (walkEntries q l).Pairwise fun p p' => p.below ≠ p'.below := by
  induction l generalizing q with
  | done => exact List.Pairwise.nil
  | file n _ rest ih | shut n _ rest ih | other n _ rest ih =>
      refine List.Pairwise.cons ?_ (ih hd.2 q)
      intro p' hp'
      exact walkEntries_beside hd.1 rfl hp'
  | dir n entries rest ih₁ ih₂ =>
      obtain ⟨hn, hentries, hrest⟩ := hd
      show ((_ :: _) ++ _).Pairwise _
      refine List.pairwise_append.mpr ⟨?_, ih₂ hrest q, ?_⟩
      · refine List.Pairwise.cons ?_ (ih₁ hentries _)
        intro p' hp'
        obtain ⟨m, -, r, hr⟩ := walkEntries_names hp'
        intro heq
        rw [hr] at heq
        have hlen := congrArg List.length heq
        rw [List.length_append] at hlen
        simp at hlen
      · intro p hp p' hp'
        obtain heq | hp := List.mem_cons.mp hp
        · exact walkEntries_beside (r := []) hn (heq ▸ rfl) hp'
        · obtain ⟨m, -, r, hr⟩ := walkEntries_names hp
          refine walkEntries_beside (r := m :: r) hn ?_ hp'
          rw [hr]
          show (q.below ++ [n]) ++ m :: r = _
          rw [List.append_assoc]
          rfl

/-- The paths of a walk have different names. -/
theorem walk_names {p : Path}
    (hd : ∀ l, p.node = .dir l → l.Distinct) :
    (walk p).Pairwise fun f g => f.name ≠ g.name := by
  unfold walk
  split
  · rename_i entries hnode
    refine (walkEntries_below (hd entries hnode) p).imp_of_mem ?_
    intro f g hf hg hne heq
    obtain ⟨pre, hf⟩ := walkEntries_under hf
    obtain ⟨pre', hg⟩ := walkEntries_under hg
    have hcomp := hf.name.symm.trans ((congrArg components heq).trans hg.name)
    have hpre : pre = pre' := by
      have hmap := List.append_cancel_left hcomp
      exact List.map_injective_iff.mpr (fun a b h => Name.ext h) hmap
    exact hne (by rw [hf.below, hg.below, hpre])
  · exact List.Pairwise.nil

-- ================================================================ runs

theorem foldl_sizes (l : List UInt64) (a : UInt64) :
    l.foldl (fun sum size => sum + size) a = a + sumSizes l := by
  unfold sumSizes
  induction l generalizing a with
  | nil => exact (UInt64.add_zero a).symm
  | cons x l ih =>
      rw [List.foldl_cons, List.foldl_cons, ih (a + x), ih (0 + x),
        UInt64.zero_add, UInt64.add_assoc]

theorem sumSizes_cons (x : UInt64) (l : List UInt64) :
    sumSizes (x :: l) = x + sumSizes l := by
  show l.foldl (fun sum size => sum + size) (0 + x) = _
  rw [foldl_sizes, UInt64.zero_add]

theorem sumSizes_snoc (l : List UInt64) (x : UInt64) :
    sumSizes (l ++ [x]) = sumSizes l + x := by
  unfold sumSizes
  rw [List.foldl_append]
  rfl

theorem sumSizes_perm {l m : List UInt64} (h : l.Perm m) :
    sumSizes l = sumSizes m := by
  induction h with
  | nil => rfl
  | cons x _ ih => rw [sumSizes_cons, sumSizes_cons, ih]
  | swap x y l =>
      rw [sumSizes_cons, sumSizes_cons, sumSizes_cons, sumSizes_cons,
        ← UInt64.add_assoc, ← UInt64.add_assoc, UInt64.add_comm y x]
  | trans _ _ ih ih' => exact ih.trans ih'

/-- Sizes whose sum reaches a bound with the last of them. -/
def Run (bound : UInt64) (r : List UInt64) : Prop :=
  bound ≤ sumSizes r ∧ ∀ k < r.length, sumSizes (r.take k) < bound

/-- Sizes that are `m` runs, one after the other. -/
def Runs (bound : UInt64) (m : Nat) (l : List UInt64) : Prop :=
  ∃ runs : List (List UInt64), runs.length = m
    ∧ (∀ r ∈ runs, Run bound r) ∧ l = runs.flatten

/-- Groups of sizes that are filled one after the other. -/
inductive Filling (bound : UInt64) : List (List UInt64) → List UInt64 → Prop
  | nil : Filling bound [] []
  | full {r : List UInt64} {rs : List (List UInt64)} {l : List UInt64}
      (hr : Run bound r) (h : Filling bound rs l) :
      Filling bound (r :: rs) (r ++ l)
  | part {r : List UInt64} (n : Nat)
      (hr : ∀ k ≤ r.length, sumSizes (r.take k) < bound) :
      Filling bound (r :: List.replicate n []) r

/-- Put a size into the first group that is below the bound, if any. -/
def placeSize (bound x : UInt64) : List (List UInt64) → List (List UInt64)
  | [] => []
  | r :: rs =>
      if sumSizes r < bound then (r ++ [x]) :: rs
      else r :: placeSize bound x rs

/-- Some group is below the bound. -/
def Room (bound : UInt64) (rs : List (List UInt64)) : Prop :=
  ∃ r ∈ rs, sumSizes r < bound

variable {bound : UInt64} {rs : List (List UInt64)} {l : List UInt64}

theorem Filling.start (n : Nat) :
    Filling bound (List.replicate n []) [] := by
  by_cases h : bound ≤ 0
  · induction n with
    | zero => exact .nil
    | succ n ih =>
        refine Filling.full (r := []) ⟨h, ?_⟩ ih
        intro k hk
        exact absurd hk (Nat.not_lt_zero k)
  · cases n with
    | zero => exact .nil
    | succ n =>
        refine Filling.part n ?_
        intro k _
        rw [List.take_nil]
        exact UInt64.not_le.mp h

theorem Filling.place (h : Filling bound rs l) (hroom : Room bound rs)
    (x : UInt64) : Filling bound (placeSize bound x rs) (l ++ [x]) := by
  induction h with
  | nil =>
      obtain ⟨r, hr, -⟩ := hroom
      cases hr
  | @full r rs l hr _ ih =>
      have hfull : ¬ sumSizes r < bound := UInt64.not_lt.mpr hr.1
      unfold placeSize
      rw [if_neg hfull, List.append_assoc]
      refine .full hr (ih ?_)
      obtain ⟨r', hr', hlt⟩ := hroom
      obtain heq | hr' := List.mem_cons.mp hr'
      · exact absurd (heq ▸ hlt) hfull
      · exact ⟨r', hr', hlt⟩
  | @part r n hr =>
      have hlt : sumSizes r < bound := by
        have h := hr r.length (Nat.le_refl _)
        rwa [List.take_length] at h
      have hshort : ∀ k < (r ++ [x]).length,
          sumSizes ((r ++ [x]).take k) < bound := by
        intro k hk
        rw [List.length_append] at hk
        have hk : k ≤ r.length := Nat.le_of_lt_succ hk
        rw [List.take_append_of_le_length hk]
        exact hr k hk
      unfold placeSize
      rw [if_pos hlt]
      by_cases hfull : bound ≤ sumSizes (r ++ [x])
      · have h := Filling.full ⟨hfull, hshort⟩ (Filling.start n)
        rwa [List.append_nil] at h
      · refine .part n ?_
        intro k hk
        obtain hk | hk := Nat.lt_or_eq_of_le hk
        · exact hshort k hk
        · rw [hk, List.take_length]
          exact UInt64.not_le.mp hfull

/-- Without room all groups are runs. -/
theorem Filling.runs (h : Filling bound rs l) (hroom : ¬ Room bound rs) :
    (∀ r ∈ rs, Run bound r) ∧ l = rs.flatten := by
  induction h with
  | nil => exact ⟨fun r hr => absurd hr List.not_mem_nil, rfl⟩
  | @full r rs l hr _ ih =>
      obtain ⟨hall, hl⟩ := ih fun ⟨r', hr', hlt⟩ =>
        hroom ⟨r', List.mem_cons_of_mem r hr', hlt⟩
      constructor
      · intro r' hr'
        obtain heq | hr' := List.mem_cons.mp hr'
        · exact heq ▸ hr
        · exact hall r' hr'
      · rw [List.flatten_cons, ← hl]
  | @part r n hr =>
      have hlt := hr r.length (Nat.le_refl _)
      rw [List.take_length] at hlt
      exact absurd ⟨r, List.mem_cons_self .., hlt⟩ hroom

/-- A list begins with one run at most. -/
theorem Run.unique {r u l m : List UInt64} (hr : Run bound r)
    (hu : Run bound u) (h : r ++ l = u ++ m) : r = u := by
  have short : ∀ {a b x y : List UInt64}, Run bound a → Run bound b →
      a ++ x = b ++ y → ¬ a.length < b.length := by
    intro a b x y ha hb hab hlt
    have htake : b.take a.length = a := by
      have h := congrArg (List.take a.length) hab
      rw [List.take_left, List.take_append_of_le_length hlt.le] at h
      exact h.symm
    have hsum := hb.2 a.length hlt
    rw [htake] at hsum
    exact UInt64.not_lt.mpr ha.1 hsum
  have hlen : r.length = u.length :=
    Nat.le_antisymm (Nat.not_lt.mp (short hu hr h.symm))
      (Nat.not_lt.mp (short hr hu h))
  exact (List.append_inj h hlen).1

/-- If the sizes are as many runs as there are groups, no group has
room. -/
theorem Filling.not_room (h : Filling bound rs l)
    (hruns : Runs bound rs.length l) : ¬ Room bound rs := by
  obtain ⟨us, hlen, hall, heq⟩ := hruns
  induction h generalizing us with
  | nil =>
      intro hroom
      obtain ⟨r, hr, -⟩ := hroom
      cases hr
  | @full r rs l hr _ ih =>
      cases us with
      | nil => cases hlen
      | cons u us =>
          have hu := hall u (List.mem_cons_self ..)
          rw [List.flatten_cons] at heq
          obtain rfl := hr.unique hu heq
          have hrest := ih us (Nat.succ.inj hlen)
            (fun r hr => hall r (List.mem_cons_of_mem _ hr))
            (List.append_cancel_left heq)
          intro hroom
          obtain ⟨r', hr', hlt⟩ := hroom
          obtain heq | hr' := List.mem_cons.mp hr'
          · exact UInt64.not_lt.mpr hr.1 (heq ▸ hlt)
          · exact hrest ⟨r', hr', hlt⟩
  | @part r n hr =>
      cases us with
      | nil => cases hlen
      | cons u us =>
          -- the open group would hold a whole run
          have hu := hall u (List.mem_cons_self ..)
          rw [List.flatten_cons] at heq
          have hlt := hr u.length (by
            rw [heq, List.length_append]
            exact Nat.le_add_right _ _)
          rw [heq, List.take_left] at hlt
          exact absurd hlt (UInt64.not_lt.mpr hu.1)

theorem Filling.room_iff (h : Filling bound rs l) :
    Room bound rs ↔ ¬ Runs bound rs.length l := by
  constructor
  · exact fun hroom hruns => h.not_room hruns hroom
  · intro hruns
    by_contra hroom
    obtain ⟨hall, hl⟩ := h.runs hroom
    exact hruns ⟨rs, rfl, hall, hl⟩

theorem length_placeSize (bound x : UInt64) (rs : List (List UInt64)) :
    (placeSize bound x rs).length = rs.length := by
  induction rs with
  | nil => rfl
  | cons r rs ih =>
      unfold placeSize
      split
      · rfl
      · rw [List.length_cons, ih, List.length_cons]

-- ========================================================== the groups

/-- A path with a new name is inserted. -/
theorem insertBy_perm {α : Type} {key : α → PathName} {a : α} {l : List α}
    (h : ∀ b ∈ l, key a ≠ key b) : (insertBy key a l).Perm (a :: l) := by
  induction l with
  | nil => exact .refl _
  | cons b l ih =>
      unfold insertBy
      split
      · exact .refl _
      · rename_i hab
        split
        · exact ((ih fun c hc => h c (List.mem_cons_of_mem b hc)).cons b).trans
            (.swap a b l)
        · rename_i hba
          exact absurd (List.le_antisymm hba hab) (h b (List.mem_cons_self ..))

/-- The groups hold the sizes. -/
def Holds (gs : List PathGroup) (rs : List (List UInt64)) : Prop :=
  gs.map PathGroup.size = rs.map sumSizes

variable {gs : List PathGroup}

theorem Holds.length (h : Holds gs rs) : gs.length = rs.length := by
  have hlen := congrArg List.length h
  rwa [List.length_map, List.length_map] at hlen

theorem Holds.place (h : Holds gs rs) (bound : UInt64) (p : Path) :
    Holds (placeFile bound p gs) (placeSize bound p.size rs) := by
  induction gs generalizing rs with
  | nil =>
      obtain rfl := List.map_eq_nil_iff.mp h.symm
      rfl
  | cons g gs ih =>
      cases rs with
      | nil => cases h
      | cons r rs =>
          injection h with hsize hrest
          unfold placeFile placeSize
          rw [hsize]
          split
          · show (g.size + p.size) :: gs.map PathGroup.size
              = sumSizes (r ++ [p.size]) :: rs.map sumSizes
            rw [sumSizes_snoc, hsize, hrest]
          · show g.size :: (placeFile bound p gs).map PathGroup.size
              = sumSizes r :: (placeSize bound p.size rs).map sumSizes
            rw [hsize, ih hrest]

/-- With room in the groups a file with a new name is placed. -/
theorem placeFile_room (h : Holds gs rs) (hroom : Room bound rs)
    {p : Path} (hnew : ∀ f ∈ gs.flatMap PathGroup.paths, p.name ≠ f.name) :
    ((placeFile bound p gs).flatMap PathGroup.paths).Perm
        (p :: gs.flatMap PathGroup.paths)
      ∧ sumSizes ((placeFile bound p gs).map PathGroup.size)
        = p.size + sumSizes (gs.map PathGroup.size) := by
  induction gs generalizing rs with
  | nil =>
      obtain rfl := List.map_eq_nil_iff.mp h.symm
      obtain ⟨r, hr, -⟩ := hroom
      cases hr
  | cons g gs ih =>
      cases rs with
      | nil => cases h
      | cons r rs =>
          injection h with hsize hrest
          unfold placeFile
          rw [hsize]
          split
          · constructor
            · show (insertPath p g.paths ++ gs.flatMap PathGroup.paths).Perm
                (p :: g.paths ++ gs.flatMap PathGroup.paths)
              apply List.Perm.append_right
              apply insertBy_perm
              intro f hf
              exact hnew f (List.mem_append_left _ hf)
            · show sumSizes ((g.size + p.size) :: gs.map PathGroup.size)
                = p.size + sumSizes (g.size :: gs.map PathGroup.size)
              rw [sumSizes_cons, sumSizes_cons, ← UInt64.add_assoc,
                UInt64.add_comm g.size]
          · rename_i hfull
            obtain ⟨hpaths, hsum⟩ := ih hrest
              (by
                obtain ⟨r', hr', hlt⟩ := hroom
                obtain heq | hr' := List.mem_cons.mp hr'
                · exact absurd (heq ▸ hlt) hfull
                · exact ⟨r', hr', hlt⟩)
              (fun f hf => hnew f (List.mem_append_right _ hf))
            constructor
            · show (g.paths ++ (placeFile bound p gs).flatMap _).Perm
                (p :: (g.paths ++ gs.flatMap PathGroup.paths))
              exact (hpaths.append_left g.paths).trans List.perm_middle
            · show sumSizes (g.size :: (placeFile bound p gs).map _)
                = p.size + sumSizes (g.size :: gs.map PathGroup.size)
              rw [sumSizes_cons, sumSizes_cons, hsum, ← UInt64.add_assoc,
                ← UInt64.add_assoc, UInt64.add_comm g.size]

/-- Without room a file is dropped. -/
theorem placeFile_full (h : Holds gs rs) (hroom : ¬ Room bound rs)
    (p : Path) : placeFile bound p gs = gs := by
  induction gs generalizing rs with
  | nil => rfl
  | cons g gs ih =>
      cases rs with
      | nil => cases h
      | cons r rs =>
          injection h with hsize hrest
          have hfull : ¬ g.size < bound := by
            rw [hsize]
            exact fun hlt => hroom ⟨r, List.mem_cons_self .., hlt⟩
          unfold placeFile
          rw [if_neg hfull, ih hrest]
          intro h
          obtain ⟨r', hr', hlt⟩ := h
          exact hroom ⟨r', List.mem_cons_of_mem r hr', hlt⟩

theorem placeFiles_full (h : Holds gs rs) (hroom : ¬ Room bound rs)
    (files : List Path) :
    files.foldl (fun gs p => placeFile bound p gs) gs = gs := by
  induction files with
  | nil => rfl
  | cons p files ih =>
      rw [List.foldl_cons, placeFile_full h hroom]
      exact ih

/-- Names that are new, and differ from each other. -/
def New (gs : List PathGroup) (files : List Path) : Prop :=
  files.Pairwise (fun f g => f.name ≠ g.name)
    ∧ ∀ p ∈ files, ∀ f ∈ gs.flatMap PathGroup.paths, p.name ≠ f.name

theorem New.place {p : Path} {files : List Path}
    (h : New gs (p :: files)) : New (placeFile bound p gs) files := by
  obtain ⟨hpair, hnew⟩ := h
  obtain ⟨hp, hpair⟩ := List.pairwise_cons.mp hpair
  refine ⟨hpair, ?_⟩
  intro q hq f hf
  obtain heq | hf :=
    List.mem_cons.mp ((placeFile_subperm bound p gs).subset hf)
  · exact heq ▸ (hp q hq).symm
  · exact hnew q (List.mem_cons_of_mem p hq) f hf

/-- If the sizes before no file are as many runs as there are groups, all
files are placed. -/
theorem placeFiles_all {files : List Path} (hnew : New gs files)
    (h : Holds gs rs) (hf : Filling bound rs l)
    (hruns : ∀ j < files.length,
      ¬ Runs bound rs.length (l ++ (files.map Path.size).take j)) :
    ((files.foldl (fun gs p => placeFile bound p gs) gs).flatMap
        PathGroup.paths).Perm (files ++ gs.flatMap PathGroup.paths)
      ∧ sumSizes ((files.foldl (fun gs p => placeFile bound p gs) gs).map
          PathGroup.size)
        = sumSizes (files.map Path.size)
          + sumSizes (gs.map PathGroup.size) := by
  induction files generalizing gs rs l with
  | nil => exact ⟨.refl _, (UInt64.zero_add _).symm⟩
  | cons p files ih =>
      have hroom : Room bound rs := by
        apply hf.room_iff.mpr
        have h0 := hruns 0 (Nat.zero_lt_succ _)
        rwa [List.take_zero, List.append_nil] at h0
      obtain ⟨hpaths, hsum⟩ :=
        placeFile_room h hroom (hnew.2 p (List.mem_cons_self ..))
      obtain ⟨ihpaths, ihsum⟩ := ih hnew.place (h.place bound p)
        (hf.place hroom p.size) (by
          intro j hj
          have hj := hruns (j + 1) (Nat.succ_lt_succ hj)
          rw [length_placeSize, List.append_assoc]
          exact hj)
      rw [List.foldl_cons]
      constructor
      · refine ihpaths.trans ((hpaths.append_left files).trans ?_)
        exact List.perm_middle
      · rw [ihsum, hsum, List.map_cons, sumSizes_cons, ← UInt64.add_assoc,
          UInt64.add_comm p.size]

/-- If they are before some file, a file is not placed. -/
theorem placeFiles_lost {files : List Path} (hnew : New gs files)
    (h : Holds gs rs) (hf : Filling bound rs l) {j : Nat}
    (hj : j < files.length)
    (hruns : Runs bound rs.length (l ++ (files.map Path.size).take j)) :
    ∃ f ∈ files, f ∉ (files.foldl (fun gs p => placeFile bound p gs)
      gs).flatMap PathGroup.paths := by
  induction files generalizing gs rs l j with
  | nil => exact absurd hj (Nat.not_lt_zero j)
  | cons p files ih =>
      by_cases hroom : Room bound rs
      · have hpos : j ≠ 0 := by
          intro h0
          rw [h0, List.take_zero, List.append_nil] at hruns
          exact hf.not_room hruns hroom
        obtain ⟨k, rfl⟩ := Nat.exists_eq_succ_of_ne_zero hpos
        obtain ⟨f, hmem, hlost⟩ := ih hnew.place (h.place bound p)
          (hf.place hroom p.size) (Nat.lt_of_succ_lt_succ hj) (by
            rw [length_placeSize, List.append_assoc]
            exact hruns)
        exact ⟨f, List.mem_cons_of_mem p hmem, hlost⟩
      · refine ⟨p, List.mem_cons_self .., ?_⟩
        rw [placeFiles_full h hroom]
        intro hmem
        exact hnew.2 p (List.mem_cons_self ..) p hmem rfl

-- ======================================================= the partition

/-- The largest first. -/
def descending (sizes : List UInt64) : List UInt64 :=
  sizes.insertionSort fun x y => y ≤ x

/-- Sizes, sorted: how paths of one size are ordered does not show. -/
theorem sizes_sorted {l m : List Path} (hperm : l.Perm m)
    (hl : l.Pairwise fun p q => q.size ≤ p.size) :
    l.map Path.size = descending (m.map Path.size) := by
  have : Std.Total (fun x y : UInt64 => y ≤ x) :=
    ⟨fun x y => UInt64.le_total y x⟩
  have : IsTrans UInt64 (fun x y : UInt64 => y ≤ x) :=
    ⟨fun x y z h1 h2 => UInt64.le_trans h2 h1⟩
  apply List.Perm.eq_of_pairwise
    (fun a b _ _ hab hba => UInt64.le_antisymm hba hab)
  · exact List.pairwise_map.mpr hl
  · exact List.pairwise_insertionSort _ _
  · exact (hperm.map _).trans (List.perm_insertionSort _ _).symm

/-- The size at which a group is closed: the even share of the files, or
the first sum of leading sizes that reaches it, among as many as an even
share of the paths. -/
def closingSize (paths : List Path) (m : Nat) : UInt64 :=
  let share := UInt64.ofNat ((walkSize paths).toNat / m)
  let leading := (descending (paths.map Path.size)).take (paths.length / m)
  ((leading.scanl (· + ·) 0).tail.find? (share ≤ ·)).getD share

theorem adjustSize_eq (share : UInt64) (n : Nat) (l : List Path)
    (sum : UInt64) :
    adjustSize share n l sum
      = (((((l.map Path.size).take n).scanl (· + ·) sum).tail).find?
          (share ≤ ·)).getD share := by
  induction n generalizing l sum with
  | zero =>
      rw [List.take_zero]
      cases l <;> rfl
  | succ n ih =>
      cases l with
      | nil => rfl
      | cons p l =>
          unfold adjustSize
          rw [List.map_cons, List.take_succ_cons, List.scanl_cons,
            List.tail_cons]
          have hhead : ∀ (x : UInt64) (s : List UInt64),
              s.scanl (· + ·) x = x :: (s.scanl (· + ·) x).tail := by
            intro x s
            cases s <;> simp
          rw [hhead]
          by_cases h : share ≤ sum + p.size
          · rw [if_pos h, List.find?_cons_of_pos (by simpa using h)]
            rfl
          · rw [if_neg h, List.find?_cons_of_neg (by simpa using h), ih]

/-- The sizes of the regular files, the largest first. -/
def fileSizes (paths : List Path) : List UInt64 :=
  descending ((paths.filter Path.isRegularFile).map Path.size)

/-- The largest files fill all `m` groups, and a file comes after them. -/
def Overfull (paths : List Path) (m : Nat) : Prop :=
  ∃ j < (fileSizes paths).length,
    Runs (closingSize paths m) m ((fileSizes paths).take j)

/-- Every regular file is in exactly one group, and the sizes of the
groups add up to the size of the walk. -/
def KeepsAll (paths : List Path) (gs : List PathGroup) : Prop :=
  (∀ f ∈ paths.filter Path.isRegularFile,
    ∃! i : Nat, ∃ g : PathGroup, gs[i]? = some g ∧ f ∈ g.paths)
  ∧ sumSizes (gs.map PathGroup.size) = walkSize paths

/-- In groups that share nothing a path is in one group at most. -/
theorem group_unique {gs : List PathGroup}
    (h : (gs.flatMap PathGroup.paths).Nodup) {f : Path} {i j : Nat}
    {g g' : PathGroup} (hg : gs[i]? = some g) (hf : f ∈ g.paths)
    (hg' : gs[j]? = some g') (hf' : f ∈ g'.paths) : i = j := by
  have hdisj := (List.nodup_flatMap.mp h).2
  rw [List.pairwise_iff_getElem] at hdisj
  obtain ⟨hi, rfl⟩ := List.getElem?_eq_some_iff.mp hg
  obtain ⟨hj, rfl⟩ := List.getElem?_eq_some_iff.mp hg'
  obtain hlt | heq | hlt := Nat.lt_trichotomy i j
  · exact absurd hf' (hdisj i j hi hj hlt hf)
  · exact heq
  · exact absurd hf (hdisj j i hj hi hlt hf')

/-- Groups that hold the files, each once. -/
theorem keepsAll_of_perm {paths files : List Path} {gs : List PathGroup}
    (hnodup : files.Nodup)
    (hfiles : files.Perm (paths.filter Path.isRegularFile))
    (hall : (gs.flatMap PathGroup.paths).Perm files)
    (hsum : sumSizes (gs.map PathGroup.size)
      = sumSizes (files.map Path.size)) : KeepsAll paths gs := by
  constructor
  · intro f hf
    have hmem := hall.mem_iff.mpr (hfiles.mem_iff.mpr hf)
    obtain ⟨g, hg, hfg⟩ := List.mem_flatMap.mp hmem
    obtain ⟨i, hi⟩ := List.mem_iff_getElem?.mp hg
    refine ⟨i, ⟨g, hi, hfg⟩, ?_⟩
    intro j hj
    obtain ⟨g', hg', hfg'⟩ := hj
    exact group_unique (hall.nodup_iff.mpr hnodup) hg' hfg' hi hfg
  · exact hsum.trans (sumSizes_perm (hfiles.map _))

theorem emptyGroups_paths (m : Nat) :
    (List.replicate m ({} : PathGroup)).flatMap PathGroup.paths = [] := by
  rw [List.flatMap_eq_nil_iff]
  intro g hg
  rw [List.eq_of_mem_replicate hg]

theorem emptyGroups_size (m : Nat) :
    sumSizes ((List.replicate m ({} : PathGroup)).map PathGroup.size)
      = 0 := by
  induction m with
  | zero => rfl
  | succ m ih =>
      rw [List.replicate_succ, List.map_cons, sumSizes_cons, ih]
      rfl

theorem Holds.start (m : Nat) :
    Holds (List.replicate m {}) (List.replicate m []) := by
  unfold Holds
  rw [List.map_replicate, List.map_replicate]
  rfl

/-- Files placed into empty groups: all of them are kept if and only if
they do not fill the groups before the last of them. -/
theorem placeFiles_keepsAll {paths files : List Path} (m : Nat)
    (hfiles : files.Perm (paths.filter Path.isRegularFile))
    (hnames : files.Pairwise fun f g => f.name ≠ g.name) :
    KeepsAll paths (files.foldl (fun gs p => placeFile bound p gs)
        (List.replicate m {}))
      ↔ ¬ ∃ j < files.length,
        Runs bound m ((files.map Path.size).take j) := by
  have hnew : New (List.replicate m {}) files := by
    refine ⟨hnames, ?_⟩
    intro q _ f hf
    rw [emptyGroups_paths] at hf
    cases hf
  have hfill : Filling bound (List.replicate m []) [] := .start m
  constructor
  · intro hkeeps hover
    obtain ⟨j, hj, hruns⟩ := hover
    obtain ⟨f, hf, hlost⟩ := placeFiles_lost hnew (.start m) hfill hj
      (by rwa [List.length_replicate, List.nil_append])
    obtain ⟨i, ⟨g, hg, hmem⟩, -⟩ := hkeeps.1 f (hfiles.mem_iff.mp hf)
    exact hlost (List.mem_flatMap_of_mem (List.mem_of_getElem? hg) hmem)
  · intro hover
    obtain ⟨hall, hsum⟩ := placeFiles_all hnew (.start m) hfill (by
      intro j hj hruns
      rw [List.length_replicate, List.nil_append] at hruns
      exact hover ⟨j, hj, hruns⟩)
    rw [emptyGroups_paths, List.append_nil] at hall
    rw [emptyGroups_size, UInt64.add_zero] at hsum
    have hnodup : files.Nodup := hnames.imp fun {a b} hne (heq : a = b) =>
      hne (congrArg Path.name heq)
    exact keepsAll_of_perm hnodup hfiles hall hsum

/-- `partition` keeps every file of a walk if and only if the largest
files do not fill all the groups before the last file. -/
theorem partition_keeps_all_iff (s : SortBySize) (p : Path)
    (hd : ∀ l, p.node = .dir l → l.Distinct) (m : Nat) (hm : 1 ≤ m) :
    ∃ gs, partition s (walk p) m = .ok gs
      ∧ (KeepsAll (walk p) gs ↔ ¬ Overfull (walk p) m) := by
  generalize hpaths : walk p = paths
  have hnames : paths.Pairwise fun f g => f.name ≠ g.name :=
    hpaths ▸ walk_names hd
  have hsort := s.perm paths
  have hfiles := hsort.filter Path.isRegularFile
  have hsizes : ((s.sort paths).filter Path.isRegularFile).map Path.size
      = fileSizes paths :=
    sizes_sorted hfiles ((s.sorted paths).filter _)
  have hbound : adjustSize (UInt64.ofNat ((walkSize paths).toNat / m))
      ((s.sort paths).length / m) (s.sort paths) 0 = closingSize paths m := by
    rw [adjustSize_eq, sizes_sorted hsort (s.sorted paths), hsort.length_eq]
    rfl
  unfold partition
  rw [if_neg (Nat.pos_iff_ne_zero.mp hm)]
  dsimp only
  rw [hbound]
  refine ⟨_, rfl, ?_⟩
  rw [placeFiles_keepsAll m hfiles
    ((hfiles.pairwise_iff (fun h => h.symm)).mpr (hnames.filter _)), hsizes]
  unfold Overfull
  rw [← hsizes, List.length_map]

/-- Three files of one byte and two groups: each group is closed by its
first file. -/
theorem partition_loses_file :
    ¬ ∀ (s : SortBySize) (p : Path),
      (∀ l, p.node = .dir l → l.Distinct) → ∀ m, 1 ≤ m →
        ∃ gs, partition s (walk p) m = .ok gs ∧ KeepsAll (walk p) gs := by
  intro h
  obtain ⟨gs, hgs, -, hsum⟩ := h .stable
    (Hashing.topOf (.file (letter 'a') 1 (.file (letter 'b') 1
      (.file (letter 'c') 1 .done))))
    (by
      intro l hl
      injection hl with hl
      subst hl
      simp only [Listing.Distinct, Listing.names]
      decide)
    2 (by decide)
  injection hgs with hgs
  subst hgs
  revert hsum
  decide +kernel

/-- Two files and two groups. -/
theorem partition_keeps_all_two :
    ∃ gs, partition .stable (walk (Hashing.topOf (.file (letter 'a') 1
        (.file (letter 'b') 2 .done)))) 2 = .ok gs
      ∧ (KeepsAll (walk (Hashing.topOf (.file (letter 'a') 1
          (.file (letter 'b') 2 .done)))) gs
        ↔ ¬ Overfull (walk (Hashing.topOf (.file (letter 'a') 1
          (.file (letter 'b') 2 .done)))) 2) :=
  partition_keeps_all_iff .stable _ (by
    intro l hl
    injection hl with hl
    subst hl
    simp only [Listing.Distinct, Listing.names]
    decide) 2 (by decide)

end BigDataExpress
