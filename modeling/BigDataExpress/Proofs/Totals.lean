/-
The size of a tree and the sizes of its groups.

The two come from different walks. nftw(3) follows links, and it goes to
a directory once in one walk; the division reads directories and takes a
link for nothing, but asks nftw for the size of each directory it comes
to. Both are compared at a directory that is split
(`divideEntries_sum`): what its entries were reported with is what the
groups got for them, less what was reported through links, and with what
a directory in it has by itself and was not reported with from above.
-/
import BigDataExpress.Proofs.Deposits
import BigDataExpress.Proofs.Groups

namespace BigDataExpress

-- ============================================================ the reports

/-- What nftw(3) reports of a directory: the way to each file, and its
size. -/
abbrev Reports := PathName → List (Place × UInt64)

namespace Reports

variable (w : Reports)

/-- All that is reported. -/
def all (q : Path) : UInt64 :=
  sumSizes ((w q.name).map Prod.snd)

/-- What is reported through one entry. -/
def through (q : Path) (n : Name) : UInt64 :=
  sumSizes (((w q.name).filter fun x => x.1.head? = some n).map Prod.snd)

end Reports

/-- The regular files of a directory. -/
def Listing.regulars : Listing → List (Name × UInt64)
  | .done => []
  | .file n size rest => (n, size) :: rest.regulars
  | .dir _ _ rest => rest.regulars
  | .shut _ _ rest => rest.regulars
  | .other _ _ rest => rest.regulars

/-- The reports are those of nftw(3), below each directory of the tree.
Every file is reported through an entry, and an entry that is a regular
file once. -/
structure Reports.Of (w : Reports) (fs : FileSystem) (p : Path) :
    Prop where
  nftw : ∀ q ∈ p :: walk p, q.isDirectory = true → ∀ sizes,
    fs.nftw q.name = .ok sizes → sizes = (w q.name).map Prod.snd
  below : ∀ q ∈ p :: walk p, ∀ l, q.node = .dir l → ∀ x ∈ w q.name,
    ∃ n ∈ l.names, x.1.head? = some n
  files : ∀ q ∈ p :: walk p, ∀ l, q.node = .dir l → ∀ f ∈ l.regulars,
    (w q.name).filter (fun x => x.1.head? = some f.1) = [([f.1], f.2)]
  names : ∀ q ∈ p :: walk p, ∀ l, q.node = .dir l → l.names.Nodup

variable (fs : FileSystem) (w : Reports) (maxSize : UInt64)

/-- Over the directories that are split: what is reported through entries
that are neither files nor directories. -/
def linked (q : Path) : Listing → UInt64
  | .done => 0
  | .file _ _ rest => linked q rest
  | .dir n entries rest =>
      let d := q.child n (.dir entries)
      (if fits fs maxSize d then 0 else linked d entries) + linked q rest
  | .shut _ _ rest => linked q rest
  | .other n _ rest => w.through q n + linked q rest

/-- Over the directories that are split: what the directories in it have
by themselves and are not reported with through it. -/
def missed (q : Path) : Listing → UInt64
  | .done => 0
  | .file _ _ rest => missed q rest
  | .dir n entries rest =>
      let d := q.child n (.dir entries)
      (w.all d - w.through q n)
        + (if fits fs maxSize d then 0 else missed d entries)
        + missed q rest
  | .shut n why rest =>
      (w.all (q.child n (.shut why)) - w.through q n) + missed q rest
  | .other _ _ rest => missed q rest

/-- What a path is reported with and its groups do not have. -/
def lost (p : Path) : UInt64 :=
  match p.node with
  | .file _ => 0
  | .shut _ => 0
  | .dir l => if fits fs maxSize p then 0 else linked fs w maxSize p l
  | _ => p.size

/-- What the groups of a path have and it is not reported with. -/
def gained (p : Path) : UInt64 :=
  match p.node with
  | .dir l => if fits fs maxSize p then 0 else missed fs w maxSize p l
  | _ => 0

variable {fs w maxSize} {maxFiles : UInt64}

theorem sumSizes_append (l m : List UInt64) :
    sumSizes (l ++ m) = sumSizes l + sumSizes m := by
  induction l with
  | nil => exact (UInt64.zero_add _).symm
  | cons x l ih =>
      rw [List.cons_append, sumSizes_cons, sumSizes_cons, ih,
        UInt64.add_assoc]

theorem sumSizes_singleton (x : UInt64) : sumSizes [x] = x :=
  UInt64.zero_add x

/-- What is reported is reported through the entries. -/
theorem sum_through {reports : List (Place × UInt64)} {names : List Name}
    (hn : names.Nodup)
    (h : ∀ x ∈ reports, ∃ n ∈ names, x.1.head? = some n) :
    sumSizes (names.map fun n => sumSizes
        ((reports.filter fun x => x.1.head? = some n).map Prod.snd))
      = sumSizes (reports.map Prod.snd) := by
  induction names generalizing reports with
  | nil =>
      have hnil : reports = [] := by
        apply List.eq_nil_iff_forall_not_mem.mpr
        intro x hx
        obtain ⟨n, hn, -⟩ := h x hx
        cases hn
      rw [hnil]
      rfl
  | cons n names ih =>
      obtain ⟨hnot, hn⟩ := List.nodup_cons.mp hn
      -- the reports through `n`, and the others
      have hsplit := sumSizes_perm ((List.filter_append_perm
        (fun x : Place × UInt64 => x.1.head? = some n) reports).map Prod.snd)
      rw [List.map_append, sumSizes_append] at hsplit
      rw [List.map_cons, sumSizes_cons, ← hsplit]
      congr 1
      rw [← ih hn]
      · congr 1
        apply List.map_congr_left
        intro m hm
        congr 2
        rw [List.filter_filter]
        apply List.filter_congr
        intro x _
        by_cases hx : x.1.head? = some m
        · have hne : m ≠ n := fun hc => hnot (hc ▸ hm)
          simp [hx, hne]
        · simp [hx]
      · intro x hx
        obtain ⟨hx, hne⟩ := List.mem_filter.mp hx
        obtain ⟨m, hm, hhead⟩ := h x hx
        rcases List.mem_cons.mp hm with rfl | hm
        · simp [hhead] at hne
        · exact ⟨m, hm, hhead⟩

-- ============================================================= the groups

/-- The bytes in the groups and in the open one. -/
def Dividing.total (st : Dividing) : UInt64 :=
  sumSizes (st.super.groups.map PathGroup.size) + st.group.size

theorem Dividing.flush_total (st : Dividing) :
    st.flush.total = st.total := by
  show sumSizes ((st.super.groups ++ [st.group]).map PathGroup.size) + 0
    = _
  rw [List.map_append, sumSizes_append, UInt64.add_zero,
    List.map_singleton, sumSizes_singleton]
  rfl

theorem Dividing.finish_total (st : Dividing) :
    st.finish.total = st.total := by
  unfold finish
  split
  · exact st.flush_total
  · rfl

theorem Dividing.addFile_total (st : Dividing) (p : Path) :
    (st.addFile maxSize maxFiles p).total = st.total + p.size := by
  have hlast : ∀ s : Dividing, (if s.group.size + p.size = maxSize
      then s.flush else s).total = s.total := by
    intro s
    split
    · exact s.flush_total
    · rfl
  have hfirst : (if st.full maxSize maxFiles p.size then st.flush
      else st).total = st.total := by
    split
    · exact st.flush_total
    · rfl
  unfold addFile
  dsimp only
  rw [← hfirst]
  generalize (if st.full maxSize maxFiles p.size then st.flush else st) = s
  exact (hlast ⟨_, _⟩).trans (UInt64.add_assoc ..).symm

theorem Dividing.addWhole_total (st : Dividing) (p : Path)
    (size : UInt64) : (st.addWhole p size).total = st.total + size := by
  have hone : (({} : PathGroup).add p size).size = size :=
    UInt64.zero_add size
  show sumSizes ((st.super.groups ++ [_]).map PathGroup.size)
    + st.group.size = _
  rw [List.map_append, sumSizes_append, List.map_singleton,
    sumSizes_singleton, hone]
  unfold total
  rw [UInt64.add_assoc, UInt64.add_comm size, UInt64.add_assoc]

/-- A group without entries has no bytes. -/
def Dividing.Bare (st : Dividing) : Prop :=
  st.group.paths = [] → st.group.size = 0

theorem Deposit.put_bare {st : Dividing} (d : Deposit) (h : st.Bare) :
    (d.put maxSize maxFiles st).Bare := by
  cases d with
  | file p =>
      have hlast : ∀ s : Dividing, s.Bare →
          (if s.group.size + p.size = maxSize then s.flush else s).Bare := by
        intro s hs
        split
        · exact fun _ => rfl
        · exact hs
      refine hlast ⟨_, _⟩ fun hnil => ?_
      obtain ⟨e, he, -⟩ := key_mem_insertBy Path.name p (if
        st.full maxSize maxFiles p.size then st.flush else st).group.paths
      have hnil : insertBy Path.name p (if st.full maxSize maxFiles p.size
          then st.flush else st).group.paths = [] := hnil
      rw [hnil] at he
      cases he
  | whole p size => exact h
  | split p => exact h
  | stop =>
      show st.finish.Bare
      unfold Dividing.finish
      split
      · exact fun _ => rfl
      · exact h

theorem putAll_bare (maxSize maxFiles : UInt64) (ds : List Deposit)
    {st : Dividing} (h : st.Bare) :
    (putAll maxSize maxFiles ds st).Bare := by
  induction ds generalizing st with
  | nil => exact h
  | cons d ds ih => exact ih (d.put_bare h)

-- ============================================================ the division

/-- What is known of the directories below one. -/
def Reports.Below (w : Reports) (fs : FileSystem) (ps : List Path) :
    Prop :=
  (∀ d ∈ ps, d.isDirectory = true → ∀ size, dirSize fs d = .ok size →
      size = w.all d)
    ∧ ∀ d ∈ ps, ∀ l, d.node = .dir l →
      sumSizes (l.names.map (w.through d)) = w.all d
        ∧ ∀ f ∈ l.regulars, w.through d f.1 = f.2

theorem Reports.Of.below' {p : Path} (h : w.Of fs p) :
    w.Below fs (p :: walk p) := by
  constructor
  · intro d hd hdir size hsize
    unfold dirSize at hsize
    rw [hdir] at hsize
    cases hn : fs.nftw d.name with
    | error e => rw [hn] at hsize; cases hsize
    | ok sizes =>
        rw [hn] at hsize
        injection hsize with hsize
        rw [← hsize, h.nftw d hd hdir sizes hn]
        rfl
  · intro d hd l hl
    constructor
    · exact sum_through (h.names d hd l hl) (h.below d hd l hl)
    · intro f hf
      unfold Reports.through
      rw [h.files d hd l hl f hf]
      exact sumSizes_singleton f.2

theorem Reports.Below.sub {ps qs : List Path} (h : w.Below fs qs)
    (hsub : ps ⊆ qs) : w.Below fs ps :=
  ⟨fun d hd => h.1 d (hsub hd), fun d hd => h.2 d (hsub hd)⟩

/-- A directory is entered. -/
theorem enter_total {q : Path} {st st' : Dividing}
    {loop : Dividing → Except String Dividing} {a b : UInt64}
    (h : enter fs maxSize q loop st = .ok st') (hdir : q.isDirectory = true)
    (hw : w.Below fs [q])
    (hloop : loop (st.addDir q) = .ok st' →
      st'.total + a = st.total + w.all q + b) :
    st'.total + (if fits fs maxSize q then 0 else a)
      = st.total + w.all q + (if fits fs maxSize q then 0 else b) := by
  unfold enter at h
  unfold fits
  cases hd : dirSize fs q with
  | error e => rw [hd] at h; cases h
  | ok size =>
      have hall := hw.1 q (List.mem_singleton_self q) hdir size hd
      rw [hd] at h
      dsimp only at h ⊢
      by_cases hle : size ≤ maxSize
      · rw [if_pos hle] at h
        injection h with h
        rw [if_pos (decide_eq_true hle), if_pos (decide_eq_true hle), ← h,
          Dividing.addWhole_total, hall]
      · rw [if_neg hle] at h
        rw [if_neg (by simpa using hle), if_neg (by simpa using hle)]
        exact hloop h

/-- The groups got what the entries were reported with, less the links
and with what was missed. -/
theorem divideEntries_sum {q : Path} {l : Listing} {st st' : Dividing}
    (h : divideEntries fs maxSize maxFiles q l st = .ok st')
    (hw : w.Below fs (walkEntries q l))
    (hfiles : ∀ f ∈ l.regulars, w.through q f.1 = f.2) :
    st'.total + linked fs w maxSize q l
      = st.total + sumSizes (l.names.map (w.through q))
        + missed fs w maxSize q l := by
  induction l generalizing q st st' with
  | done =>
      injection h with h
      rw [← h, Dividing.finish_total]
      show st.total + 0 = st.total + 0 + 0
      rw [UInt64.add_zero, UInt64.add_zero]
  | file n size rest ih =>
      have hrest := ih h (hw.sub (List.subset_cons_self _ _))
        fun f hf => hfiles f (List.mem_cons_of_mem _ hf)
      have hfile : w.through q n = size :=
        hfiles (n, size) (List.mem_cons_self ..)
      rw [Dividing.addFile_total] at hrest
      show _ + linked fs w maxSize q rest
        = _ + sumSizes (w.through q n :: _) + missed fs w maxSize q rest
      rw [sumSizes_cons, hfile]
      have hsize : (q.child n (.file size)).size = size := rfl
      rw [hsize] at hrest
      grind
  | dir n entries rest ih₁ ih₂ =>
      unfold divideEntries at h
      dsimp only at h
      split at h
      · cases h
      · rename_i st₁ henter
        have hd : w.Below fs [q.child n (.dir entries)] :=
          hw.sub fun d hd => List.mem_append_left _
            (List.mem_singleton.mp hd ▸ List.mem_cons_self ..)
        obtain ⟨hsum, hreg⟩ := hd.2 _ (List.mem_singleton_self _) entries rfl
        have h₁ := enter_total henter rfl hd fun hl => by
          have := ih₁ hl (hw.sub fun d hd => List.mem_append_left _
            (List.mem_cons_of_mem _ hd)) hreg
          rw [hsum] at this
          exact this
        have h₂ := ih₂ h (hw.sub (List.subset_append_right _ _)) hfiles
        unfold linked missed Listing.names
        dsimp only
        rw [List.map_cons, sumSizes_cons]
        generalize (if fits fs maxSize (q.child n (.dir entries)) = true
          then 0 else linked fs w maxSize (q.child n (.dir entries)) entries)
            = a at *
        generalize (if fits fs maxSize (q.child n (.dir entries)) = true
          then 0 else missed fs w maxSize (q.child n (.dir entries)) entries)
            = b at *
        grind
  | shut n why rest ih =>
      unfold divideEntries at h
      dsimp only at h
      split at h
      · cases h
      · rename_i st₁ henter
        have hd : w.Below fs [q.child n (.shut why)] :=
          hw.sub fun d hd => List.mem_singleton.mp hd ▸ List.mem_cons_self ..
        have h₁ := enter_total (a := 0) (b := 0) henter rfl hd
          fun hl => by cases hl
        rw [ite_self] at h₁
        have h₂ := ih h (hw.sub (List.subset_cons_self _ _)) hfiles
        unfold linked missed Listing.names
        rw [List.map_cons, sumSizes_cons]
        grind
  | other n size rest ih =>
      have hrest := ih h (hw.sub (List.subset_cons_self _ _)) hfiles
      unfold linked missed Listing.names
      rw [List.map_cons, sumSizes_cons]
      grind

/-- What entering a directory asks first. -/
theorem enter_size {q : Path} {st st' : Dividing}
    {loop : Dividing → Except String Dividing}
    (h : enter fs maxSize q loop st = .ok st') :
    ∃ size, dirSize fs q = .ok size
      ∧ ((fits fs maxSize q = true ∧ st' = st.addWhole q size)
        ∨ (fits fs maxSize q = false
          ∧ loop (st.addDir q) = .ok st')) := by
  unfold enter at h
  unfold fits
  cases hd : dirSize fs q with
  | error e => rw [hd] at h; cases h
  | ok size =>
      rw [hd] at h
      dsimp only at h ⊢
      refine ⟨size, rfl, ?_⟩
      by_cases hle : size ≤ maxSize
      · rw [if_pos hle] at h
        injection h with h
        exact .inl ⟨decide_eq_true hle, h.symm⟩
      · rw [if_neg hle] at h
        exact .inr ⟨decide_eq_false hle, h⟩

/-- The size of one group is the sum. -/
theorem sum_whole (p : Path) (size : UInt64) :
    sumSizes (((seeded p).addWhole p size).super.groups.map
      PathGroup.size) = size := by
  show sumSizes [0 + size] = size
  rw [sumSizes_singleton, UInt64.zero_add]

/-- The groups of a directory that is split. -/
theorem split_sum {p : Path} {l : Listing} {st : Dividing}
    (hw : w.Of fs p) (hnode : p.node = .dir l)
    (h : divideEntries fs maxSize maxFiles p l ((seeded p).addDir p)
      = .ok st) :
    sumSizes (st.super.groups.map PathGroup.size)
        + linked fs w maxSize p l
      = w.all p + missed fs w maxSize p l := by
  have hwalk : walk p = walkEntries p l := by
    unfold walk
    rw [hnode]
  have hbelow := hw.below'
  obtain ⟨hall, hfiles⟩ := hbelow.2 p (List.mem_cons_self ..) l hnode
  have hsum := divideEntries_sum h
    (hbelow.sub (hwalk ▸ List.subset_cons_self _ _)) hfiles
  have hstart : ((seeded p).addDir p).total = 0 := rfl
  have hend : st.group.size = 0 := by
    have hseed : ((seeded p).addDir p).Bare := fun _ => rfl
    have hbare := putAll_bare maxSize maxFiles (deposits fs maxSize p l)
      hseed
    rw [← divideEntries_eq h] at hbare
    exact hbare (divideEntries_group h)
  rw [hall, hstart, UInt64.zero_add] at hsum
  rw [← hsum]
  unfold Dividing.total
  rw [hend, UInt64.add_zero]

/-- A path has a size, and its groups have as much, less what is lost and
with what is gained. -/
theorem tree_balance {p : Path} {r : PathSuperGroup} (hw : w.Of fs p)
    (hr : divide fs p maxSize maxFiles = .ok r) :
    ∃ size, treeSize fs p = .ok size
      ∧ sumSizes (r.groups.map PathGroup.size) + lost fs w maxSize p
        = size + gained fs w maxSize p := by
  have hbelow := hw.below'
  unfold divide at hr
  unfold treeSize lost gained
  split at hr
  · rename_i size hnode
    injection hr with hr
    rw [← hr, hnode]
    have hfile : p.isDirectory = false ∧ p.size = size := by
      unfold Path.isDirectory Path.size
      rw [hnode]
      exact ⟨rfl, rfl⟩
    rw [hfile.1, hfile.2]
    exact ⟨size, rfl, congrArg (· + 0) (sum_whole p size)⟩
  · rename_i l hnode
    have hdir := Path.isDirectory_of hnode
    rw [if_pos hdir, hnode]
    dsimp only
    cases hst : enter fs maxSize p
        (divideEntries fs maxSize maxFiles p l) (seeded p) with
    | error e => rw [hst] at hr; cases hr
    | ok st =>
        rw [hst] at hr
        injection hr with hr
        rw [← hr]
        obtain ⟨size, hsize, ⟨hfits, rfl⟩ | ⟨hfits, hloop⟩⟩ :=
          enter_size hst
        · refine ⟨size, hsize, ?_⟩
          rw [sum_whole, if_pos hfits, if_pos hfits]
        · have hall := hbelow.1 p (List.mem_cons_self ..) hdir size hsize
          refine ⟨size, hsize, ?_⟩
          have hsum := split_sum hw hnode hloop
          rw [← hall] at hsum
          rw [hfits]
          exact hsum
  · rename_i why hnode
    have hdir : p.isDirectory = true := by
      unfold Path.isDirectory
      rw [hnode]
    rw [if_pos hdir, hnode]
    cases hst : enter fs maxSize p
        (fun _ => .error (openError p why)) (seeded p) with
    | error e => rw [hst] at hr; cases hr
    | ok st =>
        rw [hst] at hr
        injection hr with hr
        rw [← hr]
        obtain ⟨size, hsize, ⟨hfits, rfl⟩ | ⟨hfits, hloop⟩⟩ :=
          enter_size hst
        · refine ⟨size, hsize, ?_⟩
          rw [sum_whole]
        · cases hloop
  · rename_i hfile hdir hshut
    injection hr with hr
    rw [← hr]
    have hno : p.isDirectory = false := by
      unfold Path.isDirectory
      split
      · exact absurd ‹_› (hdir _)
      · exact absurd ‹_› (hshut _)
      · rfl
    rw [hno, if_neg Bool.false_ne_true]
    refine ⟨p.size, rfl, ?_⟩
    split
    · exact absurd ‹_› (hfile _)
    · exact absurd ‹_› (hshut _)
    · exact absurd ‹_› (hdir _)
    · rw [UInt64.add_comm]
      congr 1
      split
      · exact absurd ‹_› (hdir _)
      · rfl

/-- What is left of an equation between two sums. -/
theorem eq_iff_of_balance {sum size left right : UInt64}
    (h : sum + left = size + right) : size = sum ↔ left = right := by
  constructor
  · intro heq
    rw [heq] at h
    exact (UInt64.add_right_inj _).mp h
  · intro heq
    rw [heq] at h
    exact ((UInt64.add_left_inj _).mp h).symm

/-- The size of a tree is the sum of the sizes of its groups, exactly when
as much is lost as is gained. -/
theorem tree_size_iff {p : Path} {r : PathSuperGroup} (hw : w.Of fs p)
    (hr : divide fs p maxSize maxFiles = .ok r) :
    treeSize fs p = .ok (sumSizes (r.groups.map PathGroup.size))
      ↔ lost fs w maxSize p = gained fs w maxSize p := by
  obtain ⟨size, hsize, hbalance⟩ := tree_balance hw hr
  rw [hsize, ← eq_iff_of_balance hbalance]
  exact ⟨Except.ok.inj, congrArg Except.ok⟩

-- =========================================================== the response

namespace DTNAgent

open Stateful

variable (a : DTNAgent) (ps : V2Params) (prefixes : List PathName)

/-- The groups have the sizes of the groups of paths. -/
theorem groupsV2_sizes (gs : List PathGroup) (s : AgentState) :
    wp (a.groupsV2 ps prefixes gs)
      (fun fgs _ => fgs.map FileGroup.size
        = gs.map fun g => some g.size) (fun _ => True) s := by
  induction gs generalizing s with
  | nil => rfl
  | cons g gs ih =>
      unfold groupsV2 groupV2
      rw [wp_bind, wp_bind]
      refine wp.mono (Q := fun _ _ => True) (E := fun _ => True) ?_ ?_
        fun _ _ => trivial
      · unfold wp
        split
        · trivial
        · trivial
      · intro fg s' _
        rw [wp_pure, wp_bind]
        refine (ih s').mono ?_ fun _ _ => trivial
        intro fgs _ hfgs
        show some g.size :: fgs.map FileGroup.size = _
        rw [hfgs]
        rfl

/-- What the loop adds up and what it gathers. A group of parent folders
has no size. -/
def Tallied (srcs : List PathName) (st : Expanding) (s : AgentState) :
    Prop :=
  ∃ trees : List (UInt64 × PathSuperGroup),
    List.Forall₂ (fun src t => treeSize a.fs (Path.ofName a.fs src) = .ok t.1
      ∧ a.division ps src = .ok t.2) srcs trees
    ∧ st.total = sumSizes (trees.map Prod.fst)
    ∧ st.groups.map FileGroup.size
      = trees.flatMap (fun t => t.2.groups.map fun g => some g.size)
    ∧ ∃ head, responseGroups s st.response = head ++ st.groups
      ∧ ∀ g ∈ head, g.size = none

theorem headGroup_size {parents : List Path} {head : List FileGroup}
    (h : a.headGroup ps prefixes parents = .ok head) :
    ∀ g ∈ head, g.size = none := by
  unfold headGroup at h
  split at h
  · cases hm : parents.mapM (parentEntry ps prefixes) with
    | error e => rw [hm] at h; cases h
    | ok files =>
        rw [hm] at h
        injection h with h
        intro g hg
        rw [← h] at hg
        rw [List.mem_singleton.mp hg]
  · injection h with h
    intro g hg
    rw [← h] at hg
    cases hg

theorem expandSource_tallied {srcs : List PathName} {st : Expanding}
    {s : AgentState} (h : a.Tallied ps srcs st s) (src : PathName) :
    wp (a.expandSource ps prefixes st src)
      (fun st' s' => a.Tallied ps (srcs ++ [src]) st' s') (fun _ => True)
      s := by
  obtain ⟨trees, hall, htotal, hgroups, -⟩ := h
  unfold expandSource
  dsimp only
  rw [wp_bind, wp_command_lift]
  intro r hr
  rw [wp_bind, wp_command_lift]
  intro size hsize
  rw [wp_bind]
  refine (a.groupsV2_sizes ps prefixes r.groups s).mono ?_ fun _ _ => trivial
  intro new s₁ hnew
  rw [wp_bind, wp_command_lift]
  intro head hhead
  rw [wp_bind]
  refine (respond_spec ps (head ++ (st.groups ++ new)) s₁).mono ?_
    fun _ _ => trivial
  intro response s₂ hresponse
  refine ⟨trees ++ [(size, r)], ?_, ?_, ?_, head, hresponse,
    a.headGroup_size ps prefixes hhead⟩
  · exact List.rel_append hall (.cons ⟨hsize, hr⟩ .nil)
  · show st.total + size = _
    rw [List.map_append, List.map_singleton, sumSizes_append,
      sumSizes_singleton, htotal]
  · show (st.groups ++ new).map FileGroup.size = _
    rw [List.map_append, hgroups, hnew, List.flatMap_append,
      List.flatMap_singleton]

theorem expandSources_tallied (rest : List PathName)
    {srcs : List PathName} {st : Expanding} {s : AgentState}
    (h : a.Tallied ps srcs st s) :
    wp (a.expandSources ps prefixes rest st)
      (fun st' s' => a.Tallied ps (srcs ++ rest) st' s') (fun _ => True)
      s := by
  induction rest generalizing srcs st s with
  | nil =>
      rw [List.append_nil]
      exact h
  | cons src rest ih =>
      unfold expandSources
      rw [wp_bind]
      refine (a.expandSource_tallied ps prefixes h src).mono ?_
        fun _ _ => trivial
      intro st' s' h'
      have := ih h'
      rwa [List.append_assoc, List.singleton_append] at this

/-- The bytes of a response. -/
def responseBytes (s : AgentState) (r : ResponseGroups) : UInt64 :=
  sumSizes ((responseGroups s r).map fun g => g.size.getD 0)

theorem sumSizes_zero {l : List FileGroup} (h : ∀ g ∈ l, g.size = none) :
    sumSizes (l.map fun g => g.size.getD 0) = 0 := by
  induction l with
  | nil => rfl
  | cons g l ih =>
      rw [List.map_cons, sumSizes_cons, h g (List.mem_cons_self ..),
        ih fun g hg => h g (List.mem_cons_of_mem _ hg)]
      rfl

variable (w : Reports)

/-- Over the source paths of a request, as much is lost as is gained. -/
def Reconciles (m : ExpandMessage) : Prop :=
  sumSizes ((srcPathsSet m.srcPath).map fun src =>
      lost a.fs w m.groupSize (Path.ofName a.fs src))
    = sumSizes ((srcPathsSet m.srcPath).map fun src =>
      gained a.fs w m.groupSize (Path.ofName a.fs src))

variable {a ps w}

/-- The response has the bytes of its total, less what is lost and with
what is gained. -/
theorem Tallied.balance {srcs : List PathName} {st : Expanding}
    {s : AgentState} (h : a.Tallied ps srcs st s)
    (hw : ∀ src ∈ srcs, w.Of a.fs (Path.ofName a.fs src)) :
    responseBytes s st.response
        + sumSizes (srcs.map fun src =>
          lost a.fs w ps.groupSize (Path.ofName a.fs src))
      = st.total + sumSizes (srcs.map fun src =>
          gained a.fs w ps.groupSize (Path.ofName a.fs src)) := by
  obtain ⟨trees, htrees, htotal, hgroups, head, hresponse, hhead⟩ := h
  have hbytes : responseBytes s st.response
      = sumSizes ((trees.flatMap fun t =>
        t.2.groups.map fun g => some g.size).map (·.getD 0)) := by
    unfold responseBytes
    rw [hresponse, List.map_append, sumSizes_append, sumSizes_zero hhead,
      UInt64.zero_add, ← hgroups, List.map_map]
    rfl
  rw [hbytes, htotal]
  clear htotal hgroups hresponse hbytes
  induction htrees with
  | nil => rfl
  | @cons src t srcs trees hst _ ih =>
      have hrest := ih fun src' hsrc => hw src' (List.mem_cons_of_mem _ hsrc)
      obtain ⟨size, hsize, hone⟩ :=
        tree_balance (hw src (List.mem_cons_self ..)) hst.2
      rw [hst.1] at hsize
      injection hsize with hsize
      have hgroups : (t.2.groups.map fun g => some g.size).map
          (Option.getD · 0) = t.2.groups.map PathGroup.size := by
        rw [List.map_map]
        rfl
      rw [List.flatMap_cons, List.map_append, sumSizes_append, hgroups,
        List.map_cons, List.map_cons, List.map_cons, sumSizes_cons,
        sumSizes_cons, sumSizes_cons, hsize]
      grind

/-- The total of a response is the sum of the sizes of its groups,
exactly when as much is lost as is gained. -/
theorem response_total_iff {m : ExpandMessage} {s s' : AgentState}
    {total : UInt64} {r : ResponseGroups}
    (h : a.handleExpandAndGroupV2 m s = (.ok total r, s'))
    (hw : ∀ src ∈ m.srcPath, w.Of a.fs (Path.ofName a.fs src)) :
    total = responseBytes s' r ↔ a.Reconciles w m := by
  obtain ⟨ps, prefixes, st, t, hps, -, hloop, htotal, hresp⟩ :=
    a.handleExpandAndGroupV2_run h
  have hbegin : a.Tallied ps [] {} t :=
    ⟨[], .nil, rfl, rfl, [], rfl, fun g hg => by cases hg⟩
  have hend := (a.expandSources_tallied ps prefixes _ hbegin).ok hloop
  have hbalance := hend.balance fun src hsrc => hw src (mem_srcPathsSet.mp hsrc)
  obtain ⟨-, -, hsize, -, -⟩ := a.decodeV2_srcPaths hps
  rw [hresp, htotal, hsize] at hbalance
  exact eq_iff_of_balance hbalance

end DTNAgent

end BigDataExpress
