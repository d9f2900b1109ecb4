/-
Where the files of a source path end up.

An entry of a response places regular files: a file entry its file, a
directory entry every regular file below the directory. Different files
should be placed at different paths, and a file below a source directory
should keep its way from the directory's parent.

Both commands name the destination of an entry after the entry's own base
name, and forget the way to it. So files keep their way as long as a
source directory moves as one entry (`keeps_iff`): in the second command
as long as it is not divided, in the first one never.
-/
import BigDataExpress.Proofs.Divide
import BigDataExpress.Proofs.Groups

namespace BigDataExpress

-- ==================================================== names of places

/-- The components a place is spelled with. -/
def spelled (l : Place) : List PathName := l.map Name.chars

/-- The last name of a place; the root has none. -/
def lastName (l : Place) : Place := l.getLast?.toList

theorem spelled_injective : Function.Injective spelled :=
  List.map_injective_iff.mpr fun _ _ h => Name.ext h

theorem spelled_append (l m : Place) :
    spelled (l ++ m) = spelled l ++ spelled m := List.map_append

theorem getLast?_spelled (l : Place) :
    (spelled l).getLast?.toList = spelled (lastName l) := by
  unfold spelled lastName
  rw [List.getLast?_map]
  cases l.getLast? <;> rfl

theorem spell_ne_nil (l : Place) : spell l ≠ [] := by
  cases l with
  | nil => exact List.cons_ne_nil _ _
  | cons n l =>
      show (n :: l).flatMap _ ≠ []
      rw [List.flatMap_cons]
      exact List.cons_ne_nil _ _

theorem components_baseName_spell (l : Place) :
    components (baseName (spell l)) = spelled (lastName l) := by
  rw [components_baseName (spell_ne_nil l), components_spell]
  exact getLast?_spelled l

theorem components_baseName_spell_slash (l : Place) :
    components (baseName (spell l ++ ['/'])) = spelled (lastName l) := by
  rw [components_baseName (by simp), components_append_slash,
    components_spell]
  exact getLast?_spelled l

theorem lastName_ne_nil {l : Place} (h : l ≠ []) :
    (lastName l).length = 1 := by
  unfold lastName
  rw [List.getLast?_eq_some_getLast h]
  rfl

/-- The last name of a longer place is the whole way to it only from the
root, and one step. -/
theorem lastName_append (l m : Place) :
    lastName (l ++ m) = lastName l ++ m
      ↔ m = [] ∨ (l = [] ∧ m.length = 1) := by
  constructor
  · intro h
    by_cases hm : m = []
    · exact .inl hm
    · right
      have hlen := congrArg List.length h
      rw [lastName_ne_nil (by simp [hm]), List.length_append] at hlen
      have hpos : 0 < m.length := List.length_pos_iff.mpr hm
      constructor
      · by_contra hl
        rw [lastName_ne_nil hl] at hlen
        omega
      · omega
  · intro h
    rcases h with rfl | ⟨rfl, hm⟩
    · rw [List.append_nil, List.append_nil]
    · obtain ⟨n, rfl⟩ := List.length_eq_one_iff.mp hm
      rfl

-- ========================================================== placements

/-- What an entry's files are placed under: a directory's below its base
name. -/
def Entry.root (e : Entry) : List PathName :=
  components e.dst
    ++ if e.path.isDirectory then components (baseName e.src) else []

/-- The regular files an entry places, and where. -/
def Entry.placements (e : Entry) : List (Place × List PathName) :=
  match e.path.real with
  | .error _ => []
  | .ok l => e.path.files.map fun rel => (l ++ rel, e.root ++ spelled rel)

/-- No two different files are placed at the same path. -/
def Distinct (es : List Entry) : Prop :=
  ∀ x ∈ es.flatMap Entry.placements, ∀ y ∈ es.flatMap Entry.placements,
    x.2 = y.2 → x.1 = y.1

/-- An entry made for a source directory keeps the way of its files from
the directory's parent. -/
def Keeps (fs : FileSystem) (dst : PathName) (e : Entry) : Prop :=
  (Path.ofName fs e.path.source).isDirectory = true →
    ∀ x ∈ e.placements, ∀ l, (Path.ofName fs e.path.source).real = .ok l →
      ∃ rel, x.1 = l ++ rel
        ∧ x.2 = components dst ++ spelled (lastName l ++ rel)

/-- What the entries of a response should do. -/
def WellPlaced (fs : FileSystem) (dst : PathName) (es : List Entry) :
    Prop :=
  Distinct es ∧ ∀ e ∈ es, Keeps fs dst e

/-- The path was found on the way `pre` from the source path `s`. -/
structure Comes (s p : Path) (pre : Place) : Prop where
  source : p.source = s.source
  real : p.real = s.real.map (· ++ pre)
  files : ∀ post ∈ p.files, pre ++ post ∈ s.files

theorem Comes.refl (s : Path) : Comes s s [] where
  source := rfl
  real := by
    cases s.real with
    | error e => rfl
    | ok l =>
        show Except.ok l = Except.ok (l ++ [])
        rw [List.append_nil]
  files post hpost := hpost

theorem Under.comes {s p : Path} {l : Listing} {pre : Place}
    (h : Under s l p pre) (hs : s.node = .dir l) : Comes s p pre where
  source := h.source
  real := h.real
  files post hpost := by
    unfold Path.files
    rw [hs]
    exact h.files post hpost

theorem Comes.placements {s : Path} {e : Entry} {pre l : Place}
    (h : Comes s e.path pre) (hl : s.real = .ok l) :
    e.placements = e.path.files.map fun rel =>
      (l ++ (pre ++ rel), e.root ++ spelled rel) := by
  unfold Entry.placements
  rw [h.real, hl]
  show e.path.files.map _ = _
  apply List.map_congr_left
  intro rel _
  rw [List.append_assoc]

/-- An entry keeps the way of its files if it places none, or is named
with the whole way to it. -/
theorem keeps_iff {fs : FileSystem} {src dst : PathName} {e : Entry}
    {pre l : Place} (h : Comes (Path.ofName fs src) e.path pre)
    (hl : (Path.ofName fs src).real = .ok l) :
    Keeps fs dst e ↔ ((Path.ofName fs src).isDirectory = true →
      e.path.files = [] ∨
        e.root = components dst ++ spelled (lastName l ++ pre)) := by
  have hsrc : e.path.source = src := h.source
  unfold Keeps
  rw [hsrc, h.placements hl]
  constructor
  · intro hk hdir
    by_cases hf : e.path.files = []
    · exact .inl hf
    · right
      obtain ⟨rel, rest, hrel⟩ := List.exists_cons_of_ne_nil hf
      have hmem : rel ∈ e.path.files := hrel ▸ List.mem_cons_self ..
      obtain ⟨rel', h1, h2⟩ := hk hdir _ (List.mem_map_of_mem hmem) l hl
      have h1 : pre ++ rel = rel' := List.append_cancel_left h1
      have h2 : e.root ++ spelled rel
          = components dst ++ spelled (lastName l ++ (pre ++ rel)) := by
        rw [h1]
        exact h2
      rw [← List.append_assoc (lastName l), spelled_append (lastName l ++ pre),
        ← List.append_assoc] at h2
      exact List.append_cancel_right h2
  · intro hr hdir x hx l' hl'
    rw [hl] at hl'
    injection hl' with hl'
    subst hl'
    obtain ⟨rel, hrel, rfl⟩ := List.mem_map.mp hx
    rcases hr hdir with hf | hroot
    · rw [hf] at hrel
      cases hrel
    · refine ⟨pre ++ rel, rfl, ?_⟩
      show e.root ++ spelled rel = _
      rw [hroot, ← List.append_assoc, spelled_append (lastName l ++ pre),
        List.append_assoc]

-- =========================================================== what is asked

/-- Where the files of a source path should go, below the destination:
those of a directory by their way from its parent, a file by a name. -/
def wanted (base : Path → List PathName) (s : Path) :
    List (Place × List PathName) :=
  match s.real with
  | .error _ => []
  | .ok l => s.files.map fun rel =>
      (l ++ rel, (if s.isDirectory then spelled (lastName l) else base s)
        ++ spelled rel)

/-- No two different files of the source paths are wanted at the same
path. -/
def NoClash (base : Path → List PathName) (fs : FileSystem)
    (srcs : List PathName) : Prop :=
  ∀ s ∈ srcs, ∀ t ∈ srcs, ∀ x ∈ wanted base (Path.ofName fs s),
    ∀ y ∈ wanted base (Path.ofName fs t), x.2 = y.2 → x.1 = y.1

/-- When the entries place what is wanted, and all of it, they are
distinct if there is no clash. -/
theorem distinct_iff (dst : PathName) {base : Path → List PathName}
    {fs : FileSystem} {srcs : List PathName} {es : List Entry}
    (hsub : ∀ e ∈ es, ∀ x ∈ e.placements, ∃ s ∈ srcs,
      ∃ y ∈ wanted base (Path.ofName fs s),
        x = (y.1, components dst ++ y.2))
    (hself : ∀ s ∈ srcs, ∀ y ∈ wanted base (Path.ofName fs s),
      ∃ e ∈ es, (y.1, components dst ++ y.2) ∈ e.placements) :
    Distinct es ↔ NoClash base fs srcs := by
  constructor
  · intro hd s hs t ht x hx y hy hxy
    obtain ⟨e, he, hxe⟩ := hself s hs x hx
    obtain ⟨f, hf, hyf⟩ := hself t ht y hy
    exact hd (x.1, components dst ++ x.2)
      (List.mem_flatMap.mpr ⟨e, he, hxe⟩) (y.1, components dst ++ y.2)
      (List.mem_flatMap.mpr ⟨f, hf, hyf⟩)
      (congrArg (components dst ++ ·) hxy)
  · intro hn x hx y hy hxy
    obtain ⟨e, he, hxe⟩ := List.mem_flatMap.mp hx
    obtain ⟨f, hf, hyf⟩ := List.mem_flatMap.mp hy
    obtain ⟨s, hs, x', hx', rfl⟩ := hsub e he x hxe
    obtain ⟨t, ht, y', hy', rfl⟩ := hsub f hf y hyf
    exact hn s hs t ht x' hx' y' hy' (List.append_cancel_left hxy)

/-- The entries made for the source paths: every source path with
regular files has one of its own, and a source file has no other. -/
structure Arranged (base : Path → List PathName) (fs : FileSystem)
    (dst : PathName) (srcs : List PathName) (es : List Entry) : Prop where
  real : ∀ src ∈ srcs, ∃ l, (Path.ofName fs src).real = .ok l
  comes : ∀ e ∈ es, ∃ src ∈ srcs, ∃ pre,
    Comes (Path.ofName fs src) e.path pre ∧
      ((Path.ofName fs src).isDirectory = false →
        pre = [] ∧ e.root = components dst ++ base (Path.ofName fs src))
  self : ∀ src ∈ srcs, (Path.ofName fs src).files ≠ [] →
    ∃ e ∈ es, e.path = Path.ofName fs src

variable {base : Path → List PathName} {fs : FileSystem}
  {dst : PathName} {srcs : List PathName} {es : List Entry}

/-- An entry with files, where the files keep their way: what it places
them under. -/
theorem Arranged.root (h : Arranged base fs dst srcs es) {e : Entry}
    (he : e ∈ es) (hk : Keeps fs dst e) (hf : e.path.files ≠ []) :
    ∃ src ∈ srcs, ∃ pre l, Comes (Path.ofName fs src) e.path pre
      ∧ (Path.ofName fs src).real = .ok l
      ∧ e.root = components dst
          ++ ((if (Path.ofName fs src).isDirectory then spelled (lastName l)
              else base (Path.ofName fs src)) ++ spelled pre) := by
  obtain ⟨src, hsrc, pre, hcomes, hfile⟩ := h.comes e he
  obtain ⟨l, hl⟩ := h.real src hsrc
  refine ⟨src, hsrc, pre, l, hcomes, hl, ?_⟩
  by_cases hdir : (Path.ofName fs src).isDirectory = true
  · rw [if_pos hdir, ← spelled_append]
    exact ((keeps_iff hcomes hl).mp hk hdir).resolve_left hf
  · obtain ⟨hpre, hroot⟩ := hfile (Bool.eq_false_iff.mpr hdir)
    rw [if_neg hdir, hpre, hroot]
    show _ = components dst ++ (base _ ++ [])
    rw [List.append_nil]

/-- With every way kept, distinct placements are those without a
clash. -/
theorem Arranged.wellPlaced (h : Arranged base fs dst srcs es) :
    WellPlaced fs dst es
      ↔ (∀ e ∈ es, Keeps fs dst e) ∧ NoClash base fs srcs := by
  unfold WellPlaced
  rw [and_comm]
  apply and_congr_right
  intro hk
  apply distinct_iff dst
  · intro e he x hx
    have hf : e.path.files ≠ [] := by
      intro hf
      unfold Entry.placements at hx
      rw [hf] at hx
      split at hx <;> cases hx
    obtain ⟨src, hsrc, pre, l, hcomes, hl, hroot⟩ := h.root he (hk e he) hf
    rw [hcomes.placements hl] at hx
    obtain ⟨rel, hrel, rfl⟩ := List.mem_map.mp hx
    refine ⟨src, hsrc, ?_⟩
    unfold wanted
    rw [hl]
    refine ⟨_, List.mem_map_of_mem (hcomes.files rel hrel), ?_⟩
    rw [hroot, spelled_append, List.append_assoc, List.append_assoc]
  · intro src hsrc y hy
    obtain ⟨l, hl⟩ := h.real src hsrc
    unfold wanted at hy
    rw [hl] at hy
    obtain ⟨rel, hrel, rfl⟩ := List.mem_map.mp hy
    have hf := List.ne_nil_of_mem hrel
    obtain ⟨e, he, hpath⟩ := h.self src hsrc hf
    refine ⟨e, he, ?_⟩
    obtain ⟨src', hsrc', pre, l', hcomes, hl', hroot⟩ :=
      h.root he (hk e he) (hpath ▸ hf)
    -- the entry of the source path itself is on the empty way from it
    have hsame : src' = src := by
      have h' := hcomes.source
      rw [hpath] at h'
      exact h'.symm
    subst hsame
    rw [hl] at hl'
    injection hl' with hl'
    subst hl'
    have hpre : pre = [] := by
      have h' := hcomes.real
      rw [hpath, hl] at h'
      injection h' with h'
      exact List.self_eq_append_right.mp h'
    rw [hcomes.placements hl, hpath, hroot, hpre]
    refine List.mem_map.mpr ⟨rel, hrel, ?_⟩
    show (l ++ rel, components dst ++ (_ ++ []) ++ spelled rel) = _
    rw [List.append_nil, List.append_assoc]

-- =================================================== the second command

/-- The base name of a source file, in the second command: of its real
path. -/
def realBase (s : Path) : List PathName :=
  match s.real with
  | .error _ => []
  | .ok l => spelled (lastName l)

/-- The directory is divided, and there is a regular file below it. -/
def Scattered (fs : FileSystem) (maxSize : UInt64) (p : Path) : Prop :=
  fits fs maxSize p = false ∧ p.isDirectory = true ∧ p.files ≠ []

/-- No source directory is scattered. From the root directory one step is
the whole way, so there it may be; but not a directory in it. -/
def Together (fs : FileSystem) (maxSize : UInt64) (s : Path) : Prop :=
  (s.real ≠ .ok [] → ¬ Scattered fs maxSize s) ∧
    (s.real = .ok [] → fits fs maxSize s = false →
      ∀ l, s.node = .dir l → ∀ d ∈ l.dirs,
        ¬ Scattered fs maxSize (s.child d.1 (.dir d.2)))

theorem Path.files_of_file {p : Path} (h : p.isRegularFile = true) :
    p.files = [[]] := by
  unfold isRegularFile at h
  unfold files
  split at h
  · rename_i hnode
    rw [hnode]
  · cases h

variable {fs : FileSystem} {maxSize : UInt64} {s : Path} {es : List Path}

theorem node_of_files (hd : s.isDirectory = true) (hf : s.files ≠ []) :
    ∃ l, s.node = .dir l ∧ l.files ≠ [] := by
  unfold Path.isDirectory at hd
  unfold Path.files at hf
  cases hn : s.node with
  | dir l => rw [hn] at hf; exact ⟨l, rfl, hf⟩
  | shut why => rw [hn] at hf; exact absurd rfl hf
  | file size => rw [hn] at hd; cases hd
  | other size => rw [hn] at hd; cases hd
  | missing => rw [hn] at hd; cases hd

/-- A path with regular files is one, or is a directory. -/
theorem kind_of_files {p : Path} (hf : p.files ≠ []) :
    (p.isRegularFile || p.isDirectory) = true := by
  unfold Path.files at hf
  unfold Path.isRegularFile Path.isDirectory
  cases hn : p.node with
  | file size => rfl
  | dir l => rfl
  | shut why => rfl
  | other size => rw [hn] at hf; exact absurd rfl hf
  | missing => rw [hn] at hf; exact absurd rfl hf

/-- A piece with regular files is an entry of the division, or another
one on the same way is. -/
theorem Division.covered (h : Division fs maxSize s es)
    (hs : s.below = []) {l : Listing} (hl : s.node = .dir l)
    (hfit : fits fs maxSize s = false) {q : Path}
    (hq : q ∈ pieces fs maxSize s l) (hf : q.files ≠ []) :
    ∃ e ∈ es, e.below = q.below ∧ e.files ≠ [] := by
  obtain ⟨e, he, hname, hkind⟩ := h.covers l hl hfit q hq
  obtain ⟨pre, hpre⟩ := pieces_under fs maxSize hq
  refine ⟨e, he, ?_⟩
  have hcomp : components e.name = components s.name ++ spelled pre := by
    rw [hname]
    exact hpre.name
  -- the way an entry was found on can be read off its name
  have hbelow : e ≠ s ∧ e.below = q.below := by
    rcases h.sub e he with rfl | ⟨l', hl', -, he'⟩
    · exfalso
      have hlen := congrArg List.length hcomp
      have hpos := List.length_pos_iff.mpr hpre.ne_nil
      rw [List.length_append, spelled, List.length_map] at hlen
      omega
    · obtain ⟨pre', hpre'⟩ := pieces_under fs maxSize he'
      have heq : pre' = pre := by
        apply spelled_injective
        have h' := hpre'.name
        rw [hcomp] at h'
        exact (List.append_cancel_left h').symm
      constructor
      · rintro rfl
        have h1 := hpre'.below
        rw [hs] at h1
        exact hpre'.ne_nil h1.symm
      · rw [hpre'.below, hpre.below, heq]
  refine ⟨hbelow.2, ?_⟩
  rcases hkind with rfl | rfl | hreg
  · exact hf
  · exact absurd rfl hbelow.1
  · rw [Path.files_of_file hreg]
    exact List.cons_ne_nil _ _

/-- The entries with regular files are the directory itself, or one step
from the root, if and only if the directory stays together. -/
theorem together_iff (h : Division fs maxSize s es) (hs : s.below = [])
    {l₀ : Place} (hl₀ : s.real = .ok l₀) :
    (s.isDirectory = true → ∀ p ∈ es, p.files = [] ∨ p.below = []
        ∨ (l₀ = [] ∧ p.below.length = 1))
      ↔ Together fs maxSize s := by
  constructor
  · intro hall
    constructor
    · intro hreal hsc
      obtain ⟨hfit, hdir, hfiles⟩ := hsc
      obtain ⟨l, hl, hlf⟩ := node_of_files hdir hfiles
      obtain ⟨q, hq, hqf⟩ := pieces_files fs maxSize (q := s) hlf
      obtain ⟨e, he, hbelow, hef⟩ := h.covered hs hl hfit hq hqf
      obtain ⟨pre, hpre⟩ := pieces_under fs maxSize hq
      rcases hall hdir e he with h1 | h1 | ⟨h1, -⟩
      · exact hef h1
      · rw [hbelow, hpre.below, hs] at h1
        exact hpre.ne_nil h1
      · exact hreal (h1 ▸ hl₀)
    · intro hreal hfit l hl d hd hsc
      obtain ⟨hdfit, -, hdf⟩ := hsc
      have hdir : s.isDirectory = true := by
        unfold Path.isDirectory
        rw [hl]
      obtain ⟨q, hq, hqf⟩ :=
        pieces_files fs maxSize (q := s.child d.1 (.dir d.2)) hdf
      obtain ⟨e, he, hbelow, hef⟩ := h.covered hs hl hfit
        (pieces_subset fs maxSize hd hdfit hq) hqf
      obtain ⟨pre, hpre⟩ := pieces_under fs maxSize hq
      have hway : e.below = [d.1] ++ pre := by
        rw [hbelow, hpre.below]
        show (s.below ++ [d.1]) ++ pre = _
        rw [hs]
        rfl
      rcases hall hdir e he with h1 | h1 | ⟨-, h1⟩
      · exact hef h1
      · rw [hway] at h1
        cases h1
      · rw [hway] at h1
        have hpos := List.length_pos_iff.mpr hpre.ne_nil
        rw [List.length_append, List.length_singleton] at h1
        omega
  · intro ht hdir p hp
    rcases h.sub p hp with rfl | ⟨l, hl, hfit, hp⟩
    · exact .inr (.inl hs)
    · by_cases hf : p.files = []
      · exact .inl hf
      · right
        right
        obtain ⟨pre, hpre⟩ := pieces_under fs maxSize hp
        obtain ⟨post, hpost⟩ := List.exists_mem_of_ne_nil _ hf
        have hroot : l₀ = [] := by
          by_contra hne
          refine ht.1 ?_ ⟨hfit, hdir, ?_⟩
          · rw [hl₀]
            intro he
            injection he with he
            exact hne he
          · unfold Path.files
            rw [hl]
            exact List.ne_nil_of_mem (hpre.files post hpost)
        refine ⟨hroot, ?_⟩
        rcases pieces_cases fs maxSize hp with ⟨n, node, rfl⟩ | ⟨d, hd, hdfit, hpd⟩
        · show (s.below ++ [n]).length = 1
          rw [hs]
          rfl
        · exfalso
          obtain ⟨pre', hpre'⟩ := pieces_under fs maxSize hpd
          refine ht.2 (hroot ▸ hl₀) hfit l hl d hd ⟨hdfit, rfl, ?_⟩
          exact List.ne_nil_of_mem (hpre'.files post hpost)

/-- A path of a division comes from the source path. -/
theorem Division.comes {src : PathName} {p : Path}
    (h : Division fs maxSize (Path.ofName fs src) es) (hp : p ∈ es) :
    Comes (Path.ofName fs src) p p.below := by
  rcases h.sub p hp with rfl | ⟨l, hl, -, hp⟩
  · exact Comes.refl _
  · obtain ⟨pre, hpre⟩ := pieces_under fs maxSize hp
    have hbelow : p.below = pre := hpre.below
    rw [hbelow]
    exact hpre.comes hl

namespace DTNAgent

variable {a : DTNAgent} {ps : V2Params} {prefixes : List PathName}

theorem entryOf_root {p : Path} {e : Entry}
    (he : EntryOf ps prefixes p e) {l : Place} (hl : p.real = .ok l) :
    e.root = components ps.dstPath ++ spelled (lastName l) := by
  obtain ⟨hpath, hsrc, hdst⟩ := he
  unfold Path.canonicalName at hsrc
  rw [hl] at hsrc
  injection hsrc with hsrc
  unfold Entry.root
  rw [hpath, hdst]
  by_cases hp : p.isDirectory = true
  · rw [if_pos hp, if_pos hp, ← hsrc, if_pos hp,
      components_baseName_spell_slash]
    have h := components_withSlash ps.dstPath []
    rw [List.append_nil, components_nil, List.append_nil] at h
    rw [h]
  · rw [if_neg hp, if_neg hp, List.append_nil, makeDstPathName,
      components_withSlash, ← hsrc, if_neg hp, components_baseName_spell]

/-- The entries of a response, and the paths of the divisions they were
made of. -/
theorem Expanded.entry {srcs : List PathName} {groups : List FileGroup}
    (h : a.Expanded ps prefixes srcs groups) {e : Entry}
    (he : e ∈ groups.flatMap FileGroup.files) :
    ∃ src ∈ srcs, ∃ r, a.division ps src = .ok r
      ∧ ∃ p ∈ r.groups.flatMap PathGroup.paths, EntryOf ps prefixes p e := by
  obtain ⟨fg, hfg, he⟩ := List.mem_flatMap.mp he
  obtain ⟨src, hsrc, r, hr, g, hg, hmade⟩ := h.made fg hfg
  obtain ⟨p, hp, hentry⟩ := Collection.mem_left_of_forall₂ hmade.entries he
  exact ⟨src, hsrc, r, hr, p, List.mem_flatMap.mpr ⟨g, hg, hp⟩, hentry⟩

theorem Expanded.path {srcs : List PathName} {groups : List FileGroup}
    (h : a.Expanded ps prefixes srcs groups) {src : PathName}
    (hsrc : src ∈ srcs) :
    ∃ r, a.division ps src = .ok r
      ∧ ∀ p ∈ r.groups.flatMap PathGroup.paths,
          ∃ e ∈ groups.flatMap FileGroup.files, EntryOf ps prefixes p e := by
  obtain ⟨r, hr, hall⟩ := h.all src hsrc
  refine ⟨r, hr, fun p hp => ?_⟩
  obtain ⟨g, hg, hp⟩ := List.mem_flatMap.mp hp
  obtain ⟨fg, hfg, hmade⟩ := hall g hg
  obtain ⟨e, he, hentry⟩ := Collection.mem_right_of_forall₂ hmade.entries hp
  exact ⟨e, List.mem_flatMap.mpr ⟨fg, hfg, he⟩, hentry⟩

/-- The source paths could be resolved. -/
theorem pathPrefixes_real {paths prefixes : List PathName}
    (h : a.pathPrefixes paths = .ok prefixes) {src : PathName}
    (hsrc : src ∈ paths) : ∃ l, (Path.ofName a.fs src).real = .ok l := by
  unfold pathPrefixes at h
  induction paths generalizing prefixes with
  | nil => cases hsrc
  | cons q paths ih =>
      rw [List.mapM_cons] at h
      obtain ⟨d, hd, h⟩ := Stateful.bind_eq_ok.mp h
      obtain ⟨ds, hds, -⟩ := Stateful.bind_eq_ok.mp h
      rcases List.mem_cons.mp hsrc with rfl | hsrc
      · unfold Path.dirName Path.canonicalName at hd
        cases hr : (Path.ofName a.fs src).real with
        | error e => rw [hr] at hd; cases hd
        | ok l => exact ⟨l, rfl⟩
      · exact ih hds hsrc

/-- The entries of the second command. -/
theorem Expanded.arranged {srcs : List PathName} {groups : List FileGroup}
    (h : a.Expanded ps prefixes srcs groups)
    (hreal : ∀ src ∈ srcs, ∃ l, (Path.ofName a.fs src).real = .ok l) :
    Arranged realBase a.fs ps.dstPath srcs
      (groups.flatMap FileGroup.files) where
  real := hreal
  comes := by
    intro e he
    obtain ⟨src, hsrc, r, hr, p, hp, hentry⟩ := h.entry he
    have hdiv := divide_division hr
    refine ⟨src, hsrc, p.below, by rw [hentry.path]; exact hdiv.comes hp, ?_⟩
    intro hdir
    have hself : p = Path.ofName a.fs src := by
      rcases hdiv.sub p hp with hself | ⟨l, hl, -⟩
      · exact hself
      · unfold Path.isDirectory at hdir
        rw [hl] at hdir
        cases hdir
    obtain ⟨l, hl⟩ := hreal src hsrc
    rw [hself] at hentry ⊢
    refine ⟨rfl, ?_⟩
    rw [entryOf_root hentry hl]
    unfold realBase
    rw [hl]
  self := by
    intro src hsrc hf
    obtain ⟨r, hr, hpaths⟩ := h.path hsrc
    obtain ⟨e, he, hentry⟩ :=
      hpaths _ ((divide_division hr).self (kind_of_files hf))
    exact ⟨e, he, hentry.path⟩

/-- The second command keeps the ways if and only if the source
directories stay together. -/
theorem Expanded.keeps {srcs : List PathName} {groups : List FileGroup}
    (h : a.Expanded ps prefixes srcs groups)
    (hreal : ∀ src ∈ srcs, ∃ l, (Path.ofName a.fs src).real = .ok l) :
    (∀ e ∈ groups.flatMap FileGroup.files, Keeps a.fs ps.dstPath e)
      ↔ ∀ src ∈ srcs, Together a.fs ps.groupSize (Path.ofName a.fs src) := by
  have hone : ∀ {src : PathName} {r : PathSuperGroup} {p : Path}
      {e : Entry} {l : Place}, a.division ps src = .ok r →
      p ∈ r.groups.flatMap PathGroup.paths → EntryOf ps prefixes p e →
      (Path.ofName a.fs src).real = .ok l →
      (Keeps a.fs ps.dstPath e ↔
        ((Path.ofName a.fs src).isDirectory = true →
          p.files = [] ∨ p.below = [] ∨ (l = [] ∧ p.below.length = 1))) := by
    intro src r p e l hr hp he hl
    have hcomes := (divide_division hr).comes hp
    have hpreal : p.real = .ok (l ++ p.below) := by
      rw [hcomes.real, hl]
      rfl
    rw [keeps_iff (he.path ▸ hcomes) hl, entryOf_root he hpreal, he.path,
      List.append_cancel_left_eq, spelled_injective.eq_iff, lastName_append]
  constructor
  · intro hall src hsrc
    obtain ⟨r, hr, hpaths⟩ := h.path hsrc
    obtain ⟨l, hl⟩ := hreal src hsrc
    apply (together_iff (divide_division hr) rfl hl).mp
    intro hdir p hp
    obtain ⟨e, he, hentry⟩ := hpaths p hp
    exact (hone hr hp hentry hl).mp (hall e he) hdir
  · intro ht e he
    obtain ⟨src, hsrc, r, hr, p, hp, hentry⟩ := h.entry he
    obtain ⟨l, hl⟩ := hreal src hsrc
    apply (hone hr hp hentry hl).mpr
    intro hdir
    exact (together_iff (divide_division hr) rfl hl).mpr (ht src hsrc)
      hdir p hp

end DTNAgent

-- ==================================================== the first command

/-- The base name of a source file, in the first command: of the name it
was given. -/
def nameBase (s : Path) : List PathName := components (baseName s.name)

/-- No regular file is below the source directory; or it is the root
directory, by that name, and they are in it itself. -/
def Bare (s : Path) : Prop :=
  s.isDirectory = true → s.files = [] ∨
    (s.real = .ok [] ∧ baseName s.name = ['/'] ∧
      ∀ r ∈ s.files, r.length = 1)

namespace DTNAgent

variable {a : DTNAgent} {prefixes : List PathName} {dst : PathName}

theorem entryOf_path (p : Path) : (entryOf dst prefixes p).path = p := by
  unfold entryOf
  dsimp only
  split <;> rfl

/-- What the first command places the files of a path under. -/
theorem entryOf_root_name (p : Path) :
    (entryOf dst prefixes p).root = components dst ++ (nameBase p ++
      if p.isDirectory then components (baseName (p.name ++ ['/']))
      else []) := by
  unfold Entry.root
  rw [entryOf_path]
  unfold entryOf nameBase makeDstPathName
  dsimp only
  by_cases hp : p.isDirectory = true
  · rw [if_pos hp, if_pos hp]
    dsimp only
    rw [components_append_slash, components_withSlash, List.append_assoc]
  · rw [if_neg hp, if_neg hp]
    dsimp only
    rw [components_withSlash, List.append_assoc, if_neg hp]

/-- The paths a source path is expanded to. -/
theorem mem_subPaths {s p : Path} {sub : List Path}
    (h : subPaths s = .ok sub) :
    p ∈ sub ↔ ((s.isRegularFile || s.isDirectory) = true ∧ p = s)
      ∨ ∃ l, s.node = .dir l ∧ p ∈ walkEntries s l := by
  unfold subPaths at h
  split at h
  · cases h
  · unfold Path.isRegularFile Path.isDirectory walk at *
    cases hn : s.node with
    | file size =>
        rw [hn] at h
        injection h with h
        subst h
        simp
    | dir l =>
        rw [hn] at h
        injection h with h
        subst h
        simp
    | shut why =>
        rw [hn] at h
        injection h with h
        subst h
        simp
    | other size =>
        rw [hn] at h
        injection h with h
        subst h
        simp
    | missing =>
        rw [hn] at h
        injection h with h
        subst h
        simp

theorem mem_allSubPaths {srcs : List PathName} {paths : List Path}
    (h : a.allSubPaths srcs = .ok paths) :
    (∀ src ∈ srcs, ∃ sub, subPaths (Path.ofName a.fs src) = .ok sub
        ∧ ∀ p ∈ sub, p ∈ paths)
      ∧ ∀ p ∈ paths, ∃ src ∈ srcs, ∃ sub,
          subPaths (Path.ofName a.fs src) = .ok sub ∧ p ∈ sub := by
  unfold allSubPaths at h
  cases hm : srcs.mapM fun p => subPaths (Path.ofName a.fs p) with
  | error e => rw [hm] at h; cases h
  | ok subs =>
      rw [hm] at h
      injection h with h
      subst h
      induction srcs generalizing subs with
      | nil =>
          injection hm with hm
          subst hm
          constructor
          · intro src hsrc
            cases hsrc
          · intro p hp
            cases hp
      | cons src srcs ih =>
          rw [List.mapM_cons] at hm
          obtain ⟨sub, hsub, hm⟩ := Stateful.bind_eq_ok.mp hm
          obtain ⟨rest, hrest, hm⟩ := Stateful.bind_eq_ok.mp hm
          injection hm with hm
          subst hm
          obtain ⟨h1, h2⟩ := ih rest hrest
          constructor
          · intro s hs
            rcases List.mem_cons.mp hs with rfl | hs
            · exact ⟨sub, hsub, fun p hp => List.mem_append_left _ hp⟩
            · obtain ⟨sub', hsub', hall⟩ := h1 s hs
              exact ⟨sub', hsub',
                fun p hp => List.mem_append_right _ (hall p hp)⟩
          · intro p hp
            rcases List.mem_append.mp hp with hp | hp
            · exact ⟨src, List.mem_cons_self .., sub, hsub, hp⟩
            · obtain ⟨s, hs, rest⟩ := h2 p hp
              exact ⟨s, List.mem_cons_of_mem _ hs, rest⟩

/-- The entries of the first command are those of the paths at and below
the source paths. -/
structure Listed (a : DTNAgent) (dst : PathName) (prefixes : List PathName)
    (srcs : List PathName) (es : List Entry) : Prop where
  made : ∀ e ∈ es, ∃ src ∈ srcs, ∃ p, e = entryOf dst prefixes p ∧
    (((Path.ofName a.fs src).isRegularFile
        || (Path.ofName a.fs src).isDirectory) = true ∧ p = Path.ofName a.fs src
      ∨ ∃ l, (Path.ofName a.fs src).node = .dir l
        ∧ p ∈ walkEntries (Path.ofName a.fs src) l)
  self : ∀ src ∈ srcs, ((Path.ofName a.fs src).isRegularFile
      || (Path.ofName a.fs src).isDirectory) = true →
    entryOf dst prefixes (Path.ofName a.fs src) ∈ es
  files : ∀ src ∈ srcs, ∀ l, (Path.ofName a.fs src).node = .dir l →
    ∀ p ∈ walkEntries (Path.ofName a.fs src) l, p.isRegularFile = true →
      entryOf dst prefixes p ∈ es

theorem listed_of_groups {srcs : List PathName} {paths : List Path}
    {maxSize maxFiles : UInt64} (h : a.allSubPaths srcs = .ok paths) :
    a.Listed dst prefixes srcs
      (((groupBySize paths maxSize maxFiles).map (groupOf dst prefixes)).flatMap
        FileGroup.files) := by
  obtain ⟨h1, h2⟩ := mem_allSubPaths h
  have hmem : ∀ e, e ∈ ((groupBySize paths maxSize maxFiles).map
      (groupOf dst prefixes)).flatMap FileGroup.files
        ↔ ∃ p ∈ paths, (p.isRegularFile || p.isDirectory) = true
            ∧ e = entryOf dst prefixes p := by
    intro e
    rw [List.flatMap_map]
    constructor
    · intro he
      obtain ⟨g, hg, he⟩ := List.mem_flatMap.mp he
      obtain ⟨p, hp, rfl⟩ := List.mem_map.mp he
      obtain ⟨hp, hk⟩ := mem_groupBySize.mp (List.mem_flatten.mpr ⟨g, hg, hp⟩)
      exact ⟨p, hp, hk, rfl⟩
    · intro h
      obtain ⟨p, hp, hk, rfl⟩ := h
      obtain ⟨g, hg, hp⟩ := List.mem_flatten.mp
        (mem_groupBySize.mpr ⟨hp, hk⟩)
      exact List.mem_flatMap.mpr ⟨g, hg, List.mem_map_of_mem hp⟩
  constructor
  · intro e he
    obtain ⟨p, hp, -, rfl⟩ := (hmem e).mp he
    obtain ⟨src, hsrc, sub, hsub, hp⟩ := h2 p hp
    exact ⟨src, hsrc, p, rfl, (mem_subPaths hsub).mp hp⟩
  · intro src hsrc hk
    obtain ⟨sub, hsub, hall⟩ := h1 src hsrc
    refine (hmem _).mpr ⟨_, hall _ ?_, hk, rfl⟩
    exact (mem_subPaths hsub).mpr (.inl ⟨hk, rfl⟩)
  · intro src hsrc l hl p hp hreg
    obtain ⟨sub, hsub, hall⟩ := h1 src hsrc
    refine (hmem _).mpr ⟨p, hall p ?_, by rw [hreg]; rfl, rfl⟩
    exact (mem_subPaths hsub).mpr (.inr ⟨l, hl, hp⟩)

variable {srcs : List PathName} {es : List Entry}

theorem Listed.comes (h : a.Listed dst prefixes srcs es) {e : Entry}
    (he : e ∈ es) : ∃ src ∈ srcs, ∃ p, e = entryOf dst prefixes p
      ∧ Comes (Path.ofName a.fs src) e.path p.below
      ∧ (p = Path.ofName a.fs src ∨
          ∃ l pre, (Path.ofName a.fs src).node = .dir l
            ∧ Under (Path.ofName a.fs src) l p pre) := by
  obtain ⟨src, hsrc, p, rfl, hp⟩ := h.made e he
  refine ⟨src, hsrc, p, rfl, ?_⟩
  rw [entryOf_path]
  rcases hp with ⟨-, rfl⟩ | ⟨l, hl, hp⟩
  · exact ⟨Comes.refl _, .inl rfl⟩
  · obtain ⟨pre, hpre⟩ := walkEntries_under hp
    have hbelow : p.below = pre := hpre.below
    rw [hbelow]
    exact ⟨hpre.comes hl, .inr ⟨l, pre, hl, hpre⟩⟩

theorem Listed.arranged (h : a.Listed dst prefixes srcs es)
    (hreal : ∀ src ∈ srcs, ∃ l, (Path.ofName a.fs src).real = .ok l) :
    Arranged nameBase a.fs dst srcs es where
  real := hreal
  comes := by
    intro e he
    obtain ⟨src, hsrc, p, rfl, hcomes, hp⟩ := h.comes he
    refine ⟨src, hsrc, p.below, hcomes, ?_⟩
    intro hdir
    rcases hp with rfl | ⟨l, pre, hl, -⟩
    · refine ⟨rfl, ?_⟩
      rw [entryOf_root_name, if_neg (by rw [hdir]; decide), List.append_nil]
    · unfold Path.isDirectory at hdir
      rw [hl] at hdir
      cases hdir
  self := by
    intro src hsrc hf
    refine ⟨_, h.self src hsrc ?_, entryOf_path _⟩
    exact kind_of_files hf

/-- The base name of a path found on a way is the last name of the
way. -/
theorem nameBase_under {s p : Path} {l : Listing} {pre : Place}
    (h : Under s l p pre) : nameBase p = spelled (lastName pre) := by
  have hne : p.name ≠ [] := by
    intro hnil
    have hname := h.name
    rw [hnil, components_nil] at hname
    have hlen := congrArg List.length hname
    have hpos := List.length_pos_iff.mpr h.ne_nil
    rw [List.length_nil, List.length_append, List.length_map] at hlen
    omega
  obtain ⟨pre', n, rfl⟩ := List.eq_nil_or_concat'  pre |>.resolve_left h.ne_nil
  unfold nameBase
  rw [components_baseName hne, h.name, ← spelled, spelled_append,
    ← List.append_assoc]
  unfold lastName
  simp [spelled]

/-- A base name without components is the slash. -/
theorem baseName_eq_slash {s : PathName}
    (h : components (baseName s) = []) : baseName s = ['/'] := by
  rcases baseName_cases s with hb | ⟨h1, h2⟩
  · exact hb
  · rw [components_single h1 h2] at h
    cases h

/-- A name whose base name is the slash has no components. -/
theorem components_of_slash {s : PathName} (h : baseName s = ['/']) :
    components s = [] := by
  have hne : s ≠ [] := by
    rintro rfl
    exact absurd h (by decide)
  rcases baseName_spec hne with ⟨hs, -⟩ | ⟨-, hb, -⟩
  · rw [← components_stripSlashes, hs, components_nil]
  · rw [h] at hb
    exact absurd (List.mem_singleton_self _) hb

/-- The first command keeps the ways if and only if there is nothing
below the source directories. -/
theorem Listed.keeps (h : a.Listed dst prefixes srcs es)
    (hreal : ∀ src ∈ srcs, ∃ l, (Path.ofName a.fs src).real = .ok l) :
    (∀ e ∈ es, Keeps a.fs dst e)
      ↔ ∀ src ∈ srcs, Bare (Path.ofName a.fs src) := by
  constructor
  · intro hall src hsrc hdir
    by_cases hf : (Path.ofName a.fs src).files = []
    · exact .inl hf
    · right
      obtain ⟨l₀, hl₀⟩ := hreal src hsrc
      obtain ⟨l, hl, -⟩ := node_of_files hdir hf
      have hfile : ∀ r ∈ (Path.ofName a.fs src).files,
          l₀ = [] ∧ r.length = 1 := by
        intro r hr
        have hr' : r ∈ l.files := by
          unfold Path.files at hr
          rwa [hl] at hr
        obtain ⟨p, hp, hreg, hbelow⟩ :=
          walkEntries_files (q := Path.ofName a.fs src) hr'
        obtain ⟨pre, hpre⟩ := walkEntries_under hp
        have hway : pre = r := by
          have := hpre.below.symm.trans hbelow
          exact List.append_cancel_left this
        subst hway
        have hk := hall _ (h.files src hsrc l hl p hp hreg)
        have hcomes : Comes (Path.ofName a.fs src)
            (entryOf dst prefixes p).path pre := by
          rw [entryOf_path]
          exact hpre.comes hl
        have hroot := ((keeps_iff hcomes hl₀).mp hk hdir).resolve_left (by
          rw [entryOf_path, Path.files_of_file hreg]
          exact List.cons_ne_nil _ _)
        have hnd : p.isDirectory = false := by
          unfold Path.isRegularFile at hreg
          unfold Path.isDirectory
          split at hreg
          · rename_i hn
            rw [hn]
          · cases hreg
        rw [entryOf_root_name, hnd, nameBase_under hpre] at hroot
        have hroot := spelled_injective (List.append_cancel_left
          ((congrArg _ (List.append_nil _).symm).trans hroot))
        have hlen := congrArg List.length hroot
        rw [lastName_ne_nil hpre.ne_nil, List.length_append] at hlen
        have hpos := List.length_pos_iff.mpr hpre.ne_nil
        constructor
        · by_contra hne
          rw [lastName_ne_nil hne] at hlen
          omega
        · omega
      obtain ⟨r, hr⟩ := List.exists_mem_of_ne_nil _ hf
      have hnil := (hfile r hr).1
      refine ⟨hnil ▸ hl₀, ?_, fun r hr => (hfile r hr).2⟩
      have hk := hall _ (h.self src hsrc (by rw [hdir, Bool.or_true]))
      have hcomes : Comes (Path.ofName a.fs src)
          (entryOf dst prefixes (Path.ofName a.fs src)).path [] := by
        rw [entryOf_path]
        exact Comes.refl _
      have hroot := ((keeps_iff hcomes hl₀).mp hk hdir).resolve_left (by
        rw [entryOf_path]
        exact hf)
      rw [entryOf_root_name, if_pos hdir, hnil] at hroot
      have hroot := List.append_cancel_left hroot
      exact baseName_eq_slash (List.append_eq_nil_iff.mp hroot).1
  · intro hbare e he
    obtain ⟨src, hsrc, p, rfl, hcomes, hp⟩ := h.comes he
    obtain ⟨l₀, hl₀⟩ := hreal src hsrc
    rw [keeps_iff hcomes hl₀]
    intro hdir
    rw [entryOf_path] at hcomes ⊢
    by_cases hf : p.files = []
    · exact .inl hf
    · right
      obtain ⟨post, hpost⟩ := List.exists_mem_of_ne_nil _ hf
      have hmem := hcomes.files post hpost
      obtain ⟨hnil, hslash, hone⟩ :=
        (hbare src hsrc hdir).resolve_left (List.ne_nil_of_mem hmem)
      rw [hl₀] at hnil
      injection hnil with hnil
      subst hnil
      rw [entryOf_root_name]
      congr 1
      rcases hp with rfl | ⟨l, pre, hl, hpre⟩
      · rw [if_pos hdir, components_baseName (by simp),
          components_append_slash, components_of_slash hslash]
        unfold nameBase
        rw [hslash, components_slash_cons, components_nil]
        rfl
      · -- one step from the root, so a file
        have hbelow : p.below = pre := hpre.below
        have hlen := hone _ hmem
        have hpos := List.length_pos_iff.mpr hpre.ne_nil
        rw [hbelow, List.length_append] at hlen
        have hpost' : post = [] := List.length_eq_zero_iff.mp (by omega)
        have hnd : p.isDirectory = false := by
          unfold Path.files at hpost
          unfold Path.isDirectory
          cases hn : p.node with
          | dir l' =>
              rw [hn] at hpost
              exact absurd hpost' (l'.files_ne_nil post hpost)
          | shut why => rw [hn] at hpost; cases hpost
          | file size => rfl
          | other size => rfl
          | missing => rfl
        rw [hnd, nameBase_under hpre, hbelow]
        show spelled (lastName pre) ++ [] = spelled ([] ++ pre)
        rw [List.append_nil, List.nil_append]
        congr 1
        have h1 : pre.length = 1 := by omega
        exact (lastName_append [] pre).mpr (.inr ⟨rfl, h1⟩)

-- ===================================================== both commands

/-- Slashes at the end of the destination do not matter. -/
theorem wellPlaced_stripSlashes (fs : FileSystem) (dst : PathName)
    (es : List Entry) :
    WellPlaced fs (stripSlashes dst) es ↔ WellPlaced fs dst es := by
  unfold WellPlaced Keeps
  rw [components_stripSlashes]

theorem noClash_congr {base : Path → List PathName} {fs : FileSystem}
    {srcs srcs' : List PathName} (h : ∀ p, p ∈ srcs ↔ p ∈ srcs') :
    NoClash base fs srcs ↔ NoClash base fs srcs' := by
  unfold NoClash
  simp only [h]

theorem handleExpandAndGroup_ok {m : ExpandMessage} {total : UInt64}
    {groups : List FileGroup}
    (h : a.handleExpandAndGroup m = .ok total (.inline groups)) :
    ∃ prefixes, a.pathPrefixes m.srcPath = .ok prefixes
      ∧ a.Listed (stripSlashes m.dstPath) prefixes m.srcPath
          (groups.flatMap FileGroup.files) := by
  unfold handleExpandAndGroup at h
  cases hb : a.expandAndGroupBody m with
  | error e => rw [hb] at h; cases h
  | ok r =>
      rw [hb] at h
      injection h with _ h
      injection h with h
      unfold expandAndGroupBody at hb
      obtain ⟨_, -, hb⟩ := Stateful.bind_eq_ok.mp hb
      obtain ⟨_, -, hb⟩ := Stateful.bind_eq_ok.mp hb
      obtain ⟨_, -, hb⟩ := Stateful.bind_eq_ok.mp hb
      obtain ⟨_, -, hb⟩ := Stateful.bind_eq_ok.mp hb
      obtain ⟨_, -, hb⟩ := Stateful.bind_eq_ok.mp hb
      obtain ⟨prefixes, hpre, hb⟩ := Stateful.bind_eq_ok.mp hb
      obtain ⟨paths, hpaths, hb⟩ := Stateful.bind_eq_ok.mp hb
      injection hb with hb
      refine ⟨prefixes, hpre, ?_⟩
      rw [← h, ← hb]
      exact listed_of_groups hpaths

/-- Files are placed well by the first command if and only if the source
directories have no regular files below them, by the second if and only
if they stay together; and no two files may clash. -/
theorem files_well_placed (a : DTNAgent) (m : ExpandMessage) :
    (∀ total groups,
      a.handleExpandAndGroup m = .ok total (.inline groups) →
      (WellPlaced a.fs m.dstPath (groups.flatMap FileGroup.files)
        ↔ (∀ src ∈ m.srcPath, Bare (Path.ofName a.fs src))
          ∧ NoClash nameBase a.fs m.srcPath)) ∧
    (∀ s total r s',
      a.handleExpandAndGroupV2 m s = (.ok total r, s') →
      (WellPlaced a.fs m.dstPath
          ((dataGroups s' r).flatMap FileGroup.files)
        ↔ (∀ src ∈ m.srcPath,
            Together a.fs m.groupSize (Path.ofName a.fs src))
          ∧ NoClash realBase a.fs m.srcPath)) := by
  constructor
  · intro total groups h
    obtain ⟨prefixes, hpre, hlisted⟩ := handleExpandAndGroup_ok h
    have hreal : ∀ src ∈ m.srcPath,
        ∃ l, (Path.ofName a.fs src).real = .ok l :=
      fun src hsrc => pathPrefixes_real hpre hsrc
    rw [← wellPlaced_stripSlashes, (hlisted.arranged hreal).wellPlaced,
      hlisted.keeps hreal]
  · intro s total r s' h
    obtain ⟨ps, prefixes, hps, hpre, hexp⟩ := a.handleExpandAndGroupV2_ok h
    obtain ⟨-, hdst, hsize, -, -⟩ := a.decodeV2_srcPaths hps
    have hreal : ∀ src ∈ srcPathsSet m.srcPath,
        ∃ l, (Path.ofName a.fs src).real = .ok l :=
      fun src hsrc => pathPrefixes_real hpre (mem_srcPathsSet.mp hsrc)
    rw [← wellPlaced_stripSlashes, ← hdst,
      (hexp.arranged hreal).wellPlaced, hexp.keeps hreal, hsize,
      noClash_congr fun p => mem_srcPathsSet]
    simp only [mem_srcPathsSet]

-- ================================================ one name, twice

/-- The directory `/d` with `a/x` and `b/x`. -/
def sameNames : FileSystem where
  lstat s :=
    if s = ['/', 'd'] then
      .dir (.dir (letter 'a')
        (.file (letter 'x') 2 .done)
        (.dir (letter 'b')
          (.file (letter 'x') 2 .done) .done))
    else .missing
  realpath s :=
    if s = ['/', 'd'] then .ok [letter 'd']
    else .error "No such file or directory"
  nftw s :=
    if s = ['/', 'd'] then .ok [2, 2]
    else if s = ['/', 'd', '/', 'a'] then .ok [2]
    else if s = ['/', 'd', '/', 'b'] then .ok [2]
    else .error "No such file or directory"
  read _ := .error .opening

/-- Expand `/d` to below `/e`. -/
def expandSame (groupSize : UInt64) : ExpandMessage where
  srcPath := [['/', 'd']]
  dstPath := ['/', 'e']
  groupSize := groupSize

/-- Two different files are placed at the same path. -/
def collides (x : ExpandReply × AgentState) : Bool :=
  match x with
  | (.ok _ r, s) =>
      let xs := ((dataGroups s r).flatMap FileGroup.files).flatMap
        Entry.placements
      xs.any fun x => xs.any fun y => x.2 == y.2 && x.1 != y.1
  | (.failed .., _) => false

/-- Divided into blocks of 1, both files go to `/e/x`. -/
theorem same_destination :
    ¬ ∀ total r s', (plain sameNames [['/', 'd']]).handleExpandAndGroupV2
        (expandSame 1) {} = (.ok total r, s') →
      WellPlaced sameNames ['/', 'e']
        ((dataGroups s' r).flatMap FileGroup.files) := by
  intro h
  have hrun : collides ((plain sameNames [['/', 'd']]).handleExpandAndGroupV2
      (expandSame 1) {}) = true := by decide +kernel
  cases hx : (plain sameNames [['/', 'd']]).handleExpandAndGroupV2
      (expandSame 1) {} with
  | mk reply s' =>
      rw [hx] at hrun
      cases reply with
      | failed c e => cases hrun
      | ok total r =>
          obtain ⟨x, hx', hany⟩ := List.any_eq_true.mp hrun
          obtain ⟨y, hy, hxy⟩ := List.any_eq_true.mp hany
          simp only [Bool.and_eq_true, beq_iff_eq, bne_iff_ne] at hxy
          exact hxy.2 ((h total r s' hx).1 x hx' y hy hxy.1)

/-- In one block, they keep their ways. -/
theorem files_well_placed_whole :
    ∃ total r s', (plain sameNames [['/', 'd']]).handleExpandAndGroupV2
        (expandSame 40) {} = (.ok total r, s') ∧
      WellPlaced sameNames ['/', 'e']
        ((dataGroups s' r).flatMap FileGroup.files) := by
  have hrun : ∃ total r s',
      (plain sameNames [['/', 'd']]).handleExpandAndGroupV2
        (expandSame 40) {} = (.ok total r, s') := ⟨_, _, _, rfl⟩
  obtain ⟨total, r, s', hx⟩ := hrun
  refine ⟨total, r, s', hx, ?_⟩
  apply ((files_well_placed (plain sameNames [['/', 'd']])
    (expandSame 40)).2 {} total r s' hx).mpr
  constructor
  · intro src hsrc
    have hsrc : src = ['/', 'd'] := List.mem_singleton.mp hsrc
    subst hsrc
    constructor
    · intro _ hsc
      exact absurd hsc.1 (by decide)
    · intro _ hfit
      exact absurd hfit (by decide)
  · intro s hs t ht
    have hs : s = ['/', 'd'] := List.mem_singleton.mp hs
    have ht : t = ['/', 'd'] := List.mem_singleton.mp ht
    subst hs ht
    decide

end DTNAgent

end BigDataExpress
