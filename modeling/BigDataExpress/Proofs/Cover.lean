/-
How often a division covers a file.

The pieces a directory is divided into cover every file below it exactly
once: as an entry of its own, or below a directory that is taken whole
(`countP_pieces`). The groups hold the pieces, each once
(`putAll_perm`). But the first group of a directory that is split is
seeded with the directory itself, and so every file below it is covered
once more.
-/
import BigDataExpress.Proofs.Deposits

namespace BigDataExpress

-- =========================================================== the property

/-- The paths in the groups, with repetitions. -/
def PathSuperGroup.entries (r : PathSuperGroup) : List Path :=
  r.groups.flatMap PathGroup.paths

/-- How many of the paths are the file itself. -/
def entriesAt (es : List Path) (f : Path) : Nat :=
  es.countP fun e => e.below = f.below

/-- How many of the paths the file is below. -/
def coversOf (es : List Path) (f : Path) : Nat :=
  es.countP fun e => e.below ≠ f.below ∧ e.below <+: f.below

/-- The regular files at or below a path. -/
def Path.regularFiles (p : Path) : List Path :=
  (p :: walk p).filter Path.isRegularFile

/-- Every file is an entry of one group and below no entry, or below one
entry and none itself. -/
def CoversOnce (p : Path) (r : PathSuperGroup) : Prop :=
  ∀ f ∈ p.regularFiles,
    (entriesAt r.entries f = 1 ∧ coversOf r.entries f = 0)
      ∨ (entriesAt r.entries f = 0 ∧ coversOf r.entries f = 1)

/-- The directory is larger than a group may be. -/
def Larger (fs : FileSystem) (maxSize : UInt64) (p : Path) : Prop :=
  ∃ size, dirSize fs p = .ok size ∧ maxSize < size

/-- A directory is split when it and all directories above it are too
large for a group: it is in the list of directories. -/
def ListsSplit (fs : FileSystem) (maxSize : UInt64) (p : Path)
    (r : PathSuperGroup) : Prop :=
  ∀ d ∈ p :: walk p, d.isDirectory = true →
    (∀ a ∈ p :: walk p, a.isDirectory = true → a.below <+: d.below →
      Larger fs maxSize a) →
    ∃ e ∈ r.dirs, e.name = d.name

variable {fs : FileSystem} {maxSize maxFiles : UInt64}

-- ============================================================ the entries

theorem Dividing.addFile_entries {st : Dividing} {p : Path}
    (h : ∀ e ∈ st.group.paths, p.name ≠ e.name) :
    (st.addFile maxSize maxFiles p).entries.Perm (st.entries ++ [p]) := by
  have hput : ∀ s : Dividing, (∀ e ∈ s.group.paths, p.name ≠ e.name) →
      ({ s with group := s.group.add p p.size } : Dividing).entries.Perm
        (s.entries ++ [p]) := by
    intro s hs
    show (s.super.groups.flatMap PathGroup.paths
      ++ insertBy Path.name p s.group.paths).Perm _
    refine ((insertBy_perm hs).append_left _).trans ?_
    unfold Dividing.entries
    rw [List.append_assoc]
    exact (List.perm_append_singleton p s.group.paths).symm.append_left _
  unfold Dividing.addFile
  dsimp only
  have hfirst : (if st.full maxSize maxFiles p.size then st.flush
      else st).entries = st.entries := by
    split
    · exact st.flush_entries
    · rfl
  have hfresh : ∀ e ∈ (if st.full maxSize maxFiles p.size then st.flush
      else st).group.paths, p.name ≠ e.name := by
    split
    · exact fun e he => absurd he List.not_mem_nil
    · exact h
  generalize (if st.full maxSize maxFiles p.size then st.flush else st) = s
    at hfirst hfresh
  have hs := hput s hfresh
  rw [hfirst] at hs
  split
  · rw [Dividing.flush_entries]
    exact hs
  · exact hs

theorem Dividing.addWhole_entries (st : Dividing) (p : Path)
    (size : UInt64) :
    (st.addWhole p size).entries.Perm (st.entries ++ [p]) := by
  show ((st.super.groups ++ [_]).flatMap PathGroup.paths
    ++ st.group.paths).Perm _
  unfold Dividing.entries
  rw [List.flatMap_append, List.append_assoc, List.append_assoc]
  refine List.Perm.append_left _ ?_
  show ([p] ++ st.group.paths).Perm _
  exact List.perm_append_comm

/-- If no two entries have one name, what is put is new to the open
group. -/
theorem Deposit.new_name {d : Deposit} {ds : List Deposit} {st : Dividing}
    {p : Path} (hp : d.added = some p)
    (h : ((st.entries ++ (d :: ds).filterMap Deposit.added).map
      Path.name).Nodup) : ∀ e ∈ st.group.paths, p.name ≠ e.name := by
  intro e he hname
  rw [List.filterMap_cons_some hp, List.map_append, List.nodup_append] at h
  exact h.2.2 e.name (List.mem_map_of_mem (List.mem_append_right _ he))
    p.name (List.mem_cons_self ..) hname.symm

/-- If no two entries have one name, one is now in the groups that was
still to come. -/
theorem Deposit.put_perm (maxSize maxFiles : UInt64) {d : Deposit}
    {ds : List Deposit} {st : Dividing}
    (h : ((st.entries ++ (d :: ds).filterMap Deposit.added).map
      Path.name).Nodup) :
    ((d.put maxSize maxFiles st).entries
        ++ ds.filterMap Deposit.added).Perm
      (st.entries ++ (d :: ds).filterMap Deposit.added) := by
  -- one path more in the groups, one less to come
  have more : ∀ {st' : Dividing} {p : Path}, d.added = some p →
      st'.entries.Perm (st.entries ++ [p]) →
      (st'.entries ++ ds.filterMap Deposit.added).Perm
        (st.entries ++ (d :: ds).filterMap Deposit.added) := by
    intro st' p hp hperm
    have hall := hperm.append_right (ds.filterMap Deposit.added)
    rw [List.append_assoc] at hall
    rw [List.filterMap_cons_some hp]
    exact hall
  cases d with
  | file p =>
      exact more rfl (Dividing.addFile_entries (Deposit.new_name rfl h))
  | whole p size => exact more rfl (st.addWhole_entries p size)
  | split p => exact List.Perm.refl _
  | stop =>
      show (st.finish.entries ++ _).Perm _
      rw [st.finish_entries]
      exact List.Perm.refl _

/-- If no two entries have one name, the groups hold what was put. -/
theorem putAll_perm (maxSize maxFiles : UInt64) (ds : List Deposit)
    {st : Dividing}
    (h : ((st.entries ++ ds.filterMap Deposit.added).map
      Path.name).Nodup) :
    (putAll maxSize maxFiles ds st).entries.Perm
      (st.entries ++ ds.filterMap Deposit.added) := by
  induction ds generalizing st with
  | nil =>
      rw [List.filterMap_nil, List.append_nil]
      rfl
  | cons d ds ih =>
      have hput := Deposit.put_perm maxSize maxFiles h
      exact (ih ((hput.map _).nodup_iff.mpr h)).trans hput

-- ============================================================= the pieces

/-- The paths that are put are the pieces. -/
theorem deposits_entries {q : Path} {l : Listing} (hp : l.Plain)
    (hs : Sized fs q l) :
    (deposits fs maxSize q l).filterMap Deposit.added
      = pieces fs maxSize q l := by
  induction l generalizing q with
  | done => rfl
  | file n size rest ih =>
      have hrest := ih hp (hs.rest [_] rfl)
      show q.child n (.file size)
        :: (deposits fs maxSize q rest).filterMap Deposit.added = _
      rw [hrest]
      rfl
  | dir n entries rest ih₁ ih₂ =>
      obtain ⟨hsize, hin⟩ := hs.inside
      unfold deposits pieces
      dsimp only
      rw [List.filterMap_append, ih₂ hp.2 (hs.rest _ rfl)]
      unfold depositDir fits
      rw [hsize]
      dsimp only
      by_cases hle : sumSizes entries.sizes ≤ maxSize
      · rw [if_pos hle, if_pos (decide_eq_true hle)]
        rfl
      · rw [if_neg hle, if_neg (by simpa using hle),
          ← ih₁ hp.1 hin]
        rfl
  | shut n why rest ih => exact hp.elim
  | other n size rest ih => exact hp.elim

/-- The pieces come in the order of the walk. -/
theorem pieces_sublist (fs : FileSystem) (maxSize : UInt64) (q : Path)
    (l : Listing) :
    (pieces fs maxSize q l).Sublist (walkEntries q l) := by
  induction l generalizing q with
  | done => exact .slnil
  | file n size rest ih => exact (ih q).cons_cons _
  | dir n entries rest ih₁ ih₂ =>
      refine List.Sublist.append ?_ (ih₂ q)
      split
      · exact List.Sublist.cons_cons _ (List.nil_sublist _)
      · exact (ih₁ _).cons _
  | shut n why rest ih => exact (ih q).cons_cons _
  | other n size rest ih => exact (ih q).cons _

/-- What is below one entry is not above what is below another. -/
theorem not_above {q e f : Path} {n m : Name} {r s : Place}
    (he : e.below = q.below ++ n :: r) (hf : f.below = q.below ++ m :: s)
    (hne : n ≠ m) : ¬ e.below <+: f.below := by
  rw [he, hf, List.prefix_append_right_inj, List.cons_prefix_cons]
  exact fun h => hne h.1

/-- Every file is covered by one piece. -/
theorem countP_pieces {q f : Path} {l : Listing} (hp : l.Plain)
    (hd : l.Distinct) (hf : f ∈ walkEntries q l)
    (hfile : f.isRegularFile = true) :
    (pieces fs maxSize q l).countP (fun e => e.below <+: f.below) = 1 := by
  -- what is found in a directory is below one of its entries
  have piece : ∀ {q l e}, e ∈ pieces fs maxSize q l →
      ∃ n ∈ l.names, ∃ r, e.below = q.below ++ n :: r :=
    fun he => walkEntries_names ((pieces_sublist _ _ _ _).subset he)
  have none : ∀ {ps : List Path}, (∀ e ∈ ps, ¬ e.below <+: f.below) →
      ps.countP (fun e => e.below <+: f.below) = 0 := by
    intro ps h
    refine List.countP_eq_zero.mpr fun e he => ?_
    rw [decide_eq_true_eq]
    exact h e he
  induction l generalizing q with
  | done => cases hf
  | file n size rest ih =>
      unfold pieces
      rcases List.mem_cons.mp hf with rfl | hf
      · rw [List.countP_cons_of_pos (by simp), none]
        intro e he
        obtain ⟨m, hm, r, hr⟩ := piece he
        exact not_above (r := r) (s := []) hr rfl
          fun hc => hd.1 (hc ▸ hm)
      · obtain ⟨m, hm, r, hr⟩ := walkEntries_names hf
        rw [List.countP_cons_of_neg, ih hp hd.2 hf]
        rw [decide_eq_true_eq]
        exact not_above (r := []) rfl hr fun hc => hd.1 (hc ▸ hm)
  | dir n entries rest ih₁ ih₂ =>
      obtain ⟨hn, hde, hdr⟩ := hd
      unfold pieces
      dsimp only
      rw [List.countP_append]
      rcases List.mem_append.mp hf with hf | hf
      · rcases List.mem_cons.mp hf with rfl | hf
        · cases hfile
        · -- below the directory: there, and not in the rest
          obtain ⟨k, -, r, hr⟩ := walkEntries_names hf
          have hbelow : f.below = q.below ++ n :: k :: r := by
            rw [hr]
            show (q.below ++ [n]) ++ k :: r = _
            rw [List.append_assoc]
            rfl
          have hrest : (pieces fs maxSize q rest).countP
              (fun e => e.below <+: f.below) = 0 := by
            refine none fun e he => ?_
            obtain ⟨m, hm, s, hs⟩ := piece he
            exact not_above hs hbelow fun hc => hn (hc ▸ hm)
          rw [hrest]
          split
          · rw [List.countP_cons_of_pos, List.countP_nil]
            rw [decide_eq_true_eq, hbelow]
            show q.below ++ [n] <+: _
            rw [List.prefix_append_right_inj, List.cons_prefix_cons]
            exact ⟨rfl, List.nil_prefix⟩
          · exact ih₁ hp.1 hde hf
      · -- in the rest, and not below the directory
        obtain ⟨m, hm, r, hr⟩ := walkEntries_names hf
        have hne : n ≠ m := fun hc => hn (hc ▸ hm)
        rw [ih₂ hp.2 hdr hf, none]
        intro e he
        split at he
        · rw [List.mem_singleton.mp he]
          exact not_above (r := []) rfl hr hne
        · obtain ⟨k, -, s, hs⟩ := piece he
          refine not_above (r := k :: s) ?_ hr hne
          rw [hs]
          show (q.below ++ [n]) ++ k :: s = _
          rw [List.append_assoc]
          rfl
  | shut n why rest ih => exact hp.elim
  | other n size rest ih => exact hp.elim

-- ============================================================== the split

/-- A directory that is split is come to. -/
theorem split_mem_deposits {q d : Path} {l : Listing} (hp : l.Plain)
    (hs : Sized fs q l) (hd : d ∈ walkEntries q l)
    (hdir : d.isDirectory = true)
    (habove : ∀ a ∈ walkEntries q l, a.isDirectory = true →
      a.below <+: d.below → Larger fs maxSize a) :
    Deposit.split d ∈ deposits fs maxSize q l := by
  induction l generalizing q with
  | done => cases hd
  | file n size rest ih =>
      rcases List.mem_cons.mp hd with rfl | hd
      · cases hdir
      · exact List.mem_cons_of_mem _ (ih hp (hs.rest [_] rfl) hd
          fun a ha => habove a (List.mem_cons_of_mem _ ha))
  | dir n entries rest ih₁ ih₂ =>
      obtain ⟨hsize, hin⟩ := hs.inside
      rcases List.mem_append.mp hd with hd | hd
      · refine List.mem_append_left _ ?_
        -- the directory itself is too large
        have hle : ¬ sumSizes entries.sizes ≤ maxSize := by
          have hself : (q.child n (.dir entries)).below <+: d.below := by
            rcases List.mem_cons.mp hd with rfl | hd
            · exact List.prefix_refl _
            · obtain ⟨m, -, r, hr⟩ := walkEntries_names hd
              rw [hr]
              exact List.prefix_append ..
          obtain ⟨size, hsz, hlt⟩ := habove _
            (List.mem_append_left _ (List.mem_cons_self ..)) rfl hself
          rw [hsize] at hsz
          injection hsz with hsz
          rw [hsz]
          exact UInt64.not_le.mpr hlt
        unfold depositDir
        rw [hsize]
        dsimp only
        rw [if_neg hle]
        rcases List.mem_cons.mp hd with rfl | hd
        · exact List.mem_cons_self ..
        · exact List.mem_cons_of_mem _ (ih₁ hp.1 hin hd fun a ha =>
            habove a (List.mem_append_left _ (List.mem_cons_of_mem _ ha)))
      · exact List.mem_append_right _ (ih₂ hp.2 (hs.rest _ rfl) hd
          fun a ha => habove a (List.mem_append_right _ ha))
  | shut n why rest ih => exact hp.elim
  | other n size rest ih => exact hp.elim

/-- Directories stay in the list. -/
theorem Deposit.put_dirs {st : Dividing} {e : Path} (d : Deposit)
    (he : e ∈ st.super.dirs) :
    e ∈ (d.put maxSize maxFiles st).super.dirs := by
  cases d with
  | file p =>
      have hfile : (st.addFile maxSize maxFiles p).super.dirs
          = st.super.dirs := by
        unfold Dividing.addFile
        dsimp only
        split
        · split
          · rfl
          · rfl
        · split
          · rfl
          · rfl
      show e ∈ (st.addFile maxSize maxFiles p).super.dirs
      rw [hfile]
      exact he
  | whole p size => exact he
  | split p => exact subset_insertBy _ p _ he
  | stop =>
      show e ∈ st.finish.super.dirs
      unfold Dividing.finish
      split
      · exact he
      · exact he

theorem putAll_dirs {ds : List Deposit} (st : Dividing) {e : Path}
    (he : e ∈ st.super.dirs) :
    e ∈ (putAll maxSize maxFiles ds st).super.dirs := by
  induction ds generalizing st with
  | nil => exact he
  | cons d ds ih => exact ih _ (d.put_dirs he)

theorem putAll_split {ds : List Deposit} {st : Dividing} {d : Path}
    (hd : Deposit.split d ∈ ds) :
    ∃ e ∈ (putAll maxSize maxFiles ds st).super.dirs, e.name = d.name := by
  induction ds generalizing st with
  | nil => cases hd
  | cons c ds ih =>
      rcases List.mem_cons.mp hd with rfl | hd
      · obtain ⟨e, he, hname⟩ := key_mem_insertBy Path.name d st.super.dirs
        exact ⟨e, putAll_dirs (st.addDir d) he, hname⟩
      · exact ih hd

-- ============================================================== the count

/-- A path is an entry, or above, or neither. -/
theorem entriesAt_add_coversOf (es : List Path) (f : Path) :
    entriesAt es f + coversOf es f
      = es.countP fun e => e.below <+: f.below := by
  unfold entriesAt coversOf
  induction es with
  | nil => rfl
  | cons e es ih =>
      simp only [List.countP_cons, decide_eq_true_eq]
      rw [← ih]
      by_cases heq : e.below = f.below
      · simp [heq]
        omega
      · simp only [heq, ne_eq, not_false_eq_true, true_and, if_false]
        omega

theorem CoversOnce.iff_count {p : Path} {r : PathSuperGroup} :
    CoversOnce p r ↔ ∀ f ∈ p.regularFiles,
      entriesAt r.entries f + coversOf r.entries f = 1 := by
  unfold CoversOnce
  constructor
  · intro h f hf
    rcases h f hf with ⟨h₁, h₂⟩ | ⟨h₁, h₂⟩
    · rw [h₁, h₂]
    · rw [h₁, h₂]
  · intro h f hf
    have := h f hf
    omega

theorem Path.regularFiles_of_dir {p : Path} {l : Listing}
    (hl : p.node = .dir l) :
    p.regularFiles = (walkEntries p l).filter Path.isRegularFile := by
  have hp : p.isRegularFile = false := by
    unfold Path.isRegularFile
    rw [hl]
  unfold Path.regularFiles walk
  rw [List.filter_cons_of_neg (by rw [hp]; decide), hl]

/-- What is found below a path is not named as the path. -/
theorem name_ne_of_walkEntries {p e : Path} {l : Listing}
    (he : e ∈ walkEntries p l) : p.name ≠ e.name := by
  obtain ⟨pre, hu⟩ := walkEntries_under he
  intro hname
  have hc := hu.name
  rw [← hname] at hc
  have hlen := congrArg List.length hc
  rw [List.length_append, List.length_map] at hlen
  exact hu.ne_nil (List.length_eq_zero_iff.mp (by omega))

/-- The root and its pieces have different names. -/
theorem pieces_names {p : Path} {l : Listing} (hp : p.Regular fs)
    (hl : p.node = .dir l) :
    ((p :: pieces fs maxSize p l).map Path.name).Nodup := by
  have hsub := pieces_sublist fs maxSize p l
  rw [List.map_cons, List.nodup_cons]
  constructor
  · intro hmem
    obtain ⟨e, he, hname⟩ := List.mem_map.mp hmem
    exact name_ne_of_walkEntries (hsub.subset he) hname.symm
  · have hw := walk_names fun m hm => (hp.plain m hm).2
    have hwalk : walk p = walkEntries p l := by
      unfold walk
      rw [hl]
    rw [hwalk] at hw
    exact List.pairwise_map.mpr (hw.sublist hsub)

/-- What is in the seeded group and what is put is the root and its
pieces. -/
theorem seeded_deposits {p : Path} {l : Listing} (hp : p.Regular fs)
    (hl : p.node = .dir l) :
    ((seeded p).addDir p).entries
        ++ (deposits fs maxSize p l).filterMap Deposit.added
      = p :: pieces fs maxSize p l := by
  rw [deposits_entries (hp.plain l hl).1 (hp.sized hl).2]
  rfl

/-- The groups of a directory that is split: the directory itself, and
its pieces. -/
theorem split_entries (maxSize maxFiles : UInt64) {p : Path}
    {l : Listing} (hp : p.Regular fs) (hl : p.node = .dir l) :
    (putAll maxSize maxFiles (deposits fs maxSize p l)
      ((seeded p).addDir p)).entries.Perm (p :: pieces fs maxSize p l) := by
  have hnames : ((((seeded p).addDir p).entries
      ++ (deposits fs maxSize p l).filterMap Deposit.added).map
        Path.name).Nodup := by
    rw [seeded_deposits hp hl]
    exact pieces_names hp hl
  have hperm := putAll_perm maxSize maxFiles _ hnames
  rw [seeded_deposits hp hl] at hperm
  exact hperm

/-- How often a file is covered: once, and once more by the root if that
is split. -/
theorem covered_count {p : Path} {r : PathSuperGroup} (hp : p.Regular fs)
    (hr : divide fs p maxSize maxFiles = .ok r) {f : Path}
    (hf : f ∈ p.regularFiles) :
    (Larger fs maxSize p → entriesAt r.entries f + coversOf r.entries f = 2)
      ∧ (¬ Larger fs maxSize p →
        entriesAt r.entries f + coversOf r.entries f = 1) := by
  rw [entriesAt_add_coversOf]
  have hone : r.entries = [p] → r.entries.countP
      (fun e => e.below <+: f.below) = 1 := by
    intro he
    have hbelow : p.below <+: f.below := by
      rcases List.mem_cons.mp (List.mem_filter.mp hf).1 with rfl | hw
      · exact List.prefix_refl _
      · unfold walk at hw
        split at hw
        · obtain ⟨m, -, s, hs⟩ := walkEntries_names hw
          rw [hs]
          exact List.prefix_append ..
        · cases hw
    rw [he, List.countP_cons_of_pos (by rw [decide_eq_true_eq]; exact hbelow)]
    rfl
  rcases divide_cases hp maxSize maxFiles with
    ⟨size, hl, hdiv⟩ | ⟨l, hl, hle, hdiv⟩ | ⟨l, hl, hlt, hdiv, hgroup⟩
  · rw [hr] at hdiv
    injection hdiv with hdiv
    have hno : ¬ Larger fs maxSize p := by
      intro h
      obtain ⟨s, hs, -⟩ := h
      unfold dirSize Path.isDirectory at hs
      rw [hl] at hs
      cases hs
    refine ⟨fun h => absurd h hno, fun _ => hone ?_⟩
    rw [hdiv]
    rfl
  · rw [hr] at hdiv
    injection hdiv with hdiv
    have hno : ¬ Larger fs maxSize p := by
      intro h
      obtain ⟨s, hs, hlt⟩ := h
      rw [(hp.sized hl).1] at hs
      injection hs with hs
      rw [← hs] at hlt
      exact UInt64.not_le.mpr hlt hle
    refine ⟨fun h => absurd h hno, fun _ => hone ?_⟩
    rw [hdiv]
    rfl
  · rw [hr] at hdiv
    injection hdiv with hdiv
    refine ⟨fun _ => ?_, fun h => absurd ⟨_, (hp.sized hl).1, hlt⟩ h⟩
    have hperm := split_entries maxSize maxFiles
      hp hl
    have hentries : (putAll maxSize maxFiles (deposits fs maxSize p l)
        ((seeded p).addDir p)).entries = r.entries := by
      unfold Dividing.entries
      rw [hgroup, List.append_nil, hdiv]
      rfl
    rw [hentries] at hperm
    rw [Path.regularFiles_of_dir hl] at hf
    obtain ⟨hfw, hfile⟩ := List.mem_filter.mp hf
    obtain ⟨hplain, hdis⟩ := hp.plain l hl
    obtain ⟨m, -, s, hs⟩ := walkEntries_names hfw
    rw [hperm.countP_eq, List.countP_cons_of_pos,
      countP_pieces hplain hdis hfw hfile]
    rw [decide_eq_true_eq, hs]
    exact List.prefix_append ..

/-- A directory with bytes has a file. -/
theorem exists_regular {q : Path} {l : Listing} (h : l.sizes ≠ []) :
    ∃ f ∈ walkEntries q l, f.isRegularFile = true := by
  induction l generalizing q with
  | done => exact absurd rfl h
  | file n size rest ih => exact ⟨_, List.mem_cons_self .., rfl⟩
  | dir n entries rest ih₁ ih₂ =>
      by_cases he : entries.sizes = []
      · have hrest : rest.sizes ≠ [] := by
          intro hr
          apply h
          show entries.sizes ++ rest.sizes = []
          rw [he, hr]
          rfl
        obtain ⟨f, hf, hfile⟩ := ih₂ (q := q) hrest
        exact ⟨f, List.mem_append_right _ hf, hfile⟩
      · obtain ⟨f, hf, hfile⟩ := ih₁ (q := q.child n (.dir entries)) he
        exact ⟨f, List.mem_append_left _ (List.mem_cons_of_mem _ hf), hfile⟩
  | shut n why rest ih | other n size rest ih =>
      obtain ⟨f, hf, hfile⟩ := ih (q := q) h
      exact ⟨f, List.mem_cons_of_mem _ hf, hfile⟩

theorem Larger.exists_file {p : Path} (hp : p.Regular fs)
    (h : Larger fs maxSize p) : ∃ f, f ∈ p.regularFiles := by
  obtain ⟨size, hsize, hlt⟩ := h
  rcases hp.kind with ⟨s, hl⟩ | ⟨l, hl⟩
  · unfold dirSize Path.isDirectory at hsize
    rw [hl] at hsize
    cases hsize
  · rw [(hp.sized hl).1] at hsize
    injection hsize with hsize
    have hne : l.sizes ≠ [] := by
      intro hnil
      rw [← hsize, hnil] at hlt
      exact absurd hlt (UInt64.not_lt.mpr (UInt64.zero_le ..))
    obtain ⟨f, hf, hfile⟩ := exists_regular (q := p) hne
    refine ⟨f, ?_⟩
    rw [Path.regularFiles_of_dir hl]
    exact List.mem_filter.mpr ⟨hf, hfile⟩

/-- Every directory that is split is listed. -/
theorem divide_listsSplit {p : Path} {r : PathSuperGroup}
    (hp : p.Regular fs) (hr : divide fs p maxSize maxFiles = .ok r) :
    ListsSplit fs maxSize p r := by
  intro d hd hdir habove
  rcases divide_cases hp maxSize maxFiles with
    ⟨size, hl, -⟩ | ⟨l, hl, hle, -⟩ | ⟨l, hl, -, hdiv, -⟩
  · have hwalk : walk p = [] := by
      unfold walk
      rw [hl]
    rw [hwalk, List.mem_singleton] at hd
    subst hd
    unfold Path.isDirectory at hdir
    rw [hl] at hdir
    cases hdir
  · -- the root is not split
    have hself : p.below <+: d.below := by
      rcases List.mem_cons.mp hd with rfl | hw
      · exact List.prefix_refl _
      · unfold walk at hw
        rw [hl] at hw
        obtain ⟨m, -, s, hs⟩ := walkEntries_names hw
        rw [hs]
        exact List.prefix_append ..
    obtain ⟨size, hsize, hlt⟩ := habove p (List.mem_cons_self ..)
      (Path.isDirectory_of hl) hself
    rw [(hp.sized hl).1] at hsize
    injection hsize with hsize
    rw [← hsize] at hlt
    exact absurd hle (UInt64.not_le.mpr hlt)
  · rw [hr] at hdiv
    injection hdiv with hdiv
    rw [hdiv]
    rcases List.mem_cons.mp hd with rfl | hw
    · obtain ⟨e, he, hname⟩ :=
        key_mem_insertBy Path.name d (seeded d).super.dirs
      exact ⟨e, putAll_dirs ((seeded d).addDir d) he, hname⟩
    · have hwalk : walk p = walkEntries p l := by
        unfold walk
        rw [hl]
      rw [hwalk] at hw habove
      exact putAll_split (split_mem_deposits (hp.plain l hl).1
        (hp.sized hl).2 hw hdir fun a ha =>
          habove a (List.mem_cons_of_mem _ ha))

-- =========================================================== coverage

/-- A division succeeds; it covers every file exactly once, and lists the
directories it splits, exactly when it does not split its root. -/
theorem covers_once_iff {p : Path} (hp : p.Regular fs)
    (maxSize maxFiles : UInt64) :
    ∃ r, divide fs p maxSize maxFiles = .ok r
      ∧ ((CoversOnce p r ∧ ListsSplit fs maxSize p r)
        ↔ ¬ Larger fs maxSize p) := by
  obtain ⟨r, hr⟩ : ∃ r, divide fs p maxSize maxFiles = .ok r := by
    rcases divide_cases hp maxSize maxFiles with
      ⟨_, _, h⟩ | ⟨_, _, _, h⟩ | ⟨_, _, _, h, _⟩
    · exact ⟨_, h⟩
    · exact ⟨_, h⟩
    · exact ⟨_, h⟩
  refine ⟨r, hr, ?_⟩
  rw [CoversOnce.iff_count]
  constructor
  · intro h hlarger
    obtain ⟨f, hf⟩ := hlarger.exists_file hp
    have htwo := (covered_count hp hr hf).1 hlarger
    rw [h.1 f hf] at htwo
    cases htwo
  · intro hno
    exact ⟨fun f hf => (covered_count hp hr hf).2 hno,
      divide_listsSplit hp hr⟩

/-- Two files of 2 and 3 bytes. -/
def twoFiles : List (Name × UInt64) :=
  [(DTNAgent.letter 'x', 2), (DTNAgent.letter 'y', 3)]

/-- A directory of 5 bytes fits a group of 5. -/
theorem covers_once_fits :
    ∃ r, divide (reporting (Listing.ofFiles twoFiles).sizes)
        (Hashing.topOf (.ofFiles twoFiles)) 5 0 = .ok r
      ∧ CoversOnce (Hashing.topOf (.ofFiles twoFiles)) r := by
  obtain ⟨r, hr, h⟩ := covers_once_iff
    (topOf_regular (l := twoFiles) (by decide)) 5 0
  refine ⟨r, hr, (h.mpr ?_).1⟩
  intro hlarger
  obtain ⟨size, hsize, hlt⟩ := hlarger
  injection hsize with hsize
  rw [← hsize] at hlt
  exact absurd hlt (by decide)

/-- Groups of 4 bytes: the directory is split, and both of its files are
entries of their own and below the directory in the first group. -/
theorem covered_twice :
    (Hashing.topOf (.ofFiles twoFiles)).Regular
        (reporting (Listing.ofFiles twoFiles).sizes)
      ∧ ∀ r, divide (reporting (Listing.ofFiles twoFiles).sizes)
          (Hashing.topOf (.ofFiles twoFiles)) 4 0 = .ok r →
        r.groups.map (fun g => g.paths.map Path.name)
            = [[['/', 't'], ['/', 't', '/', 'x']], [['/', 't', '/', 'y']]]
          ∧ ¬ CoversOnce (Hashing.topOf (.ofFiles twoFiles)) r := by
  refine ⟨topOf_regular (by decide), fun r hr => ?_⟩
  have hall : ∀ f ∈ (Hashing.topOf (.ofFiles twoFiles)).regularFiles,
      (entriesAt r.entries f, coversOf r.entries f) = (1, 1) := by
    injection hr with hr
    subst hr
    decide +kernel
  refine ⟨?_, fun hc => ?_⟩
  · injection hr with hr
    subst hr
    decide +kernel
  · have hf : (Hashing.topOf (.ofFiles twoFiles)).child
        (DTNAgent.letter 'x') (.file 2)
        ∈ (Hashing.topOf (.ofFiles twoFiles)).regularFiles :=
      List.mem_cons_self ..
    have hone := hall _ hf
    rcases hc _ hf with ⟨-, h⟩ | ⟨h, -⟩
    · exact absurd (h.symm.trans (congrArg Prod.snd hone)) Nat.zero_ne_one
    · exact absurd (h.symm.trans (congrArg Prod.fst hone)) Nat.zero_ne_one

end BigDataExpress
