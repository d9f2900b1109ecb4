/-
What a division consists of.

`pieces` lists what `divide` takes out of a directory it does not take
whole: the files of the directories it enters and the directories that
fit. A division of a directory that is entered has the pieces as its
entries, and the directory itself, which the first group is seeded with
(`divideEntries_adds`). Everything found below a directory, by the
division or by a walk, carries the way it was found on (`Under`).
-/
import BigDataExpress.Proofs.Digest
import BigDataExpress.Proofs.Paths

namespace BigDataExpress

-- ================================================ regular files below

/-- The regular files below a directory, by their way from it. -/
def Listing.files : Listing → List Place
  | .done => []
  | .file n _ rest => [n] :: rest.files
  | .dir n entries rest => entries.files.map (n :: ·) ++ rest.files
  | .shut _ _ rest => rest.files
  | .other _ _ rest => rest.files

/-- The directories in a directory. -/
def Listing.dirs : Listing → List (Name × Listing)
  | .done => []
  | .file _ _ rest => rest.dirs
  | .dir n entries rest => (n, entries) :: rest.dirs
  | .shut _ _ rest => rest.dirs
  | .other _ _ rest => rest.dirs

/-- The regular files at or below a path. -/
def Path.files (p : Path) : List Place :=
  match p.node with
  | .file _ => [[]]
  | .dir entries => entries.files
  | _ => []

theorem Listing.files_ne_nil (l : Listing) : ∀ r ∈ l.files, r ≠ [] := by
  induction l with
  | done => intro r hr; cases hr
  | file n size rest ih =>
      intro r hr
      rcases List.mem_cons.mp hr with rfl | hr
      · exact List.cons_ne_nil n []
      · exact ih r hr
  | dir n entries rest _ ih =>
      intro r hr
      rcases List.mem_append.mp hr with hr | hr
      · obtain ⟨r', -, rfl⟩ := List.mem_map.mp hr
        exact List.cons_ne_nil n r'
      · exact ih r hr
  | shut n why rest ih => exact ih
  | other n size rest ih => exact ih

/-- What is known of a path found below `q`, on the way `pre`. -/
structure Under (q : Path) (l : Listing) (p : Path) (pre : Place) :
    Prop where
  ne_nil : pre ≠ []
  source : p.source = q.source
  below : p.below = q.below ++ pre
  real : p.real = q.real.map (· ++ pre)
  name : components p.name = components q.name ++ pre.map Name.chars
  files : ∀ post ∈ p.files, pre ++ post ∈ l.files

theorem Under.child (q : Path) (l : Listing) (n : Name) (node : Node)
    (h : ∀ post ∈ (q.child n node).files, [n] ++ post ∈ l.files) :
    Under q l (q.child n node) [n] where
  ne_nil := List.cons_ne_nil n []
  source := rfl
  below := rfl
  real := rfl
  name := by
    show components (joinPaths q.name n.chars) = _
    rw [components_joinPaths, components_name]
    rfl
  files := h

theorem Under.mono {q p : Path} {l l' : Listing} {pre : Place}
    (h : Under q l p pre) (hl : l.files ⊆ l'.files) : Under q l' p pre :=
  ⟨h.ne_nil, h.source, h.below, h.real, h.name,
    fun post hpost => hl (h.files post hpost)⟩

/-- Found below a directory in the directory. -/
theorem Under.deeper {q p : Path} {n : Name} {entries l : Listing}
    {pre : Place} (h : Under (q.child n (.dir entries)) entries p pre)
    (hl : ∀ r ∈ entries.files, n :: r ∈ l.files) :
    Under q l p (n :: pre) where
  ne_nil := List.cons_ne_nil n pre
  source := h.source
  below := by
    rw [h.below]
    show (q.below ++ [n]) ++ pre = _
    rw [List.append_assoc]
    rfl
  real := by
    rw [h.real]
    show (q.real.map _).map _ = _
    cases q.real with
    | error e => rfl
    | ok l =>
        show Except.ok ((l ++ [n]) ++ pre) = Except.ok (l ++ n :: pre)
        rw [List.append_assoc]
        rfl
  name := by
    rw [h.name]
    show components (joinPaths q.name n.chars) ++ _ = _
    rw [components_joinPaths, components_name, List.append_assoc]
    rfl
  files := fun post hpost => hl _ (h.files post hpost)

-- ============================================================ the walk

/-- What a walk finds is below the directory. -/
theorem walkEntries_under {q p : Path} {l : Listing}
    (h : p ∈ walkEntries q l) : ∃ pre, Under q l p pre := by
  induction l generalizing q with
  | done => cases h
  | file n size rest ih =>
      rcases List.mem_cons.mp h with rfl | h
      · refine ⟨[n], Under.child q _ n _ ?_⟩
        intro post hpost
        rw [List.mem_singleton.mp hpost]
        exact List.mem_cons_self ..
      · obtain ⟨pre, hp⟩ := ih h
        exact ⟨pre, hp.mono (List.subset_cons_self _ _)⟩
  | dir n entries rest ih₁ ih₂ =>
      have hsub : ∀ r ∈ entries.files,
          n :: r ∈ (Listing.dir n entries rest).files :=
        fun r hr => List.mem_append_left _ (List.mem_map_of_mem hr)
      rcases List.mem_append.mp h with h | h
      · rcases List.mem_cons.mp h with rfl | h
        · exact ⟨[n], Under.child q _ n _ hsub⟩
        · obtain ⟨pre, hp⟩ := ih₁ h
          exact ⟨n :: pre, hp.deeper hsub⟩
      · obtain ⟨pre, hp⟩ := ih₂ h
        exact ⟨pre, hp.mono (List.subset_append_right _ _)⟩
  | shut n why rest ih =>
      rcases List.mem_cons.mp h with rfl | h
      · refine ⟨[n], Under.child q _ n _ ?_⟩
        intro post hpost
        cases hpost
      · obtain ⟨pre, hp⟩ := ih h
        exact ⟨pre, hp.mono (List.Subset.refl _)⟩
  | other n size rest ih =>
      rcases List.mem_cons.mp h with rfl | h
      · refine ⟨[n], Under.child q _ n _ ?_⟩
        intro post hpost
        cases hpost
      · obtain ⟨pre, hp⟩ := ih h
        exact ⟨pre, hp.mono (List.Subset.refl _)⟩

/-- A walk finds every regular file below the directory. -/
theorem walkEntries_files {q : Path} {l : Listing} {r : Place}
    (h : r ∈ l.files) :
    ∃ p ∈ walkEntries q l, p.isRegularFile = true
      ∧ p.below = q.below ++ r := by
  induction l generalizing q r with
  | done => cases h
  | file n size rest ih =>
      rcases List.mem_cons.mp h with rfl | h
      · exact ⟨_, List.mem_cons_self .., rfl, rfl⟩
      · obtain ⟨p, hp, hreg⟩ := ih h
        exact ⟨p, List.mem_cons_of_mem _ hp, hreg⟩
  | dir n entries rest ih₁ ih₂ =>
      rcases List.mem_append.mp h with h | h
      · obtain ⟨r', hr', rfl⟩ := List.mem_map.mp h
        obtain ⟨p, hp, hreg, hbelow⟩ :=
          ih₁ (q := q.child n (.dir entries)) hr'
        refine ⟨p, List.mem_append_left _ (List.mem_cons_of_mem _ hp), hreg,
          ?_⟩
        rw [hbelow]
        show (q.below ++ [n]) ++ r' = _
        rw [List.append_assoc]
        rfl
      · obtain ⟨p, hp, hreg⟩ := ih₂ h
        exact ⟨p, List.mem_append_right _ hp, hreg⟩
  | shut n why rest ih =>
      obtain ⟨p, hp, hreg⟩ := ih h
      exact ⟨p, List.mem_cons_of_mem _ hp, hreg⟩
  | other n size rest ih =>
      obtain ⟨p, hp, hreg⟩ := ih h
      exact ⟨p, List.mem_cons_of_mem _ hp, hreg⟩

-- ========================================================== the pieces

variable (fs : FileSystem) (maxSize : UInt64)

/-- The directory is taken whole. -/
def fits (p : Path) : Bool :=
  match dirSize fs p with
  | .ok size => decide (size ≤ maxSize)
  | .error _ => false

/-- What `divide` takes out of a directory it enters. -/
def pieces (q : Path) : Listing → List Path
  | .done => []
  | .file n size rest => q.child n (.file size) :: pieces q rest
  | .dir n entries rest =>
      let d := q.child n (.dir entries)
      (if fits fs maxSize d then [d] else pieces d entries) ++ pieces q rest
  | .shut n why rest => q.child n (.shut why) :: pieces q rest
  | .other _ _ rest => pieces q rest

/-- The pieces are below the directory. -/
theorem pieces_under {q p : Path} {l : Listing}
    (h : p ∈ pieces fs maxSize q l) : ∃ pre, Under q l p pre := by
  induction l generalizing q with
  | done => cases h
  | file n size rest ih =>
      rcases List.mem_cons.mp h with rfl | h
      · refine ⟨[n], Under.child q _ n _ ?_⟩
        intro post hpost
        rw [List.mem_singleton.mp hpost]
        exact List.mem_cons_self ..
      · obtain ⟨pre, hp⟩ := ih h
        exact ⟨pre, hp.mono (List.subset_cons_self _ _)⟩
  | dir n entries rest ih₁ ih₂ =>
      have hsub : ∀ r ∈ entries.files,
          n :: r ∈ (Listing.dir n entries rest).files :=
        fun r hr => List.mem_append_left _ (List.mem_map_of_mem hr)
      rcases List.mem_append.mp h with h | h
      · split at h
        · rw [List.mem_singleton.mp h]
          exact ⟨[n], Under.child q _ n _ hsub⟩
        · obtain ⟨pre, hp⟩ := ih₁ h
          exact ⟨n :: pre, hp.deeper hsub⟩
      · obtain ⟨pre, hp⟩ := ih₂ h
        exact ⟨pre, hp.mono (List.subset_append_right _ _)⟩
  | shut n why rest ih =>
      rcases List.mem_cons.mp h with rfl | h
      · refine ⟨[n], Under.child q _ n _ ?_⟩
        intro post hpost
        cases hpost
      · obtain ⟨pre, hp⟩ := ih h
        exact ⟨pre, hp.mono (List.Subset.refl _)⟩
  | other n size rest ih =>
      obtain ⟨pre, hp⟩ := ih h
      exact ⟨pre, hp.mono (List.Subset.refl _)⟩

/-- If there is a regular file below the directory, a piece has it. -/
theorem pieces_files {q : Path} {l : Listing} (h : l.files ≠ []) :
    ∃ p ∈ pieces fs maxSize q l, p.files ≠ [] := by
  induction l generalizing q with
  | done => exact absurd rfl h
  | file n size rest ih =>
      exact ⟨_, List.mem_cons_self .., List.cons_ne_nil _ _⟩
  | dir n entries rest ih₁ ih₂ =>
      by_cases he : entries.files = []
      · have hrest : rest.files ≠ [] := by
          intro hrest
          apply h
          show entries.files.map _ ++ rest.files = []
          rw [he, hrest]
          rfl
        obtain ⟨p, hp, hfiles⟩ := ih₂ (q := q) hrest
        exact ⟨p, List.mem_append_right _ hp, hfiles⟩
      · obtain ⟨p, hp, hfiles⟩ :=
          ih₁ (q := q.child n (.dir entries)) he
        by_cases hfit : fits fs maxSize (q.child n (.dir entries)) = true
        · refine ⟨q.child n (.dir entries), ?_, he⟩
          apply List.mem_append_left
          rw [if_pos hfit]
          exact List.mem_singleton_self _
        · refine ⟨p, ?_, hfiles⟩
          apply List.mem_append_left
          rw [if_neg hfit]
          exact hp
  | shut n why rest ih =>
      obtain ⟨p, hp, hfiles⟩ := ih (q := q) h
      exact ⟨p, List.mem_cons_of_mem _ hp, hfiles⟩
  | other n size rest ih => exact ih h

/-- A piece is in the directory itself, or a piece of a directory in it
that is entered. -/
theorem pieces_cases {q p : Path} {l : Listing}
    (h : p ∈ pieces fs maxSize q l) :
    (∃ n node, p = q.child n node) ∨
      ∃ d ∈ l.dirs, fits fs maxSize (q.child d.1 (.dir d.2)) = false
        ∧ p ∈ pieces fs maxSize (q.child d.1 (.dir d.2)) d.2 := by
  induction l with
  | done => cases h
  | file n size rest ih =>
      rcases List.mem_cons.mp h with rfl | h
      · exact .inl ⟨n, _, rfl⟩
      · exact ih h
  | dir n entries rest _ ih =>
      rcases List.mem_append.mp h with h | h
      · split at h
        · rw [List.mem_singleton.mp h]
          exact .inl ⟨n, _, rfl⟩
        · rename_i hfit
          exact .inr ⟨(n, entries), List.mem_cons_self ..,
            Bool.eq_false_iff.mpr hfit, h⟩
      · rcases ih h with h | ⟨d, hd, rest⟩
        · exact .inl h
        · exact .inr ⟨d, List.mem_cons_of_mem _ hd, rest⟩
  | shut n why rest ih =>
      rcases List.mem_cons.mp h with rfl | h
      · exact .inl ⟨n, _, rfl⟩
      · exact ih h
  | other n size rest ih => exact ih h

/-- The pieces of an entered directory are pieces of the one it is
in. -/
theorem pieces_subset {q : Path} {l : Listing} {d : Name × Listing}
    (hd : d ∈ l.dirs) (hfit : fits fs maxSize (q.child d.1 (.dir d.2)) = false) :
    pieces fs maxSize (q.child d.1 (.dir d.2)) d.2 ⊆ pieces fs maxSize q l := by
  induction l with
  | done => cases hd
  | file n size rest ih =>
      exact fun p hp => List.mem_cons_of_mem _ (ih hd hp)
  | dir n entries rest _ ih =>
      intro p hp
      rcases List.mem_cons.mp hd with rfl | hd
      · apply List.mem_append_left
        rw [if_neg (by rw [hfit]; decide)]
        exact hp
      · exact List.mem_append_right _ (ih hd hp)
  | shut n why rest ih =>
      exact fun p hp => List.mem_cons_of_mem _ (ih hd hp)
  | other n size rest ih => exact ih hd

-- ========================================================= the division

/-- All paths in the groups and in the open group. -/
def Dividing.entries (st : Dividing) : List Path :=
  st.super.groups.flatMap PathGroup.paths ++ st.group.paths

/-- The paths `ps` were added, and nothing else. A path may be missing
for another one of its name that was in the open group, and those all
have the property `K`. -/
structure Adds (K : Path → Prop) (st st' : Dividing) (ps : List Path) :
    Prop where
  kept : ∀ e ∈ st.entries, e ∈ st'.entries
  new : ∀ e ∈ st'.entries, e ∈ st.entries ∨ e ∈ ps
  covers : ∀ p ∈ ps, ∃ e ∈ st'.entries, e.name = p.name ∧ (e = p ∨ K e)
  opened : ∀ e ∈ st'.group.paths, K e

variable {K : Path → Prop} {st : Dividing}

theorem Adds.trans {st₁ st₂ st₃ : Dividing} {ps qs : List Path}
    (h : Adds K st₁ st₂ ps) (h' : Adds K st₂ st₃ qs) :
    Adds K st₁ st₃ (ps ++ qs) where
  kept e he := h'.kept e (h.kept e he)
  new e he := by
    rcases h'.new e he with he | he
    · rcases h.new e he with he | he
      · exact .inl he
      · exact .inr (List.mem_append_left _ he)
    · exact .inr (List.mem_append_right _ he)
  covers p hp := by
    rcases List.mem_append.mp hp with hp | hp
    · obtain ⟨e, he, hname⟩ := h.covers p hp
      exact ⟨e, h'.kept e he, hname⟩
    · exact h'.covers p hp
  opened := h'.opened

/-- A step that keeps the paths adds none. -/
theorem Adds.same {st₁ st₂ : Dividing} (h : st₂.entries = st₁.entries)
    (hK : ∀ e ∈ st₂.group.paths, K e) : Adds K st₁ st₂ [] where
  kept _ he := h ▸ he
  new _ he := .inl (h ▸ he)
  covers _ hp := absurd hp List.not_mem_nil
  opened := hK

theorem Dividing.flush_entries (st : Dividing) :
    st.flush.entries = st.entries := by
  unfold flush entries PathSuperGroup.add
  simp

theorem Dividing.finish_entries (st : Dividing) :
    st.finish.entries = st.entries := by
  unfold finish
  split
  · exact st.flush_entries
  · rfl

theorem Dividing.finish_group (st : Dividing) :
    st.finish.group.paths = [] := by
  unfold finish
  split
  · rfl
  · rename_i h
    exact List.length_eq_zero_iff.mp (Nat.eq_zero_of_not_pos h)

/-- Put a file into the open group. -/
theorem Adds.put (hst : ∀ e ∈ st.group.paths, K e) (p : Path)
    (hp : K p) :
    Adds K st { st with group := st.group.add p p.size } [p] where
  kept e he := by
    rcases List.mem_append.mp he with he | he
    · exact List.mem_append_left _ he
    · exact List.mem_append_right _ (subset_insertBy _ p _ he)
  new e he := by
    rcases List.mem_append.mp he with he | he
    · exact .inl (List.mem_append_left _ he)
    · rcases mem_insertBy he with rfl | he
      · exact .inr (List.mem_singleton_self _)
      · exact .inl (List.mem_append_right _ he)
  covers q hq := by
    rw [List.mem_singleton.mp hq]
    obtain ⟨e, he, hname⟩ := key_mem_insertBy Path.name p st.group.paths
    refine ⟨e, List.mem_append_right _ he, hname, ?_⟩
    rcases mem_insertBy he with rfl | he
    · exact .inl rfl
    · exact .inr (hst e he)
  opened e he := by
    rcases mem_insertBy he with rfl | he
    · exact hp
    · exact hst e he

theorem Adds.flush (st : Dividing) : Adds K st st.flush [] :=
  Adds.same st.flush_entries fun _ he => absurd he List.not_mem_nil

theorem Adds.addFile (maxSize maxFiles : UInt64) {p : Path}
    (hst : ∀ e ∈ st.group.paths, K e) (hp : K p) :
    Adds K st (st.addFile maxSize maxFiles p) [p] := by
  unfold Dividing.addFile
  dsimp only
  have hfirst : Adds K st
      (if st.full maxSize maxFiles p.size then st.flush else st) [] := by
    split
    · exact Adds.flush st
    · exact Adds.same rfl hst
  generalize (if st.full maxSize maxFiles p.size then st.flush else st) = st₁
    at hfirst
  have hput := hfirst.trans (Adds.put hfirst.opened p hp)
  split
  · exact hput.trans (Adds.flush _)
  · exact hput

theorem Adds.addWhole {p : Path} (size : UInt64)
    (hst : ∀ e ∈ st.group.paths, K e) :
    Adds K st (st.addWhole p size) [p] where
  kept e he := by
    rcases List.mem_append.mp he with he | he
    · apply List.mem_append_left
      show e ∈ (st.super.groups ++ _).flatMap PathGroup.paths
      rw [List.flatMap_append]
      exact List.mem_append_left _ he
    · exact List.mem_append_right _ he
  new e he := by
    rcases List.mem_append.mp he with he | he
    · have he : e ∈ (st.super.groups ++ [_]).flatMap PathGroup.paths := he
      rw [List.flatMap_append] at he
      rcases List.mem_append.mp he with he | he
      · exact .inl (List.mem_append_left _ he)
      · exact .inr (by simpa [PathGroup.add, insertPath, insertBy] using he)
    · exact .inl (List.mem_append_right _ he)
  covers q hq := by
    rw [List.mem_singleton.mp hq]
    refine ⟨p, ?_, rfl, .inl rfl⟩
    apply List.mem_append_left
    show p ∈ (st.super.groups ++ [_]).flatMap PathGroup.paths
    rw [List.flatMap_append]
    apply List.mem_append_right
    simp [PathGroup.add, insertPath, insertBy]
  opened := hst

variable {fs maxSize} {maxFiles : UInt64}

/-- Entering a directory: it fits, or the loop has gone through it. -/
theorem enter_cases {p : Path} {loop : Dividing → Except String Dividing}
    {st' : Dividing} (h : enter fs maxSize p loop st = .ok st') :
    (fits fs maxSize p = true ∧ ∃ size, st' = st.addWhole p size) ∨
      (fits fs maxSize p = false ∧ loop (st.addDir p) = .ok st') := by
  unfold enter at h
  unfold fits
  cases hd : dirSize fs p with
  | error e => rw [hd] at h; cases h
  | ok size =>
      rw [hd] at h
      dsimp only at h ⊢
      split at h
      · rename_i hs
        injection h with h
        exact .inl ⟨decide_eq_true hs, size, h.symm⟩
      · rename_i hs
        exact .inr ⟨decide_eq_false hs, h⟩

/-- The loop adds the pieces. -/
theorem divideEntries_adds (hK : ∀ p : Path, p.isRegularFile = true → K p)
    {q : Path} {l : Listing} {st' : Dividing}
    (h : divideEntries fs maxSize maxFiles q l st = .ok st')
    (hst : ∀ e ∈ st.group.paths, K e) :
    Adds K st st' (pieces fs maxSize q l) := by
  induction l generalizing q st st' with
  | done =>
      injection h with h
      subst h
      refine Adds.same st.finish_entries ?_
      rw [st.finish_group]
      exact fun _ he => absurd he List.not_mem_nil
  | file n size rest ih =>
      have hadd := Adds.addFile maxSize maxFiles hst
        (hK (q.child n (.file size)) rfl)
      exact hadd.trans (ih h hadd.opened)
  | dir n entries rest ih₁ ih₂ =>
      unfold divideEntries at h
      dsimp only at h
      split at h
      · cases h
      · rename_i st₁ henter
        unfold pieces
        dsimp only
        rcases enter_cases henter with ⟨hfit, size, rfl⟩ | ⟨hfit, hloop⟩
        · rw [if_pos hfit]
          have hadd : Adds K st (st.addWhole (q.child n (.dir entries)) size)
            [q.child n (.dir entries)] := Adds.addWhole size hst
          exact hadd.trans (ih₂ h hadd.opened)
        · rw [if_neg (by rw [hfit]; decide)]
          have hadd := ih₁ hloop hst
          have hkept : Adds K st st₁
              (pieces fs maxSize (q.child n (.dir entries)) entries) :=
            ⟨hadd.kept, hadd.new, hadd.covers, hadd.opened⟩
          exact hkept.trans (ih₂ h hkept.opened)
  | shut n why rest ih =>
      unfold divideEntries at h
      dsimp only at h
      split at h
      · cases h
      · rename_i st₁ henter
        rcases enter_cases henter with ⟨hfit, size, rfl⟩ | ⟨hfit, hloop⟩
        · have hadd : Adds K st (st.addWhole (q.child n (.shut why)) size)
            [q.child n (.shut why)] := Adds.addWhole size hst
          exact hadd.trans (ih h hadd.opened)
        · cases hloop
  | other n size rest ih => exact ih h hst

theorem divideEntries_group {q : Path} {l : Listing} {st' : Dividing}
    (h : divideEntries fs maxSize maxFiles q l st = .ok st') :
    st'.group.paths = [] := by
  induction l generalizing st with
  | done =>
      injection h with h
      rw [← h]
      exact st.finish_group
  | file n size rest ih => exact ih h
  | dir n entries rest _ ih =>
      unfold divideEntries at h
      dsimp only at h
      split at h
      · cases h
      · exact ih h
  | shut n why rest ih =>
      unfold divideEntries at h
      dsimp only at h
      split at h
      · cases h
      · exact ih h
  | other n size rest ih => exact ih h

/-- What the groups of a division hold. -/
structure Division (fs : FileSystem) (maxSize : UInt64) (p : Path)
    (es : List Path) : Prop where
  sub : ∀ e ∈ es, e = p ∨
    ∃ l, p.node = .dir l ∧ fits fs maxSize p = false
      ∧ e ∈ pieces fs maxSize p l
  self : (p.isRegularFile || p.isDirectory) = true → p ∈ es
  covers : ∀ l, p.node = .dir l → fits fs maxSize p = false →
    ∀ q ∈ pieces fs maxSize p l, ∃ e ∈ es, e.name = q.name
      ∧ (e = q ∨ e = p ∨ e.isRegularFile = true)
  kind : es ≠ [] → (p.isRegularFile || p.isDirectory) = true

/-- One group, of the path itself. -/
theorem Division.whole {p : Path}
    (hk : (p.isRegularFile || p.isDirectory) = true)
    (hfit : p.isDirectory = true → fits fs maxSize p = true) :
    Division fs maxSize p [p] where
  sub e he := .inl (List.mem_singleton.mp he)
  self _ := List.mem_singleton_self p
  covers l hl hf := by
    rw [hfit (by unfold Path.isDirectory; rw [hl])] at hf
    cases hf
  kind _ := hk

theorem divide_division {p : Path} {r : PathSuperGroup}
    (h : divide fs p maxSize maxFiles = .ok r) :
    Division fs maxSize p (r.groups.flatMap PathGroup.paths) := by
  unfold divide at h
  split at h
  · rename_i size hnode
    injection h with h
    subst h
    refine Division.whole ?_ ?_
    · unfold Path.isRegularFile
      rw [hnode]
      rfl
    · unfold Path.isDirectory
      rw [hnode]
      intro hd
      cases hd
  · rename_i l hnode
    have hdir : p.isDirectory = true := by
      unfold Path.isDirectory
      rw [hnode]
    cases hst : enter fs maxSize p
        (divideEntries fs maxSize maxFiles p l) (seeded p) with
    | error e => rw [hst] at h; cases h
    | ok st =>
        rw [hst] at h
        injection h with h
        subst h
        rcases enter_cases hst with ⟨hfit, size, rfl⟩ | ⟨hfit, hloop⟩
        · exact Division.whole (by rw [hdir, Bool.or_true]) fun _ => hfit
        · have hadds := divideEntries_adds
            (K := fun e => e = p ∨ e.isRegularFile = true)
            (fun q hq => .inr hq) hloop
            (fun e he => .inl (List.mem_singleton.mp he))
          have hentries : st.entries
              = st.super.groups.flatMap PathGroup.paths := by
            unfold Dividing.entries
            rw [divideEntries_group hloop, List.append_nil]
          have hseed : ((seeded p).addDir p).entries = [p] := rfl
          constructor
          · intro e he
            rcases hadds.new e (hentries ▸ he) with he | he
            · rw [hseed] at he
              exact .inl (List.mem_singleton.mp he)
            · exact .inr ⟨l, hnode, hfit, he⟩
          · intro _
            rw [← hentries]
            apply hadds.kept
            rw [hseed]
            exact List.mem_singleton_self p
          · intro l' hl' _ q hq
            rw [hnode] at hl'
            injection hl' with hl'
            subst hl'
            obtain ⟨e, he, hname, hkind⟩ := hadds.covers q hq
            exact ⟨e, hentries ▸ he, hname, hkind⟩
          · exact fun _ => by rw [hdir, Bool.or_true]
  · rename_i why hnode
    have hdir : p.isDirectory = true := by
      unfold Path.isDirectory
      rw [hnode]
    cases hst : enter fs maxSize p
        (fun _ => .error (openError p why)) (seeded p) with
    | error e => rw [hst] at h; cases h
    | ok st =>
        rw [hst] at h
        injection h with h
        subst h
        rcases enter_cases hst with ⟨hfit, size, rfl⟩ | ⟨hfit, hloop⟩
        · exact Division.whole (by rw [hdir, Bool.or_true]) fun _ => hfit
        · cases hloop
  · rename_i hfile hdir hshut
    injection h with h
    subst h
    refine ⟨?_, ?_, ?_, ?_⟩
    · intro e he
      cases he
    · intro hk
      unfold Path.isRegularFile Path.isDirectory at hk
      split at hk <;> simp_all
    · intro l hl
      exact absurd hl (hdir l)
    · exact fun hne => absurd rfl hne

-- ============================================================ by size

/-- What `group_by_size` has put into groups. -/
def Grouping.members (s : Grouping) : List Path :=
  s.result.flatten ++ s.current

theorem Grouping.mem_step {maxSize maxFiles : UInt64} {s : Grouping}
    {p q : Path} :
    q ∈ (s.step maxSize maxFiles p).members
      ↔ q ∈ s.members ∨ (q = p ∧ (p.isRegularFile || p.isDirectory) = true) := by
  unfold step members
  by_cases hk : (p.isRegularFile || p.isDirectory) = true
  · rw [if_neg (by rw [hk]; decide)]
    simp only [hk, and_true]
    split
    · simp only [List.flatten_append, List.flatten_singleton,
        List.mem_append, List.mem_singleton]
      grind
    · split
      · split
        · simp only [close, List.flatten_append, List.flatten_singleton,
            List.mem_append, List.mem_singleton, List.not_mem_nil]
          grind
        · simp only [List.mem_append, List.mem_singleton]
          grind
      · simp only [close, List.flatten_append, List.flatten_singleton,
          List.mem_append, List.mem_singleton]
  · rw [if_pos (by simpa using hk)]
    constructor
    · exact .inl
    · intro h
      rcases h with h | ⟨-, h⟩
      · exact h
      · exact absurd h hk

/-- The groups hold the regular files and the directories. -/
theorem mem_groupBySize {paths : List Path} {p : Path} :
    p ∈ (groupBySize paths maxSize maxFiles).flatten
      ↔ p ∈ paths ∧ (p.isRegularFile || p.isDirectory) = true := by
  have hgen : ∀ (paths : List Path) (s : Grouping),
      p ∈ (paths.foldl (Grouping.step maxSize maxFiles) s).members
        ↔ p ∈ s.members
          ∨ (p ∈ paths ∧ (p.isRegularFile || p.isDirectory) = true) := by
    intro paths
    induction paths with
    | nil => intro s; simp
    | cons q paths ih =>
        intro s
        rw [List.foldl_cons, ih, Grouping.mem_step, List.mem_cons]
        constructor
        · intro h
          rcases h with (h | ⟨rfl, hk⟩) | ⟨h, hk⟩
          · exact .inl h
          · exact .inr ⟨.inl rfl, hk⟩
          · exact .inr ⟨.inr h, hk⟩
        · intro h
          rcases h with h | ⟨rfl | h, hk⟩
          · exact .inl (.inl h)
          · exact .inl (.inr ⟨rfl, hk⟩)
          · exact .inr ⟨h, hk⟩
  have h := hgen paths {}
  have hempty : p ∉ Grouping.members {} := List.not_mem_nil
  simp only [hempty, false_or] at h
  rw [← h]
  unfold groupBySize Grouping.members
  dsimp only
  split
  · rename_i hc
    rw [List.isEmpty_iff.mp hc, List.append_nil]
  · rw [List.flatten_append, List.flatten_singleton]

end BigDataExpress
