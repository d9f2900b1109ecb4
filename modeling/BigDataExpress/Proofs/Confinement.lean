/-
Which requests stay in the data folders.

Two disks agree on the data folders if these resolve alike and hold the
same objects. A request is confined if it has the same reply and the same
effects on both, and all effects are in the data folders.

The test in front of some of the commands is not what confines them: it
compares spellings, so `/data2` passes for `/data`, and it resolves the
path with whatever links there are. Other commands have no test. So the
condition is on the names a command comes to use (`Stays`): each leads to
the same place on both disks, and to one in the data folders (`Same`);
a name that does not pass the test is not used. A request that is refused
before is not asked for anything. nftw(3) follows the links it finds, so
where it is used nothing reached from a directory may lead out (`Closed`).
-/
import BigDataExpress.Proofs.Congruence
import BigDataExpress.Proofs.Resolution

namespace BigDataExpress

/-- An entry of a directory that can be opened. -/
def Object.HasEntry (o : Object) (n : Name) : Prop :=
  o.Opens ∧ ∃ o', o.child n.chars = some (n, o')

/-- The places that are reached from a directory, links followed. -/
inductive Disk.Reaches (d : Disk) (p : Place) : Place → Prop
  | here : Reaches d p p
  | entry {q r : Place} {o : Object} {n : Name} :
      Reaches d p q → d.object q = some o → o.HasEntry n →
      d.realpath (spell (q ++ [n])) = .ok r → Reaches d p r

namespace Host

variable (h : Host) (d d' : Disk)

-- =========================================================== conditions

/-- At or below a data folder. -/
def Inside (p : Place) : Prop :=
  ∃ df ∈ h.agent.dataFolders, ∃ f, d.realpath df = .ok f ∧ f <+: p

/-- The two disks agree on what the data folders are, and on what is in
them. -/
structure Agree : Prop where
  folders : ∀ df ∈ h.agent.dataFolders, d.realpath df = d'.realpath df
  object : ∀ p, h.Inside d p → d.object p = d'.object p
  usage : ∀ p, h.Inside d p → d.usage p = d'.usage p

/-- A name leads to the same place on both disks, and to one in the data
folders if it leads anywhere. -/
structure SameReal (s : PathName) : Prop where
  eq : d.realpath s = d'.realpath s
  inside : ∀ p, d.realpath s = .ok p → h.Inside d p

/-- So it does if a last link is not followed. -/
structure SamePlace (s : PathName) : Prop where
  place : d.place false s = d'.place false s
  placeIn : ∀ p, d.place false s = .ok p → h.Inside d p

/-- So it does either way. -/
structure Same (s : PathName) : Prop extends SamePlace h d d' s where
  real : h.SameReal d d' s

/-- It does if the name passes the test. -/
def Steady (s : PathName) : Prop :=
  h.contains d s = true ∨ h.contains d' s = true → h.Same d d' s

/-- The tests have the same outcomes, up to the first name that does not
pass. -/
def Tested : List PathName → Prop
  | [] => True
  | s :: ss =>
      h.contains d s = h.contains d' s
        ∧ (h.contains d s = true → Tested ss)

/-- All pass. -/
def Passed (paths : List PathName) : Prop :=
  ∀ s ∈ paths, h.contains d s = true

/-- No entry that is reached from a directory leads out of the data
folders. -/
def Closed (p : Place) : Prop :=
  ∀ q o n, d.Reaches p q → d.object q = some o → o.HasEntry n →
    d.realpath (spell (q ++ [n])) = d'.realpath (spell (q ++ [n]))
      ∧ ∀ r, d.realpath (spell (q ++ [n])) = .ok r → h.Inside d r

/-- The name is that of a directory, from which nothing leads out. -/
def ClosedAt (s : PathName) : Prop :=
  ∀ o r, d.lstat s = .ok o → o.isDir = true → d.realpath s = .ok r →
    h.Closed d d' r

/-- The entries of a verification lead into the data folders, up to the
first that ends it: one without a path or a checksum, one whose checksum
cannot be computed, or is another. -/
def Listed (algorithm : String) :
    List (PathName × String) → TaskCounter → Prop
  | [], _ => True
  | (path, claimed) :: rest, t => path ≠ [] → claimed ≠ "" →
      h.Same d d' path
        ∧ ∀ t', (h.on d).localChecksum algorithm path t = .ok claimed t' →
          Listed algorithm rest t'

/-- What nftw(3) reports of a directory is decided by what is reached from
it: the objects there, and where their entries lead. -/
def FtwLocal : Prop :=
  ∀ (d d' : Disk) (p : Place),
    (∀ q, d.Reaches p q → d.object q = d'.object q
      ∧ ∀ o n, d.object q = some o → o.HasEntry n →
        d.realpath (spell (q ++ [n])) = d'.realpath (spell (q ++ [n]))) →
    h.ftw d p = h.ftw d' p

variable {h d d'}

-- ============================================================ the tests

/-- The test looks at where the path and the folders lead, and at nothing
else. -/
theorem dataFolderContains_congr {a a' : DTNAgent} {s s' : PathName}
    {dfs : List PathName} (hs : a.fs.realpath s = a'.fs.realpath s')
    (hdfs : ∀ df ∈ dfs, a.fs.realpath df = a'.fs.realpath df) :
    a.dataFolderContains s dfs = a'.dataFolderContains s' dfs := by
  induction dfs with
  | nil => rfl
  | cons df dfs ih =>
      have hrest := ih fun q hq => hdfs q (List.mem_cons_of_mem df hq)
      rw [DTNAgent.dataFolderContains, DTNAgent.dataFolderContains, hs,
        hdfs df (List.mem_cons_self ..), hrest]

/-- A name leads to the same place for the agent, too. -/
theorem fileSystem_realpath {s : PathName}
    (hs : d.realpath s = d'.realpath s) :
    (d.fileSystem h.ftw).realpath s = (d'.fileSystem h.ftw).realpath s := by
  unfold Disk.fileSystem
  simp only [hs]

/-- A name that leads to the same place passes the test on both or on
neither. -/
theorem contains_congr (hagree : h.Agree d d') {s : PathName}
    (hs : d.realpath s = d'.realpath s) : h.contains d s = h.contains d' s :=
  dataFolderContains_congr (fileSystem_realpath hs) fun df hdf =>
    fileSystem_realpath (hagree.folders df hdf)

/-- So does one that fails it on both. -/
theorem Steady.contains (hagree : h.Agree d d') {s : PathName}
    (hs : h.Steady d d' s) : h.contains d s = h.contains d' s := by
  by_cases hin : h.contains d s = true ∨ h.contains d' s = true
  · exact contains_congr hagree (hs hin).real.eq
  · rw [not_or, Bool.not_eq_true, Bool.not_eq_true] at hin
    rw [hin.1, hin.2]

/-- The place of a name, spelled, passes the test if the name does. -/
theorem contains_spell {s : PathName} {r : Place} (hr : d.realpath s = .ok r) :
    h.contains d (spell r) = h.contains d s := by
  have hreal : d.realpath (spell r) = d.realpath s := by
    rw [hr]
    exact Disk.place_spell (Disk.realpath_real hr)
  refine dataFolderContains_congr ?_ fun _ _ => rfl
  show (d.fileSystem h.ftw).realpath (spell r)
    = (d.fileSystem h.ftw).realpath s
  unfold Disk.fileSystem
  simp only [hreal]

-- ============================================================= objects

/-- What is there is the same. -/
theorem SamePlace.lstat (hagree : h.Agree d d') {s : PathName}
    (hs : h.SamePlace d d' s) : d.lstat s = d'.lstat s := by
  unfold Disk.lstat
  rw [← hs.place]
  cases hp : d.place false s with
  | error e => rfl
  | ok p =>
      simp only
      rw [hagree.object p (hs.placeIn p hp)]

/-- The spelling of where it leads does as well. -/
theorem Same.spell {s : PathName} {r : Place} (hs : h.Same d d' s)
    (hr : d.realpath s = .ok r) : h.Same d d' (spell r) := by
  have hr' : d'.realpath s = .ok r := hs.real.eq ▸ hr
  have hreal : ∀ last, d.place last (BigDataExpress.spell r) = .ok r :=
    fun _ => Disk.place_spell (Disk.realpath_real hr)
  have hreal' : ∀ last, d'.place last (BigDataExpress.spell r) = .ok r :=
    fun _ => Disk.place_spell (Disk.realpath_real hr')
  have hin := hs.real.inside r hr
  refine ⟨⟨(hreal false).trans (hreal' false).symm, ?_⟩,
    (hreal true).trans (hreal' true).symm, ?_⟩
  · intro p hp
    cases (hreal false).symm.trans hp
    exact hin
  · intro p hp
    cases (hreal true).symm.trans hp
    exact hin

/-- What is read there is the same. -/
theorem SameReal.read (hagree : h.Agree d d') {s : PathName}
    (hs : h.SameReal d d' s) :
    (d.fileSystem h.ftw).read s = (d'.fileSystem h.ftw).read s := by
  unfold Disk.fileSystem
  simp only
  rw [← hs.eq]
  cases hp : d.realpath s with
  | error e => rfl
  | ok p =>
      simp only
      rw [hagree.object p (hs.inside p hp)]

/-- What the agent makes of the name is the same. -/
theorem Same.path (hagree : h.Agree d d') {s : PathName}
    (hs : h.Same d d' s) :
    Path.ofName (d.fileSystem h.ftw) s = Path.ofName (d'.fileSystem h.ftw) s := by
  have hreal := fileSystem_realpath (h := h) hs.real.eq
  have hlstat : (d.fileSystem h.ftw).lstat s = (d'.fileSystem h.ftw).lstat s := by
    unfold Disk.fileSystem
    simp only [hs.lstat hagree]
  unfold Path.ofName
  rw [hreal, hlstat]

-- ========================================================== directories

/-- A name of a file or a directory leads to it. -/
theorem ofName_kind {s : PathName}
    (hkind : (Path.ofName (d.fileSystem h.ftw) s).isRegularFile = true
      ∨ (Path.ofName (d.fileSystem h.ftw) s).isDirectory = true) :
    ∃ p o, d.realpath s = .ok p ∧ d.object p = some o
      ∧ (Path.ofName (d.fileSystem h.ftw) s).node = o.node := by
  unfold Path.isRegularFile Path.isDirectory Path.ofName Disk.fileSystem at hkind
  unfold Path.ofName Disk.fileSystem
  simp only at hkind ⊢
  cases hl : d.lstat s with
  | error e =>
      rw [hl] at hkind
      cases e with
      | enoent | eexist | enotdir | eloop | other =>
          obtain hkind | hkind := hkind
          · cases hkind
          · cases hkind
  | ok o =>
      rw [hl] at hkind
      simp only at hkind ⊢
      unfold Disk.lstat at hl
      cases hp : d.place false s with
      | error e =>
          rw [hp] at hl
          cases hl
      | ok p =>
          simp only [hp] at hl
          cases ho : d.object p with
          | none =>
              rw [ho] at hl
              cases hl
          | some o' =>
              rw [ho] at hl
              injection hl with hl
              subst hl
              refine ⟨p, o', Disk.realpath_of_place hp ho ?_, ho, rfl⟩
              unfold Object.isLink
              unfold Object.node at hkind
              cases hk : o'.kind with
              | file | dir | other => rfl
              | link target =>
                  rw [hk] at hkind
                  obtain hkind | hkind := hkind
                  · cases hkind
                  · cases hkind

/-- Only a directory has something below it. -/
theorem isDirectory_of_mem_walk {p q : Path} (hq : q ∈ walk p) :
    p.isDirectory = true := by
  unfold walk at hq
  unfold Path.isDirectory
  cases hnode : p.node with
  | dir | shut => rfl
  | file | other | missing =>
      rw [hnode] at hq
      cases hq

/-- Reaching goes on from where one got to. -/
theorem Reaches_trans {p q r : Place} (h₁ : d.Reaches p q)
    (h₂ : d.Reaches q r) : d.Reaches p r := by
  induction h₂ with
  | here => exact h₁
  | entry _ ho he hr ih => exact .entry ih ho he hr

/-- Entries that are not links are reached. -/
theorem Reaches_entries {p q : Place} {o o' : Object} {ns : Place}
    (hp : d.Reaches p q) (hreach : d.root.Reach q o) (hns : o.Leads ns o') :
    d.Reaches p (q ++ ns) := by
  induction hns generalizing q with
  | refl o =>
      rw [List.append_nil]
      exact hp
  | @step o o₁ o₂ n l hopen hc hl _ ih =>
      have hreal := hreach.snoc hc hl
      have hnext : d.Reaches p (q ++ [n]) :=
        .entry hp hreach.at? ⟨hopen, o₁, hc⟩ (Disk.place_spell ⟨o₁, hreal⟩)
      have hrest := ih hnext hreal
      rw [List.append_assoc] at hrest
      exact hrest

/-- A way down an object is one by its entries. -/
theorem leads_reach {o o' : Object} {ns : Place} (h : o.Leads ns o') :
    o.Reach ns o' := by
  induction h with
  | refl o => exact .refl o
  | step _ hc hl _ ih => exact .step hc hl ih

/-- What is below a place inside is inside. -/
theorem Inside.append {p : Place} (hp : h.Inside d p) (ns : Place) :
    h.Inside d (p ++ ns) := by
  obtain ⟨df, hdf, f, hf, hpre⟩ := hp
  exact ⟨df, hdf, f, hf, hpre.trans (List.prefix_append p ns)⟩

/-- Two names that lead to one place inside. -/
theorem sameReal_of_ok {s : PathName} {r : Place} (hr : d.realpath s = .ok r)
    (hr' : d'.realpath s = .ok r) (hin : h.Inside d r) :
    h.SameReal d d' s where
  eq := hr.trans hr'.symm
  inside p hp := by
    cases hr.symm.trans hp
    exact hin

variable (h d d') in
/-- A file or a directory that a walk from `s` finds is at the same place
on both disks. -/
structure Walked (s : PathName) (q : Path) (r : Place) : Prop where
  realpath : d.realpath q.name = .ok r
  real : q.real = .ok r
  name : h.SameReal d d' q.name
  spelled : h.SameReal d d' (spell r)
  reaches : ∃ p, d.realpath s = .ok p ∧ d.Reaches p r

/-- What is met on a walk from the name is met from one place, on both
disks. -/
theorem Same.walked (hagree : h.Agree d d') {s : PathName}
    (hs : h.Same d d' s) {q : Path}
    (hq : q ∈ Path.ofName (d.fileSystem h.ftw) s
      :: walk (Path.ofName (d.fileSystem h.ftw) s))
    (hkind : q.isRegularFile = true ∨ q.isDirectory = true) :
    ∃ r, Walked h d d' s q r := by
  have hroot : (Path.ofName (d.fileSystem h.ftw) s).isRegularFile = true
      ∨ (Path.ofName (d.fileSystem h.ftw) s).isDirectory = true := by
    obtain hq | hq := List.mem_cons.mp hq
    · exact hq ▸ hkind
    · exact .inr (isDirectory_of_mem_walk hq)
  obtain ⟨p, o, hp, ho, hnode⟩ := ofName_kind hroot
  have hp' : d'.realpath s = .ok p := hs.real.eq ▸ hp
  have hin := hs.real.inside p hp
  have ho' : d'.object p = some o := hagree.object p hin ▸ ho
  have hreal : (Path.ofName (d.fileSystem h.ftw) s).real = .ok p := by
    unfold Path.ofName Disk.fileSystem
    simp only [hp]
  obtain hq | hq := List.mem_cons.mp hq
  · subst hq
    exact ⟨p, hp, hreal, hs.real, (hs.spell hp).real, p, hp, .here⟩
  · have hne : s ≠ [] := (Disk.place_ok hp).1
    obtain ⟨ns, o₁, hns, hfound⟩ :=
      Object.walk_found (Object.at?_distinct d.distinct ho) hne hnode hq hkind
    have hname := hfound.name.realpath hp ho (leads_reach hns)
    have hname' := hfound.name.realpath hp' ho' (leads_reach hns)
    have hinside := hin.append ns
    obtain ⟨o₂, ho₂, hreach⟩ := (Disk.realpath_real hp).object
    cases ho.symm.trans ho₂
    refine ⟨p ++ ns, hname, ?_, sameReal_of_ok hname hname' hinside,
      sameReal_of_ok (Disk.place_spell (Disk.realpath_real hname))
        (Disk.place_spell (Disk.realpath_real hname')) hinside,
      p, hp, Reaches_entries .here hreach hns⟩
    rw [hfound.real, hreal]
    rfl

/-- All that is asked of the file system about the name is answered alike. -/
theorem Same.answers (hagree : h.Agree d d') {s : PathName}
    (hs : h.Same d d' s) :
    SameAnswers (d.fileSystem h.ftw) (d'.fileSystem h.ftw) s where
  path := hs.path hagree
  read := hs.real.read hagree
  files := by
    intro q hq hreg
    obtain ⟨r, hr⟩ := hs.walked hagree hq (.inl hreg)
    refine ⟨hr.name.read hagree, ?_⟩
    intro c hc
    have hdir : q.isDirectory = false := by
      unfold Path.isRegularFile at hreg
      unfold Path.isDirectory
      cases hnode : q.node with
      | file | other | missing => rfl
      | dir | shut =>
          rw [hnode] at hreg
          cases hreg
    unfold Path.canonicalName at hc
    rw [hr.real, hdir] at hc
    injection hc with hc
    subst hc
    exact hr.spelled.read hagree

-- ================================================================= nftw

/-- What is reached from a closed directory is inside. -/
theorem Closed.inside {p q : Place} (hclosed : h.Closed d d' p)
    (hp : h.Inside d p) (hq : d.Reaches p q) : h.Inside d q := by
  cases hq with
  | here => exact hp
  | entry hq ho he hr => exact (hclosed _ _ _ hq ho he).2 _ hr

/-- nftw(3) reports the same of everything that is reached. -/
theorem Closed.ftw (hagree : h.Agree d d') (hftw : h.FtwLocal) {p r : Place}
    (hclosed : h.Closed d d' p) (hp : h.Inside d p) (hr : d.Reaches p r) :
    h.ftw d r = h.ftw d' r := by
  apply hftw
  intro q hq
  have hpq := Reaches_trans hr hq
  refine ⟨hagree.object q (hclosed.inside hp hpq), ?_⟩
  intro o n ho he
  exact (hclosed q o n hpq ho he).1

/-- A path that is a directory is one to lstat(2). -/
theorem lstat_of_isDirectory {s : PathName}
    (hdir : (Path.ofName (d.fileSystem h.ftw) s).isDirectory = true) :
    ∃ o, d.lstat s = .ok o ∧ o.isDir = true := by
  unfold Path.isDirectory Path.ofName Disk.fileSystem at hdir
  simp only at hdir
  cases hl : d.lstat s with
  | error e =>
      rw [hl] at hdir
      cases e with
      | enoent | eexist | enotdir | eloop | other => cases hdir
  | ok o =>
      refine ⟨o, rfl, ?_⟩
      rw [hl] at hdir
      dsimp only at hdir
      unfold Object.node at hdir
      unfold Object.isDir
      cases hk : o.kind with
      | dir shut full => rfl
      | file | link | other =>
          rw [hk] at hdir
          cases hdir

/-- The sizes below a closed directory are the same. -/
theorem Same.sizes (hagree : h.Agree d d') (hftw : h.FtwLocal) {s : PathName}
    (hs : h.Same d d' s) (hclosed : h.ClosedAt d d' s) :
    SameSizes (d.fileSystem h.ftw) (d'.fileSystem h.ftw)
      (Path.ofName (d.fileSystem h.ftw) s) := by
  intro q hq hdir
  have hroot : (Path.ofName (d.fileSystem h.ftw) s).isDirectory = true := by
    obtain hq | hq := List.mem_cons.mp hq
    · exact hq ▸ hdir
    · exact isDirectory_of_mem_walk hq
  obtain ⟨o, ho, hodir⟩ := lstat_of_isDirectory hroot
  obtain ⟨r, hr⟩ := hs.walked hagree hq (.inr hdir)
  have hreal' : d'.realpath q.name = .ok r := hr.name.eq ▸ hr.realpath
  obtain ⟨p, hp, hreaches⟩ := hr.reaches
  have hsame := (hclosed o p ho hodir hp).ftw hagree hftw
    (hs.real.inside p hp) hreaches
  unfold Disk.fileSystem
  simp only [hr.realpath, hreal', hsame]

-- ============================================================ expansion

/-- The tests of the listed names have the same outcome. -/
theorem Tested.tests {paths : List PathName} (hs : h.Tested d d' paths) :
    h.agent.SameTests (d.fileSystem h.ftw) (d'.fileSystem h.ftw) paths := by
  induction paths with
  | nil => trivial
  | cons s ss ih => exact ⟨hs.1, fun hin => ih (hs.2 hin)⟩

/-- If all of them pass, the names are the same where they are used. -/
theorem Tested.sources (hagree : h.Agree d d') {paths : List PathName}
    {used : Prop} (ht : h.Tested d d' paths)
    (hs : h.Passed d paths → used → ∀ s ∈ paths, h.Same d d' s) :
    h.agent.SameSources (d.fileSystem h.ftw) (d'.fileSystem h.ftw) paths
      used where
  tests := ht.tests
  answers hin hused s hmem := (hs hin hused s hmem).answers hagree

/-- A link out of the data folders is not listed. -/
theorem listSymlink_outside {s : PathName} (hs : h.contains d s = false)
    (user : String) (parent : PathName) :
    h.listSymlink d user s parent = none := by
  unfold listSymlink
  cases hr : d.realpath s with
  | error e => rfl
  | ok r =>
      have hout := contains_spell (h := h) hr
      rw [hs] at hout
      simp only
      cases d.lstat (spell r) with
      | error e => rfl
      | ok o =>
          simp only
          rw [hout]
          rfl

/-- A link that is the same is listed alike. -/
theorem Same.listSymlink (hagree : h.Agree d d') {s : PathName}
    (hs : h.Same d d' s) (user : String) (parent : PathName) :
    h.listSymlink d user s parent = h.listSymlink d' user s parent := by
  unfold Host.listSymlink
  rw [← hs.real.eq]
  cases hr : d.realpath s with
  | error e => rfl
  | ok r =>
      have hspell := hs.spell hr
      simp only
      rw [hspell.lstat hagree, hspell.path hagree,
        contains_congr hagree hspell.real.eq]

/-- So is one that fails the test on both disks. -/
theorem Steady.listSymlink (hagree : h.Agree d d') {s : PathName}
    (hs : h.Steady d d' s) (user : String) (parent : PathName) :
    h.listSymlink d user s parent = h.listSymlink d' user s parent := by
  by_cases hin : h.contains d s = true ∨ h.contains d' s = true
  · exact (hs hin).listSymlink hagree user parent
  · rw [not_or, Bool.not_eq_true, Bool.not_eq_true] at hin
    rw [listSymlink_outside hin.1, listSymlink_outside hin.2]

/-- What is listed has the same answers. -/
theorem Listed.answers (hagree : h.Agree d d') {algorithm : String}
    {checksums : List (PathName × String)} {t : TaskCounter}
    (hs : h.Listed d d' algorithm checksums t) :
    h.agent.SameListed (d.fileSystem h.ftw) (d'.fileSystem h.ftw) algorithm
      checksums t := by
  induction checksums generalizing t with
  | nil => trivial
  | cons c rest ih =>
      obtain ⟨path, claimed⟩ := c
      intro hpath hclaimed
      obtain ⟨hsame, hrest⟩ := hs hpath hclaimed
      exact ⟨hsame.answers hagree, fun t' ht => ih (hrest t' ht)⟩

-- ======================================================= new directories

variable (h d) in
/-- What a change is made in. -/
def EffectIn : Effect → Prop
  | .made dir _ _ => h.Inside d dir
  | .chowned p _ => h.Inside d p

variable (h d) in
/-- A reply with effects, the same on both disks, and in the data
folders. -/
def Alike (x y : AgentReply × List Effect) : Prop :=
  x = y ∧ ∀ e ∈ x.2, h.EffectIn d e

/-- One reply, with nothing done. -/
theorem Alike.nothing (r : AgentReply) : h.Alike d (r, []) (r, []) := by
  refine ⟨rfl, ?_⟩
  intro e he
  cases he

/-- One reply, with one thing done inside. -/
theorem Alike.one {r : AgentReply} {e : Effect} (he : h.EffectIn d e) :
    h.Alike d (r, [e]) (r, [e]) := by
  refine ⟨rfl, ?_⟩
  intro e' he'
  obtain rfl := List.mem_singleton.mp he'
  exact he

/-- The owner is changed at the same place. -/
theorem SameReal.chown (hagree : h.Agree d d') {s : PathName}
    (hs : h.SameReal d d' s) : d.chown s = d'.chown s := by
  unfold Disk.chown
  rw [← hs.eq]
  cases hp : d.realpath s with
  | error e => rfl
  | ok p =>
      simp only
      rw [hagree.object p (hs.inside p hp)]

end Host

end BigDataExpress
