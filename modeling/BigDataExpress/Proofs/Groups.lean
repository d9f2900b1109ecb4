/-
What a response of the second expansion command is made of.

Every group of a response, the one of parent folders apart, is made of a
group of the division of one of the source paths (`Made`), and every
group of a division is in the response (`Expanded`). A response that
names block documents and one that holds the groups say the same
(`dataGroups`).
-/
import BigDataExpress.Agent.Expand
import BigDataExpress.Lib.Collection
import BigDataExpress.Proofs.Digest

namespace BigDataExpress

open Stateful

variable {α : Type} {s : AgentState} {Q : α → AgentState → Prop}

-- ============================================================= commands

theorem wp_command_lift {x : Except String α} :
    wp (Command.lift x) Q (fun _ => True) s ↔ ∀ a, x = .ok a → Q a s := by
  cases x with
  | error e =>
      constructor
      · intro _ a ha
        cases ha
      · exact fun _ => trivial
  | ok a =>
      constructor
      · intro hQ b hb
        injection hb with hb
        exact hb ▸ hQ
      · exact fun hQ => hQ a rfl

theorem wp_tasked {x : Tasked α}
    (h : wp x (fun a t => Q a { s with tasks := t }) (fun _ => True)
      s.tasks) :
    wp (Command.tasked x) Q (fun _ => True) s := by
  unfold wp Command.tasked at *
  cases hx : x s.tasks with
  | ok a t => rw [hx] at h; exact h
  | error e t => exact trivial

namespace DTNAgent

-- ========================================================== the response

/-- The groups a response stands for: those it holds, or the documents
it names. -/
def responseGroups (s : AgentState) : ResponseGroups → List FileGroup
  | .inline groups => groups
  | .stored ids => ids.filterMap fun i => s.blocks[i.1]?

/-- The groups of a response that move data. -/
def dataGroups (s : AgentState) (r : ResponseGroups) : List FileGroup :=
  (responseGroups s r).filter fun g => !g.parentFolderList

theorem addBlocks_spec (groups : List FileGroup) (s : AgentState) :
    wp (addBlocks groups)
      (fun ids s' => s'.blocks = s.blocks ++ groups
        ∧ ids.filterMap (fun i => s'.blocks[i.1]?) = groups)
      (fun _ => True) s := by
  induction groups generalizing s with
  | nil => exact ⟨(List.append_nil _).symm, rfl⟩
  | cons g gs ih =>
      simp only [addBlocks, addBlock, wp_bind, wp_get, wp_set, wp_pure]
      refine (ih { s with blocks := s.blocks ++ [g] }).mono ?_
        fun _ _ => trivial
      intro ids s' h
      obtain ⟨hblocks, hids⟩ := h
      have hb : s'.blocks = s.blocks ++ g :: gs := by
        rw [hblocks, List.append_assoc, List.singleton_append]
      have hget : s'.blocks[s.blocks.length]? = some g := by
        rw [hb, List.getElem?_append_right (Nat.le_refl _), Nat.sub_self]
        rfl
      refine ⟨hb, ?_⟩
      rw [List.filterMap_cons, hget, hids]

theorem respond_spec (ps : V2Params) (groups : List FileGroup)
    (s : AgentState) :
    wp (respond ps groups) (fun r s' => responseGroups s' r = groups)
      (fun _ => True) s := by
  unfold respond
  split
  · rw [wp_bind]
    refine (addBlocks_spec groups s).mono ?_ fun _ _ => trivial
    intro ids s' h
    exact h.2
  · rfl

variable (a : DTNAgent) (ps : V2Params) (prefixes : List PathName)

-- ============================================================== a group

/-- The digest of what an entry moves: of a file, or of a directory as a
sequential walk computes it. -/
def sourceDigest (md : Option Digest) (e : Entry) : Except String String :=
  match md with
  | none => .error "no digest"
  | some md =>
      if e.path.isDirectory then a.sequentialDirectoryChecksum e.path md
      else a.checksum e.src (some md)

/-- The path a checksum is listed under. -/
def listedPath (e : Entry) : PathName :=
  if e.path.isDirectory then
    joinPaths ps.dstPath (baseName e.path.name) ++ ['/']
  else e.dst

/-- The entry of a path. -/
structure EntryOf (p : Path) (e : Entry) : Prop where
  path : e.path = p
  src : p.canonicalName = .ok e.src
  dst : e.dst =
    if p.isDirectory then withSlash ps.dstPath
    else makeDstPathName e.src ps.dstPath prefixes

/-- The checksums of an entry: one, of its source. -/
def Summed (e : Entry) (sums : List (PathName × String)) : Prop :=
  ∃ c, sums = [(listedPath ps e, c)] ∧ a.sourceDigest ps.md e = .ok c

/-- Nothing is digested with a null pointer. -/
theorem checksum_null (src : PathName) (c : String) :
    a.checksum src none ≠ .ok c := by
  unfold Hashing.checksum
  split <;> simp_all

/-- The digest of a file is the same by a task and without one. -/
theorem addFileChecksum_spec (g : PathGroup) (p : Path)
    (src dst : PathName) (s : AgentState) :
    wp (a.addFileChecksum ps g p src dst)
      (fun sums _ => ∃ c, sums = [(dst, c)] ∧ a.checksum src ps.md = .ok c)
      (fun _ => True) s := by
  unfold addFileChecksum
  have hrest : ∀ (b : Bool) (s : AgentState),
      wp (if b = true then do
            Command.tasked TaskCounter.increment
            let sum ← Command.lift (a.checksum src ps.md)
            Command.tasked TaskCounter.decrement
            pure [(dst, sum)]
          else do
            let sum ← Command.lift (a.checksum src ps.md)
            pure [(dst, sum)])
        (fun sums _ => ∃ c, sums = [(dst, c)]
          ∧ a.checksum src ps.md = .ok c) (fun _ => True) s := by
    intro b s
    split
    · rw [wp_bind]
      refine wp_tasked ?_
      rw [TaskCounter.increment, wp_modify, wp_bind, wp_command_lift]
      intro c hc
      rw [wp_bind]
      exact wp_tasked ⟨c, rfl, hc⟩
    · rw [wp_bind, wp_command_lift]
      intro c hc
      exact ⟨c, rfl, hc⟩
  rw [wp_bind]
  unfold useTask
  split
  · rw [wp_bind]
    refine wp_tasked ?_
    simp only [Hashing.running, wp_bind, wp_get, wp_set, wp_pure]
    exact hrest _ _
  · exact hrest _ _

theorem addDirChecksum_spec (p : Path) (hp : p.isDirectory = true)
    (dst : PathName) (s : AgentState) :
    wp (a.addDirChecksumOfChecksums ps p dst)
      (fun sums _ => ∃ c md, ps.md = some md
        ∧ sums = [(joinPaths dst (baseName p.name) ++ ['/'], c)]
        ∧ a.sequentialDirectoryChecksum p md = .ok c)
      (fun _ => True) s := by
  unfold addDirChecksumOfChecksums
  rw [wp_bind]
  refine wp_tasked ?_
  unfold Hashing.dirChecksumOfChecksums
  cases hmd : ps.md with
  | none => exact trivial
  | some md =>
      simp only [hp, Bool.not_true, Bool.false_eq_true, if_false]
      refine (a.parallel_eq_sequential md p a.checksumThreads s.tasks).mono
        ?_ fun _ _ => trivial
      intro c t hc
      exact ⟨c, md, rfl, rfl, hc⟩

theorem entryV2_spec (g : PathGroup) (p : Path) (s : AgentState) :
    wp (a.entryV2 ps prefixes g p)
      (fun r _ => EntryOf ps prefixes p r.1
        ∧ (ps.compute = true → a.Summed ps r.1 r.2))
      (fun _ => True) s := by
  unfold entryV2
  rw [wp_bind, wp_command_lift]
  intro src hsrc
  split
  · rename_i hp
    have hentry : EntryOf ps prefixes p
        { path := p, src := src, dst := withSlash ps.dstPath,
          size := p.size } :=
      ⟨rfl, hsrc, by rw [if_pos hp]⟩
    split
    · rw [wp_bind]
      refine (a.addDirChecksum_spec ps p hp ps.dstPath s).mono ?_
        fun _ _ => trivial
      intro sums _ h
      obtain ⟨c, md, hmd, hsums, hc⟩ := h
      refine ⟨hentry, fun _ => ⟨c, ?_, ?_⟩⟩
      · show sums = _
        rw [hsums, listedPath, if_pos hp]
      · show sourceDigest a ps.md _ = _
        rw [hmd, sourceDigest, if_pos hp, hc]
    · rename_i hcompute
      exact ⟨hentry, fun h => absurd h hcompute⟩
  · rename_i hp
    have hentry : EntryOf ps prefixes p
        { path := p, src := src,
          dst := makeDstPathName src ps.dstPath prefixes,
          size := p.size } :=
      ⟨rfl, hsrc, by rw [if_neg hp]⟩
    dsimp only
    split
    · rw [wp_bind]
      refine (a.addFileChecksum_spec ps g p src _ s).mono ?_
        fun _ _ => trivial
      intro sums _ h
      obtain ⟨c, hsums, hc⟩ := h
      refine ⟨hentry, fun _ => ⟨c, ?_, ?_⟩⟩
      · show sums = _
        rw [hsums, listedPath, if_neg hp]
      · show sourceDigest a ps.md _ = _
        cases hmd : ps.md with
        | none =>
            rw [hmd] at hc
            exact absurd hc (a.checksum_null src c)
        | some md =>
            rw [hmd] at hc
            show (if p.isDirectory = true then _
              else a.checksum src (some md)) = _
            rw [if_neg hp, hc]
    · rename_i hcompute
      exact ⟨hentry, fun h => absurd h hcompute⟩

/-- The group made of a group of paths: the entries of its paths in
their order, and the checksums of the last one. -/
structure Made (g : PathGroup) (fg : FileGroup) : Prop where
  entries : List.Forall₂ (EntryOf ps prefixes) g.paths fg.files
  data : fg.parentFolderList = false
  last : ps.compute = true → ∀ e, fg.files.getLast? = some e →
    ∃ sums, fg.checksum = some ⟨ps.algorithm, sums⟩ ∧ a.Summed ps e sums
  none : fg.files = [] → fg.checksum = none

theorem addPaths_spec (g : PathGroup) (paths : List Path)
    (done : List Path) (fg : FileGroup)
    (hdone : a.Made ps prefixes { paths := done } fg) (s : AgentState) :
    wp (a.addPaths ps prefixes g paths fg)
      (fun fg' _ => a.Made ps prefixes { paths := done ++ paths } fg')
      (fun _ => True) s := by
  induction paths generalizing done fg s with
  | nil =>
      rw [List.append_nil]
      exact hdone
  | cons p paths ih =>
      unfold addPaths
      rw [wp_bind]
      refine (a.entryV2_spec ps prefixes g p s).mono ?_ fun _ _ => trivial
      intro r s' h
      obtain ⟨hentry, hsum⟩ := h
      have happ : done ++ p :: paths = (done ++ [p]) ++ paths := by simp
      rw [happ]
      apply ih
      obtain ⟨hentries, hdata, -, -⟩ := hdone
      have hfiles : List.Forall₂ (EntryOf ps prefixes) (done ++ [p])
          (fg.files ++ [r.1]) :=
        List.rel_append hentries (.cons hentry .nil)
      split
      · rename_i hcompute
        refine ⟨hfiles, hdata, ?_, ?_⟩
        · intro _ e he
          rw [List.getLast?_concat] at he
          injection he with he
          exact ⟨r.2, rfl, he ▸ hsum hcompute⟩
        · intro hnil
          exact absurd hnil (by simp)
      · rename_i hcompute
        refine ⟨hfiles, hdata, ?_, ?_⟩
        · exact fun h => absurd h hcompute
        · intro hnil
          exact absurd hnil (by simp)

theorem groupV2_made (g : PathGroup) (s : AgentState) :
    wp (a.groupV2 ps prefixes g) (fun fg _ => a.Made ps prefixes g fg)
      (fun _ => True) s := by
  unfold groupV2
  rw [wp_bind]
  have hempty : a.Made ps prefixes { paths := [] } {} :=
    ⟨.nil, rfl, fun _ e he => absurd he (by simp), fun _ => rfl⟩
  refine (a.addPaths_spec ps prefixes g g.paths [] {} hempty s).mono ?_
    fun _ _ => trivial
  intro fg _ h
  exact ⟨h.entries, h.data, h.last, h.none⟩

theorem groupsV2_made (gs : List PathGroup) (s : AgentState) :
    wp (a.groupsV2 ps prefixes gs)
      (fun fgs _ => List.Forall₂ (a.Made ps prefixes) gs fgs)
      (fun _ => True) s := by
  induction gs generalizing s with
  | nil => exact .nil
  | cons g gs ih =>
      unfold groupsV2
      rw [wp_bind]
      refine (a.groupV2_made ps prefixes g s).mono ?_ fun _ _ => trivial
      intro fg s' hfg
      rw [wp_bind]
      refine (ih s').mono ?_ fun _ _ => trivial
      intro fgs _ hfgs
      exact .cons hfg hfgs

-- ===================================================== the source paths

/-- The division of a source path. -/
def division (src : PathName) : Except String PathSuperGroup :=
  divide a.fs (Path.ofName a.fs src) ps.groupSize ps.maxFiles

/-- The groups are those of the divisions of the source paths, made
into groups of files. -/
structure Expanded (srcs : List PathName) (groups : List FileGroup) :
    Prop where
  made : ∀ fg ∈ groups, ∃ src ∈ srcs, ∃ r, a.division ps src = .ok r
    ∧ ∃ g ∈ r.groups, a.Made ps prefixes g fg
  all : ∀ src ∈ srcs, ∃ r, a.division ps src = .ok r
    ∧ ∀ g ∈ r.groups, ∃ fg ∈ groups, a.Made ps prefixes g fg

variable {a ps prefixes}

theorem Expanded.nil : a.Expanded ps prefixes [] [] where
  made := fun _ h => absurd h List.not_mem_nil
  all := fun _ h => absurd h List.not_mem_nil

/-- One more source path. -/
theorem Expanded.snoc {srcs : List PathName} {groups new : List FileGroup}
    (h : a.Expanded ps prefixes srcs groups) {src : PathName}
    {r : PathSuperGroup} (hr : a.division ps src = .ok r)
    (hnew : List.Forall₂ (a.Made ps prefixes) r.groups new) :
    a.Expanded ps prefixes (srcs ++ [src]) (groups ++ new) where
  made := by
    intro fg hfg
    rcases List.mem_append.mp hfg with hfg | hfg
    · obtain ⟨src', hsrc, rest⟩ := h.made fg hfg
      exact ⟨src', List.mem_append_left _ hsrc, rest⟩
    · obtain ⟨g, hg, hmade⟩ := Collection.mem_left_of_forall₂ hnew hfg
      exact ⟨src, by simp, r, hr, g, hg, hmade⟩
  all := by
    intro src' hsrc
    rcases List.mem_append.mp hsrc with hsrc | hsrc
    · obtain ⟨r', hr', hall⟩ := h.all src' hsrc
      refine ⟨r', hr', fun g hg => ?_⟩
      obtain ⟨fg, hfg, hmade⟩ := hall g hg
      exact ⟨fg, List.mem_append_left _ hfg, hmade⟩
    · rw [List.mem_singleton.mp hsrc]
      refine ⟨r, hr, fun g hg => ?_⟩
      obtain ⟨fg, hfg, hmade⟩ := Collection.mem_right_of_forall₂ hnew hg
      exact ⟨fg, List.mem_append_right _ hfg, hmade⟩

theorem Expanded.data {srcs : List PathName} {groups : List FileGroup}
    (h : a.Expanded ps prefixes srcs groups) :
    ∀ fg ∈ groups, fg.parentFolderList = false := by
  intro fg hfg
  obtain ⟨_, _, _, _, _, _, hmade⟩ := h.made fg hfg
  exact hmade.data

/-- The group of parent folders moves no data. -/
theorem headGroup_parent {parents : List Path} {head : List FileGroup}
    (h : a.headGroup ps prefixes parents = .ok head) :
    ∀ fg ∈ head, fg.parentFolderList = true := by
  unfold headGroup at h
  split at h
  · cases hm : parents.mapM (parentEntry ps prefixes) with
    | error e => rw [hm] at h; cases h
    | ok files =>
        rw [hm] at h
        injection h with h
        subst h
        intro fg hfg
        rw [List.mem_singleton.mp hfg]
  · injection h with h
    subst h
    intro fg hfg
    cases hfg

variable (a ps prefixes)

/-- What the loop over the source paths keeps: the groups are those of
the paths so far, and the response stands for them. -/
def Gathered (srcs : List PathName) (st : Expanding) (s : AgentState) :
    Prop :=
  a.Expanded ps prefixes srcs st.groups
    ∧ dataGroups s st.response = st.groups

theorem expandSource_spec {srcs : List PathName} {st : Expanding}
    {s₀ : AgentState} (h : a.Gathered ps prefixes srcs st s₀)
    (src : PathName) (s : AgentState) :
    wp (a.expandSource ps prefixes st src)
      (a.Gathered ps prefixes (srcs ++ [src])) (fun _ => True) s := by
  unfold expandSource
  dsimp only
  rw [wp_bind, wp_command_lift]
  intro r hr
  rw [wp_bind, wp_command_lift]
  intro size _
  rw [wp_bind]
  refine (a.groupsV2_made ps prefixes r.groups s).mono ?_ fun _ _ => trivial
  intro new s1 hnew
  rw [wp_bind, wp_command_lift]
  intro head hhead
  rw [wp_bind]
  refine (respond_spec ps (head ++ (st.groups ++ new)) s1).mono ?_
    fun _ _ => trivial
  intro response s2 hresp
  have hexp := h.1.snoc hr hnew
  refine ⟨hexp, ?_⟩
  show (responseGroups s2 response).filter _ = _
  rw [hresp, List.filter_append]
  have hnone : head.filter (fun g => !g.parentFolderList) = [] := by
    apply List.filter_eq_nil_iff.mpr
    intro fg hfg
    rw [headGroup_parent hhead fg hfg]
    decide
  have hall : (st.groups ++ new).filter (fun g => !g.parentFolderList)
      = st.groups ++ new := by
    apply List.filter_eq_self.mpr
    intro fg hfg
    rw [hexp.data fg hfg]
    rfl
  rw [hnone, hall, List.nil_append]

theorem expandSources_spec (rest : List PathName) {srcs : List PathName}
    {st : Expanding} {s : AgentState}
    (h : a.Gathered ps prefixes srcs st s) :
    wp (a.expandSources ps prefixes rest st)
      (a.Gathered ps prefixes (srcs ++ rest)) (fun _ => True) s := by
  induction rest generalizing srcs st s with
  | nil =>
      rw [List.append_nil]
      exact h
  | cons src rest ih =>
      unfold expandSources
      rw [wp_bind]
      refine (a.expandSource_spec ps prefixes h src s).mono ?_
        fun _ _ => trivial
      intro st' s' h'
      have := ih h'
      rwa [List.append_assoc, List.singleton_append] at this

variable {ps prefixes}

/-- The set of source paths has the source paths. -/
theorem mem_srcPathsSet {paths : List PathName} {p : PathName} :
    p ∈ srcPathsSet paths ↔ p ∈ paths := by
  have hgen : ∀ (paths l : List PathName),
      p ∈ paths.foldl (fun l q => insertBy id q l) l ↔ p ∈ paths ∨ p ∈ l := by
    intro paths
    induction paths with
    | nil => intro l; simp
    | cons q paths ih =>
        intro l
        rw [List.foldl_cons, ih, List.mem_cons]
        have hins : p ∈ insertBy id q l ↔ p = q ∨ p ∈ l := by
          constructor
          · exact mem_insertBy
          · intro h
            rcases h with rfl | h
            · obtain ⟨b, hb, hkey⟩ := key_mem_insertBy id p l
              have hbp : b = p := hkey
              exact hbp ▸ hb
            · exact subset_insertBy id q l h
        rw [hins]
        tauto
  exact (hgen paths []).trans (by simp)

theorem decodeV2_srcPaths {m : ExpandMessage} {ps : V2Params}
    (h : a.decodeV2 m = .ok ps) :
    ps.srcPaths = m.srcPath ∧ ps.dstPath = stripSlashes m.dstPath
      ∧ ps.groupSize = m.groupSize ∧ ps.maxFiles = m.maxFiles
      ∧ ps.compute = m.compute := by
  unfold decodeV2 at h
  obtain ⟨_, -, h⟩ := bind_eq_ok.mp h
  obtain ⟨_, -, h⟩ := bind_eq_ok.mp h
  obtain ⟨_, -, h⟩ := bind_eq_ok.mp h
  obtain ⟨_, -, h⟩ := bind_eq_ok.mp h
  injection h with h
  subst h
  exact ⟨rfl, rfl, rfl, rfl, rfl⟩

/-- A response of code 0 is that of the loop over the source paths. -/
theorem handleExpandAndGroupV2_run {m : ExpandMessage} {s s' : AgentState}
    {total : UInt64} {r : ResponseGroups}
    (h : a.handleExpandAndGroupV2 m s = (.ok total r, s')) :
    ∃ ps prefixes st t, a.decodeV2 m = .ok ps
      ∧ a.pathPrefixes m.srcPath = .ok prefixes
      ∧ a.expandSources ps prefixes (srcPathsSet m.srcPath) {} t
        = .ok st s'
      ∧ st.total = total ∧ st.response = r := by
  have hwp : wp (a.expandAndGroupV2Body m) (fun st s' =>
      ∃ ps prefixes t, a.decodeV2 m = .ok ps
        ∧ a.pathPrefixes m.srcPath = .ok prefixes
        ∧ a.expandSources ps prefixes (srcPathsSet m.srcPath) {} t
          = .ok st s')
      (fun _ => True) s := by
    unfold expandAndGroupV2Body
    rw [wp_bind, wp_command_lift]
    intro ps hps
    have hsrc := (a.decodeV2_srcPaths hps).1
    rw [wp_bind, wp_command_lift]
    intro _ _
    rw [wp_bind, wp_command_lift]
    intro prefixes hprefixes
    rw [wp_bind, wp_command_lift]
    intro _ _
    rw [hsrc] at hprefixes ⊢
    unfold wp
    split
    · rename_i st s' hrun
      exact ⟨ps, prefixes, s, hps, hprefixes, hrun⟩
    · trivial
  unfold handleExpandAndGroupV2 at h
  cases hrun : a.expandAndGroupV2Body m s with
  | error e t => rw [hrun] at h; cases h
  | ok st t =>
      obtain ⟨ps, prefixes, t', hps, hpre, hloop⟩ := hwp.ok hrun
      rw [hrun] at h
      injection h with h1 h2
      injection h1 with h3 h4
      subst h2
      exact ⟨ps, prefixes, st, t', hps, hpre, hloop, h3, h4⟩

/-- A response of code 0 stands for the groups of the divisions of the
source paths. -/
theorem handleExpandAndGroupV2_ok {m : ExpandMessage} {s s' : AgentState}
    {total : UInt64} {r : ResponseGroups}
    (h : a.handleExpandAndGroupV2 m s = (.ok total r, s')) :
    ∃ ps prefixes, a.decodeV2 m = .ok ps
      ∧ a.pathPrefixes m.srcPath = .ok prefixes
      ∧ a.Expanded ps prefixes (srcPathsSet m.srcPath) (dataGroups s' r) := by
  obtain ⟨ps, prefixes, st, t, hps, hpre, hloop, -, hresp⟩ :=
    a.handleExpandAndGroupV2_run h
  have hempty : a.Gathered ps prefixes [] {} t := ⟨Expanded.nil, rfl⟩
  obtain ⟨hexp, hdata⟩ := (a.expandSources_spec ps prefixes _ hempty).ok hloop
  rw [← hresp, hdata]
  exact ⟨ps, prefixes, hps, hpre, hexp⟩

/-- A name of one letter; for a slash and a dot, of an underscore. -/
def letter (c : Char) : Name :=
  if h : c ≠ '/' ∧ c ≠ '.' then
    { chars := [c]
      ne_nil := List.cons_ne_nil c []
      no_slash := fun hmem => h.1 (List.mem_singleton.mp hmem).symm
      not_dot := ⟨fun hc => h.2 (List.cons.inj hc).1,
        fun hc => absurd (List.cons.inj hc).2 (List.cons_ne_nil _ _).symm⟩ }
  else
    { chars := ['_']
      ne_nil := by decide
      no_slash := by decide
      not_dot := by decide }

/-- An agent of a file system, whose digest is the length. -/
def plain (fs : FileSystem) (folders : List PathName) : DTNAgent where
  fs := fs
  digestByName s :=
    if s = "sha1" then some fun b => toString b.length else none
  adler32 := fun b => toString b.length
  sortBySize := .stable
  others _ := 0
  dataFolders := folders
  checksumThreads := 2
  getpwnam _ := .missing

end DTNAgent

end BigDataExpress
