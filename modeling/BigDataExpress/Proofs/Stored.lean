/-
The two modes of an expansion.

With `result_in_db` the groups of the response are inserted as blocks,
and the response has their ids. This is done inside the loop over the
source paths, where the response is made anew of all groups so far. So
the groups of a source path are inserted again with every path after it,
and those of a path before one that fails are there although the call
fails. Both do not show exactly when no source path but the last has
anything to respond (`Unrepeated`).

Whether a source path can be expanded is a matter of the file system
alone (`Expandable`), whatever the task counter says; the proof takes the
loop apart along it. As long as nothing was responded, the runs of the
two modes are in one state.
-/
import BigDataExpress.Proofs.Balance

namespace BigDataExpress

open Stateful

-- ========================================= what decides about a checksum

namespace Hashing

variable (h : Hashing) (md : Digest)

/-- The files of a directory can be digested, and the groups have all of
them. -/
def Summable (p : Path) (maxThreads : Nat) : Prop :=
  ∃ groups, partition h.sortBySize (walk p) maxThreads = .ok groups
    ∧ h.Digestible md groups
    ∧ ((groups.flatMap PathGroup.paths).filter Path.isRegularFile).length
      = ((walk p).filter Path.isRegularFile).length

/-- There is a checksum for each regular file of the groups. -/
theorem GroupSums.length {gs : List PathGroup} {sums : List String}
    (hs : h.GroupSums md gs sums) :
    sums.length
      = ((gs.flatMap PathGroup.paths).filter Path.isRegularFile).length := by
  rw [hs.1, List.length_map]

/-- The checksum of a directory comes if each file below has one. -/
theorem parallel_returns (p : Path) (n : Nat) :
    ReturnsIff (h.Summable md p n) (h.parallelDirectoryChecksum p md n) := by
  intro t
  unfold parallelDirectoryChecksum
  dsimp only
  rw [wp_bind]
  cases hgroups : partition h.sortBySize (walk p) n with
  | error e =>
      intro hsum
      obtain ⟨groups, hok, _⟩ := hsum
      rw [hgroups] at hok
      cases hok
  | ok groups =>
      have hsum : h.Summable md p n ↔ h.Digestible md groups
          ∧ ((groups.flatMap PathGroup.paths).filter
              Path.isRegularFile).length
            = ((walk p).filter Path.isRegularFile).length := by
        unfold Summable
        rw [hgroups]
        constructor
        · intro hex
          obtain ⟨gs, hgs, hrest⟩ := hex
          injection hgs with hgs
          exact hgs ▸ hrest
        · intro hrest
          exact ⟨groups, rfl, hrest⟩
      show wp (h.launchGroups n groups >>= _) _ _ t
      rw [wp_bind, hsum]
      refine ((h.launchGroups_own md n groups t).and
        (h.launchGroups_perm n groups t)).mono ?_ fun _ hf => hf.1.elim
      intro r t₁ hr
      obtain ⟨tasks, rest⟩ := r
      obtain ⟨⟨hown, _, hdig⟩, hperm⟩ := hr
      dsimp only at hown hdig hperm
      have hsplit : h.Digestible md (tasks ++ rest)
          ↔ h.Digestible md tasks ∧ h.Digestible md rest := by
        unfold Digestible
        exact List.forall_mem_append
      rw [hdig, hsplit]
      dsimp only
      rw [wp_bind]
      refine ((h.checksumRemainders_own md rest t₁).and
        (h.checksumRemainders_sums md rest t₁)).mono ?_ ?_
      · intro sums t₂ hr
        obtain ⟨⟨rfl, hrest⟩, hsums⟩ := hr
        rw [wp_bind]
        refine ((h.collectTasks_own md tasks hown).and
          (h.collectTasks_sums md tasks t₂)).mono ?_ ?_
        · intro more t₃ hr
          obtain ⟨⟨_, htasks⟩, hmore⟩ := hr
          -- as many checksums as the groups have files
          have hlen : (sums ++ more).length
              = ((groups.flatMap PathGroup.paths).filter
                  Path.isRegularFile).length := by
            rw [← (hperm.filter _).length_eq, List.flatMap_append,
              List.filter_append, List.length_append, List.length_append,
              hsums.length, hmore.length]
            omega
          rw [hlen]
          split
          · rename_i hne
            exact fun hall => hne hall.2.symm
          · rename_i heq
            exact ⟨⟨htasks, hrest⟩, (not_not.1 heq).symm⟩
        · intro t₃ hr hall
          exact hr.1.2 hall.1.1
      · intro t₂ hr hall
        exact hr.1.2 hall.1.2

end Hashing

-- ================================================ what decides about a path

/-- A part of a command returns if it succeeds. -/
theorem returnsIff_lift {α : Type} (x : Except String α) :
    ReturnsIff (∃ v, x = .ok v) (Command.lift x) := by
  intro s
  cases x with
  | ok v => exact ⟨v, rfl⟩
  | error e =>
      intro hok
      obtain ⟨v, hv⟩ := hok
      cases hv

/-- A part with tasks returns on the same condition. -/
theorem returnsIff_tasked {α : Type} {P : Prop} {x : Tasked α}
    (h : ReturnsIff P x) : ReturnsIff P (Command.tasked x) := by
  intro s
  have ht := h s.tasks
  unfold wp Command.tasked at *
  cases hx : x s.tasks with
  | ok v t => rw [hx] at ht; exact ht
  | error e t => rw [hx] at ht; exact ht

/-- What happens to the tasks leaves the blocks alone. -/
theorem keeps_tasked {α : Type} (x : Tasked α) (b : List FileGroup) :
    Stateful.Keeps (fun s : AgentState => s.blocks = b) (Command.tasked x) := by
  intro s hs
  unfold wp Command.tasked
  cases x s.tasks <;> exact hs

/-- A part of a command stores nothing. -/
theorem keeps_lift {α : Type} (x : Except String α) (b : List FileGroup) :
    Stateful.Keeps (fun s : AgentState => s.blocks = b) (Command.lift x) := by
  cases x <;> exact fun _ hs => hs

namespace DTNAgent

variable (a : DTNAgent) (ps : V2Params) (prefixes : List PathName)

/-- The entry of a path can be made: it has a canonical name, and if
checksums are wanted, its digest can be computed. -/
def Enterable (p : Path) : Prop :=
  (∃ src, p.canonicalName = .ok src)
    ∧ (ps.compute = true → ∀ src, p.canonicalName = .ok src →
        if p.isDirectory then
          ∃ md, ps.md = some md
            ∧ a.toHashing.Summable md p a.checksumThreads
        else ∃ sum, a.checksum src ps.md = .ok sum)

/-- The looks at the counter, and its changes, do not fail. -/
theorem useTask_returns (g : PathGroup) (p : Path) :
    ReturnsIff True (a.useTask g p) := by
  unfold useTask
  refine ReturnsIff.ite ?_ (.pure _)
  have hrun : ReturnsIff True a.running := fun _ => trivial
  exact (returnsIff_tasked hrun).sure_bind fun n => .pure _

/-- A file is entered if it has a checksum. -/
theorem addFileChecksum_returns (g : PathGroup) (p : Path)
    (src realDst : PathName) :
    ReturnsIff (∃ sum, a.checksum src ps.md = .ok sum)
      (a.addFileChecksum ps g p src realDst) := by
  have hlift := returnsIff_lift (a.checksum src ps.md)
  have hinc : ReturnsIff True (Command.tasked TaskCounter.increment) :=
    returnsIff_tasked fun _ => trivial
  have hdec : ReturnsIff True (Command.tasked TaskCounter.decrement) :=
    returnsIff_tasked fun _ => trivial
  unfold addFileChecksum
  refine (a.useTask_returns g p).sure_bind fun b => ?_
  refine ReturnsIff.ite ?_ ?_
  · refine hinc.sure_bind fun _ => ?_
    refine hlift.bind_sure fun v => ?_
    exact hdec.sure_bind fun _ => .pure _
  · exact hlift.bind_sure fun v => .pure _

/-- A directory is entered if there is a digest, and all below has
checksums. -/
theorem addDirChecksum_returns {p : Path} (hp : p.isDirectory = true)
    (realDst : PathName) :
    ReturnsIff (∃ md, ps.md = some md
        ∧ a.toHashing.Summable md p a.checksumThreads)
      (a.addDirChecksumOfChecksums ps p realDst) := by
  unfold addDirChecksumOfChecksums
  have hsum : ReturnsIff (∃ md, ps.md = some md
        ∧ a.toHashing.Summable md p a.checksumThreads)
      (a.dirChecksumOfChecksums p ps.md a.checksumThreads) := by
    unfold Hashing.dirChecksumOfChecksums
    cases hmd : ps.md with
    | none =>
        intro t hex
        obtain ⟨md, hnone, _⟩ := hex
        cases hnone
    | some md =>
        dsimp only
        rw [if_neg (by simp [hp])]
        refine (a.toHashing.parallel_returns md p _).congr ?_
        constructor
        · exact fun h => ⟨md, rfl, h⟩
        · intro hex
          obtain ⟨md', hmd', h⟩ := hex
          injection hmd' with hmd'
          exact hmd' ▸ h
  exact (returnsIff_tasked hsum).bind_sure fun _ => .pure _

/-- An entry is made exactly when it can be. -/
theorem entryV2_returns (g : PathGroup) (p : Path) :
    ReturnsIff (a.Enterable ps p) (a.entryV2 ps prefixes g p) := by
  intro s
  unfold entryV2
  cases hsrc : p.canonicalName with
  | error e =>
      intro henter
      obtain ⟨⟨src, hok⟩, _⟩ := henter
      rw [hsrc] at hok
      cases hok
  | ok src =>
      have henter : a.Enterable ps p ↔ (ps.compute = true →
          if p.isDirectory then
            ∃ md, ps.md = some md
              ∧ a.toHashing.Summable md p a.checksumThreads
          else ∃ sum, a.checksum src ps.md = .ok sum) := by
        unfold Enterable
        rw [hsrc]
        constructor
        · exact fun h hc => h.2 hc src rfl
        · intro h
          refine ⟨⟨src, rfl⟩, fun hc src' hsrc' => ?_⟩
          injection hsrc' with hsrc'
          exact hsrc' ▸ h hc
      refine ReturnsIff.congr ?_ henter.symm s
      show ReturnsIff _ (if p.isDirectory = true then _ else _)
      by_cases hp : p.isDirectory = true
      · simp only [if_pos hp]
        by_cases hc : ps.compute = true
        · rw [if_pos hc]
          refine ReturnsIff.bind_sure ?_ fun _ => .pure _
          refine (a.addDirChecksum_returns ps hp ps.dstPath).congr ?_
          exact ⟨fun h _ => h, fun h => h hc⟩
        · rw [if_neg hc]
          refine ReturnsIff.bind_sure ?_ fun _ => .pure _
          exact (ReturnsIff.pure _).congr
            ⟨fun _ h => absurd h hc, fun _ => trivial⟩
      · simp only [if_neg hp]
        by_cases hc : ps.compute = true
        · rw [if_pos hc]
          refine ReturnsIff.bind_sure ?_ fun _ => .pure _
          refine (a.addFileChecksum_returns ps g p src _).congr ?_
          exact ⟨fun h _ => h, fun h => h hc⟩
        · rw [if_neg hc]
          refine ReturnsIff.bind_sure ?_ fun _ => .pure _
          exact (ReturnsIff.pure _).congr
            ⟨fun _ h => absurd h hc, fun _ => trivial⟩

/-- A group is entered if each of its paths can be. -/
theorem addPaths_returns (g : PathGroup) (paths : List Path)
    (fg : FileGroup) :
    ReturnsIff (∀ p ∈ paths, a.Enterable ps p)
      (a.addPaths ps prefixes g paths fg) := by
  induction paths generalizing fg with
  | nil =>
      exact (ReturnsIff.pure fg).congr (by simp)
  | cons p paths ih =>
      refine ReturnsIff.congr ?_ List.forall_mem_cons.symm
      exact (a.entryV2_returns ps prefixes g p).bind fun _ _ => ih _

/-- So are all groups. -/
theorem groupsV2_returns (gs : List PathGroup) :
    ReturnsIff (∀ g ∈ gs, ∀ p ∈ g.paths, a.Enterable ps p)
      (a.groupsV2 ps prefixes gs) := by
  induction gs with
  | nil => exact (ReturnsIff.pure _).congr (by simp)
  | cons g gs ih =>
      have hgroup : ReturnsIff (∀ p ∈ g.paths, a.Enterable ps p)
          (a.groupV2 ps prefixes g) :=
        (a.addPaths_returns ps prefixes g g.paths {}).bind_sure
          fun _ => .pure _
      refine ReturnsIff.congr ?_ List.forall_mem_cons.symm
      refine hgroup.bind fun _ fg => ?_
      exact ih.bind_sure fun _ => .pure _

/-- Making an entry does not touch the blocks. -/
theorem entryV2_keeps (g : PathGroup) (p : Path) (b : List FileGroup) :
    Stateful.Keeps (fun s => s.blocks = b) (a.entryV2 ps prefixes g p) := by
  have hdir : ∀ dst, Stateful.Keeps (fun s => s.blocks = b)
      (a.addDirChecksumOfChecksums ps p dst) :=
    fun dst => (keeps_tasked _ b).bind fun _ => .pure _
  have htask : Stateful.Keeps (fun s => s.blocks = b) (a.useTask g p) :=
    .ite ((keeps_tasked _ b).bind fun _ => .pure _) (.pure _)
  have hfile : ∀ src dst, Stateful.Keeps (fun s => s.blocks = b)
      (a.addFileChecksum ps g p src dst) := by
    intro src dst
    refine htask.bind fun useTask => .ite ?_ ?_
    · refine (keeps_tasked _ b).bind fun _ => ?_
      refine (keeps_lift _ b).bind fun _ => ?_
      exact (keeps_tasked _ b).bind fun _ => .pure _
    · exact (keeps_lift _ b).bind fun _ => .pure _
  unfold entryV2
  refine (keeps_lift _ b).bind fun src => .ite ?_ ?_
  · exact .ite ((hdir _).bind fun _ => .pure _)
      (Stateful.Keeps.bind (.pure _) fun _ => .pure _)
  · exact .ite ((hfile _ _).bind fun _ => .pure _)
      (Stateful.Keeps.bind (.pure _) fun _ => .pure _)

/-- Entering a group stores nothing. -/
theorem addPaths_keeps (g : PathGroup) (paths : List Path)
    (fg : FileGroup) (b : List FileGroup) :
    Stateful.Keeps (fun s => s.blocks = b) (a.addPaths ps prefixes g paths fg) := by
  induction paths generalizing fg with
  | nil => exact .pure _
  | cons p paths ih =>
      exact (a.entryV2_keeps ps prefixes g p b).bind fun _ => ih _

/-- Nor does entering all groups. -/
theorem groupsV2_keeps (gs : List PathGroup) (b : List FileGroup) :
    Stateful.Keeps (fun s => s.blocks = b) (a.groupsV2 ps prefixes gs) := by
  induction gs with
  | nil => exact .pure _
  | cons g gs ih =>
      have hgroup : Stateful.Keeps (fun s => s.blocks = b)
          (a.groupV2 ps prefixes g) :=
        (a.addPaths_keeps ps prefixes g g.paths {} b).bind fun _ => .pure _
      exact hgroup.bind fun _ => ih.bind fun _ => .pure _

/-- One group of files comes of each group, and nothing is stored. -/
theorem groupsV2_spec (gs : List PathGroup) (s : AgentState) :
    wp (a.groupsV2 ps prefixes gs)
      (fun fgs s' => (∀ g ∈ gs, ∀ p ∈ g.paths, a.Enterable ps p)
        ∧ s'.blocks = s.blocks ∧ fgs.length = gs.length
        ∧ (gs = [] → s' = s))
      (fun s' => ¬ (∀ g ∈ gs, ∀ p ∈ g.paths, a.Enterable ps p)
        ∧ s'.blocks = s.blocks) s := by
  have hret := a.groupsV2_returns ps prefixes gs s
  have hkeep := a.groupsV2_keeps ps prefixes gs s.blocks s rfl
  cases gs with
  | nil =>
      exact ⟨fun g hg => absurd hg List.not_mem_nil, rfl, rfl, fun _ => rfl⟩
  | cons g gs =>
      refine ((hret.and hkeep).and
        (a.groupsV2_made ps prefixes (g :: gs) s)).mono ?_ fun _ h => h.1
      intro fgs s' h
      exact ⟨h.1.1, h.1.2, h.2.length_eq.symm,
        fun hnil => absurd hnil (List.cons_ne_nil _ _)⟩

-- ==================================================== the parent folders

/-- A walk through a list that stops at the first error. -/
theorem mapM_isOk {α β : Type} {f : α → Except String β} {l : List α} :
    (∃ ys, l.mapM f = .ok ys) ↔ ∀ x ∈ l, ∃ y, f x = .ok y := by
  induction l with
  | nil =>
      exact ⟨fun _ x hx => absurd hx List.not_mem_nil, fun _ => ⟨[], rfl⟩⟩
  | cons x l ih =>
      rw [List.forall_mem_cons, ← ih, List.mapM_cons]
      constructor
      · intro h
        obtain ⟨ys, hys⟩ := h
        obtain ⟨y, hy, hys⟩ := bind_eq_ok.1 hys
        obtain ⟨zs, hzs, _⟩ := bind_eq_ok.1 hys
        exact ⟨⟨y, hy⟩, zs, hzs⟩
      · intro h
        obtain ⟨⟨y, hy⟩, ys, hys⟩ := h
        refine ⟨y :: ys, ?_⟩
        rw [hy, hys]
        rfl

/-- The group of parent folders can be made if it is not asked for, or if
each of them has a canonical name. -/
theorem headGroup_isOk (parents : List Path) :
    (∃ head, a.headGroup ps prefixes parents = .ok head)
      ↔ (a.useExpandV2ParentList = true →
          ∀ d ∈ parents, ∃ name, d.canonicalName = .ok name) := by
  have hentry : ∀ d : Path, (∃ e, parentEntry ps prefixes d = .ok e)
      ↔ ∃ name, d.canonicalName = .ok name := by
    intro d
    unfold parentEntry
    cases d.canonicalName with
    | ok name => exact ⟨fun _ => ⟨_, rfl⟩, fun _ => ⟨_, rfl⟩⟩
    | error e =>
        constructor
        · intro h
          obtain ⟨_, h⟩ := h
          cases h
        · intro h
          obtain ⟨_, h⟩ := h
          cases h
  have hmap := mapM_isOk (f := parentEntry ps prefixes) (l := parents)
  simp only [hentry] at hmap
  unfold headGroup
  by_cases huse : a.useExpandV2ParentList = true
  · cases parents with
    | nil =>
        rw [if_neg (by simp)]
        exact ⟨fun _ _ d hd => absurd hd List.not_mem_nil,
          fun _ => ⟨[], rfl⟩⟩
    | cons d parents =>
        rw [if_pos (by simp [huse]), show (a.useExpandV2ParentList = true → _)
          ↔ _ from ⟨fun h => h huse, fun h _ => h⟩, ← hmap]
        cases (d :: parents).mapM (parentEntry ps prefixes) with
        | ok files => exact ⟨fun _ => ⟨_, rfl⟩, fun _ => ⟨_, rfl⟩⟩
        | error e =>
            constructor
            · intro h
              obtain ⟨_, h⟩ := h
              cases h
            · intro h
              obtain ⟨_, h⟩ := h
              cases h
  · rw [if_neg (by simp [huse])]
    exact ⟨fun _ h => absurd h huse, fun _ => ⟨[], rfl⟩⟩

/-- There is no group of parents only if there are none, or none are asked
for. -/
theorem headGroup_nil_iff {parents : List Path} {head : List FileGroup}
    (h : a.headGroup ps prefixes parents = .ok head) :
    head = [] ↔ (a.useExpandV2ParentList = true → parents = []) := by
  unfold headGroup at h
  split at h
  · rename_i hask
    simp only [Bool.and_eq_true, Bool.not_eq_true', List.isEmpty_eq_false_iff]
      at hask
    cases hm : parents.mapM (parentEntry ps prefixes) with
    | error e => rw [hm] at h; cases h
    | ok files =>
        rw [hm] at h
        injection h with h
        subst h
        exact ⟨fun hnil => absurd hnil (List.cons_ne_nil _ _),
          fun hall => absurd (hall hask.1) hask.2⟩
  · rename_i hask
    injection h with h
    subst h
    refine ⟨fun _ huse => ?_, fun _ => rfl⟩
    by_contra hne
    exact hask (by simp [huse, hne])

-- ======================================================= a source path

/-- The parent folders a division lists. -/
def parentsOf (r : PathSuperGroup) : List Path :=
  r.dirs.foldl (fun l p => insertPath p l) []

/-- A source path can be expanded: it can be divided and its size taken,
the entries of its groups can be made, and its parent folders named if
they are listed. -/
def Expandable (src : PathName) : Prop :=
  ∃ r, a.division ps src = .ok r
    ∧ (∃ size, treeSize a.fs (Path.ofName a.fs src) = .ok size)
    ∧ (∀ g ∈ r.groups, ∀ p ∈ g.paths, a.Enterable ps p)
    ∧ (a.useExpandV2ParentList = true →
        ∀ d ∈ parentsOf r, ∃ name, d.canonicalName = .ok name)

/-- A source path that has nothing to respond: no groups, and no parent
folders if they are listed. -/
def Idle (src : PathName) : Prop :=
  ∀ r, a.division ps src = .ok r →
    r.groups = [] ∧ (a.useExpandV2ParentList = true → parentsOf r = [])

/-- Of the source paths up to the first that cannot be expanded, none but
the last source path has anything to respond. -/
def Unrepeated : List PathName → Prop
  | src :: next :: rest =>
      a.Expandable ps src → a.Idle ps src ∧ Unrepeated (next :: rest)
  | _ => True

/-- A source path up to its response: what is gathered then, without a
response yet, and the groups of the response. -/
def gatherPath (st : Expanding) (src : PathName) :
    Command (Expanding × List FileGroup) := do
  let tree := Path.ofName a.fs src
  let results ← Command.lift (divide a.fs tree ps.groupSize ps.maxFiles)
  let size ← Command.lift (treeSize a.fs tree)
  let parents := results.dirs.foldl (fun l p => insertPath p l) st.parents
  let new ← a.groupsV2 ps prefixes results.groups
  let head ← Command.lift (a.headGroup ps prefixes parents)
  let groups := st.groups ++ new
  pure ({ total := st.total + size, groups := groups, parents := parents },
    head ++ groups)

/-- A source is gathered first, and then answered. -/
theorem expandSource_eq (st : Expanding) (src : PathName) :
    a.expandSource ps prefixes st src = (do
      let (st', groups) ← a.gatherPath ps prefixes st src
      let response ← respond ps groups
      pure { st' with response := response }) := by
  unfold expandSource gatherPath
  simp only [bind_assoc, pure_bind]

/-- Nothing to respond was gathered. -/
structure Bare (st : Expanding) : Prop where
  groups : st.groups = []
  parents : a.useExpandV2ParentList = true → st.parents = []

/-- Nothing is gathered at first. -/
theorem Bare.init : a.Bare {} := ⟨rfl, fun _ => rfl⟩

variable {a ps prefixes}

/-- A source path that can be divided and has a size can be expanded if its
entries can be made and its parent folders named. -/
theorem expandable_iff {src : PathName} {r : PathSuperGroup} {size : UInt64}
    (hdiv : a.division ps src = .ok r)
    (hsize : treeSize a.fs (Path.ofName a.fs src) = .ok size) :
    a.Expandable ps src
      ↔ (∀ g ∈ r.groups, ∀ p ∈ g.paths, a.Enterable ps p)
        ∧ (a.useExpandV2ParentList = true →
            ∀ d ∈ parentsOf r, ∃ name, d.canonicalName = .ok name) := by
  constructor
  · intro h
    obtain ⟨r', hr', _, hrest⟩ := h
    rw [hdiv] at hr'
    injection hr' with hr'
    exact hr' ▸ hrest
  · exact fun h => ⟨r, hdiv, ⟨size, hsize⟩, h⟩

/-- It is idle if it has neither groups nor parent folders. -/
theorem idle_iff {src : PathName} {r : PathSuperGroup}
    (hdiv : a.division ps src = .ok r) :
    a.Idle ps src ↔ r.groups = []
      ∧ (a.useExpandV2ParentList = true → parentsOf r = []) := by
  constructor
  · exact fun h => h r hdiv
  · intro h r' hr'
    rw [hdiv] at hr'
    injection hr' with hr'
    exact hr' ▸ h

/-- A source path when nothing was gathered before. -/
theorem gatherPath_spec {st : Expanding} (hst : a.Bare st)
    (src : PathName) (s : AgentState) :
    wp (a.gatherPath ps prefixes st src)
      (fun r s' => a.Expandable ps src ∧ s'.blocks = s.blocks
        ∧ (a.Idle ps src → r.2 = [] ∧ s' = s ∧ a.Bare r.1)
        ∧ (¬ a.Idle ps src → r.2 ≠ []))
      (fun s' => ¬ a.Expandable ps src ∧ s'.blocks = s.blocks) s := by
  unfold gatherPath
  dsimp only
  cases hdiv : divide a.fs (Path.ofName a.fs src) ps.groupSize ps.maxFiles with
  | error e =>
      refine ⟨?_, rfl⟩
      intro hexp
      obtain ⟨r, hr, _⟩ := hexp
      rw [division, hdiv] at hr
      cases hr
  | ok r =>
  cases hsize : treeSize a.fs (Path.ofName a.fs src) with
  | error e =>
      refine ⟨?_, rfl⟩
      intro hexp
      obtain ⟨_, _, ⟨size, hs⟩, _⟩ := hexp
      rw [hsize] at hs
      cases hs
  | ok size =>
  -- what is left to decide: the entries, and the names of the parents
  have hparents : a.useExpandV2ParentList = true →
      r.dirs.foldl (fun l p => insertPath p l) st.parents = parentsOf r := by
    intro huse
    rw [hst.parents huse]
    rfl
  rw [expandable_iff hdiv hsize, idle_iff hdiv]
  show wp (a.groupsV2 ps prefixes r.groups >>= _) _ _ s
  rw [wp_bind]
  refine (a.groupsV2_spec ps prefixes r.groups s).mono ?_ ?_
  · intro new s' h
    obtain ⟨henter, hblocks, hlen, hsame⟩ := h
    have hhead := a.headGroup_isOk ps prefixes
      (r.dirs.foldl (fun l p => insertPath p l) st.parents)
    rw [wp_bind]
    cases hh : a.headGroup ps prefixes
        (r.dirs.foldl (fun l p => insertPath p l) st.parents) with
    | error e =>
        refine ⟨?_, hblocks⟩
        intro hall
        rw [hh] at hhead
        obtain ⟨head, hok⟩ := hhead.2 fun huse => by
          rw [hparents huse]
          exact hall.2 huse
        cases hok
    | ok head =>
        rw [hh] at hhead
        have hnames := hhead.1 ⟨head, rfl⟩
        have hpar : (a.useExpandV2ParentList = true →
              r.dirs.foldl (fun l p => insertPath p l) st.parents = [])
            ↔ (a.useExpandV2ParentList = true → parentsOf r = []) :=
          forall_congr' fun huse => by rw [hparents huse]
        have hnew : new = [] ↔ r.groups = [] := by
          rw [← List.length_eq_zero_iff, hlen, List.length_eq_zero_iff]
        have hempty : head ++ (st.groups ++ new) = [] ↔ r.groups = []
            ∧ (a.useExpandV2ParentList = true → parentsOf r = []) := by
          rw [List.append_eq_nil_iff, a.headGroup_nil_iff ps prefixes hh, hpar,
            hst.groups, List.nil_append, hnew, and_comm]
        refine ⟨⟨henter, fun huse => ?_⟩, hblocks, fun hid => ?_, fun hnid =>
          mt hempty.1 hnid⟩
        · rw [← hparents huse]
          exact hnames huse
        · refine ⟨hempty.2 hid, hsame hid.1, ?_, hpar.2 hid.2⟩
          exact (List.append_eq_nil_iff.1 (hempty.2 hid)).2
  · intro s' h
    exact ⟨fun hall => h.1 hall.1, h.2⟩

-- ========================================================= the response

/-- The blocks inserted between two states are these groups, each of them
once; the response names them in their order. -/
structure StoredOnce (s s' : AgentState) (groups : List FileGroup)
    (ids : List (Nat × Option UInt64)) : Prop where
  inserted : ∃ new, s'.blocks = s.blocks ++ new ∧ new.Perm groups
  named : ids.map (fun i => s'.blocks[i.1]?) = groups.map some
  sizes : ids.map Prod.snd = groups.map FileGroup.size
  fresh : ∀ i ∈ ids, s.blocks.length ≤ i.1
  nodup : (ids.map Prod.fst).Nodup

/-- The ids are new, one after the other. -/
theorem addBlocks_run (groups : List FileGroup) (s : AgentState) :
    ∃ ids, addBlocks groups s
        = .ok ids { s with blocks := s.blocks ++ groups }
      ∧ ids.map Prod.fst = List.range' s.blocks.length groups.length
      ∧ ids.map Prod.snd = groups.map FileGroup.size := by
  induction groups generalizing s with
  | nil =>
      refine ⟨[], ?_, rfl, rfl⟩
      rw [List.append_nil]
      rfl
  | cons g gs ih =>
      obtain ⟨ids, hrun, hfst, hsnd⟩ :=
        ih { s with blocks := s.blocks ++ [g] }
      have hfst' : ids.map Prod.fst
          = List.range' (s.blocks ++ [g]).length gs.length := hfst
      have hrun' : addBlocks gs { s with blocks := s.blocks ++ [g] }
          = .ok ids { s with blocks := s.blocks ++ [g] ++ gs } := hrun
      refine ⟨(s.blocks.length, g.size) :: ids, ?_, ?_, ?_⟩
      · show EStateM.bind (addBlocks gs)
          (fun rest => pure ((s.blocks.length, g.size) :: rest))
          { s with blocks := s.blocks ++ [g] } = _
        unfold EStateM.bind
        rw [hrun', List.append_assoc]
        rfl
      · rw [List.map_cons, hfst', List.length_cons, List.range'_succ]
        simp
      · rw [List.map_cons, hsnd]
        rfl

/-- Inserting a response once. -/
theorem storedOnce_addBlocks {groups : List FileGroup} {s : AgentState}
    {ids : List (Nat × Option UInt64)}
    (hfst : ids.map Prod.fst = List.range' s.blocks.length groups.length)
    (hsnd : ids.map Prod.snd = groups.map FileGroup.size) :
    StoredOnce s { s with blocks := s.blocks ++ groups } groups ids where
  inserted := ⟨groups, rfl, .refl _⟩
  named := by
    have hmap : ids.map (fun i => (s.blocks ++ groups)[i.1]?)
        = (ids.map Prod.fst).map fun i => (s.blocks ++ groups)[i]? := by
      rw [List.map_map]
      rfl
    show ids.map (fun i => (s.blocks ++ groups)[i.1]?) = _
    rw [hmap, hfst]
    apply List.ext_getElem
    · simp
    · intro i h1 h2
      simp at h1
      simp [h1]
  sizes := hsnd
  fresh := by
    intro i hi
    have hmem := List.mem_map_of_mem (f := Prod.fst) hi
    rw [hfst, List.mem_range'_1] at hmem
    exact hmem.1
  nodup := by
    rw [hfst]
    exact List.nodup_range'

-- ======================================================= the two modes

/-- The response of a source path, when it is stored. -/
theorem expandSource_stored (hdb : ps.resultInDb = true) (st : Expanding)
    (src : PathName) (s : AgentState) :
    a.expandSource ps prefixes st src s
      = match a.gatherPath ps prefixes st src s with
        | .ok (st', groups) s' =>
            match addBlocks groups s' with
            | .ok ids s'' => .ok { st' with response := .stored ids } s''
            | .error e s'' => .error e s''
        | .error e s' => .error e s' := by
  rw [expandSource_eq]
  show EStateM.bind _ _ s = _
  unfold EStateM.bind
  cases a.gatherPath ps prefixes st src s with
  | error e s' => rfl
  | ok r s' =>
      obtain ⟨st', groups⟩ := r
      show EStateM.bind (respond ps groups) _ s' = _
      unfold respond
      rw [if_pos hdb]
      show EStateM.bind (EStateM.bind (addBlocks groups) _) _ s' = _
      unfold EStateM.bind
      dsimp only
      cases addBlocks groups s' <;> rfl

/-- The response of a source path, when it is not. -/
theorem expandSource_inline (hdb : ps.resultInDb = false) (st : Expanding)
    (src : PathName) (s : AgentState) :
    a.expandSource ps prefixes st src s
      = match a.gatherPath ps prefixes st src s with
        | .ok (st', groups) s' => .ok { st' with response := .inline groups } s'
        | .error e s' => .error e s' := by
  rw [expandSource_eq]
  show EStateM.bind _ _ s = _
  unfold EStateM.bind
  cases a.gatherPath ps prefixes st src s with
  | error e s' => rfl
  | ok r s' =>
      obtain ⟨st', groups⟩ := r
      show EStateM.bind (respond ps groups) _ s' = _
      unfold respond
      rw [if_neg (by simp [hdb])]
      rfl

variable (a ps prefixes) in
/-- Gathering stores nothing. -/
theorem gatherPath_keeps (st : Expanding) (src : PathName)
    (b : List FileGroup) :
    Stateful.Keeps (fun s => s.blocks = b) (a.gatherPath ps prefixes st src) := by
  unfold gatherPath
  refine (keeps_lift _ b).bind fun r => ?_
  refine (keeps_lift _ b).bind fun size => ?_
  refine (a.groupsV2_keeps ps prefixes r.groups b).bind fun new => ?_
  exact (keeps_lift _ b).bind fun head => .pure _

/-- What is gathered does not depend on the mode. -/
theorem gatherPath_mode (b : Bool) (st : Expanding) (src : PathName) :
    a.gatherPath { ps with resultInDb := b } prefixes st src
      = a.gatherPath ps prefixes st src := by
  have haddPaths : ∀ g paths fg,
      a.addPaths { ps with resultInDb := b } prefixes g paths fg
        = a.addPaths ps prefixes g paths fg := by
    intro g paths
    induction paths with
    | nil => intro fg; rfl
    | cons p paths ih =>
        intro fg
        unfold addPaths
        simp only [ih]
        rfl
  have hgroups : ∀ gs, a.groupsV2 { ps with resultInDb := b } prefixes gs
      = a.groupsV2 ps prefixes gs := by
    intro gs
    induction gs with
    | nil => rfl
    | cons g gs ih =>
        unfold groupsV2 groupV2
        rw [ih, haddPaths]
  unfold gatherPath
  simp only [hgroups]
  rfl

/-- Every response is inserted after what is there. -/
theorem expandSource_appends (hdb : ps.resultInDb = true) (st : Expanding)
    (src : PathName) (s : AgentState) :
    wp (a.expandSource ps prefixes st src)
      (fun st' s' => ∃ new ids, s'.blocks = s.blocks ++ new
        ∧ st'.response = .stored ids ∧ ids.length = new.length)
      (fun s' => s'.blocks = s.blocks) s := by
  have hkeep := a.gatherPath_keeps ps prefixes st src s.blocks s rfl
  unfold wp at hkeep ⊢
  rw [expandSource_stored hdb]
  cases hrun : a.gatherPath ps prefixes st src s with
  | error e s' =>
      rw [hrun] at hkeep
      exact hkeep
  | ok r s' =>
      rw [hrun] at hkeep
      obtain ⟨ids, hadd, hfst, _⟩ := addBlocks_run r.2 s'
      have hlen : ids.length = r.2.length := by
        have h := congrArg List.length hfst
        rwa [List.length_map, List.length_range'] at h
      dsimp only
      rw [hadd]
      refine ⟨r.2, ids, ?_, rfl, hlen⟩
      show s'.blocks ++ r.2 = s.blocks ++ r.2
      rw [show s'.blocks = s.blocks from hkeep]

/-- The sources in a row append to what is stored. -/
theorem expandSources_appends (hdb : ps.resultInDb = true)
    (srcs : List PathName) (st : Expanding) (s : AgentState) :
    wp (a.expandSources ps prefixes srcs st)
      (fun st' s' => ∃ new, s'.blocks = s.blocks ++ new
        ∧ (srcs = [] → st' = st)
        ∧ (srcs ≠ [] → ∃ ids, st'.response = .stored ids
            ∧ ids.length ≤ new.length))
      (fun s' => ∃ new, s'.blocks = s.blocks ++ new) s := by
  induction srcs generalizing st s with
  | nil =>
      exact ⟨[], (List.append_nil _).symm, fun _ => rfl,
        fun h => absurd rfl h⟩
  | cons src rest ih =>
      unfold expandSources
      rw [wp_bind]
      refine (expandSource_appends hdb st src s).mono ?_ ?_
      · intro st₁ s₁ h
        obtain ⟨new, ids, hblocks, hresp, hlen⟩ := h
        refine (ih st₁ s₁).mono ?_ ?_
        · intro st₂ s₂ h
          obtain ⟨more, hmore, hdone, hlast⟩ := h
          refine ⟨new ++ more, ?_, fun h => absurd h (List.cons_ne_nil _ _),
            fun _ => ?_⟩
          · rw [hmore, hblocks, List.append_assoc]
          · rw [List.length_append]
            by_cases hrest : rest = []
            · refine ⟨ids, ?_, by omega⟩
              rw [hdone hrest, hresp]
            · obtain ⟨ids', hresp', hle⟩ := hlast hrest
              exact ⟨ids', hresp', by omega⟩
        · intro s₂ h
          obtain ⟨more, hmore⟩ := h
          exact ⟨new ++ more, by rw [hmore, hblocks, List.append_assoc]⟩
      · intro s₁ h
        exact ⟨[], by rw [h, List.append_nil]⟩

/-- Two runs from one state, without and with the database, match. -/
def Matches (s : AgentState)
    (inline stored : EStateM.Result String AgentState Expanding) : Prop :=
  match inline with
  | .ok st s₁ => s₁.blocks = s.blocks ∧ ∃ groups ids st' s₂,
      st.response = .inline groups ∧ stored = .ok st' s₂
        ∧ st'.total = st.total ∧ st'.response = .stored ids
        ∧ StoredOnce s s₂ groups ids
  | .error e s₁ => s₁.blocks = s.blocks
      ∧ ∃ s₂, stored = .error e s₂ ∧ s₂.blocks = s.blocks

/-- Groups inserted before the last response are too many. -/
theorem not_matches_of_appended {s : AgentState}
    {inline stored : EStateM.Result String AgentState Expanding}
    {new : List FileGroup} (hne : new ≠ [])
    (hok : ∀ st s₂, stored = .ok st s₂ → ∃ more ids,
      s₂.blocks = s.blocks ++ new ++ more ∧ st.response = .stored ids
        ∧ ids.length ≤ more.length)
    (herr : ∀ e s₂, stored = .error e s₂ →
      ∃ more, s₂.blocks = s.blocks ++ new ++ more) :
    ¬ Matches s inline stored := by
  have hpos := List.length_pos_iff.2 hne
  intro hm
  unfold Matches at hm
  cases inline with
  | ok st s₁ =>
      obtain ⟨_, groups, ids, st', s₂, _, hstored, _, hresp, honce⟩ := hm
      obtain ⟨more, ids', hblocks, hresp', hle⟩ := hok st' s₂ hstored
      rw [hresp] at hresp'
      injection hresp' with hids
      subst hids
      obtain ⟨added, hadded, hperm⟩ := honce.inserted
      have hlen : ids.length = groups.length := by
        have h := congrArg List.length honce.named
        rwa [List.length_map, List.length_map] at h
      rw [hblocks, List.append_assoc] at hadded
      have heq := congrArg List.length (List.append_cancel_left hadded)
      rw [List.length_append, hperm.length_eq] at heq
      omega
  | error e s₁ =>
      obtain ⟨_, s₂, hstored, hblocks⟩ := hm
      obtain ⟨more, hmore⟩ := herr e s₂ hstored
      rw [hblocks, List.append_assoc] at hmore
      have heq := congrArg List.length hmore
      rw [List.length_append, List.length_append] at heq
      omega

/-- After a source that succeeds come the others. -/
theorem expandSources_cons_ok {st st' : Expanding} {src : PathName}
    {s s' : AgentState}
    (h : a.expandSource ps prefixes st src s = .ok st' s')
    (rest : List PathName) :
    a.expandSources ps prefixes (src :: rest) st s
      = a.expandSources ps prefixes rest st' s' := by
  show EStateM.bind (a.expandSource ps prefixes st src) _ s = _
  unfold EStateM.bind
  rw [h]

/-- A source that fails ends it. -/
theorem expandSources_cons_error {st : Expanding} {src : PathName}
    {s s' : AgentState} {e : String}
    (h : a.expandSource ps prefixes st src s = .error e s')
    (rest : List PathName) :
    a.expandSources ps prefixes (src :: rest) st s = .error e s' := by
  show EStateM.bind (a.expandSource ps prefixes st src) _ s = _
  unfold EStateM.bind
  rw [h]

/-- As long as nothing was responded, the two runs are one; from there
they match if and only if nothing is repeated. -/
theorem matches_iff {srcs : List PathName} (hne : srcs ≠ [])
    {st : Expanding} (hst : a.Bare st) (r₁ r₂ : ResponseGroups)
    (s : AgentState) :
    Matches s
        (a.expandSources { ps with resultInDb := false } prefixes srcs
          { st with response := r₁ } s)
        (a.expandSources { ps with resultInDb := true } prefixes srcs
          { st with response := r₂ } s)
      ↔ a.Unrepeated ps srcs := by
  induction srcs generalizing st r₁ r₂ s with
  | nil => exact absurd rfl hne
  | cons src rest ih =>
      -- both runs begin with the same gathering
      have hinline : a.expandSource { ps with resultInDb := false } prefixes
            { st with response := r₁ } src s
          = match a.gatherPath ps prefixes st src s with
            | .ok (st', groups) s' =>
                .ok { st' with response := .inline groups } s'
            | .error e s' => .error e s' := by
        rw [expandSource_inline rfl, gatherPath_mode]
        rfl
      have hstored : a.expandSource { ps with resultInDb := true } prefixes
            { st with response := r₂ } src s
          = match a.gatherPath ps prefixes st src s with
            | .ok (st', groups) s' =>
                match addBlocks groups s' with
                | .ok ids s'' => .ok { st' with response := .stored ids } s''
                | .error e s'' => .error e s''
            | .error e s' => .error e s' := by
        rw [expandSource_stored rfl, gatherPath_mode]
        rfl
      have hspec : wp (a.gatherPath ps prefixes st src) _ _ s :=
        gatherPath_spec hst src s
      unfold wp at hspec
      cases hrun : a.gatherPath ps prefixes st src s with
      | error e s' =>
          rw [hrun] at hspec hinline hstored
          obtain ⟨hnot, hblocks⟩ := hspec
          rw [expandSources_cons_error hinline,
            expandSources_cons_error hstored]
          refine ⟨fun _ => ?_, fun _ => ⟨hblocks, s', rfl, hblocks⟩⟩
          cases rest with
          | nil => trivial
          | cons next rest => exact fun hexp => absurd hexp hnot
      | ok r s' =>
          rw [hrun] at hspec hinline hstored
          obtain ⟨st', groups⟩ := r
          obtain ⟨hexp, hblocks, hidle, hbusy⟩ := hspec
          obtain ⟨ids, hadd, hfst, hsnd⟩ := addBlocks_run groups s'
          dsimp only at hinline hstored
          rw [hadd] at hstored
          rw [expandSources_cons_ok hinline, expandSources_cons_ok hstored]
          have honce := storedOnce_addBlocks hfst hsnd
          cases rest with
          | nil =>
              refine ⟨fun _ => trivial, fun _ => ?_⟩
              refine ⟨hblocks, groups, ids, _, _, rfl, rfl, rfl, rfl, ?_⟩
              obtain ⟨⟨new, hnew, hperm⟩, hnamed, hsizes, hfresh, hnodup⟩ :=
                honce
              refine ⟨⟨new, ?_, hperm⟩, hnamed, hsizes, ?_, hnodup⟩
              · rw [hnew, hblocks]
              · rw [← hblocks]
                exact hfresh
          | cons next rest =>
              by_cases hid : a.Idle ps src
              · -- nothing to respond: both go on from where they were
                obtain ⟨hnil, rfl, hbare⟩ := hidle hid
                dsimp only at hnil hbare
                subst hnil
                rw [List.append_nil]
                refine (ih (List.cons_ne_nil _ _) hbare _ _ s').trans ?_
                exact ⟨fun h _ => ⟨hid, h⟩, fun h => (h hexp).2⟩
              · -- what was responded is there, and more is to come
                have hgroups := hbusy hid
                refine ⟨fun hm => absurd hm ?_,
                  fun h => absurd (h hexp).1 hid⟩
                have hrest : wp (a.expandSources
                    { ps with resultInDb := true } prefixes (next :: rest)
                    { st' with response := .stored ids }) _ _ _ :=
                  expandSources_appends rfl _ _
                    { s' with blocks := s'.blocks ++ groups }
                unfold wp at hrest
                refine not_matches_of_appended hgroups ?_ ?_
                · intro st₂ s₂ hok
                  rw [hok] at hrest
                  obtain ⟨more, hmore, _, hlast⟩ := hrest
                  obtain ⟨ids', hresp, hle⟩ := hlast (List.cons_ne_nil _ _)
                  refine ⟨more, ids', ?_, hresp, hle⟩
                  rw [hmore, hblocks]
                · intro e s₂ herr
                  rw [herr] at hrest
                  obtain ⟨more, hmore⟩ := hrest
                  exact ⟨more, by rw [hmore, hblocks]⟩

-- ========================================================= the command

variable (a)

/-- A message whose parameters decode and pass the checks. -/
structure Accepted (m : ExpandMessage) (ps : V2Params) : Prop where
  decoded : a.decodeV2 m = .ok ps
  contained : a.checkExpandParams ps.srcPaths = .ok ()
  prefixed : ∃ prefixes, a.pathPrefixes ps.srcPaths = .ok prefixes
  user : a.checkUser ps.user = .ok ()

/-- With the database a call inserts the groups of the response without
it, and names them; a call that fails inserts nothing. -/
def SameInDatabase (m : ExpandMessage) (s : AgentState) : Prop :=
  let inline := a.handleExpandAndGroupV2 { m with resultInDb := false } s
  let stored := a.handleExpandAndGroupV2 { m with resultInDb := true } s
  inline.2.blocks = s.blocks
    ∧ match inline.1 with
      | .ok total (.inline groups) => ∃ ids,
          stored.1 = .ok total (.stored ids)
            ∧ StoredOnce s stored.2 groups ids
      | .ok _ (.stored _) => False
      | .failed code e =>
          stored.1 = .failed code e ∧ stored.2.blocks = s.blocks

/-- The mode is one of the parameters. -/
theorem decodeV2_mode (m : ExpandMessage) (b : Bool) :
    a.decodeV2 { m with resultInDb := b }
      = (a.decodeV2 m).map fun ps => { ps with resultInDb := b } := by
  unfold decodeV2
  cases require (!m.srcPath.isEmpty) "empty parmeter: src_path" with
  | error e => rfl
  | ok _ =>
  cases require (!m.dstPath.isEmpty) "empty parmeter: dst_path" with
  | error e => rfl
  | ok _ =>
  cases require (m.groupSize != 0) "group_size is empty or zero" with
  | error e => rfl
  | ok _ =>
  have halg : a.decodeAlgorithm { m with resultInDb := b }
      = a.decodeAlgorithm m := rfl
  rw [halg]
  cases a.decodeAlgorithm m with
  | error e => rfl
  | ok x => rfl

/-- A message that is not accepted fails in either mode, before the loop;
one that is comes to the loop. -/
theorem expandAndGroupV2Body_cases (m : ExpandMessage) :
    (∃ e, (∀ ps, ¬ a.Accepted m ps) ∧ ∀ b s,
        a.expandAndGroupV2Body { m with resultInDb := b } s = .error e s)
      ∨ ∃ ps prefixes, a.Accepted m ps ∧ ∀ b s,
          a.expandAndGroupV2Body { m with resultInDb := b } s
            = a.expandSources { ps with resultInDb := b } prefixes
                (srcPathsSet ps.srcPaths) {} s := by
  have hbody : ∀ b s, a.expandAndGroupV2Body { m with resultInDb := b } s
      = (Command.lift ((a.decodeV2 m).map fun ps =>
            { ps with resultInDb := b }) >>= fun ps =>
          Command.lift (a.checkExpandParams ps.srcPaths) >>= fun _ =>
          Command.lift (a.pathPrefixes ps.srcPaths) >>= fun prefixes =>
          Command.lift (a.checkUser ps.user) >>= fun _ =>
          a.expandSources ps prefixes (srcPathsSet ps.srcPaths) {}) s := by
    intro b s
    unfold expandAndGroupV2Body
    rw [a.decodeV2_mode m b]
  cases hdec : a.decodeV2 m with
  | error e =>
      refine .inl ⟨e, ?_, fun b s => ?_⟩
      · intro ps hacc
        have h := hacc.decoded
        rw [hdec] at h
        cases h
      · rw [hbody, hdec]
        rfl
  | ok ps =>
  have hps : ∀ ps', a.Accepted m ps' → ps' = ps := by
    intro ps' hacc
    have h := hacc.decoded
    rw [hdec] at h
    injection h with h
    exact h.symm
  cases hcon : a.checkExpandParams ps.srcPaths with
  | error e =>
      refine .inl ⟨e, ?_, fun b s => ?_⟩
      · intro ps' hacc
        have h := hacc.contained
        rw [hps ps' hacc, hcon] at h
        cases h
      · rw [hbody, hdec]
        show (Command.lift (a.checkExpandParams ps.srcPaths) >>= _) s = _
        rw [hcon]
        rfl
  | ok _ =>
  cases hpre : a.pathPrefixes ps.srcPaths with
  | error e =>
      refine .inl ⟨e, ?_, fun b s => ?_⟩
      · intro ps' hacc
        obtain ⟨prefixes, h⟩ := hacc.prefixed
        rw [hps ps' hacc, hpre] at h
        cases h
      · rw [hbody, hdec]
        show (Command.lift (a.checkExpandParams ps.srcPaths) >>= fun _ =>
          Command.lift (a.pathPrefixes ps.srcPaths) >>= _) s = _
        rw [hcon, hpre]
        rfl
  | ok prefixes =>
  cases huser : a.checkUser ps.user with
  | error e =>
      refine .inl ⟨e, ?_, fun b s => ?_⟩
      · intro ps' hacc
        have h := hacc.user
        rw [hps ps' hacc, huser] at h
        cases h
      · rw [hbody, hdec]
        show (Command.lift (a.checkExpandParams ps.srcPaths) >>= fun _ =>
          Command.lift (a.pathPrefixes ps.srcPaths) >>= fun _ =>
          Command.lift (a.checkUser ps.user) >>= _) s = _
        rw [hcon, hpre, huser]
        rfl
  | ok _ =>
      refine .inr ⟨ps, prefixes, ⟨hdec, hcon, ⟨prefixes, hpre⟩, huser⟩,
        fun b s => ?_⟩
      rw [hbody, hdec]
      show (Command.lift (a.checkExpandParams ps.srcPaths) >>= fun _ =>
        Command.lift (a.pathPrefixes ps.srcPaths) >>= fun _ =>
        Command.lift (a.checkUser ps.user) >>= _) s = _
      rw [hcon, hpre, huser]
      rfl

/-- What the two calls answer follows the two runs. -/
theorem sameInDatabase_iff (m : ExpandMessage) (s : AgentState) :
    a.SameInDatabase m s
      ↔ Matches s (a.expandAndGroupV2Body { m with resultInDb := false } s)
          (a.expandAndGroupV2Body { m with resultInDb := true } s) := by
  unfold SameInDatabase Matches handleExpandAndGroupV2
  cases a.expandAndGroupV2Body { m with resultInDb := false } s with
  | error e s₁ =>
      refine and_congr Iff.rfl ?_
      cases a.expandAndGroupV2Body { m with resultInDb := true } s with
      | error e' s₂ =>
          constructor
          · intro h
            obtain ⟨heq, hblocks⟩ := h
            injection heq with _ heq
            have he : e' = e := String.append_right_inj _ |>.1 heq
            exact ⟨s₂, by rw [he], hblocks⟩
          · intro h
            obtain ⟨s₂', heq, hblocks⟩ := h
            injection heq with he hs
            subst he
            subst hs
            exact ⟨rfl, hblocks⟩
      | ok st s₂ =>
          constructor
          · intro h
            cases h.1
          · intro h
            obtain ⟨_, heq, _⟩ := h
            cases heq
  | ok st s₁ =>
      refine and_congr Iff.rfl ?_
      dsimp only
      cases hresp : st.response with
      | stored ids =>
          refine ⟨fun h => h.elim, fun h => ?_⟩
          obtain ⟨groups, _, _, _, hr, _⟩ := h
          cases hr
      | inline groups =>
          constructor
          · intro h
            obtain ⟨ids, hreply, honce⟩ := h
            cases hrun : a.expandAndGroupV2Body
                { m with resultInDb := true } s with
            | error e s₂ =>
                rw [hrun] at hreply
                cases hreply
            | ok st' s₂ =>
                rw [hrun] at hreply honce
                injection hreply with htotal hstored
                exact ⟨groups, ids, st', s₂, rfl, rfl, htotal, hstored, honce⟩
          · intro h
            obtain ⟨groups', ids, st', s₂, hr, hrun, htotal, hstored, honce⟩ := h
            injection hr with hr
            subst hr
            refine ⟨ids, ?_, ?_⟩
            · rw [hrun, ← htotal, ← hstored]
            · rw [hrun]
              exact honce

/-- The modes agree on a message exactly when nothing is repeated. -/
theorem result_in_db_iff (m : ExpandMessage) (s : AgentState) :
    a.SameInDatabase m s
      ↔ ∀ ps, a.Accepted m ps →
          a.Unrepeated ps (srcPathsSet ps.srcPaths) := by
  rw [a.sameInDatabase_iff]
  rcases a.expandAndGroupV2Body_cases m with ⟨e, hnot, hrun⟩ | ⟨ps, prefixes,
    hacc, hrun⟩
  · rw [hrun, hrun]
    exact ⟨fun _ ps hacc => absurd hacc (hnot ps),
      fun _ => ⟨rfl, s, rfl, rfl⟩⟩
  · have hne : srcPathsSet ps.srcPaths ≠ [] := by
      intro hnil
      have hdec := hacc.decoded
      unfold decodeV2 at hdec
      obtain ⟨_, hreq, _⟩ := bind_eq_ok.1 hdec
      have hsrc := (a.decodeV2_srcPaths hacc.decoded).1
      cases hpaths : m.srcPath with
      | nil =>
          rw [hpaths] at hreq
          cases hreq
      | cons p paths =>
          have hmem : p ∈ srcPathsSet ps.srcPaths := by
            rw [mem_srcPathsSet, hsrc, hpaths]
            exact List.mem_cons_self ..
          rw [hnil] at hmem
          cases hmem
    rw [hrun, hrun]
    refine (matches_iff hne (Bare.init a) (.inline []) (.inline [])
      s).trans ?_
    constructor
    · intro h ps' hacc'
      have heq : ps' = ps := by
        have h := hacc'.decoded
        rw [hacc.decoded] at h
        injection h with h
        exact h.symm
      exact heq ▸ h
    · exact fun h => h ps hacc

-- ================================================= two source paths

/-- The files `/a` and `/b`, and the file `/c` that cannot be opened. -/
def threePaths : FileSystem where
  lstat s :=
    if s = ['/', 'a'] then .file 2
    else if s = ['/', 'b'] then .file 3
    else if s = ['/', 'c'] then .file 4
    else .missing
  realpath s :=
    if s = ['/', 'a'] then .ok [letter 'a']
    else if s = ['/', 'b'] then .ok [letter 'b']
    else if s = ['/', 'c'] then .ok [letter 'c']
    else if s = ['/'] then .ok []
    else .error "No such file or directory"
  nftw s :=
    if s = ['/'] then .ok [2, 3, 4]
    else .error "No such file or directory"
  read s :=
    if s = ['/', 'a'] then .ok [7, 7]
    else if s = ['/', 'b'] then .ok [8, 8, 8]
    else .error .opening

/-- Expand `/a` and another path to below `/e`, with checksums. -/
def expandWith (c : Char) : ExpandMessage where
  srcPath := [['/', 'a'], ['/', c]]
  dstPath := ['/', 'e']
  groupSize := 10
  compute := true

/-- The number of groups of a response. -/
def groupCount : ExpandReply → Option Nat
  | .ok _ (.inline groups) => some groups.length
  | .ok _ (.stored ids) => some ids.length
  | .failed .. => none

/-- Of `/a` and `/b` there are two groups, and three blocks: that of `/a`
is stored twice. Of `/a` and `/c` there is an error, and a block. -/
theorem groups_stored_twice :
    let a := plain threePaths [['/']]
    let stored c := a.handleExpandAndGroupV2
      { expandWith c with resultInDb := true } {}
    (groupCount (stored 'b').1 = some 2
        ∧ (stored 'b').2.blocks.length = 3
        ∧ ¬ a.SameInDatabase (expandWith 'b') {})
      ∧ (groupCount (stored 'c').1 = none
        ∧ (stored 'c').2.blocks.length = 1
        ∧ ¬ a.SameInDatabase (expandWith 'c') {}) := by
  intro a stored
  have hb : groupCount (stored 'b').1 = some 2
      ∧ (stored 'b').2.blocks.length = 3 := by decide +kernel
  have hc : groupCount (stored 'c').1 = none
      ∧ (stored 'c').2.blocks.length = 1 := by decide +kernel
  have hinline : groupCount (a.handleExpandAndGroupV2
      { expandWith 'b' with resultInDb := false } {}).1 = some 2 := by
    decide +kernel
  have hfailed : groupCount (a.handleExpandAndGroupV2
      { expandWith 'c' with resultInDb := false } {}).1 = none := by
    decide +kernel
  refine ⟨⟨hb.1, hb.2, fun h => ?_⟩, hc.1, hc.2, fun h => ?_⟩
  · have hmatch := h.2
    split at hmatch
    · rename_i groups heq
      obtain ⟨ids, _, honce⟩ := hmatch
      obtain ⟨new, hnew, hperm⟩ := honce.inserted
      rw [heq] at hinline
      have htwo : groups.length = 2 := Option.some.inj hinline
      have hlen := congrArg List.length hnew
      have hthree := hb.2
      rw [show (stored 'b').2.blocks.length = _ from hlen,
        List.length_append, hperm.length_eq, htwo] at hthree
      cases hthree
    · exact hmatch
    · rename_i heq
      rw [heq] at hinline
      cases hinline
  · have hmatch := h.2
    split at hmatch
    · rename_i heq
      rw [heq] at hfailed
      cases hfailed
    · exact hmatch
    · have hone := hc.2
      rw [show (stored 'c').2.blocks = [] from hmatch.2] at hone
      cases hone

end DTNAgent

end BigDataExpress
