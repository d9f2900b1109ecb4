/-
Which entries of a block are verified.

A group of a response should list one checksum for each of its entries,
so that the destination compares every one of them before a block is
accepted. The loop over the paths of a group assigns the list of the
current path to the group, and the lists of the paths before it are
gone. So a group lists all of its checksums exactly when it has one entry
(`allListed_iff`), and a directory's is listed under the right path when
the name it was given ends like its real one.
-/
import BigDataExpress.Proofs.Groups
import BigDataExpress.Proofs.Paths
import BigDataExpress.Server.Atomic

namespace BigDataExpress

open Stateful

-- ======================================================= joining bases

/-- A base name: what `baseName` returns. -/
def IsBase (b : PathName) : Prop := b = ['/'] ∨ (b ≠ [] ∧ '/' ∉ b)

/-- One slash at the end is trimmed. -/
theorem trimBack_slash {s : PathName} (hne : s ≠ [])
    (h : s.getLast? ≠ some '/') : trimBack (s ++ ['/']) = s := by
  unfold trimBack
  rw [List.reverse_append, List.reverse_singleton, List.singleton_append]
  obtain ⟨c, r, hr⟩ :=
    List.exists_cons_of_ne_nil (List.reverse_ne_nil_iff.mpr hne)
  have hstep : trimFront ('/' :: s.reverse) = trimFront s.reverse := by
    rw [hr]
    rfl
  rw [hstep]
  exact trimBack_of_last h

theorem trim_base {b : PathName} (h : IsBase b) :
    trimBack (trimFront b) = b := by
  rcases h with rfl | ⟨-, hb⟩
  · rfl
  · rw [trimFront_of_not_mem hb]
    apply trimBack_of_last
    intro hl
    exact hb (List.mem_of_getLast? hl)

theorem IsBase.ne_nil {b : PathName} (h : IsBase b) : b ≠ [] := by
  rcases h with rfl | ⟨hb, -⟩
  · decide
  · exact hb

/-- A base name joined to a name: of a name that trims to something
other than a slash. -/
theorem joinPaths_base {a d b : PathName} (ha : a ≠ [])
    (hd : trimBack a = d) (hslash : d ≠ ['/']) (hb : IsBase b) :
    joinPaths a b = if b = ['/'] then d else d ++ '/' :: b := by
  unfold joinPaths
  rw [if_neg ha, if_neg hb.ne_nil]
  dsimp only
  rw [trim_base hb, hd, if_neg hslash]

/-- The name a directory's checksum is listed under is the one its entry
leads to, when the base names agree, and the destination is not the
root. -/
theorem joinPaths_withSlash {dst b c : PathName}
    (hdst : dst.getLast? ≠ some '/') (hb : IsBase b) (hc : IsBase c) :
    joinPaths dst b = joinPaths (withSlash dst) c
      ↔ b = c ∧ (dst ≠ [] ∨ b = ['/']) := by
  have hws : withSlash dst = dst ++ ['/'] := by
    unfold withSlash
    rw [if_neg hdst]
  rw [hws]
  by_cases hnil : dst = []
  · subst hnil
    have hleft : joinPaths [] b = b := rfl
    have hright : joinPaths ([] ++ ['/']) c
        = if c = ['/'] then ['/'] else '/' :: c := by
      unfold joinPaths
      rw [List.nil_append, if_neg (by decide), if_neg hc.ne_nil]
      dsimp only
      rw [trim_base hc]
      rfl
    rw [hleft, hright]
    constructor
    · intro h
      have hbs : b = ['/'] := by
        rcases hb with hb | ⟨-, hb⟩
        · exact hb
        · exfalso
          apply hb
          rw [h]
          split
          · exact List.mem_singleton_self _
          · exact List.mem_cons_self ..
      rw [hbs] at h ⊢
      split at h
      · rename_i hcs
        exact ⟨hcs.symm, .inr rfl⟩
      · injection h with _ h
        exact absurd h.symm hc.ne_nil
    · intro h
      obtain ⟨rfl, h | rfl⟩ := h
      · exact absurd rfl h
      · rw [if_pos rfl]
  · have hslash : dst ≠ ['/'] := by
      rintro rfl
      exact hdst rfl
    rw [joinPaths_base hnil (trimBack_of_last hdst) hslash hb,
      joinPaths_base (by simp) (trimBack_slash hnil hdst) hslash hc]
    have hlen : ∀ x : PathName, dst ≠ dst ++ '/' :: x := by
      intro x h
      have := congrArg List.length h
      simp at this
    constructor
    · intro h
      refine ⟨?_, .inl hnil⟩
      split at h
      · rename_i hbs
        split at h
        · rename_i hcs
          rw [hbs, hcs]
        · exact absurd h (hlen c)
      · split at h
        · exact absurd h.symm (hlen b)
        · have := List.append_cancel_left h
          injection this
    · intro h
      rw [h.1]

-- =========================================================== the listing

/-- Where an entry leads: a file to its destination, a directory to the
place of its base name below it. -/
def Entry.destination (e : Entry) : PathName :=
  if e.path.isDirectory then joinPaths e.dst (baseName e.src) ++ ['/']
  else e.dst

/-- The checksums a group lists. -/
def FileGroup.listed (fg : FileGroup) : List (PathName × String) :=
  match fg.checksum with
  | some c => c.checksums
  | none => []

/-- The algorithm a group names. -/
def FileGroup.algorithm (fg : FileGroup) : String :=
  match fg.checksum with
  | some c => c.algorithm
  | none => ""

namespace DTNAgent

variable (a : DTNAgent)

/-- The group lists one checksum for each entry: its destination, and
the digest of its source. -/
def AllListed (fg : FileGroup) : Prop :=
  (fg.listed.map fun x => (x.1, Except.ok x.2)).Perm
    (fg.files.map fun e =>
      (e.destination, a.sourceDigest (a.digestByName fg.algorithm) e))

/-- The checksum of what a path names, however it is computed. -/
def localDigest (algorithm : String) (path : PathName) :
    Except String String :=
  let p := Path.ofName a.fs path
  if p.isDirectory then
    match a.digestByName algorithm with
    | some md => a.sequentialDirectoryChecksum p md
    | none => .error ("Unknown message digest algorithm: " ++ algorithm)
  else a.checksumNamed path algorithm

/-- The verification of a block at the destination is accepted. -/
def Accepts (b : DTNAgent) (t : TaskCounter) (fg : FileGroup) : Prop :=
  VerifyAnswer.accepts ⟨200, some (b.handleVerifyChecksums fg.algorithm
    fg.listed t).code⟩ = true

/-- The algorithm the verification uses. -/
def verifyAlgorithm (algorithm : String) : String :=
  if algorithm = "" then "sha1" else algorithm

/-- Every entry was compared: the destination's checksum of the place it
leads to is the digest of its source. -/
def AllCompared (b : DTNAgent) (fg : FileGroup) : Prop :=
  ∀ e ∈ fg.files, ∃ c,
    a.sourceDigest (a.digestByName fg.algorithm) e = .ok c
      ∧ b.localDigest (verifyAlgorithm fg.algorithm) e.destination = .ok c

/-- What a directory's name has to be for its checksum to be listed
under the place its entry leads to. -/
def Spelled (dst : PathName) (p : Path) : Prop :=
  ∀ src, p.canonicalName = .ok src → baseName p.name = baseName src
    ∧ (stripSlashes dst ≠ [] ∨ baseName p.name = ['/'])

variable {a} {ps : V2Params} {prefixes : List PathName} {g : PathGroup}
  {fg : FileGroup}

/-- A checksum is listed under the place its entry leads to, of a file
always. -/
theorem listedPath_eq {p : Path} {e : Entry}
    (he : EntryOf ps prefixes p e)
    (hdst : ps.dstPath.getLast? ≠ some '/') :
    listedPath ps e = e.destination
      ↔ (p.isDirectory = true → ∀ src, p.canonicalName = .ok src →
          baseName p.name = baseName src
            ∧ (ps.dstPath ≠ [] ∨ baseName p.name = ['/'])) := by
  obtain ⟨hpath, hsrc, hd⟩ := he
  unfold listedPath Entry.destination
  rw [hpath]
  by_cases hp : p.isDirectory = true
  · rw [if_pos hp, if_pos hp, List.append_cancel_right_eq]
    rw [if_pos hp] at hd
    rw [hd, joinPaths_withSlash hdst (baseName_cases _) (baseName_cases _)]
    constructor
    · intro h _ src hs
      rw [hsrc] at hs
      injection hs with hs
      exact hs ▸ h
    · intro h
      exact h hp e.src hsrc
  · rw [if_neg hp, if_neg hp]
    exact ⟨fun _ h => absurd h hp, fun _ => rfl⟩

/-- A group lists all of its checksums when it has one entry, and only
then. -/
theorem allListed_iff (hm : a.Made ps prefixes g fg)
    (hc : ps.compute = true) (hmd : ps.md = a.digestByName ps.algorithm)
    (hdst : ps.dstPath.getLast? ≠ some '/') :
    a.AllListed fg ↔ g.count ≤ 1 ∧ ∀ p ∈ g.paths, p.isDirectory = true →
      ∀ src, p.canonicalName = .ok src → baseName p.name = baseName src
        ∧ (ps.dstPath ≠ [] ∨ baseName p.name = ['/']) := by
  obtain ⟨hentries, -, hlast, hnone⟩ := hm
  unfold AllListed FileGroup.listed FileGroup.algorithm PathGroup.count
  generalize g.paths = paths at hentries
  generalize fg.files = files at hentries hlast hnone
  cases hentries with
  | nil =>
      rw [hnone rfl]
      constructor
      · exact fun _ => ⟨Nat.zero_le _, fun p hp => absurd hp List.not_mem_nil⟩
      · exact fun _ => List.Perm.refl _
  | @cons p e paths files he hrest =>
      obtain ⟨last, hl⟩ : ∃ last, (e :: files).getLast? = some last :=
        ⟨_, List.getLast?_eq_some_getLast (List.cons_ne_nil e files)⟩
      obtain ⟨sums, hchk, c, hsums, hdig⟩ := hlast hc last hl
      rw [hchk]
      cases hrest with
      | nil =>
          have hlast' : e = last := Option.some.inj hl
          subst hlast'
          simp only [hsums, List.map_cons, List.map_nil, ← hmd, hdig]
          rw [List.perm_singleton, List.cons_eq_cons, Prod.mk.injEq]
          simp only [and_true, List.length_singleton, Nat.le_refl, true_and,
            List.mem_singleton, forall_eq]
          exact listedPath_eq he hdst
      | cons he' hrest' =>
          constructor
          · intro hperm
            have hlen := hperm.length_eq
            rw [hsums] at hlen
            simp at hlen
          · intro h
            have hlen := h.1
            simp at hlen

/-- The destination compared every checksum it was sent. -/
theorem compareChecksums_spec (b : DTNAgent) (algorithm : String)
    (sums : List (PathName × String)) (t : TaskCounter) :
    wp (b.compareChecksums algorithm sums)
      (fun r _ => r = none →
        ∀ x ∈ sums, b.localDigest algorithm x.1 = .ok x.2)
      (fun _ => True) t := by
  induction sums generalizing t with
  | nil => exact fun _ x hx => absurd hx List.not_mem_nil
  | cons y sums ih =>
      obtain ⟨path, claimed⟩ := y
      unfold compareChecksums
      rw [wp_bind, Hashing.wp_lift]
      intro _ _
      rw [wp_bind, Hashing.wp_lift]
      intro _ _
      rw [wp_bind]
      have hlocal : wp (b.localChecksum algorithm path)
          (fun c _ => b.localDigest algorithm path = .ok c)
          (fun _ => True) t := by
        unfold localChecksum localDigest
        dsimp only
        split
        · rename_i hp
          unfold Hashing.dirChecksumNamed
          cases hmd : b.digestByName algorithm with
          | none => exact trivial
          | some md =>
              unfold Hashing.dirChecksumOfChecksums
              simp only [hp, Bool.not_true, Bool.false_eq_true, if_false]
              exact b.parallel_eq_sequential md _ _ t
        · rw [Hashing.wp_lift]
          exact fun c hc => hc
      refine hlocal.mono ?_ fun _ _ => trivial
      intro c t' hc
      split
      · intro h
        cases h
      · rename_i heq
        have heq : claimed = c := not_not.mp heq
        refine (ih t').mono ?_ fun _ _ => trivial
        intro r _ hr hnone x hx
        rcases List.mem_cons.mp hx with rfl | hx
        · rw [hc, heq]
        · exact hr hnone x hx

/-- A block that lists every checksum and is accepted had every entry
compared. -/
theorem AllListed.compared (h : a.AllListed fg) {b : DTNAgent}
    {t : TaskCounter} (hb : b.Accepts t fg) : a.AllCompared b fg := by
  have hall : ∀ x ∈ fg.listed,
      b.localDigest (verifyAlgorithm fg.algorithm) x.1 = .ok x.2 := by
    have hspec := b.compareChecksums_spec (verifyAlgorithm fg.algorithm)
      fg.listed t
    unfold Accepts VerifyAnswer.accepts handleVerifyChecksums at hb
    dsimp only at hb
    split at hb
    · exact absurd hb (by decide)
    · split at hb
      · rename_i hrun
        exact hspec.ok hrun rfl
      · simp at hb
      · simp at hb
  intro e he
  have hmem := h.mem_iff.mpr (List.mem_map_of_mem he)
  obtain ⟨x, hx, heq⟩ := List.mem_map.mp hmem
  injection heq with h1 h2
  refine ⟨x.2, h2.symm, ?_⟩
  rw [← h1]
  exact hall x hx

theorem decodeV2_md {m : ExpandMessage} {ps : V2Params}
    (h : a.decodeV2 m = .ok ps) :
    ps.md = a.digestByName ps.algorithm := by
  unfold decodeV2 at h
  obtain ⟨_, -, h⟩ := bind_eq_ok.mp h
  obtain ⟨_, -, h⟩ := bind_eq_ok.mp h
  obtain ⟨_, -, h⟩ := bind_eq_ok.mp h
  obtain ⟨r, hr, h⟩ := bind_eq_ok.mp h
  injection h with h
  subst h
  show r.2 = a.digestByName r.1
  unfold decodeAlgorithm at hr
  split at hr
  · split at hr
    · rename_i hmd
      injection hr with hr
      rw [← hr, hmd]
    · cases hr
  · injection hr with hr
    rw [← hr]

/-- Every entry of every block is verified, if and only if no source
path is divided into a group of two or more, and directories are named
by their own names. -/
theorem every_entry_verified (a : DTNAgent) (m : ExpandMessage)
    (s s' : AgentState) (total : UInt64) (r : ResponseGroups)
    (hcompute : m.compute = true)
    (h : a.handleExpandAndGroupV2 m s = (.ok total r, s')) :
    (∀ fg ∈ dataGroups s' r, a.AllListed fg ∧
        ∀ (b : DTNAgent) (t : TaskCounter), b.Accepts t fg →
          a.AllCompared b fg)
      ↔ ∀ src ∈ m.srcPath, ∀ results,
          divide a.fs (Path.ofName a.fs src) m.groupSize m.maxFiles
            = .ok results →
          ∀ g ∈ results.groups, g.count ≤ 1 ∧
            ∀ p ∈ g.paths, p.isDirectory = true → Spelled m.dstPath p := by
  obtain ⟨ps, prefixes, hps, -, hexp⟩ := a.handleExpandAndGroupV2_ok h
  obtain ⟨-, hdst, hsize, hfiles, hcmp⟩ := a.decodeV2_srcPaths hps
  have hlast : ps.dstPath.getLast? ≠ some '/' :=
    hdst ▸ stripSlashes_last m.dstPath
  have hc : ps.compute = true := hcmp.trans hcompute
  have hiff : ∀ {g fg}, a.Made ps prefixes g fg →
      (a.AllListed fg ↔ g.count ≤ 1 ∧
        ∀ p ∈ g.paths, p.isDirectory = true → Spelled m.dstPath p) := by
    intro g fg hm
    have := allListed_iff hm hc (decodeV2_md hps) hlast
    rwa [hdst] at this
  constructor
  · intro hall src hsrc results hres g hg
    obtain ⟨r', hr', hmade⟩ := hexp.all src (mem_srcPathsSet.mpr hsrc)
    unfold division at hr'
    rw [hsize, hfiles, hres] at hr'
    injection hr' with hr'
    obtain ⟨fg, hfg, hm⟩ := hmade g (hr' ▸ hg)
    exact (hiff hm).mp (hall fg hfg).1
  · intro hcond fg hfg
    obtain ⟨src, hsrc, r', hr', g, hg, hm⟩ := hexp.made fg hfg
    unfold division at hr'
    rw [hsize, hfiles] at hr'
    have hlist := (hiff hm).mpr
      (hcond src (mem_srcPathsSet.mp hsrc) r' hr' g hg)
    exact ⟨hlist, fun b t hb => hlist.compared hb⟩

-- ==================================================== two files, split

/-- The directory `/d` with the files `x` and `y`. -/
def twoFiles : FileSystem where
  lstat s :=
    if s = ['/', 'd'] then
      .dir (.file (letter 'x') 2
        (.file (letter 'y') 3 .done))
    else .missing
  realpath s :=
    if s = ['/', 'd'] then .ok [letter 'd']
    else .error "No such file or directory"
  nftw s :=
    if s = ['/', 'd'] then .ok [2, 3]
    else .error "No such file or directory"
  read s :=
    if s = ['/', 'd', '/', 'x'] then .ok [7, 7]
    else if s = ['/', 'd', '/', 'y'] then .ok [8, 8, 8]
    else .error .opening

/-- Expand `/d` to below `/e`, with checksums. -/
def expandTwo (groupSize : UInt64) : ExpandMessage where
  srcPath := [['/', 'd']]
  dstPath := ['/', 'e']
  groupSize := groupSize
  compute := true

/-- Some group lists fewer or more checksums than it has entries. -/
def countsDiffer (x : ExpandReply × AgentState) : Bool :=
  match x with
  | (.ok _ r, s) => (dataGroups s r).any fun fg =>
      fg.listed.length != fg.files.length
  | (.failed .., _) => false

/-- Divided into blocks of 4, the first block has the directory and `x`,
and lists the checksum of `x` only. -/
theorem checksum_lost :
    ¬ ∀ total r s', (plain twoFiles [['/', 'd']]).handleExpandAndGroupV2
        (expandTwo 4) {} = (.ok total r, s') →
      ∀ fg ∈ dataGroups s' r,
        (plain twoFiles [['/', 'd']]).AllListed fg := by
  intro h
  have hrun : countsDiffer ((plain twoFiles [['/', 'd']]).handleExpandAndGroupV2
      (expandTwo 4) {}) = true := by decide +kernel
  cases hx : (plain twoFiles [['/', 'd']]).handleExpandAndGroupV2
      (expandTwo 4) {} with
  | mk reply s' =>
      rw [hx] at hrun
      cases reply with
      | failed c e => cases hrun
      | ok total r =>
          obtain ⟨fg, hfg, hlen⟩ := List.any_eq_true.mp hrun
          have hperm := (h total r s' hx fg hfg).length_eq
          simp only [List.length_map] at hperm
          simp [hperm] at hlen

/-- In one block, the directory's checksum is the one listed. -/
theorem every_entry_verified_whole :
    ∃ total r s', (plain twoFiles [['/', 'd']]).handleExpandAndGroupV2
        (expandTwo 40) {} = (.ok total r, s') ∧
      ∀ fg ∈ dataGroups s' r,
        (plain twoFiles [['/', 'd']]).AllListed fg := by
  have hrun : ∃ total r s',
      (plain twoFiles [['/', 'd']]).handleExpandAndGroupV2
        (expandTwo 40) {} = (.ok total r, s') := ⟨_, _, _, rfl⟩
  obtain ⟨total, r, s', hx⟩ := hrun
  refine ⟨total, r, s', hx, ?_⟩
  intro fg hfg
  refine ((every_entry_verified (plain twoFiles [['/', 'd']])
    (expandTwo 40) {} s' total r rfl hx).mpr ?_ fg hfg).1
  intro src hsrc results hres g hg
  have hsrc : src = ['/', 'd'] := List.mem_singleton.mp hsrc
  subst hsrc
  injection hres with hres
  subst hres
  have hg : g = ({} : PathGroup).add (Path.ofName twoFiles ['/', 'd']) 5 :=
    List.mem_singleton.mp hg
  subst hg
  refine ⟨by decide, ?_⟩
  intro p hp _ src hsrc
  have hp : p = Path.ofName twoFiles ['/', 'd'] := List.mem_singleton.mp hp
  subst hp
  injection hsrc with hsrc
  subst hsrc
  decide

end DTNAgent

end BigDataExpress
