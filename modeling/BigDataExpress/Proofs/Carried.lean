/-
The size of an sjob and the bytes it has counted.

An agent answers an expansion with a total and with groups. The scheduler
takes the total for the size of the source storage, and makes a block of
every group, with the size of the group (scheduler.cc,
`parse_raw_job_src`). A block that is finished has counted its size, and
an sjob has counted what its blocks have. So the bytes of an sjob that
has finished all its blocks are those of the groups, whatever the total
was: they are the size exactly when the total of the response is the sum
of the sizes of its groups.
-/
import BigDataExpress.Agent.Response
import BigDataExpress.Proofs.Accounting
import BigDataExpress.Proofs.Dataset
import BigDataExpress.Proofs.Parsed
import BigDataExpress.Proofs.Totals

namespace BigDataExpress

open Stateful

-- ===================================================== the two documents

/-- The size of a block, as the scheduler reads it. -/
def blockBytes (b : Json) : Except String Int := do
  let size ← b.get "size"
  size.asInt64

/-- The blocks of the sjob have the sizes of these. -/
def Sjob.Sized (x : Sjob) (blocks : List Json) : Prop :=
  List.Forall₂ (fun b k => blockBytes b = .ok k.size) blocks x.blocks

/-- The next portal that is asked gives this answer, and with it a source
storage becomes the part. -/
def Intake.Expands (s : Intake) (answer : Json) (p : Part String) : Prop :=
  s.mail.outcomes s.mail.posts.length = (200, answer)
    ∧ ∃ pr siteInfo dstPath time src s',
      (expandStorage pr siteInfo dstPath time src).run s = .ok (.ok p) s'

-- ==================================================== groups and blocks

/-- The size of a group, as it is sent. -/
def FileGroup.sentSize (g : FileGroup) : Json :=
  (g.size.map fun n => Json.int n.toNat).getD .null

theorem Json.assignAll_append (fields l m : List (String × Json)) :
    assignAll fields (l ++ m) = assignAll (assignAll fields l) m := by
  induction l generalizing fields with
  | nil => rfl
  | cons kv l ih => exact ih _

/-- Assignments under other keys. -/
theorem Json.lookup_assignAll_of_ne {key : String}
    {kvs : List (String × Json)} (h : ∀ kv ∈ kvs, kv.1 ≠ key)
    (fields : List (String × Json)) :
    lookup key (assignAll fields kvs) = lookup key fields := by
  induction kvs generalizing fields with
  | nil => rfl
  | cons kv kvs ih =>
      show lookup key (assignAll (assign kv.1 kv.2 fields) kvs) = _
      rw [ih fun kv hkv => h kv (List.mem_cons_of_mem _ hkv), lookup_assign,
        if_neg (h kv (List.mem_cons_self ..))]

theorem FileGroup.toJson_size (g : FileGroup) :
    ∃ fields, g.toJson = .obj fields
      ∧ (Json.lookup "size" fields).getD .null = g.sentSize := by
  refine ⟨_, Json.object_eq _, ?_⟩
  have hfiles : ∀ kv ∈ (if g.files = [] then []
      else [("files", Json.arr (g.files.map Entry.toJson))]),
      kv.1 ≠ "size" := by
    intro kv hkv
    split at hkv
    · cases hkv
    · rw [List.mem_singleton.mp hkv]
      show "files" ≠ "size"
      decide
  have hchecksum : ∀ kv ∈ (g.checksum.map fun c =>
      ("checksum", c.toJson)).toList, kv.1 ≠ "size" := by
    intro kv hkv
    obtain ⟨c, -, rfl⟩ := Option.map_eq_some_iff.mp (Option.mem_toList.mp hkv)
    show "checksum" ≠ "size"
    decide
  have hfolders : ∀ kv ∈ (if g.parentFolderList then
      [("parent_folder_list", Json.bool true)] else []),
      kv.1 ≠ "size" := by
    intro kv hkv
    split at hkv
    · rw [List.mem_singleton.mp hkv]
      decide
    · cases hkv
  rw [Json.assignAll_append, Json.lookup_assignAll_of_ne hfolders,
    Json.assignAll_append]
  unfold sentSize
  cases g.size with
  | none =>
      show (Json.lookup "size" (Json.assignAll [] _)).getD .null = _
      rw [Json.assignAll_append, Json.lookup_assignAll_of_ne hchecksum,
        Json.lookup_assignAll_of_ne hfiles]
      rfl
  | some n =>
      show (Json.lookup "size" (Json.assign "size" _ _)).getD .null = _
      rw [Json.lookup_assign, if_pos rfl]
      rfl

/-- What is stored of a group has its size. -/
theorem groupDoc_size {g : FileGroup} {fields : List (String × Json)}
    (h : groupDoc g.toJson = .ok fields) :
    (Json.lookup "size" fields).getD .null = g.sentSize := by
  obtain ⟨sent, hsent, hsize⟩ := g.toJson_size
  rw [hsent] at h
  unfold groupDoc at h
  obtain ⟨folders, -, h⟩ := bind_eq_ok.mp h
  obtain ⟨members, hmembers, h⟩ := bind_eq_ok.mp h
  injection hmembers with hmembers
  subst hmembers
  rw [← hsize]
  split at h
  · injection h with h
    rw [← h, Json.lookup_assign, if_neg (by decide)]
  · injection h with h
    rw [← h, Json.lookup_assign, if_neg (by decide), Json.lookup_assign,
      if_neg (by decide)]

theorem blockMeta_size (id : ObjectId) (size : Json) (files : Nat) :
    (blockMeta id size files).get "size" = .ok size := by
  simp [blockMeta, Json.object_eq, Json.assignAll, Json.lookup_assign]

/-- The blocks have the sizes of the groups. -/
theorem insertGroups_sized (groups : List FileGroup) (s : Intake) :
    wp (insertGroups (groups.map FileGroup.toJson))
      (fun r _ => List.Forall₂ (fun g b => b.get "size" = .ok g.sentSize)
        groups r.1)
      (fun _ => True) s := by
  induction groups generalizing s with
  | nil => exact .nil
  | cons g groups ih =>
      rw [List.map_cons]
      unfold insertGroups Boot.read
      simp only [wp_bind, wp_ofExcept]
      refine ⟨fun fields hfields => ?_, fun _ _ => trivial⟩
      rw [wp_insertBlock]
      refine (ih _).mono ?_ fun _ _ => trivial
      intro r _ hr
      refine .cons ?_ hr
      rw [blockMeta_size, groupDoc_size hfields]

theorem appended_items (l : List Json) : (appended l).items = l := by
  cases l <;> rfl

theorem asUInt64_toNat (n : UInt64) :
    (Json.int n.toNat).asUInt64 = .ok n.toNat := by
  have hlt : (n.toNat : Int) < 18446744073709551616 := by
    have := n.toNat_lt
    omega
  simp [Json.asUInt64, hlt, pure, Except.pure]

/-- The members of a response. -/
theorem expandResponse_reads (total : UInt64) (groups : List FileGroup) :
    textOf (expandResponse total groups) "error" = .ok "OK"
      ∧ codeOf (expandResponse total groups) = .ok 0
      ∧ (∃ v, (expandResponse total groups).get "total_size" = .ok v
        ∧ v.asUInt64 = .ok total.toNat)
      ∧ ∃ v, (expandResponse total groups).get "files" = .ok v
        ∧ v.get "groups" = .ok (appended (groups.map FileGroup.toJson)) := by
  refine ⟨?_, ?_, ⟨.int total.toNat, ?_, asUInt64_toNat total⟩,
    ⟨.object [("groups", appended (groups.map FileGroup.toJson))], ?_, ?_⟩⟩
    <;> simp [textOf, codeOf, expandResponse, jsonResponse, Json.object_eq,
      Json.assignAll, Json.lookup_assign, Json.asString, Json.asInt,
      Json.isInt, bind, Except.bind, pure, Except.pure]

/-- What is read off a response. -/
theorem readExpansion_response {total : UInt64} {groups : List FileGroup}
    {time : Int} {r : Int × Json} (hhttp : r.1 = 200)
    (hr : r.2 = expandResponse total groups) {x : Expansion}
    (h : readExpansion time r = .ok (.ok x)) :
    x.size = total.toNat ∧ x.groups = groups.map FileGroup.toJson := by
  obtain ⟨herror, hcode, ⟨size, htotal, hsize⟩, files, hfiles, hgroups⟩ :=
    expandResponse_reads total groups
  rw [← hr] at herror hcode htotal hfiles
  cases hrate : baseRate total.toNat time with
  | error e =>
      have hthrow : readExpansion time r = .error e := by
        unfold readExpansion
        rw [if_neg (not_not.2 hhttp)]
        simp [herror, hcode, htotal, hsize, hrate, bind, Except.bind, pure,
          Except.pure]
      rw [hthrow] at h
      cases h
  | ok rate =>
      have hread : readExpansion time r = .ok (.ok ⟨total.toNat, rate,
          (appended (groups.map FileGroup.toJson)).items⟩) := by
        unfold readExpansion
        rw [if_neg (not_not.2 hhttp)]
        simp [herror, hcode, htotal, hsize, hrate, hfiles, hgroups, bind,
          Except.bind, pure, Except.pure]
      rw [hread] at h
      injection h with h
      injection h with h
      rw [← h]
      exact ⟨rfl, appended_items _⟩

/-- The part has the total for its size, and the groups for its
blocks. -/
theorem Intake.Expands.sized {s : Intake} {p : Part String}
    {total : UInt64} {groups : List FileGroup}
    (h : s.Expands (expandResponse total groups) p) :
    p.size = total.toNat
      ∧ List.Forall₂ (fun g b => b.get "size" = .ok g.sentSize) groups
        p.blocks := by
  obtain ⟨hanswer, pr, siteInfo, dstPath, time, src, s', hrun⟩ := h
  have hsized : tri (expandStorage pr siteInfo dstPath time src)
      (fun p _ => p.size = total.toNat
        ∧ List.Forall₂ (fun g b => b.get "size" = .ok g.sentSize) groups
          p.blocks)
      (fun _ _ => True) (fun _ => True) s := by
    unfold expandStorage Parse.read Parse.ask Inquiry.post
    simp only [tri_bind, tri_perform, tri_zoom, wp_ofExcept]
    refine ⟨fun url _ => ?_, fun _ _ => trivial⟩
    change _ ∧ _
    refine ⟨fun r hr => ?_, fun _ _ => trivial⟩
    cases r with
    | error e => trivial
    | ok x =>
        obtain ⟨hsize, hgroups⟩ := readExpansion_response
          (congrArg Prod.fst hanswer) (congrArg Prod.snd hanswer) hr
        dsimp only
        rw [tri_bind, tri_perform, hgroups]
        refine (insertGroups_sized groups _).mono ?_ fun _ _ => trivial
        intro r _ hblocks
        exact ⟨hsize, hblocks⟩
  exact hsized.ok hrun

-- ============================================================ the bytes

/-- A size that can be read is that of the group. -/
theorem FileGroup.asInt64_sentSize {g : FileGroup} {n : Int}
    (h : g.sentSize.asInt64 = .ok n) : n = (g.size.getD 0).toNat := by
  unfold sentSize at h
  cases hsize : g.size with
  | none =>
      rw [hsize] at h
      injection h with h
      exact h.symm
  | some m =>
      rw [hsize] at h
      simp only [Option.map_some, Option.getD_some, Json.asInt64] at h
      split at h
      · injection h with h
        exact h.symm
      · cases h

/-- The blocks of an sjob that was made of the groups have their
sizes. -/
theorem Sjob.Sized.sizes {x : Sjob} {blocks : List Json}
    {groups : List FileGroup} (h : x.Sized blocks)
    (hb : List.Forall₂ (fun g b => b.get "size" = .ok g.sentSize) groups
      blocks) :
    x.blocks.map (·.size)
      = groups.map fun g => ((g.size.getD 0).toNat : Int) := by
  unfold Sized at h
  generalize x.blocks = ks at h
  induction hb generalizing ks with
  | nil =>
      cases h
      rfl
  | @cons g b groups blocks hg _ ih =>
      cases h with
      | @cons _ k _ ks hk h =>
          unfold blockBytes at hk
          rw [hg] at hk
          rw [List.map_cons, List.map_cons, ih ks h,
            FileGroup.asInt64_sentSize hk]

/-- A sum in 64 bits. -/
theorem toNat_sumSizes_mod (l : List UInt64) :
    ((sumSizes l).toNat : Int)
      = (l.map fun n => (n.toNat : Int)).sum % 2 ^ 64 := by
  induction l with
  | nil => simp [sumSizes]
  | cons n l ih =>
      rw [sumSizes_cons, UInt64.toNat_add, List.map_cons, List.sum_cons]
      generalize (l.map fun n => (n.toNat : Int)).sum = total at ih ⊢
      omega

/-- An sjob that has finished all its blocks has counted their sizes. -/
theorem World.Accounted.finished {w : World} (h : w.Accounted) {x : Sjob}
    (hx : x ∈ w.sjobs) (hfin : ∀ b ∈ x.blocks, b.state = .finished) :
    x.txBytes = (x.blocks.map (·.size)).sum := by
  rw [h.sjobs x hx]
  congr 1
  apply List.map_congr_left
  intro b hb
  exact h.full x hx b hb (hfin b hb)

/-- The bytes of a finished sjob are, in 64 bits, those of the response
its blocks are made of. -/
theorem Sjob.Sized.txBytes {x : Sjob} {w : World} {blocks : List Json}
    {groups : List FileGroup} (h : x.Sized blocks)
    (hb : List.Forall₂ (fun g b => b.get "size" = .ok g.sentSize) groups
      blocks)
    (hw : w.Accounted) (hx : x ∈ w.sjobs)
    (hfin : ∀ b ∈ x.blocks, b.state = .finished) (s : AgentState) :
    x.txBytes % 2 ^ 64
      = (DTNAgent.responseBytes s (.inline groups)).toNat := by
  show _ = ((sumSizes (groups.map fun g => g.size.getD 0)).toNat : Int)
  rw [toNat_sumSizes_mod, List.map_map, hw.finished hx hfin, h.sizes hb]
  rfl

/-- The groups of a path have its size exactly when as much is lost as is
gained. Over the source paths of a request this decides as well whether
the total of the response is the sum of the sizes of its groups, and
whether an sjob made of it that has finished all its blocks has counted
as many bytes as it has for its size. -/
theorem group_sizes_iff (w : Reports) (a : DTNAgent) :
    (∀ (p : Path) (maxSize maxFiles : UInt64) (r : PathSuperGroup),
      w.Of a.fs p → divide a.fs p maxSize maxFiles = .ok r →
      (treeSize a.fs p = .ok (sumSizes (r.groups.map PathGroup.size))
        ↔ lost a.fs w maxSize p = gained a.fs w maxSize p))
    ∧ ∀ (m : ExpandMessage) (s s' : AgentState) (total : UInt64)
        (r : ResponseGroups),
      a.handleExpandAndGroupV2 m s = (.ok total r, s') →
      (∀ src ∈ m.srcPath, w.Of a.fs (Path.ofName a.fs src)) →
      (total = DTNAgent.responseBytes s' r ↔ a.Reconciles w m)
      ∧ ∀ (groups : List FileGroup) (i : Intake) (part : Part String)
          (conf : Conf) (v : World) (P : ServerPool) (x : Sjob),
        r = .inline groups → i.Expands (expandResponse total groups) part →
        v.Fresh → (server conf .counting).Run ⟨v, []⟩ P →
        P.threads = [] → x ∈ P.world.sjobs → x.Sized part.blocks →
        (∀ b ∈ x.blocks, b.state = .finished) →
        (x.txBytes % 2 ^ 64 = part.size ↔ a.Reconciles w m) := by
  constructor
  · intro p maxSize maxFiles r hw hr
    exact tree_size_iff hw hr
  · intro m s s' total r h hw
    have hiff := DTNAgent.response_total_iff h hw
    refine ⟨hiff, ?_⟩
    intro groups i part conf v P x hr hpart hv hrun hidle hx hsized hfin
    obtain ⟨hsize, hblocks⟩ := hpart.sized
    obtain ⟨n, hn, hc⟩ := server_counting hv hrun
    rw [hidle] at hn
    obtain rfl : n = [] := List.map_eq_nil_iff.mp hn
    rw [hsized.txBytes hblocks hc.accounted hx hfin s', hsize, ← hiff, hr]
    constructor
    · intro heq
      exact (UInt64.toNat_inj.mp (Int.ofNat_inj.mp heq)).symm
    · intro heq
      rw [← heq]

-- ================================================ a file behind a link

/-- A directory without directories in it. -/
theorem Reports.Of.flat {fs : FileSystem} {p : Path} {l : Listing}
    {reports : List (Place × UInt64)} (hnode : p.node = .dir l)
    (hnftw : fs.nftw p.name = .ok (reports.map Prod.snd))
    (hflat : ∀ q ∈ walk p, q.isDirectory = false)
    (hbelow : ∀ x ∈ reports, ∃ n ∈ l.names, x.1.head? = some n)
    (hfiles : ∀ f ∈ l.regulars,
      reports.filter (fun x => x.1.head? = some f.1) = [([f.1], f.2)])
    (hnames : l.names.Nodup) : Reports.Of (fun _ => reports) fs p := by
  have hroot : ∀ q ∈ p :: walk p, q.isDirectory = true → q = p := by
    intro q hq hdir
    rcases List.mem_cons.mp hq with rfl | hq
    · rfl
    · rw [hflat q hq] at hdir
      cases hdir
  have hlisting : ∀ q ∈ p :: walk p, ∀ m, q.node = .dir m → m = l := by
    intro q hq m hm
    rw [hroot q hq (Path.isDirectory_of hm), hnode] at hm
    injection hm with hm
    exact hm.symm
  constructor
  · intro q hq hdir sizes hsizes
    rw [hroot q hq hdir, hnftw] at hsizes
    injection hsizes with hsizes
    exact hsizes.symm
  · intro q hq m hm
    rw [hlisting q hq m hm]
    exact hbelow
  · intro q hq m hm
    rw [hlisting q hq m hm]
    exact hfiles
  · intro q hq m hm
    rw [hlisting q hq m hm]
    exact hnames

open DTNAgent (letter)

/-- A file of 60 bytes, and one of 40 that is reached through a link. -/
def linkReports : List (Place × UInt64) :=
  [([letter 'x'], 60), ([letter 'y'], 40)]

/-- The directory with both. -/
def linkListing : Listing :=
  .file (letter 'x') 60 (.other (letter 'y') 1 .done)

/-- It is at `/t`. -/
def linkFiles : FileSystem where
  lstat s := if s = ['/', 't'] then .dir linkListing else .missing
  realpath s :=
    if s = ['/', 't'] then .ok [letter 't']
    else .error "No such file or directory"
  nftw s :=
    if s = ['/', 't'] then .ok (linkReports.map Prod.snd)
    else .error "No such file or directory"
  read _ := .error .opening

/-- Expand `/t` to below `/e`. -/
def expandLink (groupSize : UInt64) : ExpandMessage where
  srcPath := [['/', 't']]
  dstPath := ['/', 'e']
  groupSize := groupSize

theorem linkFiles_reports :
    Reports.Of (fun _ => linkReports) linkFiles
      (Path.ofName linkFiles ['/', 't']) :=
  .flat (l := linkListing) rfl rfl (by decide) (by decide) (by decide)
    (by decide)

/-- The agent's answer. -/
def linkReply (groupSize : UInt64) : ExpandReply × AgentState :=
  (DTNAgent.plain linkFiles [['/', 't']]).handleExpandAndGroupV2
    (expandLink groupSize) {}

def ExpandReply.total : ExpandReply → UInt64
  | .ok total _ => total
  | .failed .. => 0

def ExpandReply.inlined : ExpandReply → List FileGroup
  | .ok _ (.inline groups) => groups
  | _ => []

/-- A portal that passes the answer on. -/
def linkIntake (groupSize : UInt64) : Intake :=
  sampleIntake (200, expandResponse (linkReply groupSize).1.total
    (linkReply groupSize).1.inlined)

/-- The storage the paths are on. -/
def linkSource : Source String where
  srcsite := sampleId.text
  srcstorage := "dtn|disk"
  srcdtn := "dtn"
  srcdtnAddr := .null
  srcpath := ["/t"]

theorem linkIntake_expands :
    ∃ part, (linkIntake 100).Expands (expandResponse
      (linkReply 100).1.total (linkReply 100).1.inlined) part := by
  have hread : returnsValue ((expandStorage samplePremises
      (.object [("url", .str "site.example")]) (.str "/e") 60000
      linkSource).run (linkIntake 100)) = true := by decide +kernel
  cases hrun : (expandStorage samplePremises
      (.object [("url", .str "site.example")]) (.str "/e") 60000
      linkSource).run (linkIntake 100) with
  | error e t =>
      rw [hrun] at hread
      cases hread
  | ok r t =>
      cases r with
      | error e =>
          rw [hrun] at hread
          cases hread
      | ok part => exact ⟨part, rfl, _, _, _, _, _, t, hrun⟩

/-- Groups of 100 bytes: the directory fits, the total is that of the one
group, and an sjob that has transferred it has counted its size. -/
theorem group_sizes_fits :
    treeSize linkFiles (Path.ofName linkFiles ['/', 't']) = .ok 100
      ∧ (linkReply 100).1.total
        = sumSizes ((linkReply 100).1.inlined.map fun g => g.size.getD 0)
      ∧ ∃ part, (linkIntake 100).Expands (expandResponse
          (linkReply 100).1.total (linkReply 100).1.inlined) part
        ∧ ∃ x ∈ polledAndCompleted.sjobs, x.Sized part.blocks
          ∧ x.txBytes % 2 ^ 64 = part.size := by
  have hw := linkFiles_reports
  obtain ⟨hpath, hresponse⟩ := group_sizes_iff (fun _ => linkReports)
    (DTNAgent.plain linkFiles [['/', 't']])
  have hreply : (DTNAgent.plain linkFiles [['/', 't']]).handleExpandAndGroupV2
      (expandLink 100) {} = (.ok (linkReply 100).1.total
        (.inline (linkReply 100).1.inlined), (linkReply 100).2) := rfl
  have hrec : (DTNAgent.plain linkFiles [['/', 't']]).Reconciles
      (fun _ => linkReports) (expandLink 100) := by
    unfold DTNAgent.Reconciles
    decide +kernel
  obtain ⟨htotal, hsjob⟩ := hresponse _ _ _ _ _ hreply
    fun src hsrc => List.mem_singleton.mp hsrc ▸ hw
  obtain ⟨part, hpart⟩ := linkIntake_expands
  -- the first sjob of the run has one block of 100 bytes, which is done
  obtain ⟨x, hx, hblocks⟩ : ∃ x ∈ polledAndCompleted.sjobs,
      x.blocks.map (fun b => (b.size, b.state)) = [(100, .finished)] := by
    decide +kernel
  obtain ⟨b, hb, hbs⟩ := List.map_eq_singleton_iff.mp hblocks
  have hsized : x.Sized part.blocks := by
    have hgroups : (linkReply 100).1.inlined.map FileGroup.sentSize
        = [.int 100] := rfl
    obtain ⟨g, hg, hgs⟩ := List.map_eq_singleton_iff.mp hgroups
    obtain ⟨-, hall⟩ := hpart.sized
    unfold Sjob.Sized
    rw [hb]
    rw [hg] at hall
    generalize part.blocks = blocks at hall ⊢
    cases hall with
    | @cons _ k _ _ hk hnil =>
        cases hnil
        refine .cons ?_ .nil
        have hsize : b.size = 100 := congrArg Prod.fst hbs
        unfold blockBytes
        rw [hk, hgs, hsize]
        rfl
  have hfin : ∀ b ∈ x.blocks, b.state = .finished := by
    intro k hk
    rw [hb] at hk
    rw [List.mem_singleton.mp hk]
    exact congrArg Prod.snd hbs
  refine ⟨(hpath _ 100 0 _ hw rfl).mpr (by decide +kernel),
    htotal.mpr hrec, part, hpart, x, hx, hsized, ?_⟩
  exact (hsjob _ _ part _ _ _ x rfl hpart twoSjobs_fresh
    polledAndCompleted_run rfl hx hsized hfin).mpr hrec

/-- Groups of 60 bytes: the directory is split, the link is passed over,
and the groups have 60 bytes of 100. -/
theorem linked_bytes_lost :
    Reports.Of (fun _ => linkReports) linkFiles
        (Path.ofName linkFiles ['/', 't'])
      ∧ treeSize linkFiles (Path.ofName linkFiles ['/', 't']) = .ok 100
      ∧ (∀ r, divide linkFiles (Path.ofName linkFiles ['/', 't']) 60 0
          = .ok r → sumSizes (r.groups.map PathGroup.size) = 60)
      ∧ (linkReply 60).1.total = 100
      ∧ sumSizes ((linkReply 60).1.inlined.map fun g => g.size.getD 0)
        = 60 := by
  refine ⟨linkFiles_reports, by decide +kernel, fun r hr => ?_,
    by decide +kernel, by decide +kernel⟩
  injection hr with hr
  subst hr
  decide +kernel

end BigDataExpress
