/-
Is the space at the destination enforced?

The total size of a job is known once its destination was asked and its
storages are named (`Totals`): the sites of a plain job have answered the
size of every storage, and a dataset lists the sizes of its files. From
there the parsing either completes or throws; it throws if there is
nothing to divide by, or groups that cannot be stored (`parse_totals`).

A job that is parsed has the report of the destination's disk under
"disk". The check asks for it only if there is something under "dist",
which no step of the bootstrap writes. So a job that does not fit is put
in error exactly when its parsing completes, it was submitted with that
member, and the comparison in doubles finds what is so of the sizes
(`space_enforced_iff`).
-/
import BigDataExpress.Proofs.Parsing
import BigDataExpress.Proofs.Parsed

namespace BigDataExpress

open Stateful

-- ============================================================ the total

/-- `parseRawJob`, up to the sources: whether the job is a dataset, and
the job with its destination. -/
def parseDestination (pr : Premises) (job : Json) : Parse (Bool × Json) := do
  let job ← Parse.read (job.set "type" (.str "best_effort"))
  let ds ← Parse.read (datasetOf job)
  createRawJobProxyCert pr job
  let job ← Parse.ask (parseRawJobDst pr job)
  pure (ds, job)

/-- `listSources`, up to the duration: the site and its storages. -/
def nameSources (pr : Premises) (job : Json) :
    Inquiry (Json × List (Source String)) := do
  let _user ← Inquiry.read (oidOf job "user")
  let srcsite ← Inquiry.read (oidOf job "srcsite")
  let srcfile ← Inquiry.read (textOf job "srcfile")
  let siteInfo ← Inquiry.read (pr.getSiteInfo srcsite)
  let g ← gatherSources siteInfo srcsite (split srcfile ',') {}
  pure (siteInfo, g.smap)

/-- `listFiles`, up to the duration. -/
def nameFiles (pr : Premises) (job : Json) :
    Inquiry (Json × List (Source DatasetEntry)) := do
  let _user ← Inquiry.read (oidOf job "user")
  let srcsite ← Inquiry.read (oidOf job "srcsite")
  let siteInfo ← Inquiry.read (pr.getSiteInfo srcsite)
  let files ← Inquiry.read (job.get "files")
  let g ← gatherFiles siteInfo srcsite files.items {}
  pure (siteInfo, g.smap)

/-- The next answers. -/
def Mail.next (m : Mail) (n : Nat) : List (Int × Json) :=
  (List.range n).map fun k => m.outcomes (m.posts.length + k)

/-- The answer to an expansion is a success, of this size. -/
structure Granted (r : Int × Json) (size : Nat) : Prop where
  http : r.1 = 200
  error : textOf r.2 "error" = .ok "OK"
  code : codeOf r.2 = .ok 0
  size : ∃ total, r.2.get "total_size" = .ok total
    ∧ total.asUInt64 = .ok size

/-- The sum of the sizes of files. -/
def entryTotal : List DatasetEntry → Except String Nat
  | [] => .ok 0
  | e :: rest => do
      let n ← e.size.asUInt64
      let m ← entryTotal rest
      pure (n + m)

/-- The destination of a job was asked, its storages are named, and these
are their sizes: those the sites answer, of a plain job, or those of its
files. -/
inductive Totals (pr : Premises) (job : Json) (s : Intake) :
    List (Int × Json) → List Nat → Prop
  | plain {job' siteInfo : Json} {t : Intake} {m : Mail}
      {smap : List (Source String)} {sizes : List Nat} :
      (parseDestination pr job).run s = .ok (.ok (false, job')) t →
      (nameSources pr job').run t.mail = .ok (.ok (siteInfo, smap)) m →
      List.Forall₂ Granted (m.next smap.length) sizes →
      Totals pr job s (m.next smap.length) sizes
  | dataset {job' siteInfo : Json} {t : Intake} {m : Mail}
      {smap : List (Source DatasetEntry)} {sizes : List Nat} :
      (parseDestination pr job).run s = .ok (.ok (true, job')) t →
      (nameFiles pr job').run t.mail = .ok (.ok (siteInfo, smap)) m →
      List.Forall₂ (fun src n => entryTotal src.srcpath = .ok n) smap sizes →
      Totals pr job s [] sizes

/-- There are seconds to divide by. -/
def Divisible (job : Json) : Prop :=
  ∃ time, durationOf job = .ok time ∧ time.tdiv 1000 ≠ 0

/-- An answer has groups, and all of them can be stored. -/
def HasGroups (v : Json) : Prop :=
  ∃ files groups, v.get "files" = .ok files
    ∧ files.get "groups" = .ok groups
    ∧ ∀ group ∈ groups.items, ∃ fields, groupDoc group = .ok fields

/-- Nothing stands in the way of the parsing. -/
structure Parses (job : Json) (answers : List (Int × Json)) : Prop where
  divisible : Divisible job
  grouped : ∀ r ∈ answers, HasGroups r.2

/-- No sjob was inserted from `s` to `t`. -/
def NoSjobs (s t : Intake) : Prop :=
  ∃ new, t.inserts = s.inserts ++ new ∧ ∀ x ∈ new, x.1 ≠ .sjob

/-- The sizes of the storages of a parsed job. -/
def StorageSizes (parsed : Json) (sizes : List Nat) : Prop :=
  ∃ src, parsed.get "src" = .ok src
    ∧ List.Forall₂ (fun p n => p.get "size" = .ok (.int (n : Nat)))
      src.items sizes

/-- The disk of an answer has these bytes available. -/
def Reported (answer : Json) (available : Nat) : Prop :=
  ∃ disk sizes bytes, answer.get "disk" = .ok disk
    ∧ disk.get "size" = .ok sizes ∧ sizes.get "available" = .ok bytes
    ∧ bytes.asInt64 = .ok available

/-- A rawjob that does not fit: the sum over its storages is more than 95
percent of what the destination answered to have available. -/
structure Shortage (pr : Premises) (id : String) (s : Intake)
    (doc : Document) (answers : List (Int × Json)) (sizes : List Nat)
    (available : Nat) : Prop where
  id : ObjectId.parse id = .ok doc.id
  found : s.rawjob doc.id = some doc
  no_error : Json.lookup "error" doc.fields = none
  launcher : pr.hasLauncher = true
  reported : Reported (s.mail.outcomes s.mail.posts.length).2 available
  totals : Totals pr doc.toJson s answers sizes
  short : 95 * available < 100 * sizes.sum

/-- The job is put in error, and gets no sjob. -/
def SpaceEnforced (pr : Premises) (id : String) (o : ObjectId)
    (s : Intake) : Prop :=
  InError (after (bootstrapTransferJob pr id) s) o
    ∧ NoSjobs s (after (bootstrapTransferJob pr id) s)

/-- The member that the check asks for was submitted. -/
def HasDist (job : Json) : Prop :=
  ∃ dst dist, job.get "dst" = .ok dst ∧ dst.get "dist" = .ok dist
    ∧ dist.empty = false

/-- The check, in doubles. -/
def OverInDoubles (sizes : List Nat) (available : Nat) : Prop :=
  ∃ size, (Json.real (sumDoubles sizes)).asInt64 = .ok size
    ∧ Float.ofInt available * 0.95 < Float.ofInt size

-- ========================================================== the parsing

section parsing

variable {pr : Premises} {o : ObjectId} {s t : Intake} {job dst : Json}
  {siteInfo dstPath : Json} {time : Int}

theorem tri_parseRawJob {Q : Json → Intake → Prop}
    {R : String → Intake → Prop} {E : Intake → Prop} :
    tri (parseRawJob pr job) Q R E s
      ↔ tri (parseDestination pr job) (fun r t =>
          tri (if r.1 then parseRawJobSrcDs pr r.2 else parseRawJobSrc pr r.2)
            Q R E t) R E s := by
  unfold parseRawJob parseDestination
  simp only [tri_bind, tri_pure]

theorem tri_listSources {Q : Listed String → Mail → Prop}
    {R : String → Mail → Prop} {E : Mail → Prop} {m : Mail} :
    tri (listSources pr job) Q R E m
      ↔ tri (nameSources pr job) (fun r m =>
          tri (Inquiry.read (durationOf job))
            (fun time => Q ⟨r.1, r.2, time⟩) R E m) R E m := by
  unfold listSources nameSources
  simp only [tri_bind, tri_pure]

theorem tri_listFiles {Q : Listed DatasetEntry → Mail → Prop}
    {R : String → Mail → Prop} {E : Mail → Prop} {m : Mail} :
    tri (listFiles pr job) Q R E m
      ↔ tri (nameFiles pr job) (fun r m =>
          tri (Inquiry.read (durationOf job))
            (fun time => Q ⟨r.1, r.2, time⟩) R E m) R E m := by
  unfold listFiles nameFiles
  simp only [tri_bind, tri_pure]

/-- The run of a program that returned. -/
theorem tri_of_run {ε σ ρ α : Type} {x : Trying ε σ ρ α}
    {Q : α → σ → Prop} {R : ρ → σ → Prop} {E : σ → Prop} {s t : σ} {a : α}
    (hx : x.run s = .ok (.ok a) t) : tri x Q R E s ↔ Q a t := by
  unfold tri
  rw [hx]

/-- Storages are of a site with an address. -/
theorem nameSources_url {m : Mail} :
    tri (nameSources pr job)
      (fun r _ => r.2 ≠ [] → ∃ url, commandUrl r.1 = .ok url)
      (fun _ _ => True) (fun _ => True) m := by
  unfold nameSources Inquiry.read
  simp only [tri_bind, tri_perform, wp_ofExcept, implies_true, and_true]
  intro user _ srcsite _ srcfile _ siteInfo _
  refine (gatherSources_spec _ .init rfl).mono ?_ (fun _ _ _ => trivial)
    fun _ _ => trivial
  intro g m' hg
  exact fun hne => hg.1.url (hg.1.asked hne)

/-- What becomes of a job whose destination was asked: the destination is
in it, and its times and the others of its members are as they were. -/
theorem parseDestination_spec (hid : job.IsOf o) :
    tri (parseDestination pr job)
      (fun r _ => (∃ dst, Directed pr o r.2 dst)
        ∧ durationOf r.2 = durationOf job)
      (fun _ _ => True) (fun _ => True) s := by
  unfold parseDestination Parse.read Parse.ask
  simp only [tri_bind, tri_perform, wp_ofExcept, implies_true, and_true]
  intro job₁ hjob₁ ds _
  obtain ⟨hid₁, htype⟩ := typed_job hid hjob₁
  have hcerts : tri (createRawJobProxyCert pr job₁) (fun _ _ => True)
      (fun _ _ => True) (fun _ => True) s := by
    unfold tri
    split <;> trivial
  refine hcerts.mono ?_ (fun _ _ _ => trivial) fun _ _ => trivial
  intro _ t _
  rw [tri_zoom]
  refine ((parseRawJobDst_begun hid₁ htype).and parseRawJobDst_with).mono ?_
    (fun _ _ _ => trivial) fun _ _ => trivial
  intro job₂ m h
  obtain ⟨⟨dst, _, hdir, _⟩, site, dtn, storage, path, hwith⟩ := h
  refine ⟨⟨dst, hdir⟩, ?_⟩
  unfold durationOf
  rw [withDestination_get hwith (by decide), withDestination_get hwith
    (by decide), Json.get_set hjob₁ (by decide), Json.get_set hjob₁ (by decide)]

theorem Directed.path (h : Directed pr o job dst) :
    ∃ path, dstPathOf job = .ok path := by
  obtain ⟨_, _, ⟨fields, rfl, _⟩, _⟩ := h.site
  exact ⟨_, bind_eq_ok.2 ⟨_, h.has_dst.get, rfl⟩⟩

/-- The sizes of the parts, as they are read off the job. -/
theorem storageSizes_parts {α : Type} {render : α → Json} {parsed : Json}
    {parts : List (Part α)}
    (h : parsed.Has "src" (.arr (parts.map (Part.toJson render)))) :
    StorageSizes parsed (parts.map Part.size) := by
  refine ⟨_, h.get, ?_⟩
  show List.Forall₂ _ (parts.map (Part.toJson render)) (parts.map Part.size)
  rw [List.forall₂_map_left_iff, List.forall₂_map_right_iff, List.forall₂_same]
  intro p _
  simp [Part.toJson_eq, partFields, Json.assignAll, Json.lookup_assign]

-- ---------------------------------------------------------- expansions

/-- The groups of an answer are stored, or one of them cannot be. -/
theorem insertGroups_exact (groups : List Json) (s : Intake) :
    wp (insertGroups groups)
      (fun _ t => t.mail = s.mail
        ∧ ∀ group ∈ groups, ∃ fields, groupDoc group = .ok fields)
      (fun _ => ¬ ∀ group ∈ groups, ∃ fields, groupDoc group = .ok fields)
      s := by
  induction groups generalizing s with
  | nil => exact ⟨rfl, fun group h => by cases h⟩
  | cons group rest ih =>
      unfold insertGroups Boot.read
      simp only [wp_bind, wp_ofExcept]
      refine ⟨?_, ?_⟩
      · intro fields hfields
        rw [wp_insertBlock]
        refine (ih _).mono ?_ fun _ h hall =>
          h fun g hg => hall g (List.mem_cons_of_mem _ hg)
        intro _ t h
        exact ⟨h.1, List.forall_mem_cons.2 ⟨⟨fields, hfields⟩, h.2⟩⟩
      · intro e he hall
        obtain ⟨fields, hfields⟩ := hall group (List.mem_cons_self ..)
        rw [he] at hfields
        cases hfields

/-- A success is read as an expansion, unless there is nothing to divide
by or no member for the groups. -/
theorem readExpansion_granted {r : Int × Json} {size : Nat}
    (h : Granted r size) (time : Int) :
    (∃ x, readExpansion time r = .ok (.ok x) ∧ x.size = size
        ∧ time.tdiv 1000 ≠ 0
        ∧ (HasGroups r.2
          ↔ ∀ group ∈ x.groups, ∃ fields, groupDoc group = .ok fields))
      ∨ (∃ e, readExpansion time r = .error e)
        ∧ (time.tdiv 1000 = 0 ∨ ¬ HasGroups r.2) := by
  obtain ⟨hhttp, herror, hcode, total, htotal, hsize⟩ := h
  unfold readExpansion
  rw [if_neg (not_not.2 hhttp)]
  cases hrate : baseRate size time with
  | error e =>
      refine .inr ⟨⟨e, ?_⟩, .inl (baseRate_error hrate)⟩
      simp [herror, hcode, htotal, hsize, hrate, bind, Except.bind, pure,
        Except.pure]
  | ok rate =>
      cases hfiles : r.2.get "files" with
      | error e =>
          refine .inr ⟨⟨e, ?_⟩, .inr ?_⟩
          · simp [herror, hcode, htotal, hsize, hrate, bind,
              Except.bind, pure, Except.pure]
          · intro hg
            obtain ⟨_, _, hf, _⟩ := hg
            rw [hfiles] at hf
            cases hf
      | ok files =>
          cases hgroups : files.get "groups" with
          | error e =>
              refine .inr ⟨⟨e, ?_⟩, .inr ?_⟩
              · simp [herror, hcode, htotal, hsize, hrate, hgroups,
                  bind, Except.bind, pure, Except.pure]
              · intro hg
                obtain ⟨_, _, hf, hv, _⟩ := hg
                rw [hfiles] at hf
                injection hf with hf
                rw [← hf, hgroups] at hv
                cases hv
          | ok groups =>
              refine .inl ⟨⟨size, rate, groups.items⟩, ?_, rfl,
                (baseRate_ok hrate).1, ?_⟩
              · simp [herror, hcode, htotal, hsize, hrate, hgroups,
                  bind, Except.bind, pure, Except.pure]
              · constructor
                · intro hg
                  obtain ⟨_, _, hf, hv, hall⟩ := hg
                  rw [hfiles] at hf
                  injection hf with hf
                  rw [← hf, hgroups] at hv
                  injection hv with hv
                  exact hv ▸ hall
                · exact fun hall => ⟨files, groups, hfiles, hgroups, hall⟩

/-- One storage, whose site answers with a success. -/
theorem expandStorage_granted {url : String} {size : Nat}
    (src : Source String) (hurl : commandUrl siteInfo = .ok url)
    (h : Granted (s.mail.outcomes s.mail.posts.length) size) :
    tri (expandStorage pr siteInfo dstPath time src)
      (fun p t => t.mail.outcomes = s.mail.outcomes
        ∧ t.mail.posts.length = s.mail.posts.length + 1
        ∧ p.size = size ∧ time.tdiv 1000 ≠ 0
        ∧ HasGroups (s.mail.outcomes s.mail.posts.length).2)
      (fun _ _ => False)
      (fun _ => time.tdiv 1000 = 0
        ∨ ¬ HasGroups (s.mail.outcomes s.mail.posts.length).2) s := by
  unfold expandStorage Parse.read Parse.ask Inquiry.post
  rw [tri_bind, tri_read_ok hurl, tri_bind, tri_zoom, tri_perform]
  change tri _ _ _ _ _
  rcases readExpansion_granted h time with
    ⟨x, hx, hsize, htime, hiff⟩ | ⟨⟨e, he⟩, hwhy⟩
  · rw [tri_bind, tri_read_ok hx]
    dsimp only
    rw [tri_bind, tri_perform]
    refine (insertGroups_exact x.groups _).mono ?_
      fun _ hnot => .inr fun hg => hnot (hiff.1 hg)
    intro _ t ht
    refine ⟨by rw [ht.1], ?_, hsize, htime, hiff.2 ht.2⟩
    rw [ht.1]
    simp
  · rw [tri_bind, tri_read_error he]
    exact hwhy

theorem Mail.next_succ {m m' : Mail} (hout : m'.outcomes = m.outcomes)
    (hposts : m'.posts.length = m.posts.length + 1) (n : Nat) :
    m.next (n + 1) = m.outcomes m.posts.length :: m'.next n := by
  unfold next
  rw [List.range_succ_eq_map, List.map_cons, List.map_map, hout, hposts]
  refine congrArg (List.cons _) (List.map_congr_left ?_)
  intro k _
  show m.outcomes (m.posts.length + (k + 1)) = _
  rw [Nat.add_assoc, Nat.add_comm 1 k]

/-- All storages, whose sites answer with successes. -/
theorem expandStorages_granted {url : String} {sizes : List Nat}
    (smap : List (Source String)) (hurl : commandUrl siteInfo = .ok url)
    (h : List.Forall₂ Granted (s.mail.next smap.length) sizes) :
    tri (expandStorages pr siteInfo dstPath time smap)
      (fun parts _ => parts.map Part.size = sizes
        ∧ (smap ≠ [] → time.tdiv 1000 ≠ 0)
        ∧ ∀ r ∈ s.mail.next smap.length, HasGroups r.2)
      (fun _ _ => False)
      (fun _ => time.tdiv 1000 = 0
        ∨ ¬ ∀ r ∈ s.mail.next smap.length, HasGroups r.2) s := by
  induction smap generalizing s sizes with
  | nil =>
      cases h
      exact ⟨rfl, fun hne => absurd rfl hne, fun r hr => by cases hr⟩
  | cons src rest ih =>
      unfold expandStorages
      -- the first answer, and those that are still to come
      have hstep : ∀ t : Intake, t.mail.outcomes = s.mail.outcomes →
          t.mail.posts.length = s.mail.posts.length + 1 →
          s.mail.next (src :: rest).length
            = s.mail.outcomes s.mail.posts.length
              :: t.mail.next rest.length :=
        fun t hout hposts => Mail.next_succ hout hposts rest.length
      have hfirst := hstep { s with mail := { s.mail with
        posts := s.mail.posts ++ [("", .null)] } } rfl (by simp)
      rw [hfirst] at h ⊢
      obtain ⟨size, sizes, hgranted, _, rfl⟩ :=
        List.forall₂_cons_left_iff.1 h
      rw [tri_bind]
      refine (expandStorage_granted src hurl hgranted).mono ?_
        (fun _ _ hf => hf) ?_
      · intro p t hp
        obtain ⟨hout, hposts, hsize, htime, hgrouped⟩ := hp
        have hsame : s.mail.next (src :: rest).length
            = s.mail.outcomes s.mail.posts.length
              :: t.mail.next rest.length := hstep t hout hposts
        rw [← hfirst, hsame] at h
        rw [← hfirst, hsame]
        obtain ⟨_, hrest⟩ := List.forall₂_cons.1 h
        rw [tri_bind]
        refine (ih hrest).mono ?_ (fun _ _ hf => hf) ?_
        · intro parts _ hparts
          obtain ⟨hsizes, _, hall⟩ := hparts
          refine ⟨?_, fun _ => htime,
            List.forall_mem_cons.2 ⟨hgrouped, hall⟩⟩
          rw [List.map_cons, hsize, hsizes]
        · intro _ hwhy
          refine hwhy.imp_right ?_
          exact fun hnot hall => hnot (List.forall_mem_cons.1 hall).2
      · intro _ hwhy
        refine hwhy.imp_right ?_
        exact fun hnot hall => hnot (List.forall_mem_cons.1 hall).1

theorem Granted.lt {r : Int × Json} {size : Nat} (h : Granted r size) :
    size < 2 ^ 64 := by
  obtain ⟨total, _, hsize⟩ := h.size
  unfold Json.asUInt64 at hsize
  split at hsize
  · cases hsize
    omega
  · injection hsize with hsize
    split at hsize <;> omega
  · split at hsize
    · injection hsize with hsize
      omega
    · cases hsize
  · split at hsize
    · injection hsize with hsize
      rw [← hsize]
      exact UInt64.toNat_lt _
    · cases hsize
  · cases hsize

/-- The sources of a plain job whose sites answer with successes. -/
theorem parseRawJobSrc_totals {m : Mail} {smap : List (Source String)}
    {sizes : List Nat} (hdir : Directed pr o job dst)
    (hrun : (nameSources pr job).run t.mail = .ok (.ok (siteInfo, smap)) m)
    (hne : smap ≠ []) (h : List.Forall₂ Granted (m.next smap.length) sizes) :
    tri (parseRawJobSrc pr job)
      (fun parsed _ => Parses job (m.next smap.length)
        ∧ StorageSizes parsed sizes)
      (fun _ _ => False) (fun _ => ¬ Parses job (m.next smap.length)) t := by
  obtain ⟨url, hurl⟩ := nameSources_url.ok hrun hne
  obtain ⟨path, hpath⟩ := hdir.path
  unfold parseRawJobSrc Parse.ask Parse.read
  rw [tri_bind, tri_zoom, tri_listSources, tri_of_run hrun]
  unfold Inquiry.read
  simp only [tri_perform, wp_ofExcept]
  refine ⟨?_, ?_⟩
  · intro time htime
    rw [tri_bind, tri_read_ok hpath, tri_bind]
    refine (expandStorages_granted smap hurl h).mono ?_ (fun _ _ hf => hf) ?_
    · intro parts t₁ hparts
      obtain ⟨hsizes, hdiv, hgrouped⟩ := hparts
      refine (withSources_outcome t₁).mono ?_ (fun _ _ hf => hf)
        fun _ hnot => absurd ⟨o, hdir.isOf⟩ hnot
      intro parsed _ hparsed
      exact ⟨⟨⟨time, htime, hdiv hne⟩, hgrouped⟩,
        hsizes ▸ storageSizes_parts hparsed.1⟩
    · intro _ hwhy hparses
      obtain ⟨⟨time', htime', hdiv⟩, hgrouped⟩ := hparses
      rw [htime] at htime'
      injection htime' with htime'
      subst htime'
      exact hwhy.elim hdiv fun hnot => hnot hgrouped
  · intro e he hparses
    obtain ⟨⟨time, htime, _⟩, _⟩ := hparses
    rw [he] at htime
    cases htime

-- ------------------------------------------------------------- datasets

/-- The size of a storage is the sum of the sizes of its files, in 64
bits. -/
theorem entrySizes_total {entries : List DatasetEntry} {n : Nat}
    (h : entryTotal entries = .ok n) :
    entrySizes entries = .ok (n % 2 ^ 64) := by
  induction entries generalizing n with
  | nil =>
      injection h with h
      subst h
      rfl
  | cons e rest ih =>
      obtain ⟨k, hk, h⟩ := bind_eq_ok.1 h
      obtain ⟨l, hl, h⟩ := bind_eq_ok.1 h
      injection h with h
      subst h
      refine bind_eq_ok.2 ⟨k, hk, bind_eq_ok.2 ⟨_, ih hl, ?_⟩⟩
      simp only [pure, Except.pure, Except.ok.injEq]
      omega

theorem datasetParts_sizes {parts : List (Part DatasetEntry)}
    {docs : List Document} {sizes : List Nat}
    (hdocs : List.Forall₂ (DatasetPart time) parts docs)
    (h : List.Forall₂ (fun src n => entryTotal src.srcpath = .ok n)
      (parts.map Part.toSource) sizes) :
    parts.map Part.size = sizes.map (· % 2 ^ 64) := by
  induction hdocs generalizing sizes with
  | nil =>
      cases h
      rfl
  | @cons p d parts docs hd _ ih =>
      obtain ⟨n, sizes, hn, hrest, rfl⟩ := List.forall₂_cons_left_iff.1 h
      have hsize := hd.size
      rw [entrySizes_total hn] at hsize
      injection hsize with hsize
      rw [List.map_cons, List.map_cons, hsize, ih hrest]

/-- The sources of a dataset whose files have sizes. -/
theorem parseRawJobSrcDs_totals {m : Mail}
    {smap : List (Source DatasetEntry)} {sizes : List Nat}
    (hdir : Directed pr o job dst)
    (hrun : (nameFiles pr job).run t.mail = .ok (.ok (siteInfo, smap)) m)
    (hne : smap ≠ [])
    (h : List.Forall₂ (fun src n => entryTotal src.srcpath = .ok n) smap
      sizes) :
    tri (parseRawJobSrcDs pr job)
      (fun parsed _ => Divisible job
        ∧ StorageSizes parsed (sizes.map (· % 2 ^ 64)))
      (fun _ _ => False) (fun _ => ¬ Divisible job) t := by
  unfold parseRawJobSrcDs Parse.ask
  rw [tri_bind, tri_zoom, tri_listFiles, tri_of_run hrun]
  unfold Inquiry.read
  simp only [tri_perform, wp_ofExcept]
  refine ⟨?_, ?_⟩
  · intro time htime
    rw [tri_bind, tri_perform]
    refine (datasetStorages_outcome time smap _).mono ?_ ?_
    · intro parts t₁ hparts
      obtain ⟨hmap, docs, hdocs, _⟩ := hparts
      rw [← hmap] at h
      have hsizes := datasetParts_sizes hdocs h
      have hdiv : time.tdiv 1000 ≠ 0 := by
        cases hdocs with
        | nil => exact absurd hmap.symm hne
        | cons hd _ => exact (baseRate_ok hd.rate).1
      refine (withSources_outcome t₁).mono ?_ (fun _ _ hf => hf)
        fun _ hnot => absurd ⟨o, hdir.isOf⟩ hnot
      intro parsed _ hparsed
      exact ⟨⟨time, htime, hdiv⟩, hsizes ▸ storageSizes_parts hparsed.1⟩
    · intro _ hwhy hdiv
      obtain ⟨time', htime', hdiv⟩ := hdiv
      rw [htime] at htime'
      injection htime' with htime'
      subst htime'
      rcases hwhy with ⟨src, hsrc, hnot⟩ | ⟨_, hzero⟩
      · obtain ⟨n, _, hn⟩ := Collection.mem_right_of_forall₂ h hsrc
        exact hnot ⟨_, entrySizes_total hn⟩
      · exact hdiv hzero
  · intro e he hdiv
    obtain ⟨time, htime, _⟩ := hdiv
    rw [he] at htime
    cases htime

-- -------------------------------------------------------- all of it

/-- A job whose total is known is parsed, with these sizes, or its parsing
throws. -/
theorem parse_totals {answers : List (Int × Json)} {sizes : List Nat}
    (hid : job.IsOf o) (h : Totals pr job s answers sizes)
    (hpos : 0 < sizes.sum) :
    tri (parseRawJob pr job)
      (fun parsed _ => Parses job answers
        ∧ StorageSizes parsed (sizes.map (· % 2 ^ 64)))
      (fun _ _ => False) (fun _ => ¬ Parses job answers) s := by
  rw [tri_parseRawJob]
  have hne : sizes ≠ [] := by
    intro hnil
    rw [hnil] at hpos
    cases hpos
  cases h with
  | @plain job' siteInfo t m smap sizes hdst hname hall =>
      obtain ⟨⟨dst, hdir⟩, htimes⟩ := (parseDestination_spec hid).ok hdst
      have hsmap : smap ≠ [] := by
        intro hnil
        subst hnil
        cases hall
        exact hne rfl
      have hparses : Parses job' (m.next smap.length)
          ↔ Parses job (m.next smap.length) := by
        have hdiv : Divisible job' ↔ Divisible job := by
          unfold Divisible
          rw [htimes]
        exact ⟨fun h => ⟨hdiv.1 h.divisible, h.grouped⟩,
          fun h => ⟨hdiv.2 h.divisible, h.grouped⟩⟩
      have hsizes : sizes.map (· % 2 ^ 64) = sizes := by
        rw [List.map_congr_left, List.map_id]
        intro n hn
        obtain ⟨r, _, hr⟩ := Collection.mem_left_of_forall₂ hall hn
        exact Nat.mod_eq_of_lt hr.lt
      rw [tri_of_run hdst, hsizes, ← hparses]
      exact parseRawJobSrc_totals hdir hname hsmap hall
  | @dataset job' siteInfo t m smap sizes hdst hname hall =>
      obtain ⟨⟨dst, hdir⟩, htimes⟩ := (parseDestination_spec hid).ok hdst
      have hsmap : smap ≠ [] := by
        intro hnil
        subst hnil
        cases hall
        exact hne rfl
      have hparses : Parses job [] ↔ Divisible job' := by
        unfold Divisible
        rw [htimes]
        exact ⟨fun h => h.divisible, fun h => ⟨h, fun r hr => by cases hr⟩⟩
      rw [tri_of_run hdst, hparses]
      exact parseRawJobSrcDs_totals hdir hname hsmap hall

end parsing

section space

variable {α : Type} {render : α → Json} {pr : Premises} {o : ObjectId}
  {s t : Intake} {job dst disk parsed : Json} {parts : List (Part α)}
  {sizes : List Nat} {available : Nat}

theorem Parsed.sizes_eq (hp : Parsed render pr o dst parts parsed)
    (h : StorageSizes parsed sizes) : sizes = parts.map Part.size := by
  obtain ⟨src, hsrc, hall⟩ := h
  rw [hp.src.get] at hsrc
  injection hsrc with hsrc
  subst hsrc
  rw [show (Json.arr (parts.map (Part.toJson render))).items
    = parts.map (Part.toJson render) from rfl,
    List.forall₂_map_left_iff] at hall
  clear hp
  induction hall with
  | nil => rfl
  | @cons p n parts sizes hn hrest ih =>
      have hsize : (p.toJson render).get "size" = .ok (.int p.size) := by
        simp [Part.toJson_eq, partFields, Json.assignAll,
          Json.lookup_assign]
      rw [hsize] at hn
      injection hn with hn
      injection hn with hn
      rw [List.map_cons, ih, Int.ofNat_inj.1 hn]

/-- The check finds a shortage if there is a member `dist` and the
doubles compare so. -/
theorem insufficientSpace_iff (hp : Parsed render pr o dst parts parsed)
    (hdisk : DiskOf s.mail job dst disk)
    (hreport : Reported (s.mail.outcomes s.mail.posts.length).2 available)
    (hsizes : StorageSizes parsed sizes) :
    insufficientSpace parsed = .ok true
      ↔ HasDist job ∧ OverInDoubles sizes available := by
  obtain ⟨disk', sz, bytes, hdisk', hsz, hbytes, havail⟩ := hreport
  rw [hdisk.get_disk] at hdisk'
  injection hdisk' with hdisk'
  subst hdisk'
  obtain ⟨old, hold, hdist⟩ := hdisk.dist
  have htotal : totalSize parts = sumDoubles sizes := by
    rw [hp.sizes_eq hsizes]
    unfold totalSize sumDoubles
    rw [List.foldl_map]
  have hsize := hp.size
  rw [htotal] at hsize
  constructor
  · intro h
    unfold insufficientSpace at h
    obtain ⟨dst', hdst', h⟩ := bind_eq_ok.1 h
    rw [hp.directed.has_dst.get] at hdst'
    injection hdst' with hdst'
    subst hdst'
    obtain ⟨dist, hd, h⟩ := bind_eq_ok.1 h
    by_cases hempty : dist.empty = true
    · rw [if_pos hempty] at h
      injection h with h
      cases h
    · rw [if_neg hempty] at h
      rw [hdist] at hd
      refine ⟨⟨old, dist, hold, hd, by simpa using hempty⟩, ?_⟩
      obtain ⟨total, ht, h⟩ := bind_eq_ok.1 h
      rw [hsize.get] at ht
      injection ht with ht
      subst ht
      obtain ⟨size, hs, h⟩ := bind_eq_ok.1 h
      obtain ⟨disk', hd', h⟩ := bind_eq_ok.1 h
      rw [hdisk.has_disk.get] at hd'
      injection hd' with hd'
      subst hd'
      obtain ⟨sz', hsz', h⟩ := bind_eq_ok.1 h
      rw [hsz] at hsz'
      injection hsz' with hsz'
      subst hsz'
      obtain ⟨bytes', hb', h⟩ := bind_eq_ok.1 h
      rw [hbytes] at hb'
      injection hb' with hb'
      subst hb'
      obtain ⟨space, hspace, h⟩ := bind_eq_ok.1 h
      rw [havail] at hspace
      injection hspace with hspace
      subst hspace
      injection h with h
      exact ⟨size, hs, of_decide_eq_true h⟩
  · intro h
    obtain ⟨⟨old', dist, hold', hd, hempty⟩, size, hs, hover⟩ := h
    rw [hold] at hold'
    injection hold' with hold'
    subst hold'
    rw [← hdist] at hd
    unfold insufficientSpace
    refine bind_eq_ok.2 ⟨dst, hp.directed.has_dst.get, bind_eq_ok.2
      ⟨dist, hd, ?_⟩⟩
    rw [if_neg (by simp [hempty])]
    refine bind_eq_ok.2 ⟨_, hsize.get, bind_eq_ok.2 ⟨size, hs,
      bind_eq_ok.2 ⟨disk, hdisk.has_disk.get, bind_eq_ok.2 ⟨sz, hsz,
      bind_eq_ok.2 ⟨bytes, hbytes, bind_eq_ok.2 ⟨available, havail, ?_⟩⟩⟩⟩⟩⟩
    rw [decide_eq_true hover]
    rfl

/-- What comes of a parsed job with storages: it is in error without
sjobs exactly if the check finds a shortage. -/
theorem admitJob_enforced {id : String} {new : List Document}
    (hid : ObjectId.parse id = .ok o)
    (hp : Parsed render pr o dst parts parsed) (hne : parts ≠ [])
    (h : Begun o s new t) :
    wp (admitJob pr id parsed)
      (fun _ t' => InError t' o ∧ NoSjobs s t'
        ↔ insufficientSpace parsed = .ok true)
      (fun t' => InError t' o ∧ NoSjobs s t'
        ↔ insufficientSpace parsed = .ok true) t := by
  refine (admitJob_run hid hp h).mono ?_ ?_
  · intro _ t' hrun
    rcases hrun with ⟨hspace | ⟨_, hnil⟩, href⟩ | ⟨⟨hspace, _⟩, hins⟩
    · refine iff_of_true ⟨href.inError, _, href.inserts, ?_⟩ hspace
      intro x hx
      obtain ⟨b, _, rfl⟩ := List.mem_map.1 hx
      exact fun hc => by cases hc
    · exact absurd hnil hne
    · rw [hspace]
      refine iff_of_false ?_ fun hc => by cases hc
      intro hin
      obtain ⟨docs, _, _, _, _, hraw⟩ := hins
      obtain ⟨doc, msg, hdoc, hstate, herr⟩ := hin.1
      unfold Intake.rawjob at hdoc
      rw [hraw] at hdoc
      exact h.not_inError ⟨doc, msg, hdoc, hstate, herr⟩
  · intro t' hrun
    obtain ⟨⟨e, hspace⟩, rfl⟩ := hrun
    rw [hspace]
    exact iff_of_false (fun hin => h.not_inError hin.1)
      fun hc => by cases hc

end space

/-- A job that does not fit is put in error, and gets no sjob, exactly
when its parsing completes, it was submitted with a member `dist` under
its destination, and the comparison in doubles finds the shortage. -/
theorem space_enforced_iff {pr : Premises} {id : String} {s : Intake}
    {doc : Document} {answers : List (Int × Json)} {sizes : List Nat}
    {available : Nat} (h : Shortage pr id s doc answers sizes available) :
    SpaceEnforced pr id doc.id s
      ↔ Parses doc.toJson answers ∧ HasDist doc.toJson
        ∧ OverInDoubles (sizes.map (· % 2 ^ 64)) available := by
  have hbegun : Begun doc.id s [] s :=
    ⟨rfl, (List.append_nil _).symm, (List.append_nil _).symm, doc, h.found,
      h.no_error⟩
  have hpos : 0 < sizes.sum := by
    have hshort := h.short
    omega
  unfold SpaceEnforced
  refine wp.after (P := fun t' => InError t' doc.id ∧ NoSjobs s t'
    ↔ Parses doc.toJson answers ∧ HasDist doc.toJson
      ∧ OverInDoubles (sizes.map (· % 2 ^ 64)) available) ?_
  rw [bootstrap_wp h.id h.found, if_neg (by simp [h.no_error]),
    if_neg (by simp [h.launcher])]
  refine ((parseRawJob_begun doc.toJson_isOf hbegun).and
    (parse_totals doc.toJson_isOf h.totals hpos)).mono ?_
    (fun _ _ hr => hr.2.elim) ?_
  · intro parsed t hparsed
    obtain ⟨⟨dst, disk, hdisk, hfrom⟩, hparses, hsizes⟩ := hparsed
    have hrun : ∀ {α : Type} {render : α → Json} {parts : List (Part α)},
        Parsed render pr doc.id dst parts parsed →
        BegunMore doc.id s [] t → wp (admitJob pr id parsed)
          (fun _ t' => InError t' doc.id ∧ NoSjobs s t'
            ↔ Parses doc.toJson answers ∧ HasDist doc.toJson
              ∧ OverInDoubles (sizes.map (· % 2 ^ 64)) available)
          (fun t' => InError t' doc.id ∧ NoSjobs s t'
            ↔ Parses doc.toJson answers ∧ HasDist doc.toJson
              ∧ OverInDoubles (sizes.map (· % 2 ^ 64)) available) t := by
      intro α render parts hp hmore
      obtain ⟨more, hbegun'⟩ := hmore
      have hne : parts ≠ [] := by
        intro hnil
        have hlen := congrArg List.length (hp.sizes_eq hsizes)
        rw [hnil, List.length_map, List.length_map, List.length_nil,
          List.length_eq_zero_iff] at hlen
        rw [hlen] at hpos
        cases hpos
      simp only [hparses, true_and,
        ← insufficientSpace_iff hp hdisk h.reported hsizes]
      exact admitJob_enforced h.id hp hne hbegun'
    rcases hfrom with ⟨_, _, hp, _, hmore, _⟩ | ⟨_, _, hp, _, hmore, _⟩
    · exact hrun hp hmore
    · exact hrun hp hmore
  · -- the parsing threw: the job has no error
    intro t hthrew
    obtain ⟨⟨more, hbegun'⟩, hnot⟩ := hthrew
    exact iff_of_false (fun hin => hbegun'.not_inError hin.1)
      fun hcond => hnot hcond.1

/-- A launcher, and certificates of the user. -/
def certifiedPremises : Premises where
  sites := [⟨sampleId, [("url", .str "site.example")]⟩]
  usercerts := [⟨sampleId, [("cert", .str "c"), ("keypem", .str "k"),
    ("site", sampleId.toJson), ("user", sampleId.toJson)]⟩]
  hasLauncher := true
  generateProxyCert := fun key cert => .ok ⟨key, cert⟩
  ldGroupSize := 1000
  ldChecksum := false
  ldChecksumAlg := "none"

/-- One path of a disk, to another disk, with what is submitted under
"dst". -/
def sampleDocument (deadline : Int) (dst : Option Json) : Document where
  id := sampleId
  fields := [("deadline", .int deadline), ("dst", dst.getD .null),
    ("dstfile", .str (sampleId.text ++ "|dtn|disk|/in")),
    ("dstsite", sampleId.toJson),
    ("srcfile", .str (sampleId.text ++ "|dtn|disk|/data")),
    ("srcsite", sampleId.toJson), ("user", sampleId.toJson)]

def distMember : Json := .obj [("dist", .str "disk")]

/-- The path has one group of 1000 bytes, and there are 10 left. -/
def fullDisk : Int × Json :=
  (200, .obj [("code", .int 0),
    ("disk", .obj [("size", .obj [("available", .int 10)])]),
    ("error", .str "OK"),
    ("files", .obj [("groups", .arr [.obj [("size", .int 1000)]])]),
    ("total_size", .int 1000)])

def fullIntake (doc : Document) : Intake :=
  { sampleIntake fullDisk with rawjobs := [doc] }

/-- The size of a success. -/
def grantedSize (r : Int × Json) : Option Nat :=
  match r.2.get "total_size" with
  | .ok total =>
      if r.1 = 200 ∧ (textOf r.2 "error").toOption = some "OK"
          ∧ (codeOf r.2).toOption = some 0 then total.asUInt64.toOption
      else none
  | .error _ => none

theorem grantedSize_spec {r : Int × Json} {size : Nat}
    (h : grantedSize r = some size) : Granted r size := by
  unfold grantedSize at h
  split at h
  · rename_i total htotal
    split at h
    · rename_i hsuccess
      exact ⟨hsuccess.1, toOption_eq_some hsuccess.2.1,
        toOption_eq_some hsuccess.2.2, total, htotal, toOption_eq_some h⟩
    · cases h
  · cases h

/-- The groups of an answer can be stored. -/
def groupsStorable (v : Json) : Bool :=
  match (do let files ← v.get "files"; files.get "groups") with
  | .ok groups => groups.items.all fun group => (groupDoc group).toBool
  | .error _ => false

theorem groupsStorable_spec {v : Json} (h : groupsStorable v = true) :
    HasGroups v := by
  unfold groupsStorable at h
  split at h
  · rename_i groups hgroups
    obtain ⟨files, hfiles, hgroups⟩ := bind_eq_ok.1 hgroups
    refine ⟨files, groups, hfiles, hgroups, ?_⟩
    intro group hgroup
    have hstored := List.all_eq_true.1 h group hgroup
    cases hdoc : groupDoc group with
    | error e =>
        rw [hdoc] at hstored
        cases hstored
    | ok fields => exact ⟨fields, rfl⟩
  · cases h

/-- The sizes of the storages of a plain job, whose groups can all be
stored. -/
def plainTotals (pr : Premises) (job : Json) (s : Intake) :
    Option (List (Option Nat)) :=
  match (parseDestination pr job).run s with
  | .ok (.ok (false, job')) t =>
      match (nameSources pr job').run t.mail with
      | .ok (.ok (_, smap)) m =>
          if (m.next smap.length).all fun r => groupsStorable r.2 then
            some ((m.next smap.length).map grantedSize)
          else none
      | _ => none
  | _ => none

theorem plainTotals_spec {pr : Premises} {job : Json} {s : Intake}
    {sizes : List Nat} (h : plainTotals pr job s = some (sizes.map some)) :
    ∃ answers, Totals pr job s answers sizes
      ∧ ∀ r ∈ answers, HasGroups r.2 := by
  unfold plainTotals at h
  split at h
  · rename_i job' t hdst
    split at h
    · rename_i site smap m hname
      split at h
      · rename_i hgroups
        injection h with h
        refine ⟨_, .plain hdst hname ?_, ?_⟩
        · rw [← List.forall₂_eq_eq_eq, List.forall₂_map_left_iff,
            List.forall₂_map_right_iff] at h
          exact h.imp fun _ _ hr => grantedSize_spec hr
        · intro r hr
          exact groupsStorable_spec (List.all_eq_true.1 hgroups r hr)
      · cases h
    · cases h
  · cases h

/-- The job of 1000 bytes does not fit. -/
theorem fullIntake_short {deadline : Int} {dst : Option Json}
    (h : plainTotals certifiedPremises (sampleDocument deadline dst).toJson
      (fullIntake (sampleDocument deadline dst)) = some [some 1000]) :
    ∃ answers, Shortage certifiedPremises sampleId.text
        (fullIntake (sampleDocument deadline dst)) (sampleDocument deadline dst)
        answers [1000] 10
      ∧ ∀ r ∈ answers, HasGroups r.2 := by
  have hspec : ∃ answers, Totals certifiedPremises
      (sampleDocument deadline dst).toJson
      (fullIntake (sampleDocument deadline dst)) answers [1000]
      ∧ ∀ r ∈ answers, HasGroups r.2 := plainTotals_spec h
  obtain ⟨answers, htotals, hgroups⟩ := hspec
  refine ⟨answers, ⟨ObjectId.parse_text _, rfl, rfl, rfl, ?_, htotals,
    by decide⟩, hgroups⟩
  exact ⟨_, _, _, rfl, rfl, rfl, rfl⟩

/-- With a member `dist` the job is in error if the doubles compare so,
unless its deadline is 0; without one it is not. -/
theorem space_enforced_full :
    (SpaceEnforced certifiedPremises sampleId.text sampleId
        (fullIntake (sampleDocument 60 (some distMember)))
        ↔ OverInDoubles [1000] 10)
      ∧ ¬ SpaceEnforced certifiedPremises sampleId.text sampleId
        (fullIntake (sampleDocument 0 (some distMember)))
      ∧ ¬ SpaceEnforced certifiedPremises sampleId.text sampleId
        (fullIntake (sampleDocument 60 none)) := by
  refine ⟨?_, ?_, ?_⟩
  · obtain ⟨answers, hshort, hgroups⟩ := fullIntake_short
      (show plainTotals certifiedPremises
        (sampleDocument 60 (some distMember)).toJson
        (fullIntake (sampleDocument 60 (some distMember))) = _ by
          decide +kernel)
    have hiff := space_enforced_iff hshort
    have hdivisible : Divisible
        (sampleDocument 60 (some distMember)).toJson :=
      ⟨60000, by decide +kernel, by decide⟩
    have hdist : HasDist (sampleDocument 60 (some distMember)).toJson :=
      ⟨distMember, .str "disk", rfl, rfl, rfl⟩
    exact hiff.trans ⟨fun h => h.2.2, fun h => ⟨⟨hdivisible, hgroups⟩, hdist, h⟩⟩
  · obtain ⟨answers, hshort, _⟩ := fullIntake_short
      (show plainTotals certifiedPremises
        (sampleDocument 0 (some distMember)).toJson
        (fullIntake (sampleDocument 0 (some distMember))) = _ by
          decide +kernel)
    refine (space_enforced_iff hshort).not.mpr ?_
    intro h
    obtain ⟨time, htime, hne⟩ := h.1.divisible
    have hzero : durationOf (sampleDocument 0 (some distMember)).toJson
        = .ok 0 := rfl
    rw [hzero] at htime
    injection htime with htime
    exact hne (htime ▸ rfl)
  · obtain ⟨answers, hshort, _⟩ := fullIntake_short
      (show plainTotals certifiedPremises (sampleDocument 60 none).toJson
        (fullIntake (sampleDocument 60 none)) = _ by decide +kernel)
    refine (space_enforced_iff hshort).not.mpr ?_
    intro h
    obtain ⟨dst, dist, hdst, hdist, hempty⟩ := h.2.1
    have hnull : (sampleDocument 60 none).toJson.get "dst" = .ok .null := rfl
    rw [hnull] at hdst
    injection hdst with hdst
    subst hdst
    injection hdist with hdist
    rw [← hdist] at hempty
    cases hempty

/-- A job of 1000 bytes goes to a disk with 10 bytes left. -/
theorem space_not_enforced :
    ∃ answers, Shortage certifiedPremises sampleId.text
        (fullIntake (sampleDocument 60 none)) (sampleDocument 60 none) answers
        [1000] 10
      ∧ ¬ SpaceEnforced certifiedPremises sampleId.text sampleId
        (fullIntake (sampleDocument 60 none)) := by
  obtain ⟨answers, hshort, _⟩ := fullIntake_short
    (show plainTotals certifiedPremises (sampleDocument 60 none).toJson
      (fullIntake (sampleDocument 60 none)) = _ by decide +kernel)
  refine ⟨answers, hshort, ?_⟩
  intro henforced
  obtain ⟨_, new, hnew, hall⟩ := henforced
  have hinserts : (after (bootstrapTransferJob certifiedPremises
      sampleId.text) (fullIntake (sampleDocument 60 none))).inserts
      = [(.block, sampleId), (.sjob, sampleId)] := by decide +kernel
  have hboth : [(.block, sampleId), (.sjob, sampleId)] = new :=
    hinserts.symm.trans hnew
  refine hall (.sjob, sampleId) ?_ rfl
  rw [← hboth]
  exact List.mem_cons_of_mem _ (List.mem_cons_self ..)

end BigDataExpress
