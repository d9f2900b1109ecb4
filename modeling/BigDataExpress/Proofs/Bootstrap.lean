/-
The steps of a bootstrap, one by one: what the inquiries find out, and
how the sjobs of an accepted job are stored.

The inquiries do not touch the database, so of them only what the later
steps rely on is stated: the sites were found. What follows the parsing
cannot fail any more but for the check of the space (`storeSjobs_run`).
-/
import BigDataExpress.Proofs.Intake

namespace BigDataExpress

open Stateful

-- ============================================================= fields

/-- The members with several assigned, one after the other. -/
def Json.assignAll (fields : List (String × Json)) :
    List (String × Json) → List (String × Json)
  | [] => fields
  | (key, v) :: rest => assignAll (assign key v fields) rest

theorem setFields_obj (kvs fields : List (String × Json)) :
    setFields (.obj fields) kvs = .ok (.obj (Json.assignAll fields kvs)) := by
  induction kvs generalizing fields with
  | nil => rfl
  | cons kv rest ih =>
      obtain ⟨key, v⟩ := kv
      exact ih _

theorem Json.object_eq (kvs : List (String × Json)) :
    Json.object kvs = .obj (Json.assignAll [] kvs) := by
  have hfold : ∀ (kvs fields : List (String × Json)),
      kvs.foldl (fun acc kv => Json.assign kv.1 kv.2 acc) fields
        = Json.assignAll fields kvs := by
    intro kvs
    induction kvs with
    | nil => intro fields; rfl
    | cons kv rest ih => intro fields; exact ih _
  unfold Json.object
  rw [hfold]

-- ============================================================ inquiries

variable {pr : Premises} {m : Mail}

/-- The sites that are looked up can be. -/
def Premises.Knows (pr : Premises) (site : String) : Prop :=
  ∃ info, pr.getSiteInfo site = .ok info

/-- A job whose destination has been worked out. -/
structure Directed (pr : Premises) (o : ObjectId) (job dst : Json) :
    Prop where
  isOf : job.IsOf o
  type : job.Has "type" (.str "best_effort")
  has_dst : job.Has "dst" dst
  site : ∃ site s, dst.Has "site" site ∧ site.Has "$oid" (.str s)
    ∧ pr.Knows s

/-- The first key of an assignment leads to the rest of it. -/
theorem Json.setIn_has {v w x : Json} {key : String} {keys : List String}
    (h : v.setIn (key :: keys) x = .ok w) :
    ∃ inner y, v.get key = .ok inner ∧ inner.setIn keys x = .ok y
      ∧ w.Has key y := by
  unfold Json.setIn at h
  obtain ⟨inner, hinner, h⟩ := bind_eq_ok.1 h
  obtain ⟨y, hy, hw⟩ := bind_eq_ok.1 h
  exact ⟨inner, y, hinner, hy, has_of_set hw⟩

/-- The last one is a plain assignment. -/
theorem Json.setIn_one {v w x : Json} {key : String}
    (h : v.setIn [key] x = .ok w) : v.set key x = .ok w := by
  unfold Json.setIn at h
  obtain ⟨inner, _, h⟩ := bind_eq_ok.1 h
  obtain ⟨y, hy, hw⟩ := bind_eq_ok.1 h
  cases hy
  exact hw

/-- `job["dst"][key] = x`, of a destination that is an object. -/
theorem Json.setIn_dst {job dst w x : Json} {key : String}
    (h : job.Has "dst" dst) (hw : job.setIn ["dst", key] x = .ok w) :
    ∃ dst', dst.set key x = .ok dst' ∧ w.Has "dst" dst' := by
  obtain ⟨inner, y, hinner, hy, hhas⟩ := setIn_has hw
  rw [h.get] at hinner
  injection hinner with hinner
  subst hinner
  exact ⟨y, setIn_one hy, hhas⟩

namespace Directed

variable {o : ObjectId} {job dst w x : Json} {key : String}

theorem setIn (h : Directed pr o job dst) (hk : key ≠ "site")
    (hw : job.setIn ["dst", key] x = .ok w) :
    ∃ dst', dst.set key x = .ok dst' ∧ Directed pr o w dst' := by
  obtain ⟨dst', hset, hhas⟩ := Json.setIn_dst h.has_dst hw
  obtain ⟨site, s, hsite, hoid, hknows⟩ := h.site
  exact ⟨dst', hset, Json.Has.setIn h.isOf (by decide) hw,
    h.type.setIn (by decide) hw, hhas, site, s, hsite.set hk hset, hoid,
    hknows⟩

theorem set (h : Directed pr o job dst)
    (hk : key ≠ "_id" ∧ key ≠ "type" ∧ key ≠ "dst")
    (hw : job.set key x = .ok w) : Directed pr o w dst :=
  ⟨Json.Has.set h.isOf hk.1 hw, h.type.set hk.2.1 hw,
    h.has_dst.set hk.2.2 hw, h.site⟩

theorem removeMember (h : Directed pr o job dst)
    (hk : "_id" ≠ key ∧ "type" ≠ key ∧ "dst" ≠ key) :
    Directed pr o (job.removeMember key) dst :=
  ⟨Json.Has.removeMember h.isOf hk.1, h.type.removeMember hk.2.1,
    h.has_dst.removeMember hk.2.2, h.site⟩

end Directed

/-- The destination as it is written into the job, with the disk of the
answer. -/
theorem withDestination_directed {o : ObjectId} {job job' answer : Json}
    {site dtn storage path : String} (h : job.IsOf o)
    (htype : job.Has "type" (.str "best_effort")) (hsite : pr.Knows site)
    (hw : withDestination job site dtn storage path answer = .ok job') :
    ∃ dst disk, Directed pr o job' dst ∧ answer.get "disk" = .ok disk
      ∧ dst.Has "disk" disk := by
  unfold withDestination at hw
  obtain ⟨job₁, h₁, hw⟩ := bind_eq_ok.1 hw
  obtain ⟨job₂, h₂, hw⟩ := bind_eq_ok.1 hw
  obtain ⟨job₃, h₃, hw⟩ := bind_eq_ok.1 hw
  obtain ⟨node, _, hw⟩ := bind_eq_ok.1 hw
  obtain ⟨addr, _, hw⟩ := bind_eq_ok.1 hw
  obtain ⟨job₄, h₄, hw⟩ := bind_eq_ok.1 hw
  obtain ⟨job₅, h₅, hw⟩ := bind_eq_ok.1 hw
  obtain ⟨disk, hdisk, hw⟩ := bind_eq_ok.1 hw
  obtain ⟨job₆, h₆, hw⟩ := bind_eq_ok.1 hw
  injection hw with hw
  subst hw
  -- the site goes in first, and nothing later touches it
  have hdir : ∃ dst, Directed pr o job₁ dst := by
    obtain ⟨_, dst, _, hy, hhas⟩ := Json.setIn_has h₁
    obtain ⟨_, s, _, hs, hsites⟩ := Json.setIn_has hy
    exact ⟨dst, Json.Has.setIn h (by decide) h₁,
      htype.setIn (by decide) h₁, hhas, s, site, hsites,
      Json.has_of_set (Json.setIn_one hs), hsite⟩
  obtain ⟨dst₁, hdir⟩ := hdir
  obtain ⟨dst₂, _, hdir⟩ := hdir.setIn (by decide) h₂
  obtain ⟨dst₃, _, hdir⟩ := hdir.setIn (by decide) h₃
  obtain ⟨dst₄, _, hdir⟩ := hdir.setIn (by decide) h₄
  obtain ⟨dst₅, _, hdir⟩ := hdir.setIn (by decide) h₅
  obtain ⟨dst₆, hset, hdir⟩ := hdir.setIn (by decide) h₆
  refine ⟨dst₆, disk, ?_, hdisk, Json.has_of_set hset⟩
  exact (hdir.removeMember (by decide)).removeMember (by decide)

/-- `parse_raw_job_dst`, returning, has asked once and has put the disk
of the answer into the destination. -/
theorem parseRawJobDst_spec {o : ObjectId} {job : Json} (h : job.IsOf o)
    (htype : job.Has "type" (.str "best_effort")) :
    tri (parseRawJobDst pr job)
      (fun job' m' => ∃ dst disk, Directed pr o job' dst
        ∧ (m.outcomes m.posts.length).1 = 200
        ∧ (m.outcomes m.posts.length).2.get "disk" = .ok disk
        ∧ dst.Has "disk" disk ∧ m'.outcomes = m.outcomes
        ∧ m'.posts.length = m.posts.length + 1)
      (fun _ _ => True) (fun _ => True) m := by
  unfold parseRawJobDst Inquiry.read Inquiry.post
  simp only [tri_bind, tri_perform, wp_ofExcept, implies_true, and_true]
  intro dstsite _ dstfile _
  split
  · split
    · trivial
    · simp only [tri_bind, tri_perform, wp_ofExcept, implies_true, and_true]
      intro info hinfo url _
      change tri _ _ _ _ _
      split
      · trivial
      · rename_i hcode
        simp only [tri_perform, wp_ofExcept, implies_true, and_true]
        intro job' hjob'
        obtain ⟨dst, disk, hdir, hdisk, hhas⟩ :=
          withDestination_directed h htype ⟨info, hinfo⟩ hjob'
        refine ⟨dst, disk, hdir, of_not_not hcode, hdisk, hhas, ?_⟩
        simp
  · trivial

-- ============================================================ listings

section listings

variable {α : Type} {siteInfo : Json} {srcsite : String}

/-- What the loop over the sources keeps: the storages are of one site,
and once there is one, its portal has been asked. -/
structure Gathered.Sited (siteInfo : Json) (srcsite : String)
    (g : Gathered α) : Prop where
  site : ∀ s ∈ g.smap, s.srcsite = srcsite
  url : g.dtninfo ≠ [] → ∃ url, commandUrl siteInfo = .ok url
  asked : g.smap ≠ [] → g.dtninfo ≠ []

theorem Gathered.Sited.init :
    ({} : Gathered α).Sited siteInfo srcsite := by
  refine ⟨?_, fun h => absurd rfl h, fun h => absurd rfl h⟩
  intro s hs
  cases hs

theorem mem_addStorage {s t : Source α} {smap : List (Source α)}
    (h : t ∈ addStorage s smap) : t = s ∨ t ∈ smap := by
  induction smap with
  | nil => exact .inl (List.mem_singleton.1 h)
  | cons u rest ih =>
      unfold addStorage at h
      split at h
      · exact (List.mem_cons.1 h).imp_right id
      · rcases List.mem_cons.1 h with h | h
        · exact .inr (h ▸ List.mem_cons_self ..)
        · exact (ih h).imp_right fun h => List.mem_cons_of_mem _ h

theorem lookup_ne_nil {key : String} {fields : List (String × Json)}
    (h : (Json.lookup key fields).isSome = true) : fields ≠ [] := by
  intro hnil
  rw [hnil] at h
  cases h

theorem assign_ne_nil (key : String) (v : Json)
    (fields : List (String × Json)) : Json.assign key v fields ≠ [] := by
  intro hnil
  have hlook := Json.lookup_assign key key v fields
  rw [hnil, if_pos rfl] at hlook
  cases hlook

/-- A DTN is known after it was asked for. -/
theorem dtnInfo_spec {dtn : String} {info : List (String × Json)}
    (hurl : info ≠ [] → ∃ url, commandUrl siteInfo = .ok url) :
    tri (dtnInfo siteInfo dtn info)
      (fun info' m' => info' ≠ [] ∧ (∃ url, commandUrl siteInfo = .ok url)
        ∧ m'.outcomes = m.outcomes)
      (fun _ _ => True) (fun _ => True) m := by
  unfold dtnInfo
  split
  · rename_i hsome
    have hne := lookup_ne_nil hsome
    exact ⟨hne, hurl hne, rfl⟩
  · unfold Inquiry.read Inquiry.post
    simp only [tri_bind, tri_perform, wp_ofExcept, implies_true, and_true]
    intro url hok
    change tri _ _ _ _ _
    split
    · trivial
    · simp only [tri_bind, tri_perform, wp_ofExcept, implies_true,
        and_true]
      intro node _
      exact ⟨assign_ne_nil _ _ _, ⟨url, hok⟩, rfl⟩

theorem gatherSource_spec {fields : List String}
    {entry : String → Except String α} {g : Gathered α}
    (h : g.Sited siteInfo srcsite) :
    tri (gatherSource siteInfo srcsite fields entry g)
      (fun g' m' => g'.Sited siteInfo srcsite ∧ m'.outcomes = m.outcomes)
      (fun _ _ => True) (fun _ => True) m := by
  unfold gatherSource
  split
  · rename_i site dtn store path
    split
    · trivial
    · rw [tri_bind]
      refine (dtnInfo_spec h.url).mono ?_ (fun _ _ _ => trivial)
        fun _ _ => trivial
      intro info m' hinfo
      obtain ⟨hne, hurl, hout⟩ := hinfo
      unfold Inquiry.read
      simp only [tri_bind, tri_perform, wp_ofExcept, implies_true,
        and_true]
      intro g₁ hg₁ e _
      refine ⟨?_, hout⟩
      -- the storage may be new; its path is appended either way
      have hg : (∀ s ∈ g₁.smap, s.srcsite = srcsite) ∧ g₁.dtninfo = info := by
        unfold initStorage at hg₁
        split at hg₁
        · injection hg₁ with hg₁
          subst hg₁
          exact ⟨h.site, rfl⟩
        · obtain ⟨addr, _, hg₁⟩ := bind_eq_ok.1 hg₁
          injection hg₁ with hg₁
          subst hg₁
          refine ⟨?_, rfl⟩
          intro s hs
          rcases mem_addStorage hs with rfl | hs
          · rfl
          · exact h.site s hs
      refine ⟨?_, fun _ => hurl, fun _ => by rw [hg.2]; exact hne⟩
      intro s hs
      rcases Collection.mem_updateOne hs with hs | ⟨t, ht, _, rfl⟩
      · exact hg.1 s hs
      · exact hg.1 t ht
  · trivial

theorem gatherSources_spec (srcs : List String) {g : Gathered String}
    {m₀ : Mail} (h : g.Sited siteInfo srcsite)
    (hm : m.outcomes = m₀.outcomes) :
    tri (gatherSources siteInfo srcsite srcs g)
      (fun g' m' => g'.Sited siteInfo srcsite ∧ m'.outcomes = m₀.outcomes)
      (fun _ _ => True) (fun _ => True) m := by
  induction srcs generalizing g m with
  | nil => exact ⟨h, hm⟩
  | cons src rest ih =>
      unfold gatherSources
      rw [tri_bind]
      refine (gatherSource_spec h).mono ?_ (fun _ _ _ => trivial)
        fun _ _ => trivial
      intro g' m' hg
      exact ih hg.1 (hg.2.trans hm)

theorem gatherFiles_spec (files : List Json) {g : Gathered DatasetEntry}
    {m₀ : Mail} (h : g.Sited siteInfo srcsite)
    (hm : m.outcomes = m₀.outcomes) :
    tri (gatherFiles siteInfo srcsite files g)
      (fun g' m' => g'.Sited siteInfo srcsite ∧ m'.outcomes = m₀.outcomes)
      (fun _ _ => True) (fun _ => True) m := by
  induction files generalizing g m with
  | nil => exact ⟨h, hm⟩
  | cons file rest ih =>
      unfold gatherFiles Inquiry.read
      simp only [tri_bind, tri_perform, wp_ofExcept, implies_true,
        and_true]
      intro src _ dst _ size _
      refine (gatherSource_spec h).mono ?_ (fun _ _ _ => trivial)
        fun _ _ => trivial
      intro g' m' hg
      exact ih hg.1 (hg.2.trans hm)

/-- A listing of storages of one site that is known, with a duration. -/
structure Listed.Sited (pr : Premises) (job : Json) (l : Listed α) :
    Prop where
  site : ∃ srcsite, pr.Knows srcsite ∧ ∀ s ∈ l.smap, s.srcsite = srcsite
  url : l.smap ≠ [] → ∃ url, commandUrl l.siteInfo = .ok url
  time : durationOf job = .ok l.time

theorem Gathered.Sited.listed {job : Json} {g : Gathered α} {time : Int}
    (h : g.Sited siteInfo srcsite)
    (hinfo : pr.getSiteInfo srcsite = .ok siteInfo)
    (htime : durationOf job = .ok time) :
    (⟨siteInfo, g.smap, time⟩ : Listed α).Sited pr job :=
  ⟨⟨srcsite, ⟨siteInfo, hinfo⟩, h.site⟩, fun hne => h.url (h.asked hne),
    htime⟩

theorem listSources_spec {job : Json} :
    tri (listSources pr job)
      (fun l m' => l.Sited pr job ∧ m'.outcomes = m.outcomes)
      (fun _ _ => True) (fun _ => True) m := by
  unfold listSources Inquiry.read
  simp only [tri_bind, tri_perform, wp_ofExcept, implies_true, and_true]
  intro user _ srcsite _ srcfile _ siteInfo hinfo
  refine (gatherSources_spec _ .init rfl).mono ?_ (fun _ _ _ => trivial)
    fun _ _ => trivial
  intro g m' hg
  simp only [tri_pure]
  intro time htime
  exact ⟨hg.1.listed hinfo htime, hg.2⟩

theorem listFiles_spec {job : Json} :
    tri (listFiles pr job)
      (fun l m' => l.Sited pr job ∧ m'.outcomes = m.outcomes)
      (fun _ _ => True) (fun _ => True) m := by
  unfold listFiles Inquiry.read
  simp only [tri_bind, tri_perform, wp_ofExcept, implies_true, and_true]
  intro user _ srcsite _ siteInfo hinfo files _
  refine (gatherFiles_spec _ .init rfl).mono ?_ (fun _ _ _ => trivial)
    fun _ _ => trivial
  intro g m' hg
  simp only [tri_pure]
  intro time htime
  exact ⟨hg.1.listed hinfo htime, hg.2⟩

end listings

-- ============================================================ the sjobs

section sjobs

variable {α : Type} {render : α → Json} {o : ObjectId} {job dst : Json}

/-- What the sjob of a part is: in state bootstrap, with the part's
blocks and no flow. -/
structure SjobOf (o : ObjectId) (job : Json) (p : Part α)
    (fields : List (String × Json)) : Prop where
  rawjob : Json.lookup "rawjob" fields = some o.toJson
  state : Json.lookup "state" fields = some (.int 12)
  type : ∃ v, job.get "type" = .ok v ∧ Json.lookup "type" fields = some v
  flows : Json.lookup "flows" fields = some (.arr [])
  blocks : Json.lookup "blocks" fields = some (.arr p.blocks)

/-- A member of an object, null when it is missing. -/
def Json.field (fields : List (String × Json)) (key : String) : Json :=
  (Json.lookup key fields).getD .null

/-- What `create_per_storage_job` assigns to an element of `job["src"]`. -/
def assigned (job dst s : List (String × Json)) : List (String × Json) :=
  [("rawjob", Json.field job "_id"), ("type", Json.field job "type"),
    ("submittedat", Json.field job "submittedat"),
    ("priority", Json.field job "priority"),
    ("dstsite", Json.field dst "site"),
    ("dststorage", Json.field dst "storage"),
    ("dstdtn", Json.field dst "dtn"),
    ("dstdtn_addr", Json.field dst "dtn_addr"),
    ("dstpath", Json.field dst "path"), ("rate", Json.field s "baserate")]

theorem perStorageJob_obj {jf df sf : List (String × Json)}
    (hdst : Json.lookup "dst" jf = some (.obj df)) :
    perStorageJob (.obj jf) (.obj sf)
      = .ok (.obj (Json.assignAll sf (assigned jf df sf))) := by
  unfold perStorageJob
  simp only [Json.get_obj, hdst, Option.getD_some, setFields_obj, bind,
    Except.bind]
  rfl

/-- What the bootstrap assigns to an sjob. -/
def initialFields (checksum : Bool) : List (String × Json) :=
  [("state", .int 12), ("tx_bytes", .int 0), ("max_flows", .int 1),
    ("flows", .arr []), ("transfer_retry", .int 0), ("path_retry", .int 0),
    ("stage", initialStages checksum)]

theorem initialSjob_obj (fields : List (String × Json)) :
    initialSjob pr (.obj fields)
      = .ok (.obj (Json.assignAll fields (initialFields pr.ldChecksum))) :=
  setFields_obj _ _

/-- The members of a part. -/
def partFields (render : α → Json) (p : Part α) : List (String × Json) :=
  [("srcsite", .obj [("$oid", .str p.srcsite)]),
    ("srcstorage", .str p.srcstorage), ("srcdtn", .str p.srcdtn),
    ("srcdtn_addr", p.srcdtnAddr), ("srcpath", .arr (p.srcpath.map render)),
    ("size", .int p.size), ("baserate", .int p.baserate),
    ("blocks", .arr p.blocks), ("files", .int p.files)]

theorem Part.toJson_eq (p : Part α) :
    p.toJson render = .obj (Json.assignAll [] (partFields render p)) :=
  Json.object_eq _

theorem perStorageJob_run (h : Directed pr o job dst) (p : Part α) :
    ∃ s fields, perStorageJob job (p.toJson render) = .ok s
      ∧ oidOf s "srcsite" = .ok p.srcsite
      ∧ (∃ site, oidOf s "dstsite" = .ok site ∧ pr.Knows site)
      ∧ initialSjob pr s = .ok (.obj fields) ∧ SjobOf o job p fields := by
  obtain ⟨jf, rfl, hid⟩ := h.isOf
  obtain ⟨_, hj, hdst⟩ := h.has_dst
  cases hj
  obtain ⟨site, sid, ⟨df, rfl, hsite⟩, ⟨sf, rfl, hoid⟩, hknows⟩ := h.site
  rw [Part.toJson_eq, perStorageJob_obj hdst]
  refine ⟨_, _, rfl, ?_, ⟨sid, ?_, hknows⟩, initialSjob_obj _, ?_⟩
  · refine oidOf_of_has ⟨_, rfl, ?_⟩
    simp [Json.assignAll, assigned, partFields, Json.lookup_assign]
  · have hfield : Json.lookup "dstsite" (Json.assignAll
        (Json.assignAll [] (partFields render p))
        (assigned jf df (Json.assignAll [] (partFields render p))))
        = some (.obj sf) := by
      simp [Json.assignAll, assigned, Json.lookup_assign, Json.field, hsite]
    refine bind_eq_ok.2 ⟨.obj sf, ?_, bind_eq_ok.2 ⟨.str sid, ?_, rfl⟩⟩
    · rw [Json.get_obj, hfield]
      rfl
    · rw [Json.get_obj, hoid]
      rfl
  · refine ⟨?_, ?_, ⟨_, rfl, ?_⟩, ?_, ?_⟩
    all_goals
      simp [Json.assignAll, assigned, initialFields, partFields,
        Json.lookup_assign, Json.field, hid]

/-- An sjob that can be stored for a part. -/
def Storable (pr : Premises) (o : ObjectId) (job : Json) (p : Part α)
    (s : Json) : Prop :=
  ∃ fields, oidOf s "srcsite" = .ok p.srcsite
    ∧ (∃ site, oidOf s "dstsite" = .ok site ∧ pr.Knows site)
    ∧ initialSjob pr s = .ok (.obj fields) ∧ SjobOf o job p fields

theorem mapM_perStorageJob (h : Directed pr o job dst)
    (parts : List (Part α)) :
    ∃ sjobs, (parts.map (Part.toJson render)).mapM (perStorageJob job)
        = .ok sjobs ∧ List.Forall₂ (Storable pr o job) parts sjobs := by
  induction parts with
  | nil => exact ⟨[], rfl, .nil⟩
  | cons p rest ih =>
      obtain ⟨sjobs, hmap, hall⟩ := ih
      obtain ⟨s, fields, (hs : perStorageJob job (p.toJson render) = _),
        hstore⟩ := perStorageJob_run h p
      refine ⟨s :: sjobs, ?_, .cons ⟨fields, hstore⟩ hall⟩
      rw [List.map_cons, List.mapM_cons, hs, hmap]
      rfl

theorem createPerStorageJob_run (h : Directed pr o job dst)
    {parts : List (Part α)}
    (hsrc : job.Has "src" (.arr (parts.map (Part.toJson render)))) :
    ∃ sjobs, createPerStorageJob job = .ok sjobs
      ∧ List.Forall₂ (Storable pr o job) parts sjobs := by
  unfold createPerStorageJob
  rw [hsrc.get]
  exact mapM_perStorageJob h parts

/-- From `s` to `t`, the sjobs of the parts were inserted. -/
def Inserted (o : ObjectId) (job : Json) (parts : List (Part α))
    (sjobs : List Document) (s t : Intake) : Prop :=
  ∃ docs : List Document, t.sjobs = sjobs ++ docs
    ∧ List.Forall₂ (fun p d => SjobOf o job p d.fields) parts docs
    ∧ t.inserts = s.inserts ++ docs.map (fun d => (.sjob, d.id))
    ∧ t.blocks = s.blocks ∧ t.rawjobs = s.rawjobs

theorem insertSjobs_run {parts : List (Part α)} {sjobs : List Json}
    (h : List.Forall₂ (Storable pr o job) parts sjobs) (s : Intake) :
    wp (insertSjobs pr sjobs)
      (fun _ t => Inserted o job parts s.sjobs s t) (fun _ => False) s := by
  induction h generalizing s with
  | nil => exact ⟨[], by simp, .nil, by simp, rfl, rfl⟩
  | @cons p x parts sjobs hx hrest ih =>
      obtain ⟨fields, _, _, hinit, hof⟩ := hx
      unfold insertSjobs Boot.read
      rw [hinit, wp_bind]
      change wp (insertSjobs pr sjobs) _ _ _
      refine (ih _).mono ?_ fun _ hf => hf
      intro _ t ht
      obtain ⟨docs, hs, hall, hins, hblocks, hraw⟩ := ht
      refine ⟨⟨s.oids s.inserts.length, fields⟩ :: docs, ?_,
        .cons hof hall, ?_, hblocks, hraw⟩
      · rw [hs, List.append_assoc]
        rfl
      · rw [hins, List.append_assoc]
        rfl

/-- Storing the sjobs of a job with a source storage does not fail. -/
theorem storeSjobs_run (h : Directed pr o job dst) {p : Part α}
    {parts : List (Part α)} {sjobs : List Json}
    (hall : List.Forall₂ (Storable pr o job) (p :: parts) sjobs)
    (hknows : pr.Knows p.srcsite) (s : Intake) :
    wp (storeSjobs pr job sjobs)
      (fun _ t => Inserted o job (p :: parts)
        (s.sjobs.filter fun d => !d.refersTo "rawjob" o) s t)
      (fun _ => False) s := by
  have hinsert := fun s => insertSjobs_run hall s
  cases hall with
  | @cons _ x _ sjobs hx hrest =>
      obtain ⟨fields, hsrc, ⟨site, hdst, dinfo, hdinfo⟩, _, _⟩ := hx
      obtain ⟨sinfo, hsinfo⟩ := hknows
      have htype : textOf job "type" = .ok "best_effort" := by
        unfold textOf
        rw [h.type.get]
        rfl
      have hdel : ∀ (Q : Unit → Intake → Prop),
          wp (Boot.delSjobs o.text) Q (fun _ => False) s
            ↔ Q () { s with
                sjobs := s.sjobs.filter fun d => !d.refersTo "rawjob" o } := by
        intro Q
        unfold Boot.delSjobs Boot.read
        rw [ObjectId.parse_text, wp_bind]
        rfl
      unfold storeSjobs Boot.read
      rw [List.headD_cons, wp_bind, wp_read_ok hsrc, wp_bind,
        wp_read_ok hsinfo, wp_bind, wp_read_ok hdst, wp_bind,
        wp_read_ok hdinfo, wp_bind, wp_read_ok h.isOf.oidOf, wp_bind, hdel,
        wp_bind]
      refine (hinsert _).mono ?_ fun _ hf => hf
      intro _ t ht
      rw [wp_bind, wp_read_ok htype]
      exact ht

end sjobs

end BigDataExpress
