/-
A bootstrap up to the point where its job is parsed.

Nothing that comes before the sjobs are stored touches the sjobs or puts
the rawjob in error, and what it leaves behind are blocks
(`parseRawJob_begun`): none while the listing is made, and those of the
storages before where one is refused. The job that comes out of it has
its destination and its storages (`Parsed`), and the bootstrap goes on
with the check of the space and the sjobs, one for each of them
(`admitJob_run`).
-/
import BigDataExpress.Proofs.Listing

namespace BigDataExpress

open Stateful

variable {α : Type} {pr : Premises} {o : ObjectId} {s t : Intake}
  {new : List Document} {siteInfo dstPath : Json} {time : Int}

-- ========================================================== the blocks

/-- All blocks of a part are waiting. -/
def Part.Waiting (p : Part α) : Prop :=
  ∀ b ∈ p.blocks, b.get "state" = .ok (.int 0)

/-- What was begun, and some blocks more. -/
def BegunMore (o : ObjectId) (s : Intake) (new : List Document)
    (t : Intake) : Prop :=
  ∃ more, Begun o s (new ++ more) t

theorem Begun.more (h : Begun o s new t) : BegunMore o s new t :=
  ⟨[], by rw [List.append_nil]; exact h⟩

theorem BegunMore.trans {more : List Document}
    (h : BegunMore o s (new ++ more) t) : BegunMore o s new t := by
  obtain ⟨rest, h⟩ := h
  rw [List.append_assoc] at h
  exact ⟨more ++ rest, h⟩

theorem blockMeta_state (id : ObjectId) (size : Json) (files : Nat) :
    (blockMeta id size files).get "state" = .ok (.int 0) := by
  simp [blockMeta, Json.object_eq, Json.assignAll, Json.lookup_assign]

/-- Every group becomes a block that waits. -/
theorem insertGroups_begun (groups : List Json) (h : Begun o s new t) :
    wp (insertGroups groups)
      (fun r t' => ∃ more, Begun o s (new ++ more) t'
        ∧ t'.mail = t.mail ∧ r.1.length = groups.length
        ∧ more.length = groups.length
        ∧ ∀ b ∈ r.1, b.get "state" = .ok (.int 0))
      (BegunMore o s new) t := by
  induction groups generalizing new t with
  | nil =>
      refine ⟨[], ?_, rfl, rfl, rfl, fun b hb => by cases hb⟩
      rw [List.append_nil]
      exact h
  | cons group rest ih =>
      unfold insertGroups Boot.read
      simp only [wp_bind, wp_ofExcept]
      refine ⟨?_, fun _ _ => h.more⟩
      intro fields _
      refine h.insertBlock fields ?_
      intro id t₁ h₁ hmail
      refine (ih h₁).mono ?_ fun _ hb => hb.trans
      intro r t' hr
      obtain ⟨more, hbegun, hmail', hlen, hmore, hstate⟩ := hr
      rw [List.append_assoc] at hbegun
      refine ⟨_, hbegun, hmail'.trans hmail, ?_, ?_,
        List.forall_mem_cons.2 ⟨blockMeta_state .., hstate⟩⟩
      · exact congrArg (· + 1) hlen
      · exact congrArg (· + 1) hmore

/-- One storage: its groups become its blocks, or it is refused before
any was stored. -/
theorem expandStorage_begun (src : Source String) (h : Begun o s new t) :
    tri (expandStorage pr siteInfo dstPath time src)
      (fun p t' => p.toSource = src ∧ p.Waiting
        ∧ t'.mail.outcomes = t.mail.outcomes
        ∧ (∃ url, t'.mail.posts
            = t.mail.posts ++ [(url, groupRequest pr dstPath src)])
        ∧ (∃ x, readExpansion time (t.mail.outcomes t.mail.posts.length)
            = .ok (.ok x) ∧ p.blocks.length = x.groups.length)
        ∧ ∃ more, Begun o s (new ++ more) t'
          ∧ more.length = p.blocks.length)
      (fun _ t' => Begun o s new t') (BegunMore o s new) t := by
  unfold expandStorage Parse.read Parse.ask Inquiry.post
  simp only [tri_bind, tri_perform, tri_zoom, wp_ofExcept]
  refine ⟨?_, fun _ _ => h.more⟩
  intro url _
  change _ ∧ _
  have h₁ := h.mail { t.mail with
    posts := t.mail.posts ++ [(url, groupRequest pr dstPath src)] }
  refine ⟨?_, fun _ _ => h₁.more⟩
  intro r hr
  cases r with
  | error e => exact h₁
  | ok x =>
      dsimp only
      rw [tri_bind, tri_perform]
      refine (insertGroups_begun x.groups h₁).mono ?_ fun _ hb => hb
      intro r t' hr'
      obtain ⟨more, hbegun, hmail, hlen, hmore, hstate⟩ := hr'
      exact ⟨rfl, hstate, by rw [hmail], ⟨url, by rw [hmail]⟩,
        ⟨x, hr, hlen⟩, more, hbegun, hmore.trans hlen.symm⟩

/-- A storage was asked for, and its blocks are the groups that were
answered. -/
def Part.Answered (pr : Premises) (m : Mail) (p : Part String) : Prop :=
  ∃ n url dst time x,
    m.posts[n]? = some (url, groupRequest pr dst p.toSource)
      ∧ readExpansion time (m.outcomes n) = .ok (.ok x)
      ∧ p.blocks.length = x.groups.length

/-- The loop over the storages. -/
theorem expandStorages_begun (smap : List (Source String))
    (h : Begun o s new t) :
    tri (expandStorages pr siteInfo dstPath time smap)
      (fun parts t' => parts.map Part.toSource = smap
        ∧ (∀ p ∈ parts, p.Waiting ∧ p.Answered pr t'.mail)
        ∧ t'.mail.outcomes = t.mail.outcomes
        ∧ t.mail.posts <+: t'.mail.posts
        ∧ BegunMore o s new t' ∧ (smap = [] → Begun o s new t'))
      (fun _ t' => smap ≠ [] ∧ BegunMore o s new t'
        ∧ (smap.length ≤ 1 → Begun o s new t'))
      (BegunMore o s new) t := by
  induction smap generalizing new t with
  | nil =>
      refine ⟨rfl, ?_, rfl, List.prefix_refl _, h.more, fun _ => h⟩
      intro p hp
      cases hp
  | cons src rest ih =>
      unfold expandStorages
      rw [tri_bind]
      refine (expandStorage_begun src h).mono ?_ ?_ fun _ hb => hb
      · intro p t₁ hp
        obtain ⟨hsrc, hwait, hout, ⟨url, hposts⟩, ⟨x, hread, hlen⟩, more,
          h₁, _⟩ := hp
        rw [tri_bind]
        refine (ih h₁).mono ?_ ?_ fun _ hb => hb.trans
        · intro parts t' hparts
          obtain ⟨hmap, hall, hout', hprefix, hmore, _⟩ := hparts
          have hanswered : p.Answered pr t'.mail := by
            refine ⟨t.mail.posts.length, url, dstPath, time, x, ?_, ?_,
              hlen⟩
            · obtain ⟨later, hlater⟩ := hprefix
              rw [← hlater, hposts, hsrc, List.append_assoc,
                List.getElem?_append_right (Nat.le_refl _), Nat.sub_self]
              rfl
            · rw [hout', hout]
              exact hread
          refine ⟨?_, List.forall_mem_cons.2 ⟨⟨hwait, hanswered⟩, hall⟩,
            hout'.trans hout, ?_, hmore.trans, fun hnil => by cases hnil⟩
          · rw [List.map_cons, hsrc, hmap]
          · rw [hposts] at hprefix
            exact (List.prefix_append _ _).trans hprefix
        · intro _ t' hr
          obtain ⟨hne, hmore, _⟩ := hr
          refine ⟨List.cons_ne_nil _ _, hmore.trans, ?_⟩
          intro hlen
          have hpos := List.length_pos_iff.2 hne
          rw [List.length_cons] at hlen
          omega
      · intro _ t' hr
        exact ⟨List.cons_ne_nil _ _, hr.more, fun _ => hr⟩

/-- Every storage of a dataset gets one block that waits. -/
theorem datasetStorages_begun (smap : List (Source DatasetEntry))
    (h : Begun o s new t) :
    wp (datasetStorages time smap)
      (fun parts t' => parts.map Part.toSource = smap
        ∧ (∀ p ∈ parts, p.Waiting ∧ p.blocks ≠ [])
        ∧ t'.mail = t.mail
        ∧ BegunMore o s new t' ∧ (smap = [] → Begun o s new t'))
      (BegunMore o s new) t := by
  induction smap generalizing new t with
  | nil =>
      refine ⟨rfl, ?_, rfl, h.more, fun _ => h⟩
      intro p hp
      cases hp
  | cons src rest ih =>
      unfold datasetStorages datasetStorage Boot.read
      simp only [wp_bind, wp_ofExcept]
      refine ⟨?_, fun _ _ => h.more⟩
      intro size _
      refine h.insertBlock _ ?_
      intro id t₁ h₁ hmail
      refine ⟨?_, fun _ _ => h₁.more.trans⟩
      intro rate _
      rw [wp_pure]
      refine (ih h₁).mono ?_ fun _ hb => hb.trans
      intro parts t' hparts
      obtain ⟨hmap, hall, hmail', hmore, _⟩ := hparts
      refine ⟨?_, List.forall_mem_cons.2 ⟨⟨?_, List.cons_ne_nil _ _⟩, hall⟩,
        hmail'.trans hmail, hmore.trans, fun hnil => by cases hnil⟩
      · rw [List.map_cons, hmap]
      · intro b hb
        obtain rfl := List.mem_singleton.1 hb
        exact blockMeta_state ..

-- ====================================================== the parsed job

/-- What a job is that was parsed: it has its destination and, for each
of its storages, which are of sites that are known, blocks that wait. -/
structure Parsed (render : α → Json) (pr : Premises) (o : ObjectId)
    (dst : Json) (parts : List (Part α)) (parsed : Json) : Prop where
  directed : Directed pr o parsed dst
  src : parsed.Has "src" (.arr (parts.map (Part.toJson render)))
  size : parsed.Has "size" (.real (totalSize parts))
  knows : ∀ p ∈ parts, pr.Knows p.srcsite
  waiting : ∀ p ∈ parts, p.Waiting

/-- The sources are put into a job with a destination. -/
theorem withSources_begun {render : α → Json} {job dst : Json}
    {parts : List (Part α)} (hdir : Directed pr o job dst)
    (hknows : ∀ p ∈ parts, pr.Knows p.srcsite)
    (hwait : ∀ p ∈ parts, p.Waiting) :
    tri (withSources render job parts)
      (fun parsed t' => Parsed render pr o dst parts parsed
        ∧ t'.mail = t.mail
        ∧ ∀ s new, Begun o s new t → Begun o s new t')
      (fun _ _ => False) (fun _ => False) t := by
  obtain ⟨job₁, h₁⟩ := hdir.has_dst.set_ok "src"
    (.arr (parts.map (Part.toJson render)))
  have hdir₁ : Directed pr o
      ((job₁.removeMember "srcfile").removeMember "srcsite") dst :=
    ((hdir.set (by decide) h₁).removeMember (by decide)).removeMember
      (by decide)
  have hsrc := ((Json.has_of_set h₁).removeMember (k := "srcfile")
    (by decide)).removeMember (k := "srcsite") (by decide)
  obtain ⟨job₂, h₂⟩ := hdir₁.has_dst.set_ok "size"
    (.real (totalSize parts))
  have hdir₂ := hdir₁.set (by decide) h₂
  unfold withSources Parse.read
  rw [tri_bind, tri_read_ok h₁, tri_bind, tri_read_ok h₂, tri_bind,
    tri_read_ok hdir₂.isOf.oidOf, tri_bind, tri_perform]
  unfold Boot.updateRawjobSize
  rw [wp_updateRawjobField (ObjectId.parse_text o)]
  exact ⟨⟨hdir₂, hsrc.set (by decide) h₂, Json.has_of_set h₂, hknows,
    hwait⟩, rfl, fun _ _ h => h.setRawjob (by decide) _⟩

/-- The parts of a listing are of a site that is known. -/
theorem Listed.Sited.knows {job : Json} {l : Listed α}
    {parts : List (Part α)} (h : l.Sited pr job)
    (hparts : parts.map Part.toSource = l.smap) :
    ∀ p ∈ parts, pr.Knows p.srcsite := by
  obtain ⟨srcsite, hknows, hall⟩ := h.site
  intro p hp
  have hsite := hall p.toSource (hparts ▸ List.mem_map_of_mem hp)
  rw [show p.srcsite = srcsite from hsite]
  exact hknows

/-- The parts of a plain job: the storages of its sources, with the
groups that were answered for them. -/
structure Answered (pr : Premises) (job : Json) (m : Mail)
    (parts : List (Part String)) : Prop where
  sourced : ∀ srcfile, textOf job "srcfile" = .ok srcfile →
    Sourced (split srcfile ',') (parts.map Part.toSource)
  answered : ∀ p ∈ parts, p.Answered pr m

/-- `parse_raw_job_src`: a block of each storage, or a part of them. -/
theorem parseRawJobSrc_begun {job dst : Json}
    (hdir : Directed pr o job dst) (h : Begun o s new t) :
    tri (parseRawJobSrc pr job)
      (fun parsed t' => ∃ parts, Parsed Json.str pr o dst parts parsed
        ∧ Answered pr job t'.mail parts
        ∧ BegunMore o s new t' ∧ (parts = [] → Begun o s new t'))
      (fun _ t' => BegunMore o s new t') (BegunMore o s new) t := by
  unfold parseRawJobSrc Parse.ask Parse.read
  rw [tri_bind, tri_zoom]
  have hmail := fun m => h.mail m
  have hlist : tri (listSources pr job)
      (fun l _ => l.Sited pr job ∧ ∀ srcfile,
        textOf job "srcfile" = .ok srcfile →
          Sourced (split srcfile ',') l.smap)
      (fun _ _ => True) (fun _ => True) t.mail := by
    cases hfile : textOf job "srcfile" with
    | error e =>
        refine listSources_spec.mono ?_ (fun _ _ h => h) fun _ h => h
        intro l _ hl
        exact ⟨hl.1, fun _ hf => by cases hf⟩
    | ok srcfile =>
        refine (listSources_spec.and (listSources_made hfile)).mono ?_
          (fun _ _ _ => trivial) fun _ _ => trivial
        intro l _ hl
        obtain ⟨⟨hsited, _⟩, _, _, hlists⟩ := hl
        refine ⟨hsited, ?_⟩
        intro _ hf
        injection hf with hf
        exact hf ▸ hlists.sourced
  refine hlist.mono ?_ (fun _ m _ => (hmail m).more)
    fun m _ => (hmail m).more
  intro l m hl
  obtain ⟨hsited, hsourced⟩ := hl
  simp only [tri_bind, tri_perform, wp_ofExcept]
  refine ⟨?_, fun _ _ => (hmail m).more⟩
  intro path _
  refine (expandStorages_begun l.smap (hmail m)).mono ?_
    (fun _ _ hr => hr.2.1) fun _ hb => hb
  intro parts t' hp
  obtain ⟨hparts, hall, _, _, hmore, hnil⟩ := hp
  refine (withSources_begun hdir (hsited.knows hparts)
    fun p hp => (hall p hp).1).mono ?_ (fun _ _ hf => hf.elim)
    fun _ hf => hf.elim
  intro parsed t'' hq
  obtain ⟨hparsed, hmail', hkeeps⟩ := hq
  obtain ⟨more, hbegun⟩ := hmore
  refine ⟨parts, hparsed, ⟨?_, ?_⟩, ⟨more, hkeeps _ _ hbegun⟩, ?_⟩
  · rw [hparts]
    exact hsourced
  · rw [hmail']
    exact fun p hp => (hall p hp).2
  · intro hempty
    rw [hempty] at hparts
    exact hkeeps _ _ (hnil hparts.symm)

/-- `parse_raw_job_src_ds`: a block of each storage. -/
theorem parseRawJobSrcDs_begun {job dst : Json}
    (hdir : Directed pr o job dst) (h : Begun o s new t) :
    tri (parseRawJobSrcDs pr job)
      (fun parsed t' => ∃ parts,
        Parsed DatasetEntry.toJson pr o dst parts parsed
        ∧ (∀ p ∈ parts, p.blocks ≠ [])
        ∧ BegunMore o s new t' ∧ (parts = [] → Begun o s new t'))
      (fun _ t' => Begun o s new t') (BegunMore o s new) t := by
  unfold parseRawJobSrcDs Parse.ask
  rw [tri_bind, tri_zoom]
  have hmail := fun m => h.mail m
  have hlist : tri (listFiles pr job)
      (fun l m => l.Sited pr job ∧ m.outcomes = t.mail.outcomes)
      (fun _ _ => True) (fun _ => True) t.mail := listFiles_spec
  refine hlist.mono ?_ (fun _ m _ => hmail m) fun m _ => (hmail m).more
  intro l m hl
  rw [tri_bind, tri_perform]
  refine (datasetStorages_begun l.smap (hmail m)).mono ?_ fun _ hb => hb
  intro parts t' hp
  obtain ⟨hparts, hall, _, hmore, hnil⟩ := hp
  refine (withSources_begun hdir (hl.1.knows hparts)
    fun p hp => (hall p hp).1).mono ?_ (fun _ _ hf => hf.elim)
    fun _ hf => hf.elim
  intro parsed t'' hq
  obtain ⟨hparsed, _, hkeeps⟩ := hq
  obtain ⟨more, hbegun⟩ := hmore
  refine ⟨parts, hparsed, fun p hp => (hall p hp).2,
    ⟨more, hkeeps _ _ hbegun⟩, ?_⟩
  intro hempty
  rw [hempty] at hparts
  exact hkeeps _ _ (hnil hparts.symm)

-- ================================================= what is left alone

namespace Json

variable {v w x : Json} {key k : String}

theorem get_set (h : v.set key x = .ok w) (hk : key ≠ k) :
    w.get k = v.get k := by
  obtain ⟨fields, hv, hw⟩ := bind_eq_ok.1 h
  injection hw with hw
  subst hw
  have hget : v.get k = .ok ((lookup k fields).getD .null) :=
    bind_eq_ok.2 ⟨fields, hv, rfl⟩
  rw [get_obj, lookup_assign, if_neg hk, hget]

theorem get_setIn {keys : List String} (h : v.setIn (key :: keys) x = .ok w)
    (hk : key ≠ k) : w.get k = v.get k := by
  unfold setIn at h
  obtain ⟨_, _, h⟩ := bind_eq_ok.1 h
  obtain ⟨_, _, h⟩ := bind_eq_ok.1 h
  exact get_set h hk

theorem get_removeMember (hk : k ≠ key) :
    (v.removeMember key).get k = v.get k := by
  cases v with
  | obj fields =>
      unfold removeMember
      dsimp only
      rw [get_obj, get_obj, lookup_filter hk]
  | _ => rfl

/-- A destination that is written to keeps its other members. -/
theorem get_setIn_dst {keys : List String} {job job' dst : Json}
    (h : job.setIn ("dst" :: key :: keys) x = .ok job') (hk : key ≠ k)
    (hdst : job.get "dst" = .ok dst) :
    ∃ dst', job'.get "dst" = .ok dst' ∧ dst'.get k = dst.get k := by
  obtain ⟨inner, y, hinner, hy, hhas⟩ := setIn_has h
  rw [hdst] at hinner
  injection hinner with hinner
  subst hinner
  exact ⟨y, hhas.get, get_setIn hy hk⟩

end Json

section destination

variable {job job' answer : Json} {site dtn storage path : String}

/-- The steps of `withDestination`. -/
theorem withDestination_steps
    (h : withDestination job site dtn storage path answer = .ok job') :
    ∃ job₁ job₂ job₃ job₄ job₅ job₆ addr disk,
      job.setIn ["dst", "site", "$oid"] (.str site) = .ok job₁
      ∧ job₁.setIn ["dst", "storage"] (.str storage) = .ok job₂
      ∧ job₂.setIn ["dst", "dtn"] (.str dtn) = .ok job₃
      ∧ job₃.setIn ["dst", "dtn_addr"] addr = .ok job₄
      ∧ job₄.setIn ["dst", "path"] (.str path) = .ok job₅
      ∧ job₅.setIn ["dst", "disk"] disk = .ok job₆
      ∧ job' = (job₆.removeMember "dstfile").removeMember "dstsite" := by
  unfold withDestination at h
  obtain ⟨job₁, h₁, h⟩ := bind_eq_ok.1 h
  obtain ⟨job₂, h₂, h⟩ := bind_eq_ok.1 h
  obtain ⟨job₃, h₃, h⟩ := bind_eq_ok.1 h
  obtain ⟨_, _, h⟩ := bind_eq_ok.1 h
  obtain ⟨addr, _, h⟩ := bind_eq_ok.1 h
  obtain ⟨job₄, h₄, h⟩ := bind_eq_ok.1 h
  obtain ⟨job₅, h₅, h⟩ := bind_eq_ok.1 h
  obtain ⟨disk, _, h⟩ := bind_eq_ok.1 h
  obtain ⟨job₆, h₆, h⟩ := bind_eq_ok.1 h
  injection h with h
  exact ⟨job₁, job₂, job₃, job₄, job₅, job₆, addr, disk, h₁, h₂, h₃, h₄,
    h₅, h₆, h.symm⟩

/-- Putting the destination in leaves the other members alone. -/
theorem withDestination_get
    (h : withDestination job site dtn storage path answer = .ok job')
    {k : String} (hk : k ≠ "dst" ∧ k ≠ "dstfile" ∧ k ≠ "dstsite") :
    job'.get k = job.get k := by
  obtain ⟨job₁, job₂, job₃, job₄, job₅, job₆, addr, disk, h₁, h₂, h₃, h₄,
    h₅, h₆, rfl⟩ := withDestination_steps h
  have hdst : "dst" ≠ k := hk.1.symm
  rw [Json.get_removeMember hk.2.2, Json.get_removeMember hk.2.1,
    Json.get_setIn h₆ hdst, Json.get_setIn h₅ hdst, Json.get_setIn h₄ hdst,
    Json.get_setIn h₃ hdst, Json.get_setIn h₂ hdst, Json.get_setIn h₁ hdst]

/-- And of a destination that is there the member that is not written. -/
theorem withDestination_dist {dst : Json}
    (h : withDestination job site dtn storage path answer = .ok job')
    (hdst : job.get "dst" = .ok dst) :
    ∃ dst', job'.get "dst" = .ok dst'
      ∧ dst'.get "dist" = dst.get "dist" := by
  obtain ⟨job₁, job₂, job₃, job₄, job₅, job₆, addr, disk, h₁, h₂, h₃, h₄,
    h₅, h₆, rfl⟩ := withDestination_steps h
  rw [Json.get_removeMember (by decide), Json.get_removeMember (by decide)]
  have hstep : ∀ {keys : List String} {key : String} {v w d x : Json},
      v.setIn ("dst" :: key :: keys) x = .ok w → key ≠ "dist" →
      v.get "dst" = .ok d →
      ∃ d', w.get "dst" = .ok d' ∧ d'.get "dist" = d.get "dist" :=
    fun hset hkey hd => Json.get_setIn_dst hset hkey hd
  obtain ⟨dst₁, hd₁, heq₁⟩ := hstep h₁ (by decide) hdst
  obtain ⟨dst₂, hd₂, heq₂⟩ := hstep h₂ (by decide) hd₁
  obtain ⟨dst₃, hd₃, heq₃⟩ := hstep h₃ (by decide) hd₂
  obtain ⟨dst₄, hd₄, heq₄⟩ := hstep h₄ (by decide) hd₃
  obtain ⟨dst₅, hd₅, heq₅⟩ := hstep h₅ (by decide) hd₄
  obtain ⟨dst₆, hd₆, heq₆⟩ := hstep h₆ (by decide) hd₅
  exact ⟨dst₆, hd₆, by rw [heq₆, heq₅, heq₄, heq₃, heq₂, heq₁]⟩

end destination

-- ========================================================= the parsing

/-- The certificates are stored, or missing, or cannot be made. -/
theorem createRawJobProxyCert_begun {job : Json} (hid : job.IsOf o)
    (h : Begun o s new t) :
    tri (createRawJobProxyCert pr job)
      (fun _ t' => Begun o s new t' ∧ t'.mail = t.mail
        ∧ ∃ certs, rawJobCerts pr job = .ok (.ok certs))
      (fun _ t' => Begun o s new t'
        ∧ ∃ e, rawJobCerts pr job = .ok (.error e))
      (fun t' => Begun o s new t' ∧ ∃ e, rawJobCerts pr job = .error e)
      t := by
  unfold createRawJobProxyCert Parse.read
  rw [tri_bind, tri_read_ok hid.oidOf, tri_bind]
  cases hcerts : rawJobCerts pr job with
  | error e => exact ⟨h, e, rfl⟩
  | ok certs =>
      cases certs with
      | error e => exact ⟨h, e, rfl⟩
      | ok certs =>
          rw [tri_read_ok rfl]
          dsimp only
          rw [tri_bind, tri_perform,
            wp_updateRawjobField (ObjectId.parse_text o), tri_perform,
            wp_updateRawjobField (ObjectId.parse_text o)]
          exact ⟨(h.setRawjob (by decide) _).setRawjob (by decide) _, rfl,
            certs, rfl⟩

/-- `parse_raw_job_dst`, returning, has put the destination in, off the
answer to its question. -/
theorem parseRawJobDst_with {job : Json} {m : Mail} :
    tri (parseRawJobDst pr job)
      (fun job' _ => ∃ site dtn storage path, withDestination job site dtn
        storage path (m.outcomes m.posts.length).2 = .ok job')
      (fun _ _ => True) (fun _ => True) m := by
  unfold parseRawJobDst Inquiry.read Inquiry.post
  simp only [tri_bind, tri_perform, wp_ofExcept, implies_true, and_true]
  intro dstsite _ dstfile _
  split
  · split
    · trivial
    · simp only [tri_bind, tri_perform, wp_ofExcept, implies_true, and_true]
      intro _ _ _ _
      change tri _ _ _ _ _
      split
      · trivial
      · simp only [tri_perform, wp_ofExcept, implies_true, and_true]
        intro job' hjob'
        exact ⟨_, _, _, _, hjob'⟩
  · trivial

/-- The disk of the destination's answer, and the member `dist` of what
was submitted. -/
structure DiskOf (m : Mail) (job dst disk : Json) : Prop where
  answered : (m.outcomes m.posts.length).1 = 200
  get_disk : (m.outcomes m.posts.length).2.get "disk" = .ok disk
  has_disk : dst.Has "disk" disk
  dist : ∃ old, job.get "dst" = .ok old ∧ dst.get "dist" = old.get "dist"

theorem parseRawJobDst_begun {job : Json} {m : Mail} (hid : job.IsOf o)
    (htype : job.Has "type" (.str "best_effort")) :
    tri (parseRawJobDst pr job)
      (fun job' _ => ∃ dst disk, Directed pr o job' dst
        ∧ DiskOf m job dst disk ∧ job'.get "srcfile" = job.get "srcfile")
      (fun _ _ => True) (fun _ => True) m := by
  refine ((parseRawJobDst_spec hid htype).and parseRawJobDst_with).mono ?_
    (fun _ _ _ => trivial) fun _ _ => trivial
  intro job' m' h
  obtain ⟨⟨dst, disk, hdir, hcode, hdisk, hhas, _, _⟩, site, dtn, storage,
    path, hwith⟩ := h
  obtain ⟨fields, hjob, _⟩ := hid
  have hold : job.get "dst" = .ok ((Json.lookup "dst" fields).getD .null) := by
    rw [hjob, Json.get_obj]
  obtain ⟨dst', hdst', hdist⟩ := withDestination_dist hwith hold
  rw [hdir.has_dst.get] at hdst'
  injection hdst' with hdst'
  subst hdst'
  exact ⟨dst, disk, hdir, ⟨hcode, hdisk, hhas, _, hold, hdist⟩,
    withDestination_get hwith (by decide)⟩

/-- From `s` to `t` a job was parsed: it is one of paths, whose storages
have the blocks of an answer, or one of files, whose storages all have
blocks; and without storages no block is left behind. -/
def ParsedFrom (pr : Premises) (o : ObjectId) (job : Json) (s : Intake)
    (dst parsed : Json) (t : Intake) : Prop :=
  (∃ parts, datasetOf job = .ok false
      ∧ Parsed Json.str pr o dst parts parsed
      ∧ Answered pr job t.mail parts
      ∧ BegunMore o s [] t ∧ (parts = [] → Begun o s [] t))
    ∨ ∃ parts, datasetOf job = .ok true
      ∧ Parsed DatasetEntry.toJson pr o dst parts parsed
      ∧ (∀ p ∈ parts, p.blocks ≠ [])
      ∧ BegunMore o s [] t ∧ (parts = [] → Begun o s [] t)

/-- A submitted job as the parsing functions get it. -/
theorem typed_job {job job' : Json} (hid : job.IsOf o)
    (h : job.set "type" (.str "best_effort") = .ok job') :
    job'.IsOf o ∧ job'.Has "type" (.str "best_effort") :=
  ⟨Json.Has.set hid (by decide) h, Json.has_of_set h⟩

/-- All of the parsing: what it makes is a parsed job, and what it leaves
behind are blocks. -/
theorem parseRawJob_begun {job : Json} (hid : job.IsOf o)
    (h : Begun o s [] s) :
    tri (parseRawJob pr job)
      (fun parsed t => ∃ dst disk, DiskOf s.mail job dst disk
        ∧ ParsedFrom pr o job s dst parsed t)
      (fun _ t => BegunMore o s [] t) (BegunMore o s []) s := by
  unfold parseRawJob Parse.read Parse.ask
  simp only [tri_bind, tri_perform, wp_ofExcept]
  refine ⟨?_, fun _ _ => h.more⟩
  intro job₁ hjob₁
  obtain ⟨hid₁, htype⟩ := typed_job hid hjob₁
  refine ⟨?_, fun _ _ => h.more⟩
  intro ds hds
  have hds' : datasetOf job = .ok ds := by
    unfold datasetOf at hds ⊢
    rw [← hds, Json.get_set hjob₁ (by decide)]
  refine (createRawJobProxyCert_begun hid₁ h).mono ?_
    (fun _ _ hr => hr.1.more) fun _ he => he.1.more
  intro _ t₁ h₁
  obtain ⟨hbegun, hmail, _⟩ := h₁
  rw [tri_zoom]
  refine (parseRawJobDst_begun hid₁ htype).mono ?_
    (fun _ m _ => (hbegun.mail m).more) fun m _ => (hbegun.mail m).more
  intro job₂ m h₂
  obtain ⟨dst, disk, hdir, hdisk, hfile⟩ := h₂
  rw [hmail] at hdisk
  have hdisk' : DiskOf s.mail job dst disk := by
    obtain ⟨old, hold, hdist⟩ := hdisk.dist
    rw [Json.get_set hjob₁ (by decide)] at hold
    exact ⟨hdisk.answered, hdisk.get_disk, hdisk.has_disk, old, hold, hdist⟩
  have hbegun' := hbegun.mail m
  cases ds with
  | false =>
      refine (parseRawJobSrc_begun hdir hbegun').mono ?_ (fun _ _ hr => hr)
        fun _ hb => hb
      intro parsed t h₃
      obtain ⟨parts, hparsed, hanswered, hmore, hnil⟩ := h₃
      refine ⟨dst, disk, hdisk', .inl ⟨parts, hds', hparsed, ⟨?_,
        hanswered.answered⟩, hmore, hnil⟩⟩
      intro srcfile hsrc
      apply hanswered.sourced
      unfold textOf at hsrc ⊢
      rw [hfile, Json.get_set hjob₁ (by decide)]
      exact hsrc
  | true =>
      refine (parseRawJobSrcDs_begun hdir hbegun').mono ?_
        (fun _ _ hr => hr.more) fun _ hb => hb
      intro parsed t h₃
      obtain ⟨parts, hparsed, hblocks, hmore, hnil⟩ := h₃
      exact ⟨dst, disk, hdisk',
        .inr ⟨parts, hds', hparsed, hblocks, hmore, hnil⟩⟩

-- ======================================================= the bootstrap

/-- The job is in error, and besides that there are only these blocks. -/
structure Refusal (o : ObjectId) (s : Intake) (new : List Document)
    (t : Intake) : Prop where
  inError : InError t o
  sjobs : t.sjobs = s.sjobs
  blocks : t.blocks = s.blocks ++ new
  inserts : t.inserts = s.inserts ++ new.map fun b => (.block, b.id)

theorem refuse_run {id : String} (hid : ObjectId.parse id = .ok o)
    (h : Begun o s new t) (error : String) :
    wp (refuse id error) (fun _ t' => Refusal o s new t')
      (fun _ => False) t :=
  h.refuse hid error fun _ h₁ h₂ h₃ h₄ => ⟨h₁, h₂, h₃, h₄⟩

/-- What follows the parsing: the job is refused for want of space or of
storages, or its sjobs are stored, one for each storage; only the check
of the space can fail. -/
theorem admitJob_run {render : α → Json} {id : String} {dst parsed : Json}
    {parts : List (Part α)} (hid : ObjectId.parse id = .ok o)
    (hp : Parsed render pr o dst parts parsed) (h : Begun o s new t) :
    wp (admitJob pr id parsed)
      (fun _ t' => (insufficientSpace parsed = .ok true
            ∨ insufficientSpace parsed = .ok false ∧ parts = [])
          ∧ Refusal o s new t'
        ∨ (insufficientSpace parsed = .ok false ∧ parts ≠ [])
          ∧ Inserted o parsed parts
            (t.sjobs.filter fun d => !d.refersTo "rawjob" o) t t')
      (fun t' => (∃ e, insufficientSpace parsed = .error e) ∧ t' = t)
      t := by
  unfold admitJob Boot.read
  rw [wp_bind]
  cases hspace : insufficientSpace parsed with
  | error e => exact ⟨⟨e, rfl⟩, rfl⟩
  | ok short =>
      rw [wp_read_ok rfl]
      cases short with
      | true =>
          rw [if_pos rfl]
          exact (refuse_run hid h _).mono
            (fun _ _ hr => .inl ⟨.inl rfl, hr⟩) fun _ hf => hf.elim
      | false =>
          rw [if_neg Bool.false_ne_true]
          obtain ⟨sjobs, hsjobs, hall⟩ :=
            createPerStorageJob_run hp.directed hp.src
          rw [wp_bind, wp_read_ok hsjobs]
          have hlen := hall.length_eq
          cases parts with
          | nil =>
              rw [if_pos (by rw [← hlen]; exact Nat.zero_lt_one)]
              exact (refuse_run hid h _).mono
                (fun _ _ hr => .inl ⟨.inr ⟨rfl, rfl⟩, hr⟩) fun _ hf => hf.elim
          | cons p rest =>
              rw [if_neg (by rw [← hlen, List.length_cons]; omega)]
              refine (storeSjobs_run hp.directed hall
                (hp.knows p (List.mem_cons_self ..)) t).mono ?_
                fun _ hf => hf.elim
              intro _ t' hins
              exact .inr ⟨⟨rfl, List.cons_ne_nil _ _⟩, hins⟩

/-- The bootstrap of a job that is there, as its first steps have it. -/
theorem bootstrap_wp {id : String} {doc : Document}
    (hid : ObjectId.parse id = .ok o) (hdoc : s.rawjob o = some doc)
    {Q : Unit → Intake → Prop} {E : Intake → Prop} :
    wp (bootstrapTransferJob pr id) Q E s
      ↔ if (Json.lookup "error" doc.fields).isSome = true then Q () s
        else if (!pr.hasLauncher) = true then
          wp (refuse id "no active launcher agent available") Q E s
        else tri (parseRawJob pr doc.toJson)
          (fun parsed t => wp (admitJob pr id parsed) Q E t)
          (fun e t => wp (refuse id e) Q E t) E s := by
  have hmember : doc.toJson.isMember "error"
      = .ok (Json.lookup "error" doc.fields).isSome := by
    unfold Document.toJson
    rw [Json.isMember_obj, Json.lookup_assign, if_neg (by decide)]
  have hget : ∀ f : Json → Boot Unit,
      wp (Boot.getRawjobFromId id >>= f) Q E s ↔ wp (f doc.toJson) Q E s := by
    intro f
    rw [wp_bind]
    unfold wp
    rw [getRawjobFromId_run hid hdoc]
  unfold bootstrapTransferJob Boot.read
  rw [hget, wp_bind, wp_read_ok hmember]
  split
  · rfl
  · split
    · rfl
    · rw [wp_bind, wp_run]

end BigDataExpress
