/-
The exact tracker: a handler of an sjob that runs alone.

`At h w₀ x y d w` says that the world `w` is `w₀` after the handler `h`
has worked on the sjob `x`: its document now is `y`, which looks like
`d.doc`, its rawjob's state is the one `d` says, the launches of `d`
have been issued, and nothing else that a handler reads has changed.
`exact` turns that into a tracker without interference, and so the
outcomes of the handlers become facts about their solo runs.
-/
import BigDataExpress.Proofs.Effect
import BigDataExpress.Proofs.Report
import BigDataExpress.Proofs.Attempt
import BigDataExpress.Server.Atomic

namespace BigDataExpress

open Interact Collection

-- ============================================================== the log

theorem launchesOf_append (l l' : List LogEntry) :
    launchesOf (l ++ l') = launchesOf l ++ launchesOf l' :=
  List.filterMap_append

theorem launchesOf_other {h : HandlerId} {e : Call} (r : Reply e)
    (he : e.isLaunch = false) : launchesOf [⟨h, e, r⟩] = [] := by
  cases e <;> first | rfl | cases he

/-- The log has grown by calls made by `h` for the sjob `sid`, among
them these launches. -/
def LogGrows (h : HandlerId) (sid : Oid) (launches : List LaunchCmd)
    (l l' : List LogEntry) : Prop :=
  ∃ new, l' = l ++ new ∧ launchesOf new = launches.map (h, ·)
    ∧ ∀ e ∈ new, e.owner = h ∧ ∀ i ∈ e.call.job?, i = sid

theorem LogGrows.refl (h : HandlerId) (sid : Oid) (l : List LogEntry) :
    LogGrows h sid [] l l := ⟨[], by simp, rfl, by simp⟩

theorem LogGrows.record {h : HandlerId} {sid : Oid} {ls ls' : List LaunchCmd}
    {l l' : List LogEntry} (hg : LogGrows h sid ls l l') {e : Call}
    (r : Reply e) (hls : launchesOf [⟨h, e, r⟩] = ls'.map (h, ·))
    (hjob : ∀ i ∈ e.job?, i = sid) :
    LogGrows h sid (ls ++ ls') l (l' ++ [⟨h, e, r⟩]) := by
  obtain ⟨new, rfl, hl, hlab⟩ := hg
  refine ⟨new ++ [⟨h, e, r⟩], List.append_assoc .., ?_, ?_⟩
  · rw [launchesOf_append, hl, hls, List.map_append]
  · intro y hy
    rcases List.mem_append.mp hy with hy | hy
    · exact hlab y hy
    · rw [List.mem_singleton] at hy
      subst hy
      exact ⟨rfl, hjob⟩

-- ====================================================== the exact changes

/-- Every other sjob of the rawjob is finished. -/
def World.PeersFinished (w : World) (x : Sjob) : Prop :=
  ∀ z ∈ w.sjobs, z.rawjob = x.rawjob → z.id ≠ x.id → z.state = .finished

/-- The world `w` is `w₀` with the changes `d` to the sjob `x`, whose
document is now `y`. -/
structure At (h : HandlerId) (w₀ : World) (x y : Sjob) (d : Delta)
    (w : World) : Prop where
  wf : w.WF
  mem : ∃ z ∈ w₀.sjobs, z.id = x.id
  sjobs : w.sjobs = w₀.sjobs.map fun z => if z.id = x.id then y else z
  id : y.id = x.id
  rawjob : y.rawjob = x.rawjob
  blockIds : y.blockIds = x.blockIds
  alike : d.doc.Alike y
  rawjobs : w.rawjobs.map Rawjob.status = w₀.rawjobs.map fun r =>
    if r.id = x.rawjob then (r.id, d.raw.getD r.state) else r.status
  log : LogGrows h x.id d.launches w₀.log w.log
  own : ∀ cmd ∈ d.launches, cmd.task ∈ y.tasks
  blockDocs : w.blockDocs = w₀.blockDocs
  hasLauncher : w.hasLauncher = w₀.hasLauncher
  reports : w.reports = w₀.reports
  delivered : w.delivered = w₀.delivered
  guids : w₀.guids <+: w.guids
  seen : ∀ b, d.seen = some b → (b = true ↔ w₀.PeersFinished x)
  drawn : ∀ t, d.drawn = some t → w.guids[t]? = some x.id ∧ t ∉ y.tasks

namespace At

variable {h : HandlerId} {w₀ w w' : World} {x y y' : Sjob} {d d' : Delta}

/-- The handler starts from a document `x` that looks like the one in
the store. -/
theorem init (hwf : w₀.WF) (hy : y ∈ w₀.sjobs) (hid : y.id = x.id)
    (hr : y.rawjob = x.rawjob) (ha : x.Alike y) :
    At h w₀ x y (.init x) w₀ where
  wf := hwf
  mem := ⟨y, hy, hid⟩
  sjobs := (World.sets_same hwf hy hid rfl rfl rfl rfl rfl rfl rfl
    rfl).sjobs
  id := hid
  rawjob := hr
  blockIds := ha.blockIds
  alike := ha
  rawjobs := by
    refine List.map_congr_left fun r _ => ?_
    split
    · rfl
    · rfl
  log := .refl ..
  own := fun _ hc => nomatch hc
  blockDocs := rfl
  hasLauncher := rfl
  reports := rfl
  delivered := rfl
  guids := List.prefix_refl _
  seen := fun _ hb => nomatch hb
  drawn := fun _ ht => nomatch ht

/-- The document is in the store. -/
theorem doc_mem (ht : At h w₀ x y d w) : y ∈ w.sjobs := by
  obtain ⟨z, hz, hid⟩ := ht.mem
  rw [ht.sjobs]
  exact List.mem_map.mpr ⟨z, hz, if_pos hid⟩

/-- The other documents are as they were. -/
theorem mem_iff (ht : At h w₀ x y d w) {z : Sjob} :
    z ∈ w.sjobs ↔ z = y ∨ (z ∈ w₀.sjobs ∧ z.id ≠ x.id) := by
  rw [ht.sjobs, List.mem_map]
  constructor
  · rintro ⟨u, hu, rfl⟩
    by_cases hid : u.id = x.id
    · exact .inl (if_pos hid)
    · right
      rw [if_neg hid]
      exact ⟨hu, hid⟩
  · rintro (rfl | ⟨hz, hid⟩)
    · obtain ⟨u, hu, hid⟩ := ht.mem
      exact ⟨u, hu, if_pos hid⟩
    · exact ⟨z, hz, if_neg hid⟩

/-- Setting the document again replaces it. -/
theorem sjobs_again (ht : At h w₀ x y d w)
    (hs : w'.sjobs = w.sjobs.map fun z => if z.id = x.id then y' else z) :
    w'.sjobs = w₀.sjobs.map fun z => if z.id = x.id then y' else z := by
  rw [hs, ht.sjobs, List.map_map]
  refine List.map_congr_left fun z _ => ?_
  simp only [Function.comp_apply]
  by_cases hz : z.id = x.id
  · rw [if_pos hz, if_pos ht.id, if_pos hz]
  · rw [if_neg hz, if_neg hz]

/-- A change to the document, and to what else `d` says. -/
theorem sets (ht : At h w₀ x y d w) (hs : w.Sets x.id y' w')
    (hkey : y'.key = y.key) (ha : d'.doc.Alike y') (hraw : d'.raw = d.raw)
    (hl : d'.launches = d.launches) (hseen : d'.seen = d.seen)
    (hdrawn : d'.drawn = d.drawn) : At h w₀ x y' d' w' := by
  have hk := hkey
  simp only [Sjob.key, Prod.mk.injEq] at hk
  exact {
    wf := hs.wf ht.wf ht.doc_mem ht.id hkey
    mem := ht.mem
    sjobs := ht.sjobs_again hs.sjobs
    id := hk.1.trans ht.id
    rawjob := hk.2.1.trans ht.rawjob
    blockIds := hk.2.2.1.trans ht.blockIds
    alike := ha
    rawjobs := by rw [hs.rawjobs, ht.rawjobs, hraw]
    log := by rw [hs.log, hl]; exact ht.log
    own := by rw [hl, hk.2.2.2]; exact ht.own
    blockDocs := hs.blockDocs.trans ht.blockDocs
    hasLauncher := hs.hasLauncher.trans ht.hasLauncher
    reports := hs.reports.trans ht.reports
    delivered := hs.delivered.trans ht.delivered
    guids := hs.guids ▸ ht.guids
    seen := hseen ▸ ht.seen
    drawn := by
      rw [hdrawn, hs.guids, hk.2.2.2]
      exact ht.drawn }

theorem act (ht : At h w₀ x y d w) {f : World → World} (hf : Act x d f d') :
    ∃ y', At h w₀ x y' d' (f w) := by
  obtain ⟨y', hs, hkey, -, ha⟩ :=
    hf.sets ht.wf ht.doc_mem ht.id ht.blockIds ht.alike
  refine ⟨y', ?_⟩
  cases hf with
  | doc => exact ht.sets hs hkey ha rfl rfl rfl rfl
  | flow => exact ht.sets hs hkey ha rfl rfl rfl rfl
  | block => exact ht.sets hs hkey ha rfl rfl rfl rfl
  | raw => exact ht.sets hs hkey ha rfl rfl rfl rfl
  | display => exact ht.sets hs hkey ha rfl rfl rfl rfl

theorem state (ht : At h w₀ x y d w) (s : SjobState) :
    At h w₀ x (y.setState s) { d with doc := d.doc.setState s }
      (w.updateSjobState x.id s) := by
  have hs := World.sets_updateId ht.wf ht.doc_mem ht.id (Sjob.setState s)
  exact ht.sets ⟨hs.sjobs, hs.rawjobs, rfl, rfl, rfl, rfl, rfl, rfl⟩ rfl
    (ht.alike.setState s) rfl rfl rfl rfl

theorem raw (ht : At h w₀ x y d w) (st : RawjobState) :
    At h w₀ x y { d with raw := some st }
      (w.updateRawjobState x.rawjob st) := by
  have hst := World.status_updateRawjobState ht.wf x.rawjob st
  exact {
    ht with
    wf := ht.wf.congr rfl
      (World.rawjobs_id_updateRawjob (w := w) fun _ => rfl)
      (List.prefix_refl _)
    rawjobs := by
      rw [hst]
      have hcomp : (w.rawjobs.map fun r => if r.id = x.rawjob then
          (r.id, st) else r.status) = (w.rawjobs.map Rawjob.status).map
            fun p => if p.1 = x.rawjob then (p.1, st) else p := by
        rw [List.map_map]
        rfl
      rw [hcomp, ht.rawjobs, List.map_map]
      refine List.map_congr_left fun r _ => ?_
      simp only [Function.comp_apply]
      by_cases hr : r.id = x.rawjob
      · simp [hr]
      · simp [hr, Rawjob.status] }

theorem record (ht : At h w₀ x y d w) {e : Call} (r : Reply e)
    (ls : List LaunchCmd) (hls : launchesOf [⟨h, e, r⟩] = ls.map (h, ·))
    (hjob : ∀ i ∈ e.job?, i = x.id) (hown : ∀ cmd ∈ ls, cmd.task ∈ y.tasks) :
    At h w₀ x y { d with launches := d.launches ++ ls } (w.record h e r) :=
  { ht with
    wf := ht.wf.congr rfl rfl (List.prefix_refl _)
    log := ht.log.record r hls hjob
    own := fun cmd hc => (List.mem_append.mp hc).elim (ht.own cmd)
      (hown cmd) }

theorem call (ht : At h w₀ x y d w) {e : Call} (r : Reply e)
    (hl : e.isLaunch = false) (hjob : ∀ i ∈ e.job?, i = x.id) :
    At h w₀ x y d (w.record h e r) := by
  have := ht.record r [] (launchesOf_other r hl) hjob
    (fun _ hc => nomatch hc)
  rwa [List.append_nil] at this

theorem draw (ht : At h w₀ x y d w) :
    At h w₀ x y { d with drawn := some w.guids.length }
      (w.drawGuid x.id) := by
  have hpre : w.guids <+: w.guids ++ [x.id] := List.prefix_append ..
  exact {
    ht with
    wf := ht.wf.congr rfl rfl hpre
    guids := ht.guids.trans hpre
    drawn := by
      rintro t ⟨⟩
      refine ⟨by simp [World.drawGuid], fun hmem => ?_⟩
      have howner := ht.wf.owner y ht.doc_mem _ hmem
      simp at howner }

theorem insert (ht : At h w₀ x y d w) {f : Flow}
    (hdrawn : d.drawn = some f.task) :
    At h w₀ x { y with flows := y.flows ++ [f] }
      { d with doc := { d.doc with flows := d.doc.flows ++ [f] },
               drawn := none } (w.insertFlow x.id f) := by
  obtain ⟨howner, hnew⟩ := ht.drawn _ hdrawn
  have hs := World.sets_updateId ht.wf ht.doc_mem ht.id
    fun y => { y with flows := y.flows ++ [f] }
  exact {
    ht with
    wf := World.insertFlow_wf ht.wf ht.doc_mem ht.id howner hnew
    sjobs := ht.sjobs_again hs.sjobs
    id := ht.id
    own := fun cmd hc => by
      have := ht.own cmd hc
      simp only [Sjob.tasks, List.map_append, List.mem_append]
      exact .inl this
    alike := ⟨ht.alike.state, ht.alike.error, by
      simp [ht.alike.flows], ht.alike.blocks⟩
    drawn := fun _ ht => nomatch ht }

end At

-- ====================================================== a look, undisturbed

section look

variable {E : Env World Call Reply} {w : World}

theorem readSjobs_wp (ids : List Oid) :
    Prog.wp E (fun r w' => w' = w ∧ r = .ok (ids.filterMap w.sjob?))
      (SiteStore.readSjobs ids) w := by
  induction ids with
  | nil => simp [SiteStore.readSjobs]
  | cons i is ih =>
      simp only [SiteStore.readSjobs, Prog.wp_bind', Prog.wp_read]
      refine Prog.wp_mono ?_ ih
      rintro r w' ⟨rfl, rfl⟩
      cases hi : w'.sjob? i with
      | none => simp [hi]
      | some y => simp [hi]

theorem allFinished_wp (hwf : w.WF) (rid : Oid) :
    Prog.wp E (fun r w' => w' = w ∧ ∃ b, r = .ok b ∧ (b = true ↔
      ∀ z ∈ w.sjobs, z.rawjob = rid → z.state = .finished))
      (allFinished rid) w := by
  simp only [allFinished, SiteStore.getSjobsFromRawjobId, Prog.wp_bind',
    Prog.wp_read, Prog.wp_pure']
  refine Prog.wp_mono ?_ (readSjobs_wp _)
  rintro r w' ⟨rfl, rfl⟩
  refine ⟨rfl, _, rfl, ?_⟩
  simp only [List.all_eq_true, List.mem_filterMap, List.mem_map,
    List.mem_filter, beq_iff_eq]
  constructor
  · intro hall z hz hr
    exact hall z ⟨z.id, ⟨z, ⟨hz, hr⟩, rfl⟩, hwf.sjob?_eq hz⟩
  · rintro hall z ⟨i, ⟨u, ⟨hu, hr⟩, rfl⟩, hz⟩
    rw [hwf.sjob?_eq hu, Option.some.injEq] at hz
    subst hz
    exact hall u hu hr

end look

-- ==================================================== the exact tracker

/-- The tracker of a handler `h` of `x` that runs alone from `w₀`. -/
def exact (h : HandlerId) (a : Answers) (w₀ : World) (x : Sjob) :
    Tracker x where
  E := a.env h
  R := Eq
  G := fun _ _ => True
  T := fun d w => ∃ y, At h w₀ x y d w
  strict := False
  files := w₀.blockFiles
  launcher := w₀.hasLauncher
  verdict := a.verified
  answer := a.launched
  refl := fun _ => rfl
  like := by
    rintro d y w hy ⟨z, ht⟩
    exact ⟨z, { ht with alike := hy.symm.trans ht.alike }⟩
  stable := by
    rintro d w w' ht rfl
    exact ht
  skip := fun _ => trivial
  blockFiles := by
    rintro d w ⟨y, ht⟩ b
    simp only [World.blockFiles, ht.blockDocs]
  hasLauncher := by
    rintro d w ⟨y, ht⟩
    exact ht.hasLauncher
  act := by
    rintro d f d' w hf ⟨y, ht⟩
    exact ⟨trivial, ht.act hf⟩
  state := by
    rintro d s w - - ⟨y, ht⟩
    exact ⟨trivial, _, ht.state s⟩
  raw := by
    rintro d st w - - - ⟨y, ht⟩
    exact ⟨trivial, _, ht.raw st⟩
  call := by
    rintro d e r w hl hj - ⟨y, ht⟩
    exact ⟨trivial, _, ht.call r hl hj⟩
  launch := by
    rintro d b cmd r w htask - ⟨y, ht⟩
    refine ⟨trivial, _, ht.record r [cmd] rfl
      (fun i hi => nomatch hi) ?_⟩
    intro c hc
    rw [List.mem_singleton.mp hc, ht.alike.tasks]
    exact htask
  verified := fun hr => hr
  answered := fun hr => hr
  look := by
    rintro d w hfin ⟨y, ht⟩
    refine Prog.rg_mono ?_ (allFinished_wp ht.wf x.rawjob)
    rintro r w' ⟨rfl, b, rfl, hb⟩
    refine ⟨b, rfl, y, { ht with seen := ?_ }⟩
    rintro b' ⟨⟩
    rw [hb]
    constructor
    · intro hall z hz hr hne
      exact hall z (ht.mem_iff.mpr (.inr ⟨hz, hne⟩)) hr
    · intro hpeers z hz hr
      rcases ht.mem_iff.mp hz with rfl | ⟨hz, hne⟩
      · exact ht.alike.state.trans hfin
      · exact hpeers z hz hr hne
  draw := by
    rintro d w ⟨y, ht⟩
    exact ⟨trivial, y, ht.draw⟩
  insert := by
    rintro d f w hd ⟨y, ht⟩
    exact ⟨trivial, _, ht.insert hd⟩

/-- What is proved over the exact tracker holds of the solo run. -/
theorem exact_run {α : Type} {h : HandlerId} {a : Answers} {w : World}
    {x z : Sjob} (hwf : w.WF) (hz : z ∈ w.sjobs) (hid : z.id = x.id)
    (hr : z.rawjob = x.rawjob) (ha : x.Alike z) {p : Handler α}
    {Q : Except String α → Delta → Prop}
    (hp : (exact h a w x).Spec (.init x) p Q)
    {o : Oracle World Call Reply} (ho : o.Admissible (a.env h)) :
    ∃ d y, At h w x y d (p.run (a.env h) o w).2
      ∧ Q (p.run (a.env h) o w).1 d := by
  have hrun := Prog.wp_run ho (hp w ⟨z, .init hwf hz hid hr ha⟩)
  obtain ⟨d, ⟨y, ht⟩, hq⟩ := hrun
  exact ⟨d, y, ht, hq⟩

end BigDataExpress
