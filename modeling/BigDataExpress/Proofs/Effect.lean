/-
What one operation of a handler does to the world.

`World.Sets sid y w w'` says that `w'` is `w` with `y` for the document
of the sjob `sid`, and with the same rawjob states. Every act of a
handler of `x` is of that kind (`Act.sets`), with a document that has
the keys and the state of the one before. The operations with rules of
their own are described by the lemmas after it.
-/
import BigDataExpress.Proofs.Tracker

namespace BigDataExpress

open Interact Collection

/-- The document of `sid` is now `y`; the rest is as before. -/
structure World.Sets (sid : Oid) (y : Sjob) (w w' : World) : Prop where
  sjobs : w'.sjobs = w.sjobs.map fun z => if z.id = sid then y else z
  rawjobs : w'.rawjobs.map Rawjob.status = w.rawjobs.map Rawjob.status
  blockDocs : w'.blockDocs = w.blockDocs
  guids : w'.guids = w.guids
  hasLauncher : w'.hasLauncher = w.hasLauncher
  log : w'.log = w.log
  reports : w'.reports = w.reports
  delivered : w'.delivered = w.delivered

namespace World

variable {w w' : World} {x y y' : Sjob} {sid : Oid}

/-- The ids of the rawjobs are those of their statuses. -/
theorem rawjob_ids (h : w'.rawjobs.map Rawjob.status
    = w.rawjobs.map Rawjob.status) :
    w'.rawjobs.map (·.id) = w.rawjobs.map (·.id) := by
  have := congrArg (List.map Prod.fst) h
  rw [List.map_map, List.map_map] at this
  exact this

theorem Sets.mem_iff (h : w.Sets sid y w') (hx : x ∈ w.sjobs)
    (hid : x.id = sid) {z : Sjob} :
    z ∈ w'.sjobs ↔ z = y ∨ (z ∈ w.sjobs ∧ z.id ≠ sid) := by
  rw [h.sjobs, List.mem_map]
  constructor
  · rintro ⟨u, hu, rfl⟩
    by_cases hi : u.id = sid
    · exact .inl (if_pos hi)
    · right
      rw [if_neg hi]
      exact ⟨hu, hi⟩
  · rintro (rfl | ⟨hz, hi⟩)
    · exact ⟨x, hx, if_pos hid⟩
    · exact ⟨z, hz, if_neg hi⟩

/-- Setting a document that keeps its keys keeps the store
well-formed. -/
theorem Sets.wf (h : w.Sets sid y' w') (hwf : w.WF) (hy : y ∈ w.sjobs)
    (hid : y.id = sid) (hkey : y'.key = y.key) : w'.WF := by
  refine hwf.congr ?_ (rawjob_ids h.rawjobs)
    (h.guids ▸ List.prefix_refl _)
  rw [h.sjobs, List.map_map]
  refine List.map_congr_left fun z hz => ?_
  simp only [Function.comp_apply]
  split
  · rename_i hi
    rw [hkey, hwf.eq_of_id hy hz (hi.trans hid.symm)]
  · rfl

/-- A pointwise update that only touches one document sets it. -/
theorem sets_map (hwf : w.WF) (hy : y ∈ w.sjobs) (hid : y.id = sid)
    {g : Sjob → Sjob} (hs : w'.sjobs = w.sjobs.map g)
    (hother : ∀ z ∈ w.sjobs, z.id ≠ sid → g z = z)
    (hr : w'.rawjobs = w.rawjobs) (hb : w'.blockDocs = w.blockDocs)
    (hg : w'.guids = w.guids) (hl : w'.hasLauncher = w.hasLauncher)
    (hlog : w'.log = w.log) (hrep : w'.reports = w.reports)
    (hdel : w'.delivered = w.delivered) : w.Sets sid (g y) w' where
  sjobs := by
    rw [hs]
    refine List.map_congr_left fun z hz => ?_
    split
    · rename_i hi
      rw [hwf.eq_of_id hy hz (hi.trans hid.symm)]
    · rename_i hi
      exact hother z hz hi
  rawjobs := by rw [hr]
  blockDocs := hb
  guids := hg
  hasLauncher := hl
  log := hlog
  reports := hrep
  delivered := hdel

theorem sets_updateId (hwf : w.WF) (hy : y ∈ w.sjobs) (hid : y.id = sid)
    (f : Sjob → Sjob) :
    w.Sets sid (f y) (w.updateSjob (·.id == sid) f) := by
  have h : w.Sets sid (Sjob.onId sid f y) (w.updateSjob (·.id == sid) f) :=
    sets_map hwf hy hid (updateSjob_id hwf sid f) (fun z _ hz => if_neg hz)
      rfl rfl rfl rfl rfl rfl rfl
  rwa [Sjob.onId, if_pos hid] at h

theorem sets_updateFlow (hwf : w.WF) (hy : y ∈ w.sjobs) (hid : y.id = sid)
    {t : Guid} (ht : t ∈ y.tasks) (g : Flow → Flow) :
    w.Sets sid (y.onFlow t g) (w.updateFlow t g) := by
  refine sets_map hwf hy hid (updateFlow_eq hwf t g) (fun z hz hne => ?_)
    rfl rfl rfl rfl rfl rfl rfl
  refine Sjob.onFlow_of_not_mem fun htz => hne ?_
  rw [hwf.eq_of_task hy hz ht htz, hid]

theorem sets_updateBlock (hwf : w.WF) (hy : y ∈ w.sjobs) (hid : y.id = sid)
    {b : Oid} (hb : b ∈ y.blockIds) (g : Block → Block) :
    w.Sets sid (y.onBlock b g) (w.updateBlock b g) := by
  refine sets_map hwf hy hid (updateBlock_eq hwf b g) (fun z hz hne => ?_)
    rfl rfl rfl rfl rfl rfl rfl
  refine Sjob.onBlock_of_not_mem fun hbz => hne ?_
  rw [hwf.eq_of_block hy hz hb hbz, hid]

/-- Without a change to documents, the document is set to itself. -/
theorem sets_same (hwf : w.WF) (hy : y ∈ w.sjobs) (hid : y.id = sid)
    (hs : w'.sjobs = w.sjobs)
    (hr : w'.rawjobs.map Rawjob.status = w.rawjobs.map Rawjob.status)
    (hb : w'.blockDocs = w.blockDocs) (hg : w'.guids = w.guids)
    (hl : w'.hasLauncher = w.hasLauncher) (hlog : w'.log = w.log)
    (hrep : w'.reports = w.reports) (hdel : w'.delivered = w.delivered) :
    w.Sets sid y w' where
  sjobs := by
    rw [hs]
    refine (List.map_id' _).symm.trans (List.map_congr_left fun z hz => ?_)
    split
    · rename_i hi
      exact hwf.eq_of_id hy hz (hi.trans hid.symm)
    · rfl
  rawjobs := hr
  blockDocs := hb
  guids := hg
  hasLauncher := hl
  log := hlog
  reports := hrep
  delivered := hdel

/-- A rawjob update that keeps id and state is not visible in the
statuses. -/
theorem status_updateRawjob {rid : Oid} {f : Rawjob → Rawjob}
    (hid : ∀ r, (f r).id = r.id) (hst : ∀ r, (f r).state = r.state) :
    (w.updateRawjob rid f).rawjobs.map Rawjob.status
      = w.rawjobs.map Rawjob.status :=
  map_updateOne (fun r => by simp [Rawjob.status, hid, hst]) w.rawjobs

/-- The state written to a rawjob. -/
theorem status_updateRawjobState (hwf : w.WF) (rid : Oid)
    (st : RawjobState) :
    (w.updateRawjobState rid st).rawjobs.map Rawjob.status
      = w.rawjobs.map fun r => if r.id = rid then (r.id, st)
        else r.status := by
  have hmap : (w.updateRawjobState rid st).rawjobs
      = w.rawjobs.map fun r => if r.id = rid then { r with state := st }
        else r := updateOne_key hwf.rawjobs
  rw [hmap, List.map_map]
  refine List.map_congr_left fun r _ => ?_
  simp only [Function.comp_apply]
  split
  · rfl
  · rfl

end World

-- ============================================================= the acts

/-- Every act sets the document of its sjob, keeping its keys and
state, and says the same about the new one. -/
theorem Act.sets {x y : Sjob} {d d' : Delta} {f : World → World} {w : World}
    (h : Act x d f d') (hwf : w.WF) (hy : y ∈ w.sjobs) (hid : y.id = x.id)
    (hbl : y.blockIds = x.blockIds) (ha : d.doc.Alike y) :
    ∃ y', w.Sets x.id y' (f w) ∧ y'.key = y.key ∧ y'.state = y.state
      ∧ d'.doc.Alike y' := by
  cases h with
  | doc hkey hst hlike =>
      exact ⟨_, World.sets_updateId hwf hy hid _, hkey y, hst y,
        hlike _ _ ha⟩
  | @flow t g ht hg hm =>
      have ht' : t ∈ y.tasks := ha.tasks ▸ ht
      refine ⟨_, World.sets_updateFlow hwf hy hid ht' g, ?_, rfl,
        ha.onFlow hm⟩
      unfold Sjob.key
      rw [Sjob.tasks_onFlow hg]
      rfl
  | @block b g hb hg hm =>
      have hb' : b ∈ y.blockIds := hbl ▸ hb
      refine ⟨_, World.sets_updateBlock hwf hy hid hb' g, ?_, rfl,
        ha.onBlock hm⟩
      unfold Sjob.key
      rw [Sjob.blockIds_onBlock hg]
      rfl
  | raw hid' hst =>
      exact ⟨y, World.sets_same hwf hy hid rfl
        (World.status_updateRawjob hid' hst) rfl rfl rfl rfl rfl rfl, rfl,
        rfl, ha⟩
  | display hsame =>
      have hs := hsame w
      exact ⟨y, World.sets_same hwf hy hid hs.sjobs (by rw [hs.rawjobs])
        hs.blockDocs hs.guids hs.hasLauncher hs.log hs.reports hs.delivered,
        rfl, rfl, ha⟩

/-- No act writes an sjob state, so none leaves an event. -/
theorem Act.sjobevents {x : Sjob} {d d' : Delta} {f : World → World}
    (h : Act x d f d') (w : World) : (f w).sjobevents = w.sjobevents := by
  cases h with
  | doc => rfl
  | flow => rfl
  | block => rfl
  | raw => rfl
  | display hsame => exact (hsame w).sjobevents

-- ==================================================== inserting a flow

/-- A flow with a token drawn for the sjob keeps the store well-formed. -/
theorem World.insertFlow_wf {w : World} {x y : Sjob} {f : Flow}
    (hwf : w.WF) (hy : y ∈ w.sjobs) (hid : y.id = x.id)
    (howner : w.guids[f.task]? = some x.id) (hnew : f.task ∉ y.tasks) :
    (w.insertFlow x.id f).WF := by
  have hs := World.sets_updateId hwf hy hid
    fun y => { y with flows := y.flows ++ [f] }
  have htasks : ({ y with flows := y.flows ++ [f] } : Sjob).tasks
      = y.tasks ++ [f.task] := by simp [Sjob.tasks]
  have hmem := fun z => hs.mem_iff hy hid (z := z)
  have hproj : ∀ {β : Type} (p : Sjob → β),
      p { y with flows := y.flows ++ [f] } = p y →
      (w.insertFlow x.id f).sjobs.map p = w.sjobs.map p := by
    intro β p hp
    have hsj : (w.insertFlow x.id f).sjobs = _ := hs.sjobs
    rw [hsj, List.map_map]
    refine List.map_congr_left fun z hz => ?_
    simp only [Function.comp_apply]
    split
    · rename_i hi
      rw [hp, hwf.eq_of_id hy hz (hi.trans hid.symm)]
    · rfl
  refine ⟨?_, ?_, ?_, ?_, hwf.rawjobs, ?_⟩
  · rw [hproj (·.id) rfl]
    exact hwf.ids
  · rw [List.flatMap_def, hproj Sjob.blockIds rfl]
    exact hwf.blocks
  · intro z hz
    rcases (hmem z).mp hz with rfl | ⟨hz, -⟩
    · rw [htasks, List.nodup_append]
      refine ⟨hwf.tasks y hy, List.nodup_singleton _, ?_⟩
      rintro a ha b hb rfl
      rw [List.mem_singleton] at hb
      exact hnew (hb ▸ ha)
    · exact hwf.tasks z hz
  · intro z hz t ht
    rcases (hmem z).mp hz with rfl | ⟨hz, -⟩
    · rw [htasks, List.mem_append, List.mem_singleton] at ht
      rcases ht with ht | rfl
      · exact hwf.owner y hy t ht
      · exact howner.trans (congrArg some hid.symm)
    · exact hwf.owner z hz t ht
  · intro z hz
    rcases (hmem z).mp hz with rfl | ⟨hz, -⟩
    · exact hwf.owned y hy
    · exact hwf.owned z hz

end BigDataExpress
