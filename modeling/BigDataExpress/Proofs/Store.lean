/-
Well-formed stores, and what each store operation does to one.

Ids are unique in a store: sjob ids and block ids because Mongo hands
them out, tasks because guids are fresh. With unique ids an
`update_one` touches the only document that can match, so every
operation on sjobs is pointwise (`updateSjob_id`, `updateFlow_eq`,
`updateBlock_eq`), and well-formedness only depends on the ids
(`WF.congr`).
-/
import BigDataExpress.Server.SiteStore

namespace BigDataExpress

open Interact Collection

-- ====================================================== well-formedness

/-- Unique ids, tasks drawn for the sjob they are in, and a rawjob for
every sjob. -/
structure World.WF (w : World) : Prop where
  ids : (w.sjobs.map (·.id)).Nodup
  blocks : (w.sjobs.flatMap Sjob.blockIds).Nodup
  tasks : ∀ x ∈ w.sjobs, x.tasks.Nodup
  owner : ∀ x ∈ w.sjobs, ∀ t ∈ x.tasks, w.guids[t]? = some x.id
  rawjobs : (w.rawjobs.map (·.id)).Nodup
  owned : ∀ x ∈ w.sjobs, x.rawjob ∈ w.rawjobs.map (·.id)

/-- The ids of an sjob document. -/
def Sjob.key (x : Sjob) : Oid × Oid × List Oid × List Guid :=
  (x.id, x.rawjob, x.blockIds, x.tasks)

/-- A token keeps its sjob. -/
theorem getElem?_prefix {l l' : List Oid} (h : l <+: l') {t : Guid}
    {i : Oid} (ht : l[t]? = some i) : l'[t]? = some i := by
  obtain ⟨m, rfl⟩ := h
  obtain ⟨hlt, -⟩ := List.getElem?_eq_some_iff.mp ht
  rw [List.getElem?_append_left hlt]
  exact ht

namespace World.WF

variable {w w' : World}

/-- Well-formedness reads the ids only. -/
theorem congr (h : w.WF) (hs : w'.sjobs.map Sjob.key = w.sjobs.map Sjob.key)
    (hr : w'.rawjobs.map (·.id) = w.rawjobs.map (·.id))
    (hg : w.guids <+: w'.guids) : w'.WF := by
  have proj : ∀ {β : Type} (g : Oid × Oid × List Oid × List Guid → β),
      w'.sjobs.map (fun x => g x.key) = w.sjobs.map fun x => g x.key := by
    intro β g
    have := congrArg (List.map g) hs
    rw [List.map_map, List.map_map] at this
    exact this
  have mem : ∀ x ∈ w'.sjobs, ∃ y ∈ w.sjobs, y.key = x.key := by
    intro x hx
    have hk : x.key ∈ w'.sjobs.map Sjob.key := List.mem_map_of_mem hx
    rw [hs, List.mem_map] at hk
    exact hk
  refine ⟨?_, ?_, ?_, ?_, hr ▸ h.rawjobs, ?_⟩
  · have := proj (·.1)
    exact this ▸ h.ids
  · rw [List.flatMap_def]
    have := proj (·.2.2.1)
    exact this ▸ h.blocks
  · intro x hx
    obtain ⟨y, hy, hk⟩ := mem x hx
    simp only [Sjob.key, Prod.mk.injEq] at hk
    exact hk.2.2.2 ▸ h.tasks y hy
  · intro x hx t ht
    obtain ⟨y, hy, hk⟩ := mem x hx
    simp only [Sjob.key, Prod.mk.injEq] at hk
    rw [← hk.2.2.2] at ht
    rw [← hk.1]
    exact getElem?_prefix hg (h.owner y hy t ht)
  · intro x hx
    obtain ⟨y, hy, hk⟩ := mem x hx
    simp only [Sjob.key, Prod.mk.injEq] at hk
    rw [hr, ← hk.2.1]
    exact h.owned y hy

/-- A document is found under its id. -/
theorem sjob?_eq (h : w.WF) {x : Sjob} (hx : x ∈ w.sjobs) :
    w.sjob? x.id = some x := find?_key Sjob.id h.ids hx

/-- Two documents with one id are one document. -/
theorem eq_of_id (h : w.WF) {x y : Sjob} (hx : x ∈ w.sjobs)
    (hy : y ∈ w.sjobs) (hid : y.id = x.id) : y = x := by
  have h₁ := h.sjob?_eq hx
  have h₂ := h.sjob?_eq hy
  rw [hid, h₁] at h₂
  exact (Option.some.inj h₂).symm

/-- A task belongs to one document. -/
theorem eq_of_task (h : w.WF) {x y : Sjob} (hx : x ∈ w.sjobs)
    (hy : y ∈ w.sjobs) {t : Guid} (htx : t ∈ x.tasks)
    (hty : t ∈ y.tasks) : y = x := by
  have hid := (h.owner y hy t hty).symm.trans (h.owner x hx t htx)
  exact h.eq_of_id hx hy (Option.some.inj hid)

/-- Tasks are unique over the store. -/
theorem tasks_nodup (h : w.WF) : (w.sjobs.flatMap Sjob.tasks).Nodup := by
  refine List.nodup_flatMap.mpr ⟨h.tasks, ?_⟩
  have hids := h.ids
  rw [List.Nodup, List.pairwise_map] at hids
  refine hids.imp_of_mem fun hx hy hne t htx hty => hne ?_
  rw [h.eq_of_task hx hy htx hty]

/-- A block belongs to one document. -/
theorem eq_of_block (h : w.WF) {x y : Sjob} (hx : x ∈ w.sjobs)
    (hy : y ∈ w.sjobs) {b : Oid} (hbx : b ∈ x.blockIds)
    (hby : b ∈ y.blockIds) : y = x :=
  eq_of_subkey h.blocks hx hy hbx hby

theorem blockIds_nodup (h : w.WF) {x : Sjob} (hx : x ∈ w.sjobs) :
    x.blockIds.Nodup := (List.nodup_flatMap.mp h.blocks).1 x hx

end World.WF

-- ============================================ pointwise sjob updates

namespace Sjob

/-- Update the document with a given id. -/
def onId (sid : Oid) (f : Sjob → Sjob) (x : Sjob) : Sjob :=
  if x.id = sid then f x else x

theorem hasTask_iff (t : Guid) (x : Sjob) :
    x.hasTask t = true ↔ t ∈ x.tasks := by
  simp [hasTask, tasks]

theorem hasBlock_iff (b : Oid) (x : Sjob) :
    x.hasBlock b = true ↔ b ∈ x.blockIds := by
  simp [hasBlock, blockIds]

theorem tasks_onFlow {g : Flow → Flow} (hg : ∀ f, (g f).task = f.task)
    (t : Guid) (x : Sjob) : (x.onFlow t g).tasks = x.tasks :=
  map_updateOne hg x.flows

theorem mem_tasks_onFlow {g : Flow → Flow} {t t' : Guid} {x : Sjob}
    (hg : ∀ f, (g f).task = f.task) (h : t' ∈ x.tasks) :
    t' ∈ (x.onFlow t g).tasks := by
  rw [tasks_onFlow hg]
  exact h

theorem blockIds_onBlock {g : Block → Block} (hg : ∀ k, (g k).id = k.id)
    (b : Oid) (x : Sjob) : (x.onBlock b g).blockIds = x.blockIds :=
  map_updateOne hg x.blocks

/-- Without the task there is no flow to update. -/
theorem onFlow_of_not_mem {g : Flow → Flow} {t : Guid} {x : Sjob}
    (h : t ∉ x.tasks) : x.onFlow t g = x := by
  have hl : ∀ l : List Flow, t ∉ l.map (·.task) →
      updateOne (·.task == t) g l = l := by
    intro l hl
    induction l with
    | nil => rfl
    | cons f l ih =>
        simp only [List.map_cons, List.mem_cons, not_or] at hl
        rw [updateOne_cons, if_neg (by simpa using Ne.symm hl.1),
          ih hl.2]
  unfold onFlow
  rw [hl x.flows h]

/-- Without the block there is nothing to update. -/
theorem onBlock_of_not_mem {g : Block → Block} {b : Oid} {x : Sjob}
    (h : b ∉ x.blockIds) : x.onBlock b g = x := by
  have hl : ∀ l : List Block, b ∉ l.map (·.id) →
      updateOne (·.id == b) g l = l := by
    intro l hl
    induction l with
    | nil => rfl
    | cons f l ih =>
        simp only [List.map_cons, List.mem_cons, not_or] at hl
        rw [updateOne_cons, if_neg (by simpa using Ne.symm hl.1),
          ih hl.2]
  unfold onBlock
  rw [hl x.blocks h]

end Sjob

namespace World

variable {w : World}

theorem updateSjob_id (h : w.WF) (sid : Oid) (f : Sjob → Sjob) :
    (w.updateSjob (·.id == sid) f).sjobs = w.sjobs.map (Sjob.onId sid f) :=
  updateOne_key h.ids

theorem updateFlow_eq (h : w.WF) (t : Guid) (g : Flow → Flow) :
    (w.updateFlow t g).sjobs = w.sjobs.map (Sjob.onFlow t g) := by
  refine (updateOne_subkey (fun x => Sjob.hasTask_iff t x)
    h.tasks_nodup).trans ?_
  refine List.map_congr_left fun x _ => ?_
  split
  · rfl
  · rename_i hx
    rw [Sjob.onFlow_of_not_mem hx]

theorem updateBlock_eq (h : w.WF) (b : Oid) (g : Block → Block) :
    (w.updateBlock b g).sjobs = w.sjobs.map (Sjob.onBlock b g) := by
  refine (updateOne_subkey (fun x => Sjob.hasBlock_iff b x)
    h.blocks).trans ?_
  refine List.map_congr_left fun x _ => ?_
  split
  · rfl
  · rename_i hx
    rw [Sjob.onBlock_of_not_mem hx]

/-- A pointwise update that keeps the ids keeps the store
well-formed. -/
theorem WF.map {w' : World} (h : w.WF) {g : Sjob → Sjob}
    (hs : w'.sjobs = w.sjobs.map g) (hg : ∀ x, (g x).key = x.key)
    (hr : w'.rawjobs.map (·.id) = w.rawjobs.map (·.id))
    (hn : w.guids <+: w'.guids) : w'.WF := by
  refine h.congr ?_ hr hn
  rw [hs, List.map_map]
  exact List.map_congr_left fun x _ => hg x

/-- A rawjob update keeps the ids. -/
theorem rawjobs_id_updateRawjob {rid : Oid} {f : Rawjob → Rawjob}
    (hf : ∀ r, (f r).id = r.id) :
    (w.updateRawjob rid f).rawjobs.map (·.id) = w.rawjobs.map (·.id) :=
  map_updateOne hf w.rawjobs

end World

end BigDataExpress
