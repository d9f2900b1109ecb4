/-
The invariant of the pool on which the others rest: the store is tidy,
what a handler holds in its phase is there, and one scheduling pass runs
at a time.

Documents are never removed, and no handler changes their ids or the ids
of their blocks; the tasks of a document only change when a scheduling
pass inserts a flow, into a document that had none.
-/
import BigDataExpress.Proofs.Effect
import BigDataExpress.Proofs.Walk
import BigDataExpress.Proofs.Atomic

namespace BigDataExpress

open Interact Collection

-- ===================================================== frames and keys

/-- The ids of a document and the loads of its flows. -/
def Sjob.frame (x : Sjob) : Oid × Oid × List Oid × List (Guid × Oid) :=
  (x.id, x.rawjob, x.blockIds, x.flows.map Flow.load)

/-- The ids in the store are the same, and no token was taken back. -/
structure World.SameKeys (w w' : World) : Prop where
  sjobs : w'.sjobs.map Sjob.key = w.sjobs.map Sjob.key
  rawjobs : w'.rawjobs.map (·.id) = w.rawjobs.map (·.id)
  guids : w.guids <+: w'.guids

/-- The ids in the store and the loads of flows are the same. -/
structure World.SameFrame (w w' : World) : Prop where
  sjobs : w'.sjobs.map Sjob.frame = w.sjobs.map Sjob.frame
  rawjobs : w'.rawjobs.map (·.id) = w.rawjobs.map (·.id)
  guids : w'.guids = w.guids

namespace World

variable {w w' : World} {x : Sjob}

/-- The key of an sjob is one of the keys after. -/
theorem SameKeys.mem (h : w.SameKeys w') (hx : x ∈ w.sjobs) :
    ∃ y ∈ w'.sjobs, y.key = x.key := by
  have hk : x.key ∈ w.sjobs.map Sjob.key := List.mem_map_of_mem hx
  rw [← h.sjobs, List.mem_map] at hk
  exact hk

/-- And each key after is one from before. -/
theorem SameKeys.mem' (h : w.SameKeys w') (hx : x ∈ w'.sjobs) :
    ∃ y ∈ w.sjobs, y.key = x.key := by
  have hk : x.key ∈ w'.sjobs.map Sjob.key := List.mem_map_of_mem hx
  rw [h.sjobs, List.mem_map] at hk
  exact hk

/-- With the same keys a world stays well formed. -/
theorem SameKeys.wf (h : w.SameKeys w') (hwf : w.WF) : w'.WF :=
  hwf.congr h.sjobs h.rawjobs h.guids

/-- The frame of an sjob is one from before. -/
theorem SameFrame.mem (h : w.SameFrame w') (hx : x ∈ w'.sjobs) :
    ∃ y ∈ w.sjobs, y.frame = x.frame := by
  have hk : x.frame ∈ w'.sjobs.map Sjob.frame := List.mem_map_of_mem hx
  rw [h.sjobs, List.mem_map] at hk
  exact hk

/-- The tasks of a document are those of its loads. -/
theorem Sjob_tasks_loads (x : Sjob) :
    x.tasks = (x.flows.map Flow.load).map Prod.fst := by
  rw [List.map_map]
  rfl

/-- With the same frames the keys are the same. -/
theorem SameFrame.keys (h : w.SameFrame w') : w.SameKeys w' where
  sjobs := by
    have := congrArg (List.map fun p : Oid × Oid × List Oid
      × List (Guid × Oid) => (p.1, p.2.1, p.2.2.1, p.2.2.2.map Prod.fst))
      h.sjobs
    rw [List.map_map, List.map_map] at this
    refine Eq.trans (List.map_congr_left fun x _ => ?_)
      (this.trans (List.map_congr_left fun x _ => ?_))
    · simp [Sjob.key, Sjob.frame, Sjob_tasks_loads]
    · simp [Sjob.key, Sjob.frame, Sjob_tasks_loads]
  rawjobs := h.rawjobs
  guids := h.guids ▸ List.prefix_refl _

/-- A world has its own frames. -/
theorem SameFrame.refl (w : World) : w.SameFrame w := ⟨rfl, rfl, rfl⟩

/-- An update of sjobs that keeps the frame. -/
theorem SameFrame.updateSjob {p : Sjob → Bool} {f : Sjob → Sjob}
    (hf : ∀ x, (f x).frame = x.frame) : w.SameFrame (w.updateSjob p f) :=
  ⟨map_updateOne hf w.sjobs, rfl, rfl⟩

/-- An update of blocks that keeps their ids changes no frame. -/
theorem SameFrame.updateBlock {b : Oid} {g : Block → Block}
    (hg : ∀ k, (g k).id = k.id) : w.SameFrame (w.updateBlock b g) := by
  refine .updateSjob fun x => ?_
  unfold Sjob.frame
  rw [Sjob.blockIds_onBlock hg]
  rfl

/-- Nor does one of rawjobs that keeps theirs. -/
theorem SameFrame.updateRawjob {rid : Oid} {f : Rawjob → Rawjob}
    (hf : ∀ r, (f r).id = r.id) : w.SameFrame (w.updateRawjob rid f) :=
  ⟨rfl, rawjobs_id_updateRawjob hf, rfl⟩

/-- What is quiet changes no frame. -/
theorem Quiet.frame (h : w.Quiet w') : w.SameFrame w' where
  sjobs := by
    have := congrArg (List.map fun p : Oid × Oid × Int × List (Guid × Oid)
      × List (Oid × Int × Int) =>
        (p.1, p.2.1, p.2.2.2.2.map Prod.fst, p.2.2.2.1)) h.sjobs
    rw [List.map_map, List.map_map] at this
    refine Eq.trans (List.map_congr_left fun x _ => ?_)
      (this.trans (List.map_congr_left fun x _ => ?_))
    · simp [Sjob.frame, Sjob.core, Sjob.blockIds, Block.tally]
    · simp [Sjob.frame, Sjob.core, Sjob.blockIds, Block.tally]
  rawjobs := by
    have := congrArg (List.map Prod.fst) h.rawjobs
    rw [List.map_map, List.map_map] at this
    exact this
  guids := h.guids

/-- A flow of a document with the same frame has a likeness. -/
theorem frame_flow {y : Sjob} (h : y.frame = x.frame) {f : Flow}
    (hf : f ∈ x.flows) : ∃ g ∈ y.flows, g.load = f.load := by
  have hm : f.load ∈ x.flows.map Flow.load := List.mem_map_of_mem hf
  have hl : y.flows.map Flow.load = x.flows.map Flow.load :=
    congrArg (·.2.2.2) h
  rw [← hl, List.mem_map] at hm
  exact hm

/-- Tidiness only reads the frame. -/
theorem SameFrame.tidy (h : w.SameFrame w') (ht : w.Tidy) : w'.Tidy where
  wf := h.keys.wf ht.wf
  names := by
    intro x hx f hf
    obtain ⟨y, hy, hfr⟩ := h.mem hx
    obtain ⟨g, hg, hgf⟩ := frame_flow hfr hf
    have hids : y.blockIds = x.blockIds := congrArg (·.2.2.1) hfr
    have hblock : g.block = f.block := congrArg Prod.snd hgf
    rw [← hids, ← hblock]
    exact ht.names y hy g hg
  single := by
    intro x hx
    obtain ⟨y, hy, hfr⟩ := h.mem hx
    have hlen := congrArg (fun p => p.2.2.2.length) hfr
    simp only [Sjob.frame, List.length_map] at hlen
    rw [← hlen]
    exact ht.single y hy

end World

-- ================================================== what a phase holds

/-- The sjob read as `x` is in the store, with the flow `f`. -/
def World.Has (w : World) (x : Sjob) (f : Flow) : Prop :=
  ∃ z ∈ w.sjobs, z.id = x.id ∧ z.rawjob = x.rawjob
    ∧ z.blockIds = x.blockIds ∧ f.task ∈ z.tasks

/-- The sjob read as `x` is in the store, and has no flow. -/
def World.Idle (w : World) (x : Sjob) : Prop :=
  ∃ z ∈ w.sjobs, z.id = x.id ∧ z.blockIds = x.blockIds ∧ z.tasks = []

namespace HandlerPhase

/-- What the phase holds is in the world. -/
def Fits (w : World) : HandlerPhase → Prop
  | count x f k _ => w.Has x f ∧ k ∈ x.blocks ∧ k.id = f.block
  | verify x f k => w.Has x f ∧ k ∈ x.blocks ∧ k.id = f.block
  | uncount x f k _ => w.Has x f ∧ k ∈ x.blocks ∧ k.id = f.block
  | relaunch x f => w.Has x f
  | launched x f n => w.Has x f ∧ n ∈ x.blockIds
  | scheduling xs => ∀ y ∈ xs, w.Idle y
  | drawn xs x t => (∀ y ∈ xs, w.Idle y ∧ y.id ≠ x.id) ∧ w.Idle x
      ∧ w.guids[t]? = some x.id ∧ ∀ z ∈ w.sjobs, t ∉ z.tasks
  | inserted xs t _ => (∀ y ∈ xs, w.Idle y) ∧ ∃ i, w.guids[t]? = some i
  | _ => True

/-- The phases of a scheduling pass. -/
def Schedules : HandlerPhase → Prop
  | pass | scheduling _ | drawn .. | inserted .. => True
  | _ => False

end HandlerPhase

section hold

variable {w w' : World} {x : Sjob} {f : Flow} {s : HandlerPhase}

/-- An sjob that has a flow has it if the keys stay. -/
theorem World.Has.keys (h : w.Has x f) (hk : w.SameKeys w') :
    w'.Has x f := by
  obtain ⟨z, hz, hid, hr, hb, ht⟩ := h
  obtain ⟨y, hy, hkey⟩ := hk.mem hz
  simp only [Sjob.key, Prod.mk.injEq] at hkey
  exact ⟨y, hy, hkey.1.trans hid, hkey.2.1.trans hr, hkey.2.2.1.trans hb,
    hkey.2.2.2 ▸ ht⟩

/-- An idle sjob stays idle if the keys stay. -/
theorem World.Idle.keys (h : w.Idle x) (hk : w.SameKeys w') :
    w'.Idle x := by
  obtain ⟨z, hz, hid, hb, ht⟩ := h
  obtain ⟨y, hy, hkey⟩ := hk.mem hz
  simp only [Sjob.key, Prod.mk.injEq] at hkey
  exact ⟨y, hy, hkey.1.trans hid, hkey.2.2.1.trans hb,
    hkey.2.2.2.trans ht⟩

/-- A handler fits as long as the keys stay. -/
theorem HandlerPhase.Fits.keys (h : s.Fits w) (hk : w.SameKeys w') :
    s.Fits w' := by
  cases s with
  | count x f k l => exact ⟨h.1.keys hk, h.2⟩
  | verify x f k => exact ⟨h.1.keys hk, h.2⟩
  | uncount x f k l => exact ⟨h.1.keys hk, h.2⟩
  | relaunch x f => exact World.Has.keys h hk
  | launched x f n => exact ⟨h.1.keys hk, h.2⟩
  | scheduling xs => exact fun y hy => (h y hy).keys hk
  | drawn xs x t =>
      obtain ⟨hxs, hx, hg, ht⟩ := h
      refine ⟨fun y hy => ⟨(hxs y hy).1.keys hk, (hxs y hy).2⟩,
        hx.keys hk, getElem?_prefix hk.guids hg, fun z hz hzt => ?_⟩
      obtain ⟨y, hy, hkey⟩ := hk.mem' hz
      simp only [Sjob.key, Prod.mk.injEq] at hkey
      exact ht y hy (hkey.2.2.2 ▸ hzt)
  | inserted xs t b =>
      obtain ⟨hxs, i, hg⟩ := h
      exact ⟨fun y hy => (hxs y hy).keys hk, i,
        getElem?_prefix hk.guids hg⟩
  | quiet => trivial
  | dispatched t => trivial
  | pass => trivial
  | poll => trivial
  | polling => trivial
  | summing rid ids xs acc => trivial
  | rated rid x f n xs acc => trivial
  | owing rid x d xs acc => trivial

-- ---------------------------------------------------- inserting a flow

/-- The documents after the insertion of a flow. -/
theorem World.mem_insertFlow (hwf : w.WF) {y : Sjob} (hy : y ∈ w.sjobs)
    {z : Sjob} : z ∈ (w.insertFlow y.id f).sjobs
      ↔ z = { y with flows := y.flows ++ [f] }
        ∨ (z ∈ w.sjobs ∧ z.id ≠ y.id) :=
  (World.sets_updateId hwf hy rfl fun y =>
    { y with flows := y.flows ++ [f] }).mem_iff hy rfl

/-- An inserted flow takes none away. -/
theorem World.Has.insert (hwf : w.WF) {y : Sjob} (hy : y ∈ w.sjobs)
    {g : Flow} (h : w.Has x g) : (w.insertFlow y.id f).Has x g := by
  obtain ⟨z, hz, hid, hr, hb, ht⟩ := h
  by_cases hzy : z.id = y.id
  · obtain rfl := hwf.eq_of_id hy hz hzy
    refine ⟨_, (World.mem_insertFlow hwf hy).mpr (.inl rfl), hid, hr, hb, ?_⟩
    have htasks : ({ z with flows := z.flows ++ [f] } : Sjob).tasks
        = z.tasks ++ [f.task] := by simp [Sjob.tasks]
    rw [htasks]
    exact List.mem_append_left _ ht
  · exact ⟨z, (World.mem_insertFlow hwf hy).mpr (.inr ⟨hz, hzy⟩), hid, hr,
      hb, ht⟩

/-- Another sjob stays idle when a flow is inserted. -/
theorem World.Idle.insert (hwf : w.WF) {y : Sjob} (hy : y ∈ w.sjobs)
    (h : w.Idle x) (hne : x.id ≠ y.id) : (w.insertFlow y.id f).Idle x := by
  obtain ⟨z, hz, hid, hb, ht⟩ := h
  have hzy : z.id ≠ y.id := fun hc => hne (hid.symm.trans hc)
  exact ⟨z, (World.mem_insertFlow hwf hy).mpr (.inr ⟨hz, hzy⟩), hid, hb,
    ht⟩

/-- What another handler holds is there after the insertion. -/
theorem HandlerPhase.Fits.insert (h : s.Fits w) (hs : ¬ s.Schedules)
    (hwf : w.WF) {y : Sjob} (hy : y ∈ w.sjobs) :
    s.Fits (w.insertFlow y.id f) := by
  cases s with
  | count x g k l => exact ⟨h.1.insert hwf hy, h.2⟩
  | verify x g k => exact ⟨h.1.insert hwf hy, h.2⟩
  | uncount x g k l => exact ⟨h.1.insert hwf hy, h.2⟩
  | relaunch x g => exact World.Has.insert hwf hy h
  | launched x g n => exact ⟨h.1.insert hwf hy, h.2⟩
  | scheduling xs => exact absurd trivial hs
  | drawn xs x t => exact absurd trivial hs
  | inserted xs t b => exact absurd trivial hs
  | quiet => trivial
  | dispatched t => trivial
  | pass => trivial
  | poll => trivial
  | polling => trivial
  | summing rid ids xs acc => trivial
  | rated rid x f n xs acc => trivial
  | owing rid x d xs acc => trivial

/-- A flow for an sjob that has none keeps the world tidy. -/
theorem World.Tidy.insert (h : w.Tidy) {y : Sjob} (hy : y ∈ w.sjobs)
    (hempty : y.tasks = []) (hb : f.block ∈ y.blockIds)
    (howner : w.guids[f.task]? = some y.id) :
    (w.insertFlow y.id f).Tidy where
  wf := World.insertFlow_wf h.wf hy rfl howner (by rw [hempty]; exact nofun)
  names := by
    intro z hz g hg
    have hflows : y.flows = [] := List.map_eq_nil_iff.mp hempty
    rcases (World.mem_insertFlow h.wf hy).mp hz with rfl | ⟨hz, -⟩
    · rw [hflows, List.nil_append, List.mem_singleton] at hg
      rw [hg]
      exact hb
    · exact h.names z hz g hg
  single := by
    intro z hz
    have hflows : y.flows = [] := List.map_eq_nil_iff.mp hempty
    rcases (World.mem_insertFlow h.wf hy).mp hz with rfl | ⟨hz, -⟩
    · simp [hflows]
    · exact h.single z hz

end hold

-- ====================================================== the invariant

/-- The store is tidy, the phases fit it, and one scheduling pass runs at
a time. -/
structure Base (w : World) (m : List (HandlerId × HandlerPhase)) : Prop where
  tidy : w.Tidy
  fits : ∀ q ∈ m, q.2.Fits w
  alone : m.Pairwise fun a b => ¬ (a.2.Schedules ∧ b.2.Schedules)
  owner : ∀ q ∈ m, q.2.Schedules → q.1 = .schedule

section base

variable {w w' : World} {m m₁ m₂ : List (HandlerId × HandlerPhase)}
  {h : HandlerId} {s s' : HandlerPhase}
  {adm : World → (e : Call) → Reply e → Prop}

/-- Beside a scheduling pass no other one runs. -/
theorem Base.others (hb : Base w (m₁ ++ (h, s) :: m₂))
    (hs : s.Schedules) : ∀ q ∈ m₁ ++ m₂, ¬ q.2.Schedules := by
  have ha := hb.alone
  rw [List.pairwise_append, List.pairwise_cons] at ha
  intro q hq hqs
  rcases List.mem_append.mp hq with hq | hq
  · exact ha.2.2 q hq (h, s) (List.mem_cons_self ..) ⟨hqs, hs⟩
  · exact ha.2.1.1 q hq ⟨hs, hqs⟩

/-- A list around one of its elements. -/
theorem mem_around {α : Type} {l₁ l₂ : List α} {a b : α} :
    b ∈ l₁ ++ a :: l₂ ↔ b = a ∨ b ∈ l₁ ++ l₂ := by
  simp only [List.mem_append, List.mem_cons]
  tauto

/-- The phase of one handler changes, with the world. -/
theorem Base.update (hb : Base w (m₁ ++ (h, s) :: m₂)) (ht : w'.Tidy)
    (hothers : ∀ q ∈ m₁ ++ m₂, q.2.Fits w') (hfit : s'.Fits w')
    (hsch : s'.Schedules → s.Schedules) :
    Base w' (m₁ ++ (h, s') :: m₂) where
  tidy := ht
  fits := by
    intro q hq
    rcases mem_around.mp hq with rfl | hq
    · exact hfit
    · exact hothers q hq
  alone := by
    have ha := hb.alone
    rw [List.pairwise_append, List.pairwise_cons] at ha ⊢
    obtain ⟨h₁, ⟨hc, h₂⟩, hx⟩ := ha
    refine ⟨h₁, ⟨fun b hbm hs => hc b hbm ⟨hsch hs.1, hs.2⟩, h₂⟩,
      fun a ham b hbm hs => ?_⟩
    rcases List.mem_cons.mp hbm with rfl | hbm
    · exact hx a ham (h, s) (List.mem_cons_self ..) ⟨hs.1, hsch hs.2⟩
    · exact hx a ham b (List.mem_cons_of_mem _ hbm) hs
  owner := by
    intro q hq hs
    rcases mem_around.mp hq with rfl | hq
    · exact hb.owner (h, s) (mem_around.mpr (.inl rfl)) (hsch hs)
    · exact hb.owner q (mem_around.mpr (.inr hq)) hs

/-- The ids stay. -/
theorem Base.keys (hb : Base w (m₁ ++ (h, s) :: m₂)) (hk : w.SameKeys w')
    (ht : w'.Tidy) (hfit : s'.Fits w') (hsch : s'.Schedules → s.Schedules) :
    Base w' (m₁ ++ (h, s') :: m₂) :=
  hb.update ht (fun q hq =>
    (hb.fits q (mem_around.mpr (.inr hq))).keys hk) hfit hsch

/-- The ids and the loads stay. -/
theorem Base.frame (hb : Base w (m₁ ++ (h, s) :: m₂))
    (hf : w.SameFrame w') (hfit : s'.Fits w)
    (hsch : s'.Schedules → s.Schedules) :
    Base w' (m₁ ++ (h, s') :: m₂) :=
  hb.keys hf.keys (hf.tidy hb.tidy) (hfit.keys hf.keys) hsch

/-- A handler fits its world. -/
theorem Base.own (hb : Base w (m₁ ++ (h, s) :: m₂)) : s.Fits w :=
  hb.fits (h, s) (mem_around.mpr (.inl rfl))

-- --------------------------------------------------- the other moves

/-- The flow of a launched block is told of it. -/
theorem Base.carry {x : Sjob} {f : Flow} {n : Oid}
    (hb : Base w (m₁ ++ (h, .launched x f n) :: m₂)) :
    Base (w.updateSjobFlowBlock f.task n) (m₁ ++ (h, .quiet) :: m₂) := by
  obtain ⟨⟨z, hz, -, -, hbl, htz⟩, hn⟩ := hb.own
  have hwf := hb.tidy.wf
  have hsets := World.sets_updateFlow hwf hz rfl htz
    (fun f => { f with block := n })
  have hkey : ∀ y : Sjob, (y.onFlow f.task fun f =>
      { f with block := n }).key = y.key := by
    intro y
    have htasks := Sjob.tasks_onFlow (g := fun f => { f with block := n })
      (fun _ => rfl) f.task y
    unfold Sjob.key
    rw [htasks]
    rfl
  have hmem := fun y => hsets.mem_iff hz rfl (z := y)
  have hk : w.SameKeys (w.updateSjobFlowBlock f.task n) :=
    ⟨map_updateOne hkey w.sjobs, rfl, List.prefix_refl _⟩
  refine hb.keys hk ⟨hk.wf hwf, ?_, ?_⟩ trivial (fun hc => hc.elim)
  · intro y hy g hg
    rcases (hmem y).mp hy with rfl | ⟨hy, -⟩
    · rcases mem_updateOne hg with hg | ⟨g', -, -, rfl⟩
      · exact hb.tidy.names z hz g hg
      · show n ∈ z.blockIds
        rw [hbl]
        exact hn
    · exact hb.tidy.names y hy g hg
  · intro y hy
    rcases (hmem y).mp hy with rfl | ⟨hy, -⟩
    · have hlen := congrArg List.length (congrArg (·.2.2.2) (hkey z))
      simp only [Sjob.key, Sjob.tasks, List.length_map] at hlen
      rw [hlen]
      exact hb.tidy.single z hz
    · exact hb.tidy.single y hy

/-- A task is drawn. -/
theorem Base.draw {xs : List Sjob} {x : Sjob}
    (hb : Base w (m₁ ++ (h, .scheduling xs) :: m₂)) (hx : x ∈ xs) :
    Base (w.drawGuid x.id) (m₁ ++ (h, .drawn (xs.filter (·.id ≠ x.id)) x
      w.guids.length) :: m₂) := by
  have hk : w.SameKeys (w.drawGuid x.id) :=
    ⟨rfl, rfl, List.prefix_append ..⟩
  have hxs : ∀ y ∈ xs, w.Idle y := hb.own
  refine hb.keys hk ⟨hk.wf hb.tidy.wf, hb.tidy.names, hb.tidy.single⟩
    ⟨fun y hy => ?_, (hxs x hx).keys hk, ?_, fun z hz hzt => ?_⟩
    fun _ => trivial
  · rw [List.mem_filter, decide_eq_true_iff] at hy
    exact ⟨(hxs y hy.1).keys hk, hy.2⟩
  · simp [World.drawGuid]
  · have howner := hb.tidy.wf.owner z hz _ hzt
    simp at howner

/-- A flow is inserted. -/
theorem Base.insert {xs : List Sjob} {x : Sjob} {f : Flow}
    (hb : Base w (m₁ ++ (h, .drawn xs x f.task) :: m₂))
    (hbl : f.block ∈ x.blockIds) :
    Base (w.insertFlow x.id f)
      (m₁ ++ (h, .inserted xs f.task f.block) :: m₂) := by
  obtain ⟨hxs, ⟨z, hz, hid, hzb, hempty⟩, hg, -⟩ := hb.own
  have hwf := hb.tidy.wf
  rw [← hid] at hg ⊢
  refine hb.update (hb.tidy.insert hz hempty (hzb ▸ hbl) hg) (fun q hq => ?_)
    ⟨fun y hy => ?_, z.id, hg⟩ fun _ => trivial
  · exact (hb.fits q (mem_around.mpr (.inr hq))).insert
      (hb.others trivial q hq) hwf hz
  · exact (hxs y hy).1.insert hwf hz (hid ▸ (hxs y hy).2)

/-- A scheduling pass reads the sjobs. -/
theorem Base.pass (hb : Base w (m₁ ++ (h, .pass) :: m₂)) :
    Base w (m₁ ++ (h, .scheduling w.idleSjobs) :: m₂) := by
  refine hb.frame (.refl w) (fun y hy => ?_) fun _ => trivial
  have hact := (List.mem_filter.mp hy).1
  have hempty : y.flows = [] := by
    simpa using (List.mem_filter.mp hy).2
  have hperm : w.activeBestEffortSjobs.Perm
      (w.sjobs.filter World.isActive) := List.perm_insertionSort _ _
  have hmem := (List.mem_filter.mp (hperm.mem_iff.mp hact)).1
  exact ⟨y, hmem, rfl, rfl, by rw [Sjob.tasks, hempty]; rfl⟩

/-- A step of a handler keeps that, whichever it is. -/
theorem Base.exec (hb : Base w (m₁ ++ (h, s) :: m₂))
    (hm : Move adm h s w s' w') : Base w' (m₁ ++ (h, s') :: m₂) := by
  have record : ∀ {e r}, w.SameFrame (w.record h e r) := ⟨rfl, rfl, rfl⟩
  cases hm with
  | quiet hq => exact hb.frame hq.frame hb.own id
  | ignore => exact hb.frame (.refl w) trivial (fun hc => hc.elim)
  | @read t x f k _ hx hf ht hk hid =>
      refine hb.frame (.refl w) ⟨⟨x, hx, rfl, rfl, rfl, ?_⟩, hk, hid⟩
        (fun hc => hc.elim)
      exact List.mem_map_of_mem hf
  | countBlock =>
      exact hb.frame (.updateBlock fun _ => rfl) hb.own id
  | countSjob => exact hb.frame (.updateSjob fun _ => rfl) hb.own id
  | countRawjob => exact hb.frame (.updateRawjob fun _ => rfl) hb.own id
  | accept =>
      exact hb.frame (.updateBlock fun _ => rfl) hb.own.1 id
  | uncountBlock => exact hb.frame (.updateBlock fun _ => rfl) hb.own id
  | uncountSjob => exact hb.frame (.updateSjob fun _ => rfl) hb.own id
  | uncountRawjob =>
      exact hb.frame (.updateRawjob fun _ => rfl) hb.own.1 id
  | relaunch hn ht => exact hb.frame record ⟨hb.own, hn⟩ id
  | carry => exact hb.carry
  | pass => exact hb.pass
  | draw hx => exact hb.draw hx
  | insert hbl => exact hb.insert hbl
  | launch ht => exact hb.frame record hb.own.1 id
  | check hl => exact hb.frame (.refl w) trivial id
  | list => exact hb.frame (.refl w) trivial id
  | cursor => exact hb.frame (.refl w) trivial id
  | rate => exact hb.frame record trivial id
  | sample => exact hb.frame (.updateBlock fun _ => rfl) trivial id
  | tally => exact hb.frame (.updateSjob fun _ => rfl) trivial id
  | skip => exact hb.frame (.updateSjob fun _ => rfl) trivial id
  | total => exact hb.frame (.updateRawjob fun _ => rfl) trivial id
  | unknown => exact hb.frame record trivial (fun hc => hc.elim)
  | gone => exact hb.frame (.refl w) trivial (fun hc => hc.elim)

-- -------------------------------------------------- starts and ends

/-- So does its end. -/
theorem Base.retire (hb : Base w (m₁ ++ (h, s) :: m₂)) :
    Base w (m₁ ++ m₂) where
  tidy := hb.tidy
  fits q hq := hb.fits q (mem_around.mpr (.inr hq))
  alone := hb.alone.sublist
    ((List.Sublist.refl m₁).append (List.sublist_cons_self _ _))
  owner q hq := hb.owner q (mem_around.mpr (.inr hq))

/-- A handler starts with nothing in hand. -/
theorem Base.start (hb : Base w m) (hk : w.SameFrame w') (hfit : s.Fits w)
    (hown : s.Schedules → h = .schedule)
    (hsch : s.Schedules → .schedule ∉ m.map Prod.fst) :
    Base w' (m ++ [(h, s)]) where
  tidy := hk.tidy hb.tidy
  fits := by
    intro q hq
    rcases List.mem_append.mp hq with hq | hq
    · exact (hb.fits q hq).keys hk.keys
    · rw [List.mem_singleton.mp hq]
      exact hfit.keys hk.keys
  alone := by
    rw [List.pairwise_append]
    refine ⟨hb.alone, List.pairwise_singleton _ _, fun a ha b hbm hs => ?_⟩
    rw [List.mem_singleton.mp hbm] at hs
    refine hsch hs.2 ?_
    rw [← hb.owner a ha hs.1]
    exact List.mem_map_of_mem ha
  owner := by
    intro q hq hs
    rcases List.mem_append.mp hq with hq | hq
    · exact hb.owner q hq hs
    · rw [List.mem_singleton.mp hq] at hs ⊢
      exact hown hs

/-- The phase a handler starts in. -/
def startPhase (w : World) : HandlerId → HandlerPhase
  | .schedule => .pass
  | .pollRate => .poll
  | .status n => match w.delivered[n]? with
    | some r => r.phase
    | none => .quiet

/-- The handler of a report starts with the phase of the report. -/
theorem startPhase_deliver (r : Report) :
    startPhase (w.deliver r) (.status w.delivered.length) = r.phase := by
  simp [startPhase, World.deliver]

/-- Every start follows the machine, from the phase it starts in. -/
theorem Starts.walks {conf : Conf} {ru : Rules} {P : ServerPool}
    {p : Handler Unit} (hs : Starts conf ru P h p w') :
    Walks ru h p (Ends Unit) (startPhase w' h)
      ∧ (startPhase w' h).Fits P.world ∧ P.world.SameFrame w'
      ∧ ((startPhase w' h).Schedules → h = .schedule
        ∧ ¬ P.Running .schedule) := by
  cases hs with
  | schedule hno => exact ⟨schedule_walks conf, trivial, .refl _,
      fun _ => ⟨rfl, hno⟩⟩
  | pollRate hno hp => exact ⟨pollRate_walks conf, trivial, .refl _,
      fun hc => hc.elim⟩
  | @status r hr hd =>
      rw [startPhase_deliver]
      refine ⟨mldStatus_walks conf r, ?_, ⟨rfl, rfl, rfl⟩, ?_⟩
      · unfold Report.phase
        split
        · trivial
        · trivial
      · unfold Report.phase
        split
        · exact fun hc => hc.elim
        · exact fun hc => hc.elim

/-- What happens outside changes no frame. -/
theorem Happens.frame {ru : Rules} {P : ServerPool} (hh : Happens ru P w') :
    P.world.SameFrame w' := by
  cases hh with
  | publish => exact ⟨rfl, rfl, rfl⟩
  | launcher => exact ⟨rfl, rfl, rfl⟩

/-- So it keeps that as well. -/
theorem Base.outside (hb : Base w m) (hf : w.SameFrame w') : Base w' m :=
  ⟨hf.tidy hb.tidy, fun q hq => (hb.fits q hq).keys hf.keys, hb.alone,
    hb.owner⟩

end base

/-- A fresh world is tidy. -/
theorem World.Fresh.tidy {w : World} (h : w.Fresh) : w.Tidy where
  wf := h.wf
  names x hx f hf := by
    rw [(h.sjobs x hx).flows] at hf
    cases hf
  single x hx := by simp [(h.sjobs x hx).flows]

/-- And without handlers, all fit. -/
theorem World.Fresh.base {w : World} (h : w.Fresh) : Base w [] :=
  ⟨h.tidy, by simp, .nil, by simp⟩

-- ======================================================= concrete runs

/-- The world after a handler has run alone, every call answered well. -/
def World.ran (h : HandlerId) (p : Handler Unit) (w : World) : World :=
  (p.run (Rules.free.env h) (plainOracle true true) w).2

/-- A handler that is started in an empty pool runs to its end. -/
theorem server_ran {conf : Conf} {ru : Rules} (hru : ru.reply = Rules.free.reply)
    {P : ServerPool} {w w' : World} {h : HandlerId} {p : Handler Unit}
    (hrun : (server conf ru).Run P ⟨w, []⟩)
    (hs : Starts conf ru ⟨w, []⟩ h p w') :
    (server conf ru).Run P ⟨w'.ran h p, []⟩ := by
  have henv : ru.env h = Rules.free.env h := by
    unfold Rules.env
    rw [hru]
  have hsolo := System.run_solo (S := server conf ru)
    (o := plainOracle true true) (t := h)
    (by intro v e; show ru.reply v e _; rw [hru]; trivial) p w' [] []
  have hend : (p.run ((server conf ru).env h) (plainOracle true true) w').2
      = w'.ran h p := by
    show (p.run (ru.env h) _ w').2 = _
    rw [henv]
    rfl
  rw [hend] at hsolo
  exact (hrun.tail (.spawn hs)).trans hsolo

/-- The first of two blocks has been launched by a pass. -/
def launchedFirst : World :=
  twoBlocks.ran .schedule (schedule (plainConf false))

/-- A run that launches the first block of the sample. -/
theorem server_launchedFirst {ru : Rules}
    (hru : ru.reply = Rules.free.reply) :
    (server (plainConf false) ru).Run ⟨twoBlocks, []⟩ ⟨launchedFirst, []⟩ :=
  server_ran hru .refl (.schedule nofun)

end BigDataExpress
