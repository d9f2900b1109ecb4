/-
The bytes of the blocks, the sjobs and the rawjobs add up whenever no
handler is at work.

# The snapshots

A counter is moved by a difference to a document read before. That the
document is still right when the difference is added needs that nobody
else counts for the same block in between. A handler holds the tasks it
may count for (`holds`): one of a completion holds its task, and a
polling pass holds all of them. Handlers at work hold different tasks
(`Counting.apart`), and what one notes of the blocks of its tasks the
others leave alone.

# The losses

A polling pass that ends before its time, for a task the launcher does
not know or without a launcher, leaves the rawjob in debt. A completion
and a pass that overlap count the same bytes twice.
-/
import BigDataExpress.Proofs.Completion
import BigDataExpress.Proofs.Debts
import BigDataExpress.Proofs.Failure

namespace BigDataExpress

open Interact Collection

-- =========================================================== the property

/-- The counters agree with each other, and with the sizes. -/
structure World.Accounted (w : World) : Prop where
  sjobs : ∀ x ∈ w.sjobs, x.txBytes = (x.blocks.map (·.txBytes)).sum
  rawjobs : ∀ r ∈ w.rawjobs, r.txBytes
    = ((w.sjobs.filter (·.rawjob == r.id)).map (·.txBytes)).sum
  range : ∀ x ∈ w.sjobs, ∀ b ∈ x.blocks,
    0 ≤ b.txBytes ∧ b.txBytes ≤ b.size
  full : ∀ x ∈ w.sjobs, ∀ b ∈ x.blocks, b.state = .finished →
    b.txBytes = b.size

/-- So many bytes may have been counted for the block. -/
structure World.Possible (w : World) (k : Block) (n : Int) : Prop where
  nonneg : 0 ≤ n
  le : n ≤ k.size
  full : w.Finished k.id → n = k.size

/-- The bytes counted for blocks are possible. -/
def World.InRange (w : World) : Prop :=
  ∀ x ∈ w.sjobs, ∀ k ∈ x.blocks, w.Possible k k.txBytes

-- ============================================================== the notes

/-- The sjob of the task has a block with this tally, not finished. -/
def World.Sits (w : World) (t : Guid) (k : Oid × Int × Int) : Prop :=
  ¬ w.Finished k.1 ∧ ∃ z ∈ w.sjobs, t ∈ z.tasks ∧ k ∈ z.blocks.map Block.tally

/-- The document `y` is still right, but for flows inserted since. -/
def World.Current (w : World) (rid : Oid) (y : Sjob) : Prop :=
  ∃ z ∈ w.sjobs, z.id = y.id ∧ z.rawjob = rid
    ∧ z.blocks.map Block.tally = y.blocks.map Block.tally
    ∧ ∀ f ∈ y.flows, f.load ∈ z.flows.map Flow.load

/-- The documents `xs` of the rawjob are still right, and `ids` are
others of it. -/
structure World.Snapshot (w : World) (rid : Oid) (ids : List Oid)
    (xs : List Sjob) : Prop where
  distinct : (xs.map (·.id) ++ ids).Nodup
  listed : ∀ i ∈ ids, ∀ z ∈ w.sjobs, z.id = i → z.rawjob = rid
  current : ∀ y ∈ xs, w.Current rid y

namespace HandlerPhase

/-- The tasks whose blocks the handler may count or launch. -/
def holds : HandlerPhase → Set Guid
  | dispatched t => {t}
  | count _ f _ _ => {f.task}
  | verify _ f _ => {f.task}
  | uncount _ f _ _ => {f.task}
  | relaunch _ f => {f.task}
  | launched _ f _ => {f.task}
  | poll | polling | summing .. | rated .. | owing .. => Set.univ
  | _ => ∅

/-- What the handler relies on, of the blocks of the tasks it holds. -/
def Notes (w : World) : HandlerPhase → Prop
  | dispatched t => ∃ z ∈ w.sjobs, ∃ f ∈ z.flows, f.task = t
      ∧ ¬ w.Finished f.block
  | count _ f k .block => w.Sits f.task k.tally
  | count _ f k _ => w.Sits f.task (k.id, k.size, k.size)
  | verify _ f k => w.Sits f.task (k.id, k.size, k.size)
  | polling => w.hasLauncher = true
  | summing rid ids xs _ => w.hasLauncher = true ∧ w.Snapshot rid ids xs
  | rated rid x f n xs _ => w.hasLauncher = true
      ∧ w.Snapshot rid [] (x :: xs) ∧ f ∈ x.flows
      ∧ ∀ z ∈ w.sjobs, ∀ k ∈ z.blocks, k.id = f.block → w.Possible k n
  | owing rid _ _ xs _ => w.hasLauncher = true ∧ w.Snapshot rid [] xs
  | _ => True

end HandlerPhase

/-- No task is held by both. -/
def Apart (T U : Set Guid) : Prop := ∀ t ∈ T, t ∉ U

/-- Sets of tasks are apart from each other. -/
theorem Apart.symm {T U : Set Guid} (h : Apart T U) : Apart U T :=
  fun t hU hT => h t hT hU

-- =================================================== what leaves them be

/-- What is counted of a document, and what its flows carry. -/
def Sjob.sheet (x : Sjob) :
    Oid × Oid × List (Guid × Oid) × List (Oid × Int × Int) :=
  (x.id, x.rawjob, x.flows.map Flow.load, x.blocks.map Block.tally)

/-- No block, load or launcher has changed. -/
structure World.SameSheets (w w' : World) : Prop where
  sjobs : w'.sjobs.map Sjob.sheet = w.sjobs.map Sjob.sheet
  finished : ∀ i, w'.Finished i → w.Finished i
  hasLauncher : w'.hasLauncher = w.hasLauncher

/-- The document `z`, whose tasks are held in `T`, has become `y`; one
without a task keeps its blocks. -/
structure World.Touches (T : Set Guid) (z y : Sjob) (w w' : World) :
    Prop where
  mem : z ∈ w.sjobs
  sets : w.Sets z.id y w'
  id : y.id = z.id
  rawjob : y.rawjob = z.rawjob
  blockIds : y.blockIds = z.blockIds
  held : ∀ t ∈ z.tasks, t ∈ T
  idle : z.tasks = [] → y.blocks = z.blocks

section stable

variable {w w' : World} {s : HandlerPhase} {t : Guid}

/-- The sheet of each sjob is one of the sheets after. -/
theorem World.SameSheets.mem (h : w.SameSheets w') {x : Sjob}
    (hx : x ∈ w.sjobs) : ∃ y ∈ w'.sjobs, y.sheet = x.sheet := by
  have hm : x.sheet ∈ w.sjobs.map Sjob.sheet := List.mem_map_of_mem hx
  rw [← h.sjobs, List.mem_map] at hm
  exact hm

/-- And each sheet after is one from before. -/
theorem World.SameSheets.mem' (h : w.SameSheets w') {x : Sjob}
    (hx : x ∈ w'.sjobs) : ∃ y ∈ w.sjobs, y.sheet = x.sheet := by
  have hm : x.sheet ∈ w'.sjobs.map Sjob.sheet := List.mem_map_of_mem hx
  rw [h.sjobs, List.mem_map] at hm
  exact hm

/-- A block of a document with the same sheet has a likeness. -/
theorem Sjob.sheet_block {x y : Sjob} (h : y.sheet = x.sheet) {k : Block}
    (hk : k ∈ x.blocks) : ∃ k' ∈ y.blocks, k'.tally = k.tally := by
  have hm : k.tally ∈ x.blocks.map Block.tally := List.mem_map_of_mem hk
  have ht : y.blocks.map Block.tally = x.blocks.map Block.tally :=
    congrArg (·.2.2.2) h
  rw [← ht, List.mem_map] at hm
  exact hm

/-- A sheet tells the tasks. -/
theorem Sjob.sheet_tasks {x y : Sjob} (h : y.sheet = x.sheet) :
    y.tasks = x.tasks := by
  rw [World.Sjob_tasks_loads, World.Sjob_tasks_loads]
  exact congrArg (fun c => c.2.2.1.map Prod.fst) h

/-- A flow of a document with the same sheet has a likeness. -/
theorem Sjob.sheet_flow {x y : Sjob} (h : y.sheet = x.sheet) {f : Flow}
    (hf : f ∈ x.flows) : ∃ g ∈ y.flows, g.load = f.load := by
  have hm : f.load ∈ x.flows.map Flow.load := List.mem_map_of_mem hf
  have hl : y.flows.map Flow.load = x.flows.map Flow.load :=
    congrArg (·.2.2.1) h
  rw [← hl, List.mem_map] at hm
  exact hm

-- ----------------------------------------------------- the same sheets

/-- What was possible of a block is so of one with its id and size, if it is
not finished anew. -/
theorem World.Possible.mono {k k' : Block} {n : Int} (h : w.Possible k n)
    (hid : k'.id = k.id) (hsize : k'.size = k.size)
    (hfin : w'.Finished k.id → w.Finished k.id) : w'.Possible k' n := by
  refine ⟨h.nonneg, by rw [hsize]; exact h.le, fun hf => ?_⟩
  rw [hid] at hf
  rw [hsize]
  exact h.full (hfin hf)

/-- Possible bytes of the block `b` stay so. -/
theorem World.SameSheets.possible (h : w.SameSheets w') {b : Oid} {n : Int}
    (hp : ∀ z ∈ w.sjobs, ∀ k ∈ z.blocks, k.id = b → w.Possible k n) :
    ∀ z ∈ w'.sjobs, ∀ k ∈ z.blocks, k.id = b → w'.Possible k n := by
  intro z hz k hk hid
  obtain ⟨y, hy, hsh⟩ := h.mem' hz
  obtain ⟨k', hk', ht⟩ := Sjob.sheet_block hsh hk
  have hid' : k'.id = k.id := congrArg Prod.fst ht
  exact (hp y hy k' hk' (hid'.trans hid)).mono hid'.symm
    (congrArg (·.2.1) ht.symm) (h.finished _)

/-- With the same sheets every count is in its range. -/
theorem World.InRange.same (hr : w.InRange) (h : w.SameSheets w') :
    w'.InRange := by
  intro x hx k hk
  obtain ⟨y, hy, hsh⟩ := h.mem' hx
  obtain ⟨k', hk', ht⟩ := Sjob.sheet_block hsh hk
  have htx : k'.txBytes = k.txBytes := congrArg (·.2.2) ht
  rw [← htx]
  exact (hr y hy k' hk').mono (congrArg Prod.fst ht.symm)
    (congrArg (·.2.1) ht.symm) (h.finished _)

/-- With the same sheets a task sits on the same block. -/
theorem World.Sits.same {k : Oid × Int × Int} (hs : w.Sits t k)
    (h : w.SameSheets w') : w'.Sits t k := by
  obtain ⟨hfin, z, hz, ht, hk⟩ := hs
  obtain ⟨y, hy, hsh⟩ := h.mem hz
  refine ⟨fun hf => hfin (h.finished _ hf), y, hy, ?_, ?_⟩
  · rw [Sjob.sheet_tasks hsh]
    exact ht
  · have htally : y.blocks.map Block.tally = z.blocks.map Block.tally :=
      congrArg (·.2.2.2) hsh
    rw [htally]
    exact hk

/-- With the same sheets a snapshot is still one. -/
theorem World.Snapshot.same {rid : Oid} {ids : List Oid} {xs : List Sjob}
    (hs : w.Snapshot rid ids xs) (h : w.SameSheets w') :
    w'.Snapshot rid ids xs where
  distinct := hs.distinct
  listed := by
    intro i hi z hz hid
    obtain ⟨y, hy, hsh⟩ := h.mem' hz
    have hyid : y.id = z.id := congrArg Prod.fst hsh
    have hraw : y.rawjob = z.rawjob := congrArg (·.2.1) hsh
    rw [← hraw]
    exact hs.listed i hi y hy (hyid.trans hid)
  current := by
    intro y hy
    obtain ⟨z, hz, hid, hraw, htally, hloads⟩ := hs.current y hy
    obtain ⟨u, hu, hsh⟩ := h.mem hz
    simp only [Sjob.sheet, Prod.mk.injEq] at hsh
    exact ⟨u, hu, hsh.1.trans hid, hsh.2.1.trans hraw,
      hsh.2.2.2.trans htally, fun f hf => hsh.2.2.1 ▸ hloads f hf⟩

/-- What a handler has noted still holds if the sheets are the same. -/
theorem HandlerPhase.Notes.same (hn : s.Notes w) (h : w.SameSheets w') :
    s.Notes w' := by
  have hl : w.hasLauncher = true → w'.hasLauncher = true :=
    fun hl => h.hasLauncher.trans hl
  cases s with
  | dispatched t =>
      obtain ⟨z, hz, f, hf, ht, hfin⟩ := hn
      obtain ⟨y, hy, hsh⟩ := h.mem hz
      obtain ⟨g, hg, hload⟩ := Sjob.sheet_flow hsh hf
      have htask : g.task = f.task := congrArg Prod.fst hload
      have hblock : g.block = f.block := congrArg Prod.snd hload
      refine ⟨y, hy, g, hg, htask.trans ht, fun hc => hfin ?_⟩
      rw [hblock] at hc
      exact h.finished _ hc
  | count x f k l =>
      cases l with
      | block => exact World.Sits.same hn h
      | sjob => exact World.Sits.same hn h
      | rawjob => exact World.Sits.same hn h
  | verify x f k => exact World.Sits.same hn h
  | polling => exact hl hn
  | summing rid ids xs acc => exact ⟨hl hn.1, hn.2.same h⟩
  | rated rid x f n xs acc =>
      obtain ⟨hla, hs, hf, hp⟩ := hn
      exact ⟨hl hla, hs.same h, hf, h.possible hp⟩
  | owing rid x d xs acc => exact ⟨hl hn.1, hn.2.same h⟩
  | quiet => trivial
  | uncount x f k l => trivial
  | relaunch x f => trivial
  | launched x f n => trivial
  | pass => trivial
  | scheduling xs => trivial
  | drawn xs x t => trivial
  | inserted xs t b => trivial
  | poll => trivial

-- ------------------------------------------------- one document touched

variable {T : Set Guid} {z y : Sjob}

/-- A document with a task that is not held is another one. -/
theorem World.Touches.other (h : w.Touches T z y w') (hwf : w.WF) {u : Sjob}
    (hu : u ∈ w.sjobs) (ht : t ∈ u.tasks) (hT : t ∉ T) :
    u ∈ w'.sjobs ∧ ∀ b ∈ u.blockIds, w'.Finished b → w.Finished b := by
  have hne : u.id ≠ z.id := by
    intro hc
    obtain rfl := hwf.eq_of_id h.mem hu hc
    exact hT (h.held t ht)
  refine ⟨(h.sets.mem_iff h.mem rfl).mpr (.inr ⟨hu, hne⟩), ?_⟩
  intro b hb hfin
  obtain ⟨v, hv, hvb⟩ := hfin
  rcases (h.sets.mem_iff h.mem rfl).mp hv with rfl | ⟨hv, -⟩
  · obtain ⟨k, hk, rfl, -⟩ := hvb
    have hkz : k.id ∈ z.blockIds := h.blockIds ▸ List.mem_map_of_mem hk
    exact absurd (congrArg Sjob.id (hwf.eq_of_block h.mem hu hkz hb)) hne
  · exact ⟨v, hv, hvb⟩

/-- A task that is not touched sits where it sat. -/
theorem World.Sits.touch {k : Oid × Int × Int} (hs : w.Sits t k)
    (hwf : w.WF) (h : w.Touches T z y w') (hT : t ∉ T) : w'.Sits t k := by
  obtain ⟨hfin, u, hu, ht, hk⟩ := hs
  obtain ⟨hu', hold⟩ := h.other hwf hu ht hT
  refine ⟨fun hc => hfin (hold _ ?_ hc), u, hu', ht, hk⟩
  obtain ⟨b, hb, rfl⟩ := List.mem_map.mp hk
  exact List.mem_map_of_mem hb

/-- A document without a task is touched: no block has changed. -/
theorem World.Touches.blocks (h : w.Touches T z y w') (hz : z.tasks = []) :
    ∀ u ∈ w'.sjobs, ∃ v ∈ w.sjobs, v.id = u.id ∧ v.rawjob = u.rawjob
      ∧ v.blocks = u.blocks := by
  intro u hu
  rcases (h.sets.mem_iff h.mem rfl).mp hu with rfl | ⟨hu, -⟩
  · exact ⟨z, h.mem, h.id.symm, h.rawjob.symm, (h.idle hz).symm⟩
  · exact ⟨u, hu, rfl, rfl, rfl⟩

/-- Where the touched sjob has no tasks, no block is finished anew. -/
theorem World.Touches.finished (h : w.Touches T z y w') (hz : z.tasks = [])
    {i : Oid} (hi : w'.Finished i) : w.Finished i := by
  obtain ⟨u, hu, hui⟩ := hi
  obtain ⟨v, hv, -, -, hb⟩ := h.blocks hz u hu
  unfold Sjob.Finished at hui
  rw [← hb] at hui
  exact ⟨v, hv, hui⟩

/-- A snapshot survives the touching of an sjob without tasks. -/
theorem World.Snapshot.touch {rid : Oid} {ids : List Oid} {xs : List Sjob}
    (hs : w.Snapshot rid ids xs) (hwf : w.WF) (h : w.Touches T z y w')
    (hz : z.tasks = []) : w'.Snapshot rid ids xs where
  distinct := hs.distinct
  listed := by
    intro i hi u hu hid
    obtain ⟨v, hv, hvid, hraw, -⟩ := h.blocks hz u hu
    rw [← hraw]
    exact hs.listed i hi v hv (hvid.trans hid)
  current := by
    intro x hx
    obtain ⟨u, hu, hid, hraw, htally, hloads⟩ := hs.current x hx
    have hflows : z.flows = [] := List.map_eq_nil_iff.mp hz
    by_cases hc : u.id = z.id
    · obtain rfl := hwf.eq_of_id h.mem hu hc
      refine ⟨y, (h.sets.mem_iff h.mem rfl).mpr (.inl rfl), h.id.trans hid,
        h.rawjob.trans hraw, by rw [h.idle hz]; exact htally, ?_⟩
      intro f hf
      have := hloads f hf
      rw [hflows] at this
      cases this
    · exact ⟨u, (h.sets.mem_iff h.mem rfl).mpr (.inr ⟨hu, hc⟩), hid, hraw,
        htally, hloads⟩

/-- What a handler has noted survives the touching of tasks it does not
hold. -/
theorem HandlerPhase.Notes.touch (hn : s.Notes w) (hw : w.Tidy)
    (h : w.Touches T z y w') (hT : Apart s.holds T) : s.Notes w' := by
  have hout : ∀ {t}, t ∈ s.holds → t ∉ T :=
    fun ht => hT _ ht
  have hl : w.hasLauncher = true → w'.hasLauncher = true :=
    fun hl => h.sets.hasLauncher.trans hl
  -- a pass holds every task, and the document touched has none
  have hidle : s.holds = Set.univ → z.tasks = [] := by
    intro hu
    rw [List.eq_nil_iff_forall_not_mem]
    intro t ht
    exact hout (hu ▸ Set.mem_univ t) (h.held t ht)
  cases s with
  | dispatched t =>
      obtain ⟨u, hu, f, hf, rfl, hfin⟩ := hn
      have ht : f.task ∈ u.tasks := List.mem_map_of_mem hf
      obtain ⟨hu', hold⟩ := h.other hw.wf hu ht (hout rfl)
      exact ⟨u, hu', f, hf, rfl, fun hc =>
        hfin (hold _ (hw.names u hu f hf) hc)⟩
  | count x f k l =>
      cases l with
      | block => exact World.Sits.touch hn hw.wf h (hout rfl)
      | sjob => exact World.Sits.touch hn hw.wf h (hout rfl)
      | rawjob => exact World.Sits.touch hn hw.wf h (hout rfl)
  | verify x f k => exact World.Sits.touch hn hw.wf h (hout rfl)
  | polling => exact hl hn
  | summing rid ids xs acc =>
      exact ⟨hl hn.1, hn.2.touch hw.wf h (hidle rfl)⟩
  | rated rid x f n xs acc =>
      obtain ⟨hla, hs, hf, hp⟩ := hn
      refine ⟨hl hla, hs.touch hw.wf h (hidle rfl), hf, ?_⟩
      intro u hu k hk hid
      obtain ⟨v, hv, -, -, hb⟩ := h.blocks (hidle rfl) u hu
      exact (hp v hv k (hb ▸ hk) hid).mono rfl rfl (h.finished (hidle rfl))
  | owing rid x d xs acc =>
      exact ⟨hl hn.1, hn.2.touch hw.wf h (hidle rfl)⟩
  | quiet => trivial
  | uncount x f k l => trivial
  | relaunch x f => trivial
  | launched x f n => trivial
  | pass => trivial
  | scheduling xs => trivial
  | drawn xs x t => trivial
  | inserted xs t b => trivial
  | poll => trivial

end stable

-- ========================================================= the operations

section ops

variable {w w' : World} {z : Sjob} {t : Guid}

/-- A world has its own sheets. -/
theorem World.SameSheets.refl (w : World) : w.SameSheets w :=
  ⟨rfl, fun _ h => h, rfl⟩

/-- What is quiet leaves the sheets. -/
theorem World.Quiet.sheets (hq : w.Quiet w') : w.SameSheets w' where
  sjobs := by
    have := congrArg (List.map fun c : Oid × Oid × Int × List (Guid × Oid)
      × List (Oid × Int × Int) => (c.1, c.2.1, c.2.2.2)) hq.sjobs
    rw [List.map_map, List.map_map] at this
    exact this
  finished := hq.finished
  hasLauncher := hq.hasLauncher

/-- The finished bytes of an sjob are on no sheet. -/
theorem World.SameSheets.sjobTx {i : Oid} {v : Int} :
    w.SameSheets (w.incrementSjobTxBytes i v) where
  sjobs := by
    refine map_updateOne ?_ w.sjobs
    exact fun _ => rfl
  finished := by
    intro j hj
    obtain ⟨y, hy, hj⟩ := hj
    rcases mem_updateOne hy with hy | ⟨x, hx, -, rfl⟩
    · exact ⟨y, hy, hj⟩
    · exact ⟨x, hx, hj⟩
  hasLauncher := rfl

/-- An sjob has one task at most. -/
theorem World.Tidy.task_eq (hw : w.Tidy) (hz : z ∈ w.sjobs) {t' : Guid}
    (ht : t ∈ z.tasks) (ht' : t' ∈ z.tasks) : t' = t := by
  have hlen : z.tasks.length ≤ 1 := by
    rw [Sjob.tasks, List.length_map]
    exact hw.single z hz
  obtain ⟨u, hu⟩ := List.length_eq_one_iff.mp
    (le_antisymm hlen (List.length_pos_of_mem ht))
  rw [hu, List.mem_singleton] at ht ht'
  rw [ht', ht]

/-- The blocks after an update of one. -/
theorem Sjob.mem_onBlock_iff (hnd : z.blockIds.Nodup) {k : Block}
    (hk : k ∈ z.blocks) {g : Block → Block} {c : Block} :
    c ∈ (z.onBlock k.id g).blocks
      ↔ c = g k ∨ (c ∈ z.blocks ∧ c.id ≠ k.id) := by
  rw [Sjob.mem_onBlock hnd]
  constructor
  · intro h
    obtain ⟨d, hd, rfl⟩ := h
    by_cases hid : d.id = k.id
    · left
      rw [if_pos hid]
      have h₁ := find?_key Block.id hnd hk
      have h₂ := find?_key Block.id hnd hd
      rw [hid, h₁] at h₂
      rw [Option.some.inj h₂]
    · right
      rw [if_neg hid]
      exact ⟨hd, hid⟩
  · intro h
    rcases h with rfl | ⟨hc, hid⟩
    · exact ⟨k, hk, (if_pos rfl).symm⟩
    · exact ⟨c, hc, (if_neg hid).symm⟩

section block

variable (hw : w.Tidy) (hz : z ∈ w.sjobs) {k : Block} (hk : k ∈ z.blocks)
  {g : Block → Block} (hg : ∀ k, (g k).id = k.id)

include hw hz hk

/-- The update of a block changes the sjob that has it, and no other. -/
theorem World.mem_updateBlock {u : Sjob} :
    u ∈ (w.updateBlock k.id g).sjobs
      ↔ u = z.onBlock k.id g ∨ (u ∈ w.sjobs ∧ u.id ≠ z.id) :=
  (World.sets_updateBlock hw.wf hz rfl (List.mem_map_of_mem hk) g).mem_iff
    hz rfl

include hg

/-- A block is updated by a handler that holds the task of its sjob. -/
theorem World.Touches.block (ht : t ∈ z.tasks) {T : Set Guid}
    (hT : t ∈ T) :
    w.Touches T z (z.onBlock k.id g) (w.updateBlock k.id g) where
  mem := hz
  sets := World.sets_updateBlock hw.wf hz rfl (List.mem_map_of_mem hk) g
  id := rfl
  rawjob := rfl
  blockIds := Sjob.blockIds_onBlock hg k.id z
  held := by
    intro t' ht'
    rw [hw.task_eq hz ht ht']
    exact hT
  idle := by
    intro hnil
    rw [hnil] at ht
    cases ht

/-- The other blocks are as finished as before. -/
theorem World.finished_updateBlock {i : Oid}
    (hi : (w.updateBlock k.id g).Finished i) :
    w.Finished i ∨ (i = k.id ∧ (g k).state = .finished) := by
  obtain ⟨u, hu, c, hc, rfl, hst⟩ := hi
  rcases (World.mem_updateBlock hw hz hk).mp hu with rfl | ⟨hu, -⟩
  · rcases (Sjob.mem_onBlock_iff (hw.wf.blockIds_nodup hz) hk).mp hc with
      rfl | ⟨hc, -⟩
    · exact .inr ⟨hg k, hst⟩
    · exact .inl ⟨z, hz, c, hc, rfl, hst⟩
  · exact .inl ⟨u, hu, c, hc, rfl, hst⟩

/-- After an update of a block the bytes are possible if its own are. -/
theorem World.InRange.block (hr : w.InRange)
    (hnew : (w.updateBlock k.id g).Possible (g k) (g k).txBytes) :
    (w.updateBlock k.id g).InRange := by
  have hold : ∀ {c : Block}, c.id ≠ k.id → w.Possible c c.txBytes →
      (w.updateBlock k.id g).Possible c c.txBytes := by
    intro c hne hp
    refine hp.mono rfl rfl fun hf => ?_
    rcases World.finished_updateBlock hw hz hk hg hf with hf | ⟨hid, -⟩
    · exact hf
    · exact absurd hid hne
  intro u hu c hc
  rcases (World.mem_updateBlock hw hz hk).mp hu with rfl | ⟨hu, hne⟩
  · rcases (Sjob.mem_onBlock_iff (hw.wf.blockIds_nodup hz) hk).mp hc with
      rfl | ⟨hc, hid⟩
    · exact hnew
    · exact hold hid (hr z hz c hc)
  · refine hold (fun hid => hne ?_) (hr u hu c hc)
    have hcu : k.id ∈ u.blockIds := hid ▸ List.mem_map_of_mem hc
    rw [hw.wf.eq_of_block hz hu (List.mem_map_of_mem hk) hcu]

end block

end ops

-- ========================================================== the invariant

/-- The bytes the launcher has answered for a task since its last
launch. -/
def ratesOf (t : Guid) (log : List LogEntry) : List Int :=
  log.foldl (fun l e => match e with
    | ⟨_, .launch _ cmd, _⟩ => if cmd.task = t then [] else l
    | ⟨_, .mldRate t', r⟩ =>
        let rate : RateAnswer := r
        if t' = t ∧ rate.timedOut = false ∧ rate.code = 0 then
          l ++ [rate.transferred]
        else l
    | _ => l) []

/-- What the launcher answers about a task: no fewer bytes than before,
and so many as are possible for the block the flow carries. -/
def World.FairRate (w : World) (t : Guid) (n : Int) : Prop :=
  (∀ old ∈ ratesOf t w.log, old ≤ n)
    ∧ ∀ x ∈ w.sjobs, ∀ f ∈ x.flows, f.task = t → ∀ k ∈ x.blocks,
      k.id = f.block → w.Possible k n

/-- A polling pass is never told that a task is not known, and the bytes
it is told are fair. -/
def KnowsTasks (adm : World → (e : Call) → Reply e → Prop) : Prop :=
  ∀ (w : World) (t : Guid) (r : RateAnswer), adm w (.mldRate t) r →
    r.timedOut = false → r.code ≠ 1 ∧ (r.code = 0 → w.FairRate t r.transferred)

/-- The tasks a handler may ever hold. -/
def HandlerId.tasks (w : World) : HandlerId → Set Guid
  | .schedule => ∅
  | .pollRate => Set.univ
  | .status n => {t | ∃ r, w.delivered[n]? = some r ∧ r.Completes ∧ r.task = t}

/-- The counts are right but for what the handlers still owe, and the notes of
the handlers hold. -/
structure Counting (w : World) (m : List (HandlerId × HandlerPhase)) :
    Prop where
  base : Base w m
  balanced : w.Balanced (sjobDebts m) (rawjobDebts m)
  range : w.InRange
  notes : ∀ q ∈ m, q.2.Notes w
  apart : m.Pairwise fun a b => Apart a.2.holds b.2.holds
  tags : ∀ q ∈ m, q.2.holds ⊆ q.1.tasks w

section step

variable {w w' : World} {m m₁ m₂ : List (HandlerId × HandlerPhase)}
  {h : HandlerId} {s s' : HandlerPhase}
  {adm : World → (e : Call) → Reply e → Prop}

/-- No handler holds a task it did not hold before. -/
theorem Move.holds (hm : Move adm h s w s' w') : s'.holds ⊆ s.holds := by
  cases hm with
  | quiet => exact subset_rfl
  | ignore => exact Set.empty_subset _
  | read _ _ ht =>
      subst ht
      exact subset_rfl
  | countBlock => exact subset_rfl
  | countSjob => exact subset_rfl
  | countRawjob => exact subset_rfl
  | accept => exact subset_rfl
  | uncountBlock => exact subset_rfl
  | uncountSjob => exact subset_rfl
  | uncountRawjob => exact subset_rfl
  | relaunch => exact subset_rfl
  | carry => exact Set.empty_subset _
  | pass => exact subset_rfl
  | draw => exact subset_rfl
  | insert => exact subset_rfl
  | launch => exact subset_rfl
  | check => exact subset_rfl
  | list => exact subset_rfl
  | cursor => exact subset_rfl
  | rate => exact subset_rfl
  | sample => exact subset_rfl
  | tally => exact subset_rfl
  | skip => exact subset_rfl
  | total => exact subset_rfl
  | unknown => exact Set.empty_subset _
  | gone => exact Set.empty_subset _

/-- A move of a handler delivers nothing. -/
theorem Move.delivered (hm : Move adm h s w s' w') :
    w'.delivered = w.delivered := by
  cases hm with
  | quiet hq => exact hq.delivered
  | _ => rfl

/-- A handler's notes hold. -/
theorem Counting.own (hc : Counting w (m₁ ++ (h, s) :: m₂)) : s.Notes w :=
  hc.notes (h, s) (mem_around.mpr (.inl rfl))

/-- The others hold other tasks. -/
theorem Counting.others (hc : Counting w (m₁ ++ (h, s) :: m₂)) :
    ∀ q ∈ m₁ ++ m₂, Apart q.2.holds s.holds := by
  have ha := hc.apart
  rw [List.pairwise_append, List.pairwise_cons] at ha
  intro q hq
  rcases List.mem_append.mp hq with hq | hq
  · exact ha.2.2 q hq (h, s) (List.mem_cons_self ..)
  · exact (ha.2.1.1 q hq).symm

/-- The phase of one handler changes, with the world. -/
theorem Counting.update (hc : Counting w (m₁ ++ (h, s) :: m₂))
    (hm : Move adm h s w s' w')
    (hbal : w'.Balanced (sjobDebts (m₁ ++ m₂) + s'.owesSjob)
      (rawjobDebts (m₁ ++ m₂) + s'.owesRawjob))
    (hrange : w'.InRange) (hothers : ∀ q ∈ m₁ ++ m₂, q.2.Notes w')
    (hnotes : s'.Notes w') : Counting w' (m₁ ++ (h, s') :: m₂) where
  base := hc.base.exec hm
  balanced := by
    rw [sjobDebts_around, rawjobDebts_around]
    exact hbal
  range := hrange
  notes := by
    intro q hq
    rcases mem_around.mp hq with rfl | hq
    · exact hnotes
    · exact hothers q hq
  apart := by
    have ha := hc.apart
    rw [List.pairwise_append, List.pairwise_cons] at ha ⊢
    obtain ⟨h₁, ⟨hcons, h₂⟩, hx⟩ := ha
    refine ⟨h₁, ⟨fun b hb t ht => hcons b hb t (hm.holds ht), h₂⟩,
      fun a ha b hb => ?_⟩
    rcases List.mem_cons.mp hb with rfl | hb
    · exact fun t ht hs =>
        hx a ha (h, s) (List.mem_cons_self ..) t ht (hm.holds hs)
    · exact hx a ha b (List.mem_cons_of_mem _ hb)
  tags := by
    have htasks : ∀ i : HandlerId, i.tasks w' = i.tasks w := by
      intro i
      unfold HandlerId.tasks
      rw [hm.delivered]
    intro q hq
    rw [htasks]
    rcases mem_around.mp hq with rfl | hq
    · exact hm.holds.trans (hc.tags (h, s) (mem_around.mpr (.inl rfl)))
    · exact hc.tags q (mem_around.mpr (.inr hq))

/-- The ledger, seen from one handler. -/
theorem Counting.ledger (hc : Counting w (m₁ ++ (h, s) :: m₂)) :
    w.Balanced (sjobDebts (m₁ ++ m₂) + s.owesSjob)
      (rawjobDebts (m₁ ++ m₂) + s.owesRawjob) := by
  rw [← sjobDebts_around, ← rawjobDebts_around]
  exact hc.balanced

/-- The ledger after bytes of a block are counted. -/
theorem Counting.owe (hc : Counting w (m₁ ++ (h, s) :: m₂)) {z : Sjob}
    (hz : z ∈ w.sjobs) {b : Oid} (hb : b ∈ z.blockIds) {v : Int}
    (hS : s'.owesSjob = s.owesSjob + Pi.single z.id v)
    (hR : s'.owesRawjob = s.owesRawjob + Pi.single z.rawjob v) :
    (w.incrementSjobBlockField b v).Balanced
      (sjobDebts (m₁ ++ m₂) + s'.owesSjob)
      (rawjobDebts (m₁ ++ m₂) + s'.owesRawjob) := by
  rw [hS, hR, ← add_assoc, ← add_assoc]
  exact hc.ledger.block hc.base.tidy.wf hz hb v

/-- The ledger after bytes are added to the counter of an sjob. -/
theorem Counting.paySjob (hc : Counting w (m₁ ++ (h, s) :: m₂)) {i : Oid}
    {v : Int} (hS : s'.owesSjob = s.owesSjob - Pi.single i v)
    (hR : s'.owesRawjob = s.owesRawjob) :
    (w.incrementSjobTxBytes i v).Balanced
      (sjobDebts (m₁ ++ m₂) + s'.owesSjob)
      (rawjobDebts (m₁ ++ m₂) + s'.owesRawjob) := by
  rw [hS, hR, ← add_sub_assoc]
  exact hc.ledger.sjob hc.base.tidy.wf i v

/-- The ledger after bytes are added to the counter of a rawjob. -/
theorem Counting.payRawjob (hc : Counting w (m₁ ++ (h, s) :: m₂)) {i : Oid}
    {v : Int} (hS : s'.owesSjob = s.owesSjob)
    (hR : s'.owesRawjob = s.owesRawjob - Pi.single i v) :
    (w.incrementRawjobField i v).Balanced
      (sjobDebts (m₁ ++ m₂) + s'.owesSjob)
      (rawjobDebts (m₁ ++ m₂) + s'.owesRawjob) := by
  rw [hS, hR, ← add_sub_assoc]
  exact hc.ledger.rawjob hc.base.tidy.wf i v

/-- A move that changes no block and no load. -/
theorem Counting.same (hc : Counting w (m₁ ++ (h, s) :: m₂))
    (hm : Move adm h s w s' w') (hsame : w.SameSheets w')
    (hbal : w'.Balanced (sjobDebts (m₁ ++ m₂) + s'.owesSjob)
      (rawjobDebts (m₁ ++ m₂) + s'.owesRawjob))
    (hnotes : s'.Notes w') : Counting w' (m₁ ++ (h, s') :: m₂) :=
  hc.update hm hbal (hc.range.same hsame) (fun q hq =>
    (hc.notes q (mem_around.mpr (.inr hq))).same hsame) hnotes

/-- A move that touches a document of a task the handler holds. -/
theorem Counting.touch (hc : Counting w (m₁ ++ (h, s) :: m₂))
    (hm : Move adm h s w s' w') {z y : Sjob}
    (ht : w.Touches s.holds z y w')
    (hbal : w'.Balanced (sjobDebts (m₁ ++ m₂) + s'.owesSjob)
      (rawjobDebts (m₁ ++ m₂) + s'.owesRawjob))
    (hrange : w'.InRange) (hnotes : s'.Notes w') :
    Counting w' (m₁ ++ (h, s') :: m₂) :=
  hc.update hm hbal hrange (fun q hq =>
    (hc.notes q (mem_around.mpr (.inr hq))).touch hc.base.tidy ht
      (hc.others q hq)) hnotes

-- -------------------------------------------------------- a completion

/-- The block a handler of a completion counts, in the store. -/
theorem World.Has.found {x : Sjob} {f : Flow} {b : Oid} {n tx : Int}
    (hh : w.Has x f) (hw : w.Tidy) (hs : w.Sits f.task (b, n, tx)) :
    ∃ z ∈ w.sjobs, z.id = x.id ∧ z.rawjob = x.rawjob ∧ f.task ∈ z.tasks
      ∧ ∃ c ∈ z.blocks, c.id = b ∧ c.size = n ∧ c.txBytes = tx := by
  obtain ⟨u, hu, hid, hraw, -, htu⟩ := hh
  obtain ⟨-, z, hz, htz, hk⟩ := hs
  obtain rfl := hw.wf.eq_of_task hz hu htz htu
  obtain ⟨c, hc, ht⟩ := List.mem_map.mp hk
  exact ⟨u, hu, hid, hraw, htu, c, hc, congrArg Prod.fst ht,
    congrArg (·.2.1) ht, congrArg (·.2.2) ht⟩

/-- A handler that reads the sjob notes what it is going to count. -/
theorem Counting.read {x : Sjob} {f : Flow} {k : Block}
    (hc : Counting w (m₁ ++ (h, .dispatched f.task) :: m₂))
    (hm : Move adm h (.dispatched f.task) w (.count x f k .block) w)
    (hx : x ∈ w.sjobs) (hf : f ∈ x.flows) (hk : k ∈ x.blocks)
    (hid : k.id = f.block) :
    Counting w (m₁ ++ (h, .count x f k .block) :: m₂) := by
  refine hc.same hm (.refl w) hc.ledger ?_
  obtain ⟨z, hz, g, hg, hgf, hfin⟩ := hc.own
  have htf : f.task ∈ x.tasks := List.mem_map_of_mem hf
  have htg : f.task ∈ z.tasks := hgf ▸ List.mem_map_of_mem hg
  obtain rfl := hc.base.tidy.wf.eq_of_task hx hz htf htg
  have hone : g = f := by
    have hlen := hc.base.tidy.single z hz
    obtain ⟨a, ha⟩ := List.length_eq_one_iff.mp
      (le_antisymm hlen (List.length_pos_of_mem hf))
    rw [ha, List.mem_singleton] at hf hg
    rw [hf, hg]
  rw [hone, ← hid] at hfin
  exact ⟨hfin, z, hz, htf, List.mem_map_of_mem hk⟩

/-- The block is counted: the sjob is owed the bytes. -/
theorem Counting.countBlock {x : Sjob} {f : Flow} {k : Block}
    (hc : Counting w (m₁ ++ (h, .count x f k .block) :: m₂))
    (hm : Move adm h (.count x f k .block) w (.count x f k .sjob)
      (w.incrementSjobBlockField f.block (k.size - k.txBytes))) :
    Counting (w.incrementSjobBlockField f.block (k.size - k.txBytes))
      (m₁ ++ (h, .count x f k .sjob) :: m₂) := by
  have hw := hc.base.tidy
  obtain ⟨hhas, -, hid⟩ := hc.base.own
  have hsits : w.Sits f.task (k.id, k.size, k.txBytes) := hc.own
  obtain ⟨z, hz, hzid, hraw, htask, c, hcz, hcid, hsize, htx⟩ :=
    hhas.found hw hsits
  have hb : f.block = c.id := hid.symm.trans hcid.symm
  rw [hb] at hm ⊢
  have hg : ∀ d : Block, ({ d with
      txBytes := d.txBytes + (k.size - k.txBytes) } : Block).id = d.id :=
    fun _ => rfl
  have hp := hc.range z hz c hcz
  have hnow : c.txBytes + (k.size - k.txBytes) = c.size := by omega
  refine hc.touch hm (.block hw hz hcz hg htask rfl)
    (hc.owe hz (List.mem_map_of_mem hcz) ?_ ?_)
    (World.InRange.block hw hz hcz hg hc.range ⟨?_, ?_, ?_⟩) ⟨?_, ?_⟩
  · rw [hzid]
    exact (zero_add _).symm
  · rw [hraw]
    exact (zero_add _).symm
  · show 0 ≤ c.txBytes + (k.size - k.txBytes)
    rw [hnow]
    exact hp.nonneg.trans hp.le
  · show c.txBytes + (k.size - k.txBytes) ≤ c.size
    rw [hnow]
  · intro _
    exact hnow
  · intro hfin
    rcases World.finished_updateBlock hw hz hcz hg hfin with hf | ⟨-, hst⟩
    · exact hsits.1 hf
    · exact hsits.1 ⟨z, hz, c, hcz, hcid, hst⟩
  · refine ⟨_, (World.mem_updateBlock hw hz hcz).mpr (.inl rfl), htask,
      List.mem_map.mpr ⟨_, (Sjob.mem_onBlock_iff
        (hw.wf.blockIds_nodup hz) hcz).mpr (.inl rfl), ?_⟩⟩
    show (c.id, c.size, c.txBytes + (k.size - k.txBytes)) = _
    rw [hnow, hcid, hsize]

/-- A block whose checksums are right is finished. -/
theorem Counting.accept {x : Sjob} {f : Flow} {k : Block}
    (hc : Counting w (m₁ ++ (h, .verify x f k) :: m₂))
    (hm : Move adm h (.verify x f k) w (.relaunch x f)
      (w.updateSjobBlockState f.block .finished)) :
    Counting (w.updateSjobBlockState f.block .finished)
      (m₁ ++ (h, .relaunch x f) :: m₂) := by
  have hw := hc.base.tidy
  obtain ⟨hhas, -, hid⟩ := hc.base.own
  obtain ⟨z, hz, -, -, htask, c, hcz, hcid, hsize, htx⟩ :=
    hhas.found hw hc.own
  have hb : f.block = c.id := hid.symm.trans hcid.symm
  rw [hb] at hm ⊢
  have hg : ∀ d : Block, ({ d with state := .finished } : Block).id = d.id :=
    fun _ => rfl
  have hp := hc.range z hz c hcz
  refine hc.touch hm (.block hw hz hcz hg htask rfl)
    (hc.ledger.core ?_ rfl) (World.InRange.block hw hz hcz hg hc.range
      ⟨hp.nonneg, hp.le, fun _ => htx.trans hsize.symm⟩) trivial
  refine map_updateOne (fun y => ?_) w.sjobs
  have htally : (y.onBlock c.id fun d => { d with state := .finished }).blocks.map
      Block.tally = y.blocks.map Block.tally := by
    refine map_updateOne ?_ y.blocks
    exact fun _ => rfl
  unfold Sjob.core
  rw [htally]
  rfl

/-- A block whose checksums are wrong is taken back: the sjob is owed it. -/
theorem Counting.uncountBlock {x : Sjob} {f : Flow} {k : Block}
    (hc : Counting w (m₁ ++ (h, .verify x f k) :: m₂))
    (hm : Move adm h (.verify x f k) w (.uncount x f k .sjob)
      (w.incrementSjobBlockField f.block (-k.size))) :
    Counting (w.incrementSjobBlockField f.block (-k.size))
      (m₁ ++ (h, .uncount x f k .sjob) :: m₂) := by
  have hw := hc.base.tidy
  obtain ⟨hhas, -, hid⟩ := hc.base.own
  have hsits : w.Sits f.task (k.id, k.size, k.size) := hc.own
  obtain ⟨z, hz, hzid, hraw, htask, c, hcz, hcid, hsize, htx⟩ :=
    hhas.found hw hsits
  have hb : f.block = c.id := hid.symm.trans hcid.symm
  rw [hb] at hm ⊢
  have hg : ∀ d : Block,
      ({ d with txBytes := d.txBytes + -k.size } : Block).id = d.id :=
    fun _ => rfl
  have hp := hc.range z hz c hcz
  have hnow : c.txBytes + -k.size = 0 := by omega
  refine hc.touch hm (.block hw hz hcz hg htask rfl)
    (hc.owe hz (List.mem_map_of_mem hcz) ?_ ?_)
    (World.InRange.block hw hz hcz hg hc.range ⟨?_, ?_, ?_⟩) trivial
  · rw [hzid]
    exact (zero_add _).symm
  · rw [hraw]
    exact (zero_add _).symm
  · show 0 ≤ c.txBytes + -k.size
    rw [hnow]
  · show c.txBytes + -k.size ≤ c.size
    rw [hnow]
    exact hp.nonneg.trans hp.le
  · -- the block was not finished when its bytes were taken back
    intro hfin
    rcases World.finished_updateBlock hw hz hcz hg hfin with hf | ⟨-, hst⟩
    · exact absurd (hcid ▸ hf) hsits.1
    · exact absurd ⟨z, hz, c, hcz, hcid, hst⟩ hsits.1

-- ------------------------------------------------------ loads of flows

/-- Bytes stay possible when flows change. -/
theorem World.InRange.flows {p : Sjob → Bool} {g : Sjob → Sjob}
    (hr : w.InRange) (hg : ∀ x, (g x).blocks = x.blocks) :
    (w.updateSjob p g).InRange := by
  have hsame : ∀ y ∈ (w.updateSjob p g).sjobs, ∃ x ∈ w.sjobs,
      x.blocks = y.blocks := by
    intro y hy
    rcases mem_updateOne hy with hy | ⟨x, hx, -, rfl⟩
    · exact ⟨y, hy, rfl⟩
    · exact ⟨x, hx, (hg x).symm⟩
  intro y hy k hk
  obtain ⟨x, hx, hb⟩ := hsame y hy
  refine (hr x hx k (hb ▸ hk)).mono rfl rfl fun hf => ?_
  obtain ⟨u, hu, c, hc, hid, hst⟩ := hf
  obtain ⟨v, hv, hbv⟩ := hsame u hu
  exact ⟨v, hv, c, hbv ▸ hc, hid, hst⟩

/-- The ledger reads no flows. -/
theorem World.Balanced.flows {S R : Oid → Int} {p : Sjob → Bool}
    {g : Sjob → Sjob} (hb : w.Balanced S R) (hid : ∀ x, (g x).id = x.id)
    (hraw : ∀ x, (g x).rawjob = x.rawjob)
    (htx : ∀ x, (g x).txBytes = x.txBytes)
    (hg : ∀ x, (g x).blocks = x.blocks) :
    (w.updateSjob p g).Balanced S R := by
  have hbytes : ∀ x, (g x).bytes = x.bytes := by
    intro x
    unfold Sjob.bytes
    rw [hg]
  constructor
  · intro y hy
    rcases mem_updateOne hy with hy | ⟨x, hx, -, rfl⟩
    · exact hb.sjobs y hy
    · rw [hid, htx, hbytes]
      exact hb.sjobs x hx
  · intro r hr
    have hjob : (w.updateSjob p g).jobBytes = w.jobBytes := by
      refine congrArg List.sum (map_updateOne (fun x => ?_) w.sjobs)
      rw [hraw, hbytes]
    rw [hjob]
    exact hb.rawjobs r hr

/-- The flow of a relaunch gets its next block. -/
theorem Counting.carry {x : Sjob} {f : Flow} {n : Oid}
    (hc : Counting w (m₁ ++ (h, .launched x f n) :: m₂))
    (hm : Move adm h (.launched x f n) w .quiet
      (w.updateSjobFlowBlock f.task n)) :
    Counting (w.updateSjobFlowBlock f.task n) (m₁ ++ (h, .quiet) :: m₂) := by
  have hw := hc.base.tidy
  obtain ⟨⟨z, hz, -, -, -, htask⟩, -⟩ := hc.base.own
  have ht : w.Touches {f.task} z
      (z.onFlow f.task fun g => { g with block := n })
      (w.updateSjobFlowBlock f.task n) :=
    ⟨hz, World.sets_updateFlow hw.wf hz rfl htask _, rfl, rfl, rfl,
      fun t ht => hw.task_eq hz htask ht, fun _ => rfl⟩
  exact hc.touch hm ht (hc.ledger.flows (fun _ => rfl) (fun _ => rfl)
    (fun _ => rfl) fun _ => rfl) (hc.range.flows fun _ => rfl) trivial

/-- The flow of a launch is inserted, with its block. -/
theorem Counting.insert {xs : List Sjob} {x : Sjob} {f : Flow}
    (hc : Counting w (m₁ ++ (h, .drawn xs x f.task) :: m₂))
    (hm : Move adm h (.drawn xs x f.task) w (.inserted xs f.task f.block)
      (w.insertFlow x.id f)) :
    Counting (w.insertFlow x.id f)
      (m₁ ++ (h, .inserted xs f.task f.block) :: m₂) := by
  have hw := hc.base.tidy
  obtain ⟨-, ⟨z, hz, hid, -, hempty⟩, -, -⟩ := hc.base.own
  rw [← hid] at hm ⊢
  have ht : w.Touches ∅ z { z with flows := z.flows ++ [f] }
      (w.insertFlow z.id f) :=
    ⟨hz, World.sets_updateId hw.wf hz rfl fun y =>
        { y with flows := y.flows ++ [f] }, rfl, rfl, rfl,
      fun t ht => absurd (hempty ▸ ht) List.not_mem_nil, fun _ => rfl⟩
  exact hc.touch hm ht (hc.ledger.flows (fun _ => rfl) (fun _ => rfl)
    (fun _ => rfl) fun _ => rfl) (hc.range.flows fun _ => rfl) trivial

-- ------------------------------------------------------ a polling pass

/-- The sjobs of a rawjob, none of them read yet. -/
theorem World.Snapshot.list (hwf : w.WF) (rid : Oid) : w.Snapshot rid
    ((w.sjobs.filter (·.rawjob == rid)).map (·.id)) [] where
  distinct := hwf.ids.sublist (List.filter_sublist.map _)
  listed := by
    intro i hi z hz hid
    obtain ⟨y, hy, rfl⟩ := List.mem_map.mp hi
    obtain ⟨hy, hraw⟩ := List.mem_filter.mp hy
    obtain rfl := hwf.eq_of_id hy hz hid
    simpa using hraw
  current := fun _ hy => absurd hy List.not_mem_nil

/-- One more document is read. -/
theorem World.Snapshot.cursor {rid i : Oid} {ids : List Oid}
    {xs : List Sjob} (hs : w.Snapshot rid (i :: ids) xs) :
    w.Snapshot rid ids (xs ++ (w.sjob? i).toList) := by
  have hrest : ∀ j ∈ ids, ∀ z ∈ w.sjobs, z.id = j → z.rawjob = rid :=
    fun j hj => hs.listed j (List.mem_cons_of_mem _ hj)
  cases hx : w.sjob? i with
  | none =>
      rw [Option.toList_none, List.append_nil]
      refine ⟨hs.distinct.sublist ?_, hrest, hs.current⟩
      exact (List.Sublist.refl _).append (List.sublist_cons_self ..)
  | some x =>
      have hid : x.id = i := by simpa using List.find?_some hx
      have hxm : x ∈ w.sjobs := List.mem_of_find?_eq_some hx
      refine ⟨?_, hrest, fun y hy => ?_⟩
      · rw [Option.toList_some, List.map_append, List.map_singleton, hid,
          List.append_assoc]
        exact hs.distinct
      · rw [Option.toList_some, List.mem_append, List.mem_singleton] at hy
        rcases hy with hy | rfl
        · exact hs.current y hy
        · exact ⟨y, hxm, rfl, hs.listed i (List.mem_cons_self ..) y hxm hid,
            rfl, fun f hf => List.mem_map_of_mem hf⟩

/-- The document after the first. -/
theorem World.Snapshot.tail {rid : Oid} {x : Sjob} {xs : List Sjob}
    (hs : w.Snapshot rid [] (x :: xs)) : w.Snapshot rid [] xs where
  distinct := by
    have := hs.distinct
    rw [List.append_nil] at this ⊢
    exact this.of_cons
  listed := hs.listed
  current := fun y hy => hs.current y (List.mem_cons_of_mem _ hy)

/-- The bytes of a block as an old document has them. -/
theorem lastTxBytes_eq {x z : Sjob} (hnd : z.blockIds.Nodup)
    (ht : z.blocks.map Block.tally = x.blocks.map Block.tally) {k : Block}
    (hk : k ∈ z.blocks) : lastTxBytes x k.id = k.txBytes := by
  have hids : z.blockIds = x.blockIds := by
    have := congrArg (List.map Prod.fst) ht
    rw [List.map_map, List.map_map] at this
    exact this
  have hm : k.tally ∈ z.blocks.map Block.tally := List.mem_map_of_mem hk
  rw [ht, List.mem_map] at hm
  obtain ⟨c, hc, hck⟩ := hm
  have hid : c.id = k.id := congrArg Prod.fst hck
  have htx : c.txBytes = k.txBytes := congrArg (·.2.2) hck
  unfold lastTxBytes
  rw [hids] at hnd
  rw [← hid, find?_key Block.id hnd hc]
  exact htx

/-- The block of a sampled flow, in the store. -/
theorem World.Snapshot.found {rid : Oid} {x : Sjob} {f : Flow}
    {xs : List Sjob} (hs : w.Snapshot rid [] (x :: xs)) (hw : w.Tidy)
    (hf : f ∈ x.flows) :
    ∃ z ∈ w.sjobs, z.id = x.id ∧ z.rawjob = rid
      ∧ (∃ g ∈ z.flows, g.load = f.load)
      ∧ ∃ k ∈ z.blocks, k.id = f.block
        ∧ lastTxBytes x f.block = k.txBytes := by
  obtain ⟨z, hz, hid, hraw, htally, hloads⟩ :=
    hs.current x (List.mem_cons_self ..)
  obtain ⟨g, hg, hload⟩ := List.mem_map.mp (hloads f hf)
  have hblock : g.block = f.block := congrArg Prod.snd hload
  obtain ⟨k, hk, hkid⟩ := List.mem_map.mp (hw.names z hz g hg)
  have hkb : k.id = f.block := hkid.trans hblock
  have hlast := lastTxBytes_eq (hw.wf.blockIds_nodup hz) htally hk
  rw [hkb] at hlast
  exact ⟨z, hz, hid, hraw, ⟨g, hg, hload⟩, k, hk, hkb, hlast⟩

/-- A fair answer to the poll is noted. -/
theorem Counting.rate {rid : Oid} {x : Sjob} {f : Flow} {xs : List Sjob}
    {acc : Int} {r : RateAnswer} (hadm : KnowsTasks adm)
    (hc : Counting w (m₁ ++ (h, .summing rid [] (x :: xs) acc) :: m₂))
    (hm : Move adm h (.summing rid [] (x :: xs) acc) w
      (.rated rid x f r.transferred xs acc)
      (w.record h (.mldRate f.task) r)) (hf : f ∈ x.flows)
    (hr : adm w (.mldRate f.task) r) (hto : r.timedOut = false)
    (h0 : r.code = 0) :
    Counting (w.record h (.mldRate f.task) r)
      (m₁ ++ (h, .rated rid x f r.transferred xs acc) :: m₂) := by
  have hw := hc.base.tidy
  have hsame : w.SameSheets (w.record h (.mldRate f.task) r) :=
    ⟨rfl, fun _ h => h, rfl⟩
  obtain ⟨hl, hs⟩ := hc.own
  refine hc.same hm hsame (hc.ledger.core rfl rfl)
    ⟨hl, hs.same hsame, hf, hsame.possible ?_⟩
  obtain ⟨z, hz, -, -, ⟨g, hg, hload⟩, k, hk, hkb, -⟩ := hs.found hw hf
  have htask : g.task = f.task := congrArg Prod.fst hload
  have hblock : g.block = f.block := congrArg Prod.snd hload
  intro u hu c hcu hcid
  have hkz : f.block ∈ z.blockIds := hkb ▸ List.mem_map_of_mem hk
  have hcu' : f.block ∈ u.blockIds := hcid ▸ List.mem_map_of_mem hcu
  obtain rfl := hw.wf.eq_of_block hz hu hkz hcu'
  exact ((hadm w f.task r hr hto).2 h0).2 u hu g hg htask c hcu
    (hcid.trans hblock.symm)

/-- What was noted is counted, and owed to the sjob. -/
theorem Counting.sample {rid : Oid} {x : Sjob} {f : Flow} {n : Int}
    {xs : List Sjob} {acc : Int}
    (hc : Counting w (m₁ ++ (h, .rated rid x f n xs acc) :: m₂))
    (hm : Move adm h (.rated rid x f n xs acc) w
      (.owing rid x (n - lastTxBytes x f.block) xs acc)
      (w.incrementSjobBlockField f.block (n - lastTxBytes x f.block))) :
    Counting (w.incrementSjobBlockField f.block (n - lastTxBytes x f.block))
      (m₁ ++ (h, .owing rid x (n - lastTxBytes x f.block) xs acc) :: m₂) := by
  have hw := hc.base.tidy
  obtain ⟨hl, hs, hf, hp⟩ := hc.own
  obtain ⟨z, hz, hid, hraw, ⟨g, hg, hload⟩, k, hk, hkb, hlast⟩ :=
    hs.found hw hf
  have hpk := hp z hz k hk hkb
  rw [hlast] at hm ⊢
  rw [← hkb] at hm ⊢
  have hgid : ∀ d : Block, ({ d with
      txBytes := d.txBytes + (n - k.txBytes) } : Block).id = d.id :=
    fun _ => rfl
  have hnow : k.txBytes + (n - k.txBytes) = n := by omega
  have htouch := World.Touches.block hw hz hk hgid
    (List.mem_map_of_mem hg) (Set.mem_univ g.task)
  refine hc.touch hm htouch (hc.owe hz (List.mem_map_of_mem hk) ?_ ?_)
    (World.InRange.block hw hz hk hgid hc.range ?_)
    ⟨hl, hs.tail.distinct, fun _ hi => absurd hi List.not_mem_nil, ?_⟩
  · rw [hid]
    exact (zero_add _).symm
  · rw [hraw]
    exact Pi.single_add ..
  · show World.Possible _ _ (k.txBytes + (n - k.txBytes))
    rw [hnow]
    refine hpk.mono rfl rfl fun hfin => ?_
    rcases World.finished_updateBlock hw hz hk hgid hfin with hf | ⟨-, hst⟩
    · exact hf
    · exact ⟨z, hz, k, hk, rfl, hst⟩
  · -- the documents to come are of other sjobs
    intro y hy
    obtain ⟨u, hu, huid, hrest⟩ := hs.tail.current y hy
    have hne : u.id ≠ z.id := by
      intro he
      have hd := hs.distinct
      rw [List.append_nil, List.map_cons, List.nodup_cons] at hd
      refine hd.1 ?_
      rw [← hid, ← he, huid]
      exact List.mem_map_of_mem hy
    exact ⟨u, (World.mem_updateBlock hw hz hk).mpr (.inr ⟨hu, hne⟩), huid,
      hrest⟩

-- ----------------------------------------------------------- every move

/-- A step of a handler keeps the counts, whichever it is. -/
theorem Counting.exec (hadm : KnowsTasks adm)
    (hc : Counting w (m₁ ++ (h, s) :: m₂)) (hm : Move adm h s w s' w') :
    Counting w' (m₁ ++ (h, s') :: m₂) := by
  have record : ∀ {e r}, w.SameSheets (w.record h e r) :=
    ⟨rfl, fun _ h => h, rfl⟩
  have rawTx : ∀ {i v}, w.SameSheets (w.incrementRawjobField i v) :=
    ⟨rfl, fun _ h => h, rfl⟩
  have none : ∀ a : Oid → Int, 0 = a - a := fun a => (sub_self a).symm
  have hmv := hm
  cases hm with
  | quiet hq =>
      exact hc.same hmv hq.sheets
        (hc.ledger.core hq.sjobs hq.rawjobs) (hc.own.same hq.sheets)
  | ignore => exact hc.same hmv (.refl w) hc.ledger trivial
  | read hx hf ht hk hid =>
      subst ht
      exact hc.read hmv hx hf hk hid
  | countBlock => exact hc.countBlock hmv
  | countSjob =>
      exact hc.same hmv .sjobTx (hc.paySjob (none _) rfl)
        (World.Sits.same hc.own .sjobTx)
  | countRawjob =>
      exact hc.same hmv rawTx (hc.payRawjob rfl (none _))
        (World.Sits.same hc.own rawTx)
  | accept => exact hc.accept hmv
  | uncountBlock => exact hc.uncountBlock hmv
  | uncountSjob =>
      exact hc.same hmv .sjobTx (hc.paySjob (none _) rfl) trivial
  | uncountRawjob =>
      exact hc.same hmv rawTx (hc.payRawjob rfl (none _)) trivial
  | relaunch hn ht =>
      exact hc.same hmv record (hc.ledger.core rfl rfl) trivial
  | carry => exact hc.carry hmv
  | pass => exact hc.same hmv (.refl w) hc.ledger trivial
  | draw hx =>
      exact hc.same hmv ⟨rfl, fun _ h => h, rfl⟩
        (hc.ledger.core rfl rfl) trivial
  | insert hbl => exact hc.insert hmv
  | launch ht =>
      exact hc.same hmv record (hc.ledger.core rfl rfl) trivial
  | check hl => exact hc.same hmv (.refl w) hc.ledger hl
  | @list rid =>
      have hled := hc.ledger
      have hzero : (HandlerPhase.summing rid
          ((w.sjobs.filter (·.rawjob == rid)).map (·.id)) [] 0).owesRawjob
          = HandlerPhase.polling.owesRawjob := Pi.single_zero rid
      rw [← hzero] at hled
      exact hc.same hmv (.refl w) hled
        ⟨hc.own, .list hc.base.tidy.wf rid⟩
  | cursor =>
      exact hc.same hmv (.refl w) hc.ledger
        ⟨hc.own.1, hc.own.2.cursor⟩
  | rate hf hr hto h0 =>
      exact hc.rate hadm hmv hf hr hto h0
  | sample => exact hc.sample hmv
  | tally =>
      exact hc.same hmv .sjobTx (hc.paySjob (none _) rfl)
        (HandlerPhase.Notes.same (s := .summing ..) hc.own .sjobTx)
  | @skip rid x xs acc =>
      refine hc.same hmv .sjobTx (hc.paySjob ?_ rfl)
        (HandlerPhase.Notes.same (s := .summing ..)
          ⟨hc.own.1, hc.own.2.tail⟩ .sjobTx)
      rw [Pi.single_zero]
      exact none 0
  | total =>
      exact hc.same hmv rawTx (hc.payRawjob rfl (none _)) hc.own.1
  | unknown hf hr hto h1 =>
      exact absurd h1 (hadm _ _ _ hr hto).1
  | gone hl =>
      have := hc.own.1
      rw [hl] at this
      cases this

/-- A handler that stops owes nothing. -/
theorem HandlerPhase.Stops.debts (hs : s.Stops) :
    s.owesSjob = 0 ∧ s.owesRawjob = 0 := by
  cases s with
  | count x f k l => exact hs.elim
  | uncount x f k l => exact hs.elim
  | summing rid ids xs acc => exact hs.elim
  | rated rid x f n xs acc => exact hs.elim
  | owing rid x d xs acc => exact hs.elim
  | _ => exact ⟨rfl, rfl⟩

/-- So the counts are kept when it goes. -/
theorem Counting.retire (hc : Counting w (m₁ ++ (h, s) :: m₂))
    (hs : s.Stops) : Counting w (m₁ ++ m₂) where
  base := hc.base.retire
  balanced := by
    have hled := hc.ledger
    rw [hs.debts.1, hs.debts.2, add_zero, add_zero] at hled
    exact hled
  range := hc.range
  notes q hq := hc.notes q (mem_around.mpr (.inr hq))
  apart := hc.apart.sublist
    ((List.Sublist.refl m₁).append (List.sublist_cons_self _ _))
  tags q hq := hc.tags q (mem_around.mpr (.inr hq))

-- ------------------------------------------------------ starts, outside

/-- The tasks of the handlers, after one more report is dispatched. -/
theorem HandlerId.tasks_deliver {r : Report} {i : HandlerId} :
    i.tasks w ⊆ i.tasks (w.deliver r) := by
  cases i with
  | schedule => exact subset_rfl
  | pollRate => exact subset_rfl
  | status n =>
      intro t ht
      obtain ⟨r', hr', hcr⟩ := ht
      obtain ⟨hlt, -⟩ := List.getElem?_eq_some_iff.mp hr'
      refine ⟨r', ?_, hcr⟩
      show (w.delivered ++ [r])[n]? = some r'
      rw [List.getElem?_append_left hlt]
      exact hr'

/-- A handler starts, with nothing owed, and holds other tasks. -/
theorem Counting.start (hc : Counting w m) (hb : Base w' (m ++ [(h, s)]))
    (hsjobs : w'.sjobs = w.sjobs) (hraw : w'.rawjobs = w.rawjobs)
    (hl : w'.hasLauncher = w.hasLauncher)
    (hdel : ∀ i : HandlerId, i.tasks w ⊆ i.tasks w')
    (howes : s.owesSjob = 0 ∧ s.owesRawjob = 0) (hnotes : s.Notes w)
    (hapart : ∀ q ∈ m, Apart q.2.holds s.holds)
    (htag : s.holds ⊆ h.tasks w') : Counting w' (m ++ [(h, s)]) := by
  have hsame : w.SameSheets w' := by
    refine ⟨by rw [hsjobs], fun i hi => ?_, hl⟩
    unfold World.Finished at hi ⊢
    rwa [hsjobs] at hi
  refine ⟨hb, ?_, hc.range.same hsame, ?_, ?_, ?_⟩
  · rw [sjobDebts_around, rawjobDebts_around, howes.1, howes.2, add_zero,
      add_zero, List.append_nil]
    exact hc.balanced.core (by rw [hsjobs]) (by rw [hraw])
  · intro q hq
    rcases List.mem_append.mp hq with hq | hq
    · exact (hc.notes q hq).same hsame
    · rw [List.mem_singleton.mp hq]
      exact hnotes.same hsame
  · rw [List.pairwise_append]
    refine ⟨hc.apart, List.pairwise_singleton _ _, fun a ha b hbm => ?_⟩
    rw [List.mem_singleton.mp hbm]
    exact hapart a ha
  · intro q hq
    rcases List.mem_append.mp hq with hq | hq
    · exact (hc.tags q hq).trans (hdel q.1)
    · rw [List.mem_singleton.mp hq]
      exact htag

/-- The launcher comes or goes. -/
theorem HandlerPhase.Notes.launcher (hn : s.Notes w) {b : Bool}
    (hb : s.holds = Set.univ → b = true) :
    s.Notes { w with hasLauncher := b } := by
  have hup : ∀ hu : s.holds = Set.univ, w.hasLauncher = true →
      s.Notes { w with hasLauncher := b } := fun hu hl =>
    hn.same ⟨rfl, fun _ h => h, (hb hu).trans hl.symm⟩
  cases s with
  | polling => exact hup rfl hn
  | summing rid ids xs acc => exact hup rfl hn.1
  | rated rid x f n xs acc => exact hup rfl hn.1
  | owing rid x d xs acc => exact hup rfl hn.1
  | count x f k l => cases l <;> exact hn
  | _ => exact hn

/-- The coming and going of the launcher changes no count. -/
theorem Counting.launcher (hc : Counting w m) {b : Bool}
    (hbase : Base { w with hasLauncher := b } m)
    (hb : .pollRate ∈ m.map Prod.fst → b = true) :
    Counting { w with hasLauncher := b } m where
  base := hbase
  balanced := hc.balanced.core rfl rfl
  range := by
    intro x hx k hk
    exact (hc.range x hx k hk).mono rfl rfl fun hf => hf
  notes := by
    intro q hq
    refine (hc.notes q hq).launcher fun hu => hb ?_
    have htag := hc.tags q hq
    rw [hu] at htag
    cases hid : q.1 with
    | pollRate => exact hid ▸ List.mem_map_of_mem hq
    | schedule =>
        rw [hid] at htag
        exact (htag (Set.mem_univ 0)).elim
    | status n =>
        -- the handler of a report holds one task at most
        rw [hid] at htag
        obtain ⟨r, hr, -, h0⟩ := htag (Set.mem_univ 0)
        obtain ⟨r', hr', -, h1⟩ := htag (Set.mem_univ 1)
        rw [hr] at hr'
        obtain rfl := Option.some.inj hr'
        exact absurd (h0.symm.trans h1) (by decide)
  apart := hc.apart
  tags := hc.tags

end step

-- ============================================================== every run

/-- Completions of one task follow each other, on blocks that are not
finished, and apart from polling passes; during a pass the launcher stays
and knows every task. -/
def Rules.counting : Rules where
  dispatch P r := r.Completes → ¬ P.Running .pollRate
    ∧ (∀ n r', P.Running (.status n) → P.world.delivered[n]? = some r' →
      r'.Completes → r'.task ≠ r.task)
    ∧ ∃ x ∈ P.world.sjobs, ∃ f ∈ x.flows, f.task = r.task
      ∧ ¬ P.world.Finished f.block
  poll P := ∀ n r, P.Running (.status n) →
    P.world.delivered[n]? = some r → ¬ r.Completes
  launcher P b := P.Running .pollRate → b = true
  reply w e := match e with
    | .mldRate t => fun r : RateAnswer => r.timedOut = false →
        r.code ≠ 1 ∧ (r.code = 0 → w.FairRate t r.transferred)
    | _ => fun _ => True

/-- In a fresh world the counts are right. -/
theorem World.Fresh.counting {w : World} (h : w.Fresh) : Counting w [] where
  base := h.base
  balanced := by
    have hzero : ∀ x ∈ w.sjobs, x.bytes = 0 := by
      intro x hx
      refine List.sum_eq_zero fun n hn => ?_
      obtain ⟨b, hb, rfl⟩ := List.mem_map.mp hn
      exact ((h.sjobs x hx).blocks b hb).2.1
    constructor
    · intro x hx
      rw [hzero x hx, (h.sjobs x hx).txBytes]
      rfl
    · intro r hr
      have hjob : w.jobBytes r.id = 0 := by
        rw [World.jobBytes, sum_single_filter]
        refine List.sum_eq_zero fun n hn => ?_
        obtain ⟨x, hx, rfl⟩ := List.mem_map.mp hn
        exact hzero x (List.mem_of_mem_filter hx)
      rw [hjob, (h.rawjobs r hr).2]
      rfl
  range := by
    intro x hx k hk
    obtain ⟨-, htx, hsize⟩ := (h.sjobs x hx).blocks k hk
    refine ⟨htx.ge, htx.le.trans hsize, fun hf => ?_⟩
    obtain ⟨y, hy, c, hc, -, hst⟩ := hf
    rw [((h.sjobs y hy).blocks c hc).1] at hst
    cases hst
  notes := fun _ hq => absurd hq List.not_mem_nil
  apart := .nil
  tags := fun _ hq => absurd hq List.not_mem_nil

/-- A handler that is not a pass, nor of the completion of a task in `T`,
holds no task of `T`. -/
theorem Counting.free {P : ServerPool}
    {m : List (HandlerId × HandlerPhase)} (hc : Counting P.world m)
    (hm : m.map Prod.fst = P.threads.map Prod.fst) {T : Set Guid}
    (hpoll : ¬ P.Running .pollRate)
    (hst : ∀ n r, P.Running (.status n) → P.world.delivered[n]? = some r →
      r.Completes → r.task ∉ T) :
    ∀ q ∈ m, Apart q.2.holds T := by
  intro q hq
  have hrun : P.Running q.1 := by
    unfold ServerPool.Running
    rw [← hm]
    exact List.mem_map_of_mem hq
  intro t ht hT
  have htag := hc.tags q hq ht
  cases hid : q.1 with
  | schedule =>
      rw [hid] at htag
      exact htag
  | pollRate => exact hpoll (hid ▸ hrun)
  | status n =>
      rw [hid] at htag hrun
      obtain ⟨r, hr, hcr, rfl⟩ := htag
      exact hst n r hrun hr hcr hT

/-- In every run of the server the counts are right. -/
theorem server_counting {conf : Conf} {w : World} (hw : w.Fresh)
    {P : ServerPool} (hrun : (server conf .counting).Run ⟨w, []⟩ P) :
    ∃ m, m.map Prod.fst = P.threads.map Prod.fst ∧ Counting P.world m := by
  have hadm : KnowsTasks Rules.counting.reply := fun w t r hr => hr
  have hinv := Phases.invariant (M := phases Rules.counting.reply)
    (J := Counting) (fun hc q _ => hc.base.tidy)
    (fun hc hm => hc.exec hadm hm) (fun hc hs => hc.retire hs) ?_ ?_ hrun
    ⟨[], .nil, hw.counting⟩
  · obtain ⟨m, hm, hc⟩ := hinv
    exact ⟨m, hm.tags, hc⟩
  · intro P h p w' m hm hc hs
    obtain ⟨hwalk, hfit, hframe, hsch⟩ := hs.walks
    refine ⟨startPhase w' h, ?_, hwalk⟩
    have hb : Base w' (m ++ [(h, startPhase w' h)]) :=
      hc.base.start hframe hfit (fun hs => (hsch hs).1) fun hs => by
        rw [hm.tags]
        exact (hsch hs).2
    cases hs with
    | schedule hno =>
        exact hc.start hb rfl rfl rfl (fun _ => subset_rfl) ⟨rfl, rfl⟩
          trivial (fun _ _ _ _ ht => ht) (Set.empty_subset _)
    | pollRate hno hp =>
        exact hc.start hb rfl rfl rfl (fun _ => subset_rfl) ⟨rfl, rfl⟩
          trivial (hc.free hm.tags hno fun n r hr hd hcr =>
            absurd hcr (hp n r hr hd)) subset_rfl
    | @status r hr hd =>
        rw [startPhase_deliver] at hb ⊢
        by_cases hcr : r.Completes
        · rw [Report.phase, if_pos hcr] at hb ⊢
          obtain ⟨hpoll, hother, hflow⟩ := hd hcr
          refine hc.start hb rfl rfl rfl (fun _ => HandlerId.tasks_deliver)
            ⟨rfl, rfl⟩ hflow (hc.free hm.tags hpoll fun n r' hrun' hd' hc' =>
              hother n r' hrun' hd' hc') ?_
          intro t ht
          obtain rfl := Set.mem_singleton_iff.mp ht
          exact ⟨r, List.getElem?_concat_length, hcr, rfl⟩
        · rw [Report.phase, if_neg hcr] at hb ⊢
          exact hc.start hb rfl rfl rfl (fun _ => HandlerId.tasks_deliver)
            ⟨rfl, rfl⟩ trivial (fun _ _ _ _ ht => ht)
            (Set.empty_subset _)
  · intro P w' m hm hc hh
    have hb := hc.base.outside hh.frame
    cases hh with
    | @publish r b hr =>
        have hsame : P.world.SameSheets (P.world.publish r) :=
          ⟨rfl, fun _ h => h, rfl⟩
        exact ⟨hb, hc.balanced.core rfl rfl, hc.range.same hsame,
          fun q hq => (hc.notes q hq).same hsame, hc.apart, hc.tags⟩
    | launcher hl =>
        refine hc.launcher hb fun hp => hl ?_
        unfold ServerPool.Running
        rw [← hm.tags]
        exact hp

/-- Once no handler is at work, nothing is owed. -/
theorem Counting.accounted {w : World} (hc : Counting w []) :
    w.Accounted := by
  obtain ⟨hsjobs, hrawjobs⟩ := hc.balanced.settled
  refine ⟨hsjobs, hrawjobs, fun x hx b hb => ?_, fun x hx b hb hst => ?_⟩
  · exact ⟨(hc.range x hx b hb).nonneg, (hc.range x hx b hb).le⟩
  · exact (hc.range x hx b hb).full ⟨x, hx, b, hb, rfl, hst⟩

/-- In every run in which completions and polling passes keep apart, and
every polling pass is answered by a launcher that knows its tasks, the
counters agree in every state in which no handler is at work. -/
theorem bytes_accounted {conf : Conf} {w : World} (hw : w.Fresh)
    {P : ServerPool} (hrun : (server conf .counting).Run ⟨w, []⟩ P)
    (hidle : P.threads = []) : P.world.Accounted := by
  obtain ⟨m, hm, hc⟩ := server_counting hw hrun
  rw [hidle] at hm
  obtain rfl : m = [] := List.map_eq_nil_iff.mp hm
  exact hc.accounted

-- ------------------------------------------------------ two runs of it

instance (w : World) (i : Oid) : Decidable (w.Finished i) :=
  inferInstanceAs (Decidable (∃ x ∈ w.sjobs, ∃ b ∈ x.blocks, b.id = i
    ∧ b.state = .finished))

instance (w : World) (k : Block) (n : Int) : Decidable (w.Possible k n) :=
  decidable_of_iff (0 ≤ n ∧ n ≤ k.size ∧ (w.Finished k.id → n = k.size))
    ⟨fun h => ⟨h.1, h.2.1, h.2.2⟩, fun h => ⟨h.nonneg, h.le, h.full⟩⟩

instance (w : World) (t : Guid) (n : Int) : Decidable (w.FairRate t n) :=
  inferInstanceAs (Decidable (_ ∧ _))

/-- Nothing is restricted but what the launcher answers to a poll. -/
def Rules.fairRates : Rules :=
  { Rules.free with
    reply := fun w e => match e with
      | .mldRate t => fun r : RateAnswer => r.timedOut = false →
          r.code = 0 → w.FairRate t r.transferred
      | _ => fun _ => True }

/-- A launcher that answers polls with 10 bytes where that is fair, and
does not know one task. -/
def rateAnswer (lost : Option Guid) (w : World) (t : Guid) : RateAnswer :=
  if lost = some t then ⟨false, 1, 0⟩
  else if w.FairRate t 10 then ⟨false, 0, 10⟩
  else ⟨true, 0, 0⟩

/-- Answers every poll fairly, but for one task whose answer is lost. -/
def rateOracle (lost : Option Guid) : Oracle World Call Reply :=
  fun w e => match e with
    | .mldRate t => rateAnswer lost w t
    | e => plainOracle true true w e

/-- Its answers are fair. -/
theorem rateAnswer_fair {lost : Option Guid} {w : World} {t : Guid}
    (hto : (rateAnswer lost w t).timedOut = false)
    (h0 : (rateAnswer lost w t).code = 0) :
    w.FairRate t (rateAnswer lost w t).transferred := by
  unfold rateAnswer at *
  by_cases hl : lost = some t
  · rw [if_pos hl] at h0
    cases h0
  · rw [if_neg hl] at hto ⊢
    by_cases hfair : w.FairRate t 10
    · rw [if_pos hfair]
      exact hfair
    · rw [if_neg hfair] at hto
      cases hto

/-- So it keeps the rules for polls. -/
theorem rateOracle_fairRates (lost : Option Guid) (h : HandlerId) :
    (rateOracle lost).Admissible (Rules.fairRates.env h) := by
  intro w e
  cases e with
  | mldRate t => exact rateAnswer_fair
  | _ => trivial

/-- When no answer is lost, it keeps the rules for counting. -/
theorem rateOracle_counting (h : HandlerId) :
    (rateOracle none).Admissible (Rules.counting.env h) := by
  intro w e
  cases e with
  | mldRate t =>
      refine fun hto => ⟨?_, rateAnswer_fair hto⟩
      show (rateAnswer none w t).code ≠ 1
      unfold rateAnswer
      rw [if_neg nofun]
      split
      · exact fun hc => absurd hc (by decide)
      · exact fun hc => absurd hc (by decide)
  | _ => trivial

/-- The world after a handler has run alone, the polls answered so. -/
def World.polled (lost : Option Guid) (h : HandlerId) (p : Handler Unit)
    (w : World) : World :=
  (p.run (World.env h) (rateOracle lost) w).2

/-- A handler that is started in an empty pool runs to its end. -/
theorem server_polled {conf : Conf} {ru : Rules} {lost : Option Guid}
    {P : ServerPool} {w w' : World} {h : HandlerId} {p : Handler Unit}
    (hru : (rateOracle lost).Admissible (ru.env h))
    (hrun : (server conf ru).Run P ⟨w, []⟩)
    (hs : Starts conf ru ⟨w, []⟩ h p w') :
    (server conf ru).Run P ⟨w'.polled lost h p, []⟩ := by
  have hsolo := System.run_solo (S := server conf ru)
    (o := rateOracle lost) (t := h) hru p w' [] []
  have hend : (p.run ((server conf ru).env h) (rateOracle lost) w').2
      = w'.polled lost h p := by
    have heff : ((server conf ru).env h).eff = (World.env h).eff := rfl
    rw [Prog.run_env heff]
    rfl
  rw [hend] at hsolo
  exact (hrun.tail (.spawn hs)).trans hsolo

/-- A pass has launched both sjobs. -/
def launchedBoth : World :=
  twoSjobs.polled none .schedule (schedule (plainConf false))

/-- Both flows are polled; the launcher does not know one of the
tasks. -/
def polledBoth (lost : Option Guid) : World :=
  launchedBoth.polled lost .pollRate (pollRate (plainConf false))

/-- The first sjob is then completed. -/
def polledAndCompleted : World :=
  (((polledBoth none).publish firstCompletion).deliver firstCompletion).polled
    none (.status 0) (mldStatus (plainConf false) 0 ⟨3, 0⟩)

/-- A run that polls and then completes a flow. -/
theorem polledAndCompleted_run :
    (server (plainConf false) .counting).Run ⟨twoSjobs, []⟩
      ⟨polledAndCompleted, []⟩ := by
  have hlaunch : (server (plainConf false) .counting).Run ⟨twoSjobs, []⟩
      ⟨launchedBoth, []⟩ :=
    server_polled (rateOracle_counting .schedule) .refl (.schedule nofun)
  have hpoll := server_polled (rateOracle_counting .pollRate) hlaunch
    (.pollRate nofun fun _ _ hr => nomatch hr)
  have hlab : (polledBoth none).labels[0]? = some (0, 20) := by
    decide +kernel
  have hpub := hpoll.tail (.env (.publish (r := firstCompletion) hlab))
  have hd : Rules.counting.dispatch
      ⟨(polledBoth none).publish firstCompletion, []⟩ firstCompletion := by
    intro _
    refine ⟨List.not_mem_nil, fun n r' hr => ?_, ?_⟩
    · exact absurd hr List.not_mem_nil
    · show ∃ x ∈ (polledBoth none).sjobs, ∃ f ∈ x.flows, f.task = 0
        ∧ ¬ (polledBoth none).Finished f.block
      decide +kernel
  exact server_polled (rateOracle_counting (.status 0)) hpub
    (.status (r := firstCompletion)
      (List.mem_append_right _ (List.mem_singleton_self _)) hd)

/-- Both are launched and polled, and the first is completed. -/
theorem bytes_accounted_completed :
    polledAndCompleted.rawjobs.map (·.txBytes) = [110]
    ∧ polledAndCompleted.sjobs.map (·.txBytes) = [100, 10]
    ∧ polledAndCompleted.Accounted :=
  ⟨by decide +kernel, by decide +kernel,
    bytes_accounted twoSjobs_fresh polledAndCompleted_run rfl⟩

/-- The launcher does not know the second task: the pass ends, and the
bytes counted for the first are lost to the rawjob. -/
theorem bytes_lost_unknown_task :
    twoSjobs.Fresh
    ∧ (server (plainConf false) .fairRates).Run ⟨twoSjobs, []⟩
      ⟨polledBoth (some 1), []⟩
    ∧ (polledBoth (some 1)).sjobs.map (fun x => (x.id, x.rawjob, x.txBytes))
      = [(10, 1, 10), (11, 1, 0)]
    ∧ (polledBoth (some 1)).rawjobs.map (fun r => (r.id, r.txBytes))
      = [(1, 0)]
    ∧ ¬ (polledBoth (some 1)).Accounted := by
  have hlaunch : (server (plainConf false) .fairRates).Run ⟨twoSjobs, []⟩
      ⟨launchedBoth, []⟩ :=
    server_polled (rateOracle_fairRates none .schedule) .refl
      (.schedule nofun)
  have hrun := server_polled (rateOracle_fairRates (some 1) .pollRate)
    hlaunch (.pollRate nofun trivial)
  refine ⟨twoSjobs_fresh, hrun, by decide +kernel, by decide +kernel, ?_⟩
  intro hacc
  have hno : ¬ ∀ r ∈ (polledBoth (some 1)).rawjobs, r.txBytes
      = (((polledBoth (some 1)).sjobs.filter (·.rawjob == r.id)).map
        (·.txBytes)).sum := by decide +kernel
  exact hno hacc.rawjobs

end BigDataExpress
