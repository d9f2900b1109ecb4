/-
A block is finished only if the launcher has reported the completion of
a launch of that block.

A completion report names a task, and its handler marks whatever block
the flow of that task carries when it looks. That this is a block whose
own completion was reported is a matter of counting. Each task is
launched once by a scheduling pass, and after that at most once by each
handler of a completion. So while a handler has not launched yet, there
are no more launches of its task than completions dispatched for it;
and if no completion is dispatched twice, these are completions of
different launches. Then every launch of the task has been reported
complete, the one of the block in the flow among them.

A completion dispatched twice breaks the count: the second handler finds
the block that the first has launched.
-/
import BigDataExpress.Proofs.Base
import Mathlib.Data.Finset.Card

namespace BigDataExpress

open Interact Collection

-- ============================================================ counting

/-- The task was launched. -/
def World.Launched (w : World) (t : Guid) : Prop := ∃ b, (t, b) ∈ w.labels

/-- The completion of a launch of the block was reported. -/
def World.Reported (w : World) (b : Oid) : Prop :=
  ∃ r ∈ w.reports, r.Completes ∧ w.labels[r.launch]? = some (r.task, b)

/-- The positions of the launches of a task. -/
def positions (l : List (Guid × Oid)) (t : Guid) : Finset Nat :=
  (Finset.range l.length).filter fun k => (l[k]?).map Prod.fst = some t

/-- The launches whose completion was dispatched. -/
def World.completed (w : World) (t : Guid) : Finset Nat :=
  ((w.delivered.filter fun r => r.Completes ∧ r.task = t).map
    Report.launch).toFinset

theorem mem_positions {l : List (Guid × Oid)} {t : Guid} {k : Nat} :
    k ∈ positions l t ↔ ∃ b, l[k]? = some (t, b) := by
  unfold positions
  rw [Finset.mem_filter, Finset.mem_range]
  constructor
  · rintro ⟨-, hk⟩
    rw [Option.map_eq_some_iff] at hk
    obtain ⟨⟨t', b⟩, hp, rfl⟩ := hk
    exact ⟨b, hp⟩
  · rintro ⟨b, hk⟩
    obtain ⟨hlt, -⟩ := List.getElem?_eq_some_iff.mp hk
    exact ⟨hlt, by rw [hk]; rfl⟩

theorem World.mem_completed {w : World} {t : Guid} {k : Nat} :
    k ∈ w.completed t
      ↔ ∃ r ∈ w.delivered, r.Completes ∧ r.task = t ∧ r.launch = k := by
  unfold World.completed
  simp only [List.mem_toFinset, List.mem_map, List.mem_filter,
    decide_eq_true_eq]
  constructor
  · rintro ⟨r, ⟨hr, hc, ht⟩, hk⟩
    exact ⟨r, hr, hc, ht, hk⟩
  · rintro ⟨r, hr, hc, ht, hk⟩
    exact ⟨r, ⟨hr, hc, ht⟩, hk⟩

/-- One more launch, of the task itself or of another. -/
theorem card_positions_append (l : List (Guid × Oid)) (t t' : Guid)
    (b : Oid) : (positions (l ++ [(t', b)]) t).card
      = (positions l t).card + if t' = t then 1 else 0 := by
  have hold : ∀ k, k ∈ positions l t → k < l.length := by
    intro k hk
    obtain ⟨c, hk⟩ := mem_positions.mp hk
    exact (List.getElem?_eq_some_iff.mp hk).1
  have hmem : ∀ k, k ∈ positions (l ++ [(t', b)]) t
      ↔ k ∈ positions l t ∨ (k = l.length ∧ t' = t) := by
    intro k
    rw [mem_positions, mem_positions]
    rcases Nat.lt_trichotomy k l.length with hk | rfl | hk
    · rw [List.getElem?_append_left hk]
      constructor
      · exact .inl
      · rintro (h | ⟨rfl, -⟩)
        · exact h
        · exact absurd hk (lt_irrefl _)
    · simp
    · have h₁ : (l ++ [(t', b)])[k]? = none :=
        List.getElem?_eq_none_iff.mpr (by
          rw [List.length_append, List.length_singleton]
          exact hk)
      have h₂ : l[k]? = none := List.getElem?_eq_none_iff.mpr hk.le
      rw [h₁, h₂]
      constructor
      · rintro ⟨c, hc⟩
        cases hc
      · rintro (⟨c, hc⟩ | ⟨rfl, -⟩)
        · cases hc
        · exact absurd hk (lt_irrefl _)
  split
  · rename_i ht
    have hset : positions (l ++ [(t', b)]) t
        = insert l.length (positions l t) := by
      ext k
      rw [hmem, Finset.mem_insert]
      tauto
    rw [hset, Finset.card_insert_of_notMem]
    exact fun hc => absurd (hold _ hc) (lt_irrefl _)
  · rename_i ht
    have hset : positions (l ++ [(t', b)]) t = positions l t := by
      ext k
      rw [hmem]
      tauto
    rw [hset, Nat.add_zero]

-- ======================================================= the invariant

namespace HandlerPhase

/-- The task the handler may still launch. -/
def task? : HandlerPhase → Option Guid
  | dispatched t => some t
  | count _ f _ _ => some f.task
  | verify _ f _ => some f.task
  | uncount _ f _ _ => some f.task
  | relaunch _ f => some f.task
  | drawn _ _ t => some t
  | inserted _ t _ => some t
  | _ => none

/-- What is known of the launches in a phase. -/
def Knows (w : World) : HandlerPhase → Prop
  | dispatched t => w.Launched t
  | count _ f _ _ => w.Launched f.task ∧ w.Reported f.block
  | verify _ f _ => w.Launched f.task ∧ w.Reported f.block
  | uncount _ f _ _ => w.Launched f.task
  | relaunch _ f => w.Launched f.task
  | launched _ f n => (f.task, n) ∈ w.labels
  | drawn _ _ t => ¬ w.Launched t
  | inserted _ t b => ¬ w.Launched t
      ∧ ∀ x ∈ w.sjobs, ∀ g ∈ x.flows, g.task = t → g.block = b
  | _ => True

end HandlerPhase

/-- The handlers that may still launch the task. -/
def pending (m : List (HandlerId × HandlerPhase)) (t : Guid) : Nat :=
  m.countP fun q => q.2.task? = some t

structure Counted (w : World) (m : List (HandlerId × HandlerPhase)) :
    Prop where
  base : Base w m
  knows : ∀ q ∈ m, q.2.Knows w
  loads : ∀ x ∈ w.sjobs, ∀ f ∈ x.flows,
    w.Launched f.task → f.load ∈ w.labels
  tasks : ∀ t, w.Launched t → t < w.guids.length
  budget : ∀ t, (positions w.labels t).card + pending m t
    ≤ 1 + (w.completed t).card
  reports : ∀ r ∈ w.reports, ∃ b, w.labels[r.launch]? = some (r.task, b)
  delivered : ∀ r ∈ w.delivered, r ∈ w.reports
  finished : ∀ i, w.Finished i → w.Reported i

section step

variable {w w' : World} {m m₁ m₂ : List (HandlerId × HandlerPhase)}
  {h : HandlerId} {s s' : HandlerPhase} {t : Guid}
  {adm : World → (e : Call) → Reply e → Prop}

theorem pending_around (t : Guid) :
    pending (m₁ ++ (h, s) :: m₂) t
      = pending (m₁ ++ m₂) t + if s.task? = some t then 1 else 0 := by
  unfold pending
  rw [List.countP_append, List.countP_cons, List.countP_append]
  simp only [decide_eq_true_eq]
  omega

/-- The completions dispatched are completions of launches. -/
theorem Counted.completed_subset (hc : Counted w m) (t : Guid) :
    w.completed t ⊆ positions w.labels t := by
  intro k hk
  obtain ⟨r, hr, -, rfl, rfl⟩ := World.mem_completed.mp hk
  exact mem_positions.mpr (hc.reports r (hc.delivered r hr))

/-- While a handler may still launch the task, the completion of every
launch of it was dispatched. -/
theorem Counted.all_completed (hc : Counted w m) (hp : 0 < pending m t) :
    positions w.labels t = w.completed t := by
  have hb := hc.budget t
  exact (Finset.eq_of_subset_of_card_le (hc.completed_subset t)
    (by omega)).symm

/-- The block the flow carries is then reported complete. -/
theorem Counted.reported (hc : Counted w m) (hp : 0 < pending m t)
    {x : Sjob} {f : Flow} (hx : x ∈ w.sjobs) (hf : f ∈ x.flows)
    (ht : f.task = t) (hl : w.Launched t) : w.Reported f.block := by
  have hload := hc.loads x hx f hf (ht ▸ hl)
  obtain ⟨k, hk⟩ := List.mem_iff_getElem?.mp hload
  have hpos : k ∈ positions w.labels t :=
    mem_positions.mpr ⟨f.block, by rw [hk, ← ht]; rfl⟩
  rw [hc.all_completed hp] at hpos
  obtain ⟨r, hr, hcr, htr, rfl⟩ := World.mem_completed.mp hpos
  refine ⟨r, hc.delivered r hr, hcr, ?_⟩
  rw [hk, htr, ← ht]
  rfl

-- ------------------------------------------------------ what is kept

/-- Nothing has changed that the count is about, except that blocks whose
completion was reported may have been finished. -/
structure World.Calm (w w' : World) : Prop where
  frame : w.SameFrame w'
  labels : w'.labels = w.labels
  reports : w'.reports = w.reports
  delivered : w'.delivered = w.delivered
  finished : ∀ i, w'.Finished i → w.Finished i ∨ w.Reported i

theorem World.Calm.refl (w : World) : w.Calm w :=
  ⟨.refl w, rfl, rfl, rfl, fun _ => .inl⟩

theorem World.Quiet.calm (hq : w.Quiet w') : w.Calm w' :=
  ⟨hq.frame, hq.labels, hq.reports, hq.delivered,
    fun i hi => .inl (hq.finished i hi)⟩

/-- More bytes are counted for a block. -/
theorem World.Calm.blockTx {b : Oid} {v : Int} :
    w.Calm (w.incrementSjobBlockField b v) := by
  refine ⟨.updateBlock fun _ => rfl, rfl, rfl, rfl, ?_⟩
  rintro i ⟨y, hy, hi⟩
  left
  rcases mem_updateOne hy with hy | ⟨x, hx, -, rfl⟩
  · exact ⟨y, hy, hi⟩
  · obtain ⟨k, hk, hid, hst⟩ := hi
    rcases mem_updateOne hk with hk | ⟨k', hk', -, rfl⟩
    · exact ⟨x, hx, k, hk, hid, hst⟩
    · exact ⟨x, hx, k', hk', hid, hst⟩

theorem World.Calm.sjobTx {i : Oid} {v : Int} :
    w.Calm (w.incrementSjobTxBytes i v) := by
  refine ⟨.updateSjob fun _ => rfl, rfl, rfl, rfl, ?_⟩
  rintro j ⟨y, hy, hj⟩
  left
  rcases mem_updateOne hy with hy | ⟨x, hx, -, rfl⟩
  · exact ⟨y, hy, hj⟩
  · exact ⟨x, hx, hj⟩

theorem World.Calm.rawTx {i : Oid} {v : Int} :
    w.Calm (w.incrementRawjobField i v) :=
  ⟨.updateRawjob fun _ => rfl, rfl, rfl, rfl, fun _ => .inl⟩

/-- A block whose completion was reported is finished. -/
theorem World.Calm.accept {b : Oid} (hb : w.Reported b) :
    w.Calm (w.updateSjobBlockState b .finished) := by
  refine ⟨.updateBlock fun _ => rfl, rfl, rfl, rfl, ?_⟩
  rintro i ⟨y, hy, hi⟩
  rcases mem_updateOne hy with hy | ⟨x, hx, -, rfl⟩
  · exact .inl ⟨y, hy, hi⟩
  · obtain ⟨k, hk, hid, hst⟩ := hi
    rcases mem_updateOne hk with hk | ⟨k', hk', hp, rfl⟩
    · exact .inl ⟨x, hx, k, hk, hid, hst⟩
    · right
      have hkb : k'.id = b := by simpa using hp
      have hki : k'.id = i := hid
      rw [← hki, hkb]
      exact hb

theorem World.Launched.congr (hl : w'.labels = w.labels) :
    w'.Launched t ↔ w.Launched t := by
  unfold World.Launched
  rw [hl]

/-- More launches and reports lose nothing. -/
theorem World.Reported.mono {b : Oid} (hr : w.Reported b)
    (hl : w.labels <+: w'.labels) (hrep : ∀ r ∈ w.reports, r ∈ w'.reports) :
    w'.Reported b := by
  obtain ⟨r, hr, hc, hk⟩ := hr
  refine ⟨r, hrep r hr, hc, ?_⟩
  obtain ⟨l, hl⟩ := hl
  obtain ⟨hlt, -⟩ := List.getElem?_eq_some_iff.mp hk
  rw [← hl, List.getElem?_append_left hlt]
  exact hk

theorem World.Calm.reported {b : Oid} (hc : w.Calm w') (hr : w.Reported b) :
    w'.Reported b :=
  hr.mono (hc.labels ▸ List.prefix_refl _)
    (fun _ hr => hc.reports ▸ hr)

theorem HandlerPhase.Knows.calm (hk : s.Knows w) (hc : w.Calm w') :
    s.Knows w' := by
  have hl := fun t => World.Launched.congr (t := t) hc.labels
  cases s with
  | dispatched t => exact (hl t).mpr hk
  | count x f k l => exact ⟨(hl _).mpr hk.1, hc.reported hk.2⟩
  | verify x f k => exact ⟨(hl _).mpr hk.1, hc.reported hk.2⟩
  | uncount x f k l => exact (hl _).mpr hk
  | relaunch x f => exact (hl _).mpr hk
  | launched x f n =>
      show (f.task, n) ∈ w'.labels
      rw [hc.labels]
      exact hk
  | drawn xs x t => exact fun hc => hk ((hl t).mp hc)
  | inserted xs t b =>
      refine ⟨fun hc => hk.1 ((hl t).mp hc), fun x hx g hg ht => ?_⟩
      obtain ⟨y, hy, hfr⟩ := hc.frame.mem hx
      obtain ⟨g', hg', hgl⟩ := World.frame_flow hfr hg
      have htask : g'.task = g.task := congrArg Prod.fst hgl
      have hblock : g'.block = g.block := congrArg Prod.snd hgl
      rw [← hblock]
      exact hk.2 y hy g' hg' (htask.trans ht)
  | quiet => trivial
  | pass => trivial
  | scheduling xs => trivial
  | poll => trivial
  | polling => trivial
  | summing rid ids xs acc => trivial
  | rated rid x f n xs acc => trivial
  | owing rid x d xs acc => trivial

theorem Counted.own (hc : Counted w (m₁ ++ (h, s) :: m₂)) : s.Knows w :=
  hc.knows (h, s) (mem_around.mpr (.inl rfl))

/-- A calm move, to a phase that may launch nothing new. -/
theorem Counted.calm (hc : Counted w (m₁ ++ (h, s) :: m₂))
    (hb : Base w' (m₁ ++ (h, s') :: m₂)) (hw : w.Calm w')
    (hk : s'.Knows w) (ht : s'.task? = s.task? ∨ s'.task? = none) :
    Counted w' (m₁ ++ (h, s') :: m₂) where
  base := hb
  knows := by
    intro q hq
    rcases mem_around.mp hq with rfl | hq
    · exact hk.calm hw
    · exact (hc.knows q (mem_around.mpr (.inr hq))).calm hw
  loads := by
    intro x hx f hf hl
    obtain ⟨y, hy, hfr⟩ := hw.frame.mem hx
    obtain ⟨g, hg, hgl⟩ := World.frame_flow hfr hf
    have htask : g.task = f.task := congrArg Prod.fst hgl
    rw [World.Launched.congr hw.labels, ← htask] at hl
    rw [hw.labels, ← hgl]
    exact hc.loads y hy g hg hl
  tasks := by
    intro t hl
    rw [World.Launched.congr hw.labels] at hl
    rw [hw.frame.guids]
    exact hc.tasks t hl
  budget := by
    intro t
    have hbud := hc.budget t
    rw [pending_around] at hbud ⊢
    have hcomp : w'.completed t = w.completed t := by
      unfold World.completed
      rw [hw.delivered]
    rw [hw.labels, hcomp]
    rcases ht with ht | ht
    · rw [ht]
      exact hbud
    · rw [ht, if_neg (by simp)]
      omega
  reports := by
    rw [hw.reports, hw.labels]
    exact hc.reports
  delivered := by
    rw [hw.delivered, hw.reports]
    exact hc.delivered
  finished := by
    intro i hi
    rcases hw.finished i hi with hi | hi
    · exact hw.reported (hc.finished i hi)
    · exact hw.reported hi

-- ---------------------------------------------------------- launches

theorem World.labels_launch {n : Oid} {cmd : LaunchCmd}
    {r : Reply (.launch n cmd)} :
    (w.record h (.launch n cmd) r).labels = w.labels ++ [(cmd.task, n)] :=
  List.filterMap_append

/-- What a phase knows, after a launch by another handler. -/
theorem HandlerPhase.Knows.launch {n : Oid} {cmd : LaunchCmd}
    {r : Reply (.launch n cmd)} (hk : s.Knows w)
    (hs : s.Schedules → w.Launched cmd.task) :
    s.Knows (w.record h (.launch n cmd) r) := by
  have hlab : w.labels <+: (w.record h (.launch n cmd) r).labels :=
    World.labels_launch ▸ List.prefix_append ..
  have hrep : ∀ {b}, w.Reported b →
      (w.record h (.launch n cmd) r).Reported b :=
    fun hb => hb.mono hlab fun _ hr => hr
  have hl : ∀ {t}, w.Launched t →
      (w.record h (.launch n cmd) r).Launched t :=
    fun ⟨b, hb⟩ => ⟨b, hlab.subset hb⟩
  have hnew : ∀ {t}, s.Schedules → ¬ w.Launched t →
      ¬ (w.record h (.launch n cmd) r).Launched t := by
    rintro t hsch hno ⟨b, hb⟩
    rw [World.labels_launch, List.mem_append, List.mem_singleton] at hb
    rcases hb with hb | hb
    · exact hno ⟨b, hb⟩
    · rw [(Prod.mk.inj hb).1] at hno
      exact hno (hs hsch)
  cases s with
  | dispatched t => exact hl hk
  | count x f k l => exact ⟨hl hk.1, hrep hk.2⟩
  | verify x f k => exact ⟨hl hk.1, hrep hk.2⟩
  | uncount x f k l => exact hl hk
  | relaunch x f => exact hl hk
  | launched x f n => exact hlab.subset hk
  | drawn xs x t => exact hnew trivial hk
  | inserted xs t b => exact ⟨hnew trivial hk.1, hk.2⟩
  | quiet => trivial
  | pass => trivial
  | scheduling xs => trivial
  | poll => trivial
  | polling => trivial
  | summing rid ids xs acc => trivial
  | rated rid x f n xs acc => trivial
  | owing rid x d xs acc => trivial

/-- A launch, by a handler that may launch the task and then no more. -/
theorem Counted.launch {n : Oid} {cmd : LaunchCmd}
    {r : Reply (.launch n cmd)} (hc : Counted w (m₁ ++ (h, s) :: m₂))
    (hb : Base (w.record h (.launch n cmd) r) (m₁ ++ (h, s') :: m₂))
    (ht : s.task? = some cmd.task) (ht' : s'.task? = none)
    (hk : s'.Knows (w.record h (.launch n cmd) r))
    (hothers : ∀ q ∈ m₁ ++ m₂, q.2.Schedules → w.Launched cmd.task)
    (hload : ∀ x ∈ w.sjobs, ∀ f ∈ x.flows, f.task = cmd.task →
      w.Launched cmd.task ∨ f.block = n)
    (hlt : cmd.task < w.guids.length) :
    Counted (w.record h (.launch n cmd) r) (m₁ ++ (h, s') :: m₂) where
  base := hb
  knows := by
    intro q hq
    rcases mem_around.mp hq with rfl | hq
    · exact hk
    · exact (hc.knows q (mem_around.mpr (.inr hq))).launch (hothers q hq)
  loads := by
    rintro x hx f hf ⟨b, hl⟩
    rw [World.labels_launch, List.mem_append, List.mem_singleton] at hl ⊢
    rcases hl with hl | hl
    · exact .inl (hc.loads x hx f hf ⟨b, hl⟩)
    · have htask : f.task = cmd.task := (Prod.mk.inj hl).1
      rcases hload x hx f hf htask with hl | hn
      · exact .inl (hc.loads x hx f hf (htask ▸ hl))
      · right
        rw [Flow.load, htask, hn]
  tasks := by
    rintro t ⟨b, hl⟩
    rw [World.labels_launch, List.mem_append, List.mem_singleton] at hl
    rcases hl with hl | hl
    · exact hc.tasks t ⟨b, hl⟩
    · rw [(Prod.mk.inj hl).1]
      exact hlt
  budget := by
    intro t
    have hbud := hc.budget t
    rw [pending_around, ht] at hbud
    rw [pending_around, ht', if_neg (by simp), World.labels_launch,
      card_positions_append]
    have hcomp : (w.record h (.launch n cmd) r).completed t
        = w.completed t := rfl
    rw [hcomp]
    by_cases hct : cmd.task = t
    · rw [if_pos (congrArg some hct)] at hbud
      rw [if_pos hct]
      omega
    · rw [if_neg hct]
      omega
  reports := by
    intro r' hr'
    obtain ⟨b, hk⟩ := hc.reports r' hr'
    refine ⟨b, ?_⟩
    obtain ⟨hlt, -⟩ := List.getElem?_eq_some_iff.mp hk
    rw [World.labels_launch, List.getElem?_append_left hlt]
    exact hk
  delivered := hc.delivered
  finished := by
    intro i hi
    exact (hc.finished i hi).mono (World.labels_launch ▸
      List.prefix_append ..) fun _ hr => hr

-- -------------------------------------------------- loads and tasks

/-- What another handler knows when a flow is told of its block. -/
theorem HandlerPhase.Knows.carry {n : Oid} (hk : s.Knows w)
    (hl : w.Launched t) : s.Knows (w.updateSjobFlowBlock t n) := by
  cases s with
  | inserted xs t' b =>
      refine ⟨hk.1, fun x hx g hg ht => ?_⟩
      have hne : t' ≠ t := fun hc => hk.1 (hc ▸ hl)
      rcases mem_updateOne hx with hx | ⟨y, hy, -, rfl⟩
      · exact hk.2 x hx g hg ht
      · rcases mem_updateOne hg with hg | ⟨g, hg, hp, rfl⟩
        · exact hk.2 y hy g hg ht
        · have hgt : g.task = t := by simpa using hp
          exact absurd (ht.symm.trans hgt) hne
  | dispatched t => exact hk
  | count x f k l => exact hk
  | verify x f k => exact hk
  | uncount x f k l => exact hk
  | relaunch x f => exact hk
  | launched x f n => exact hk
  | drawn xs x t => exact hk
  | quiet => trivial
  | pass => trivial
  | scheduling xs => trivial
  | poll => trivial
  | polling => trivial
  | summing rid ids xs acc => trivial
  | rated rid x f n xs acc => trivial
  | owing rid x d xs acc => trivial

/-- A block that was not finished before a flow's block is changed is not
after it. -/
theorem World.finished_updateFlow {g : Flow → Flow} {i : Oid}
    (hi : (w.updateFlow t g).Finished i) : w.Finished i := by
  obtain ⟨y, hy, hi⟩ := hi
  rcases mem_updateOne hy with hy | ⟨x, hx, -, rfl⟩
  · exact ⟨y, hy, hi⟩
  · exact ⟨x, hx, hi⟩

theorem Counted.carry {x : Sjob} {f : Flow} {n : Oid}
    (hc : Counted w (m₁ ++ (h, .launched x f n) :: m₂)) :
    Counted (w.updateSjobFlowBlock f.task n) (m₁ ++ (h, .quiet) :: m₂) where
  base := hc.base.carry
  knows := by
    intro q hq
    rcases mem_around.mp hq with rfl | hq
    · trivial
    · exact (hc.knows q (mem_around.mpr (.inr hq))).carry ⟨n, hc.own⟩
  loads := by
    intro y hy g hg hl
    rcases mem_updateOne hy with hy | ⟨z, hz, -, rfl⟩
    · exact hc.loads y hy g hg hl
    · rcases mem_updateOne hg with hg | ⟨g, hg, hp, rfl⟩
      · exact hc.loads z hz g hg hl
      · have hgt : g.task = f.task := by simpa using hp
        show (g.task, n) ∈ w.labels
        rw [hgt]
        exact hc.own
  tasks := hc.tasks
  budget := by
    intro t
    have hbud := hc.budget t
    rw [pending_around] at hbud ⊢
    exact hbud
  reports := hc.reports
  delivered := hc.delivered
  finished := fun i hi => hc.finished i (World.finished_updateFlow hi)

/-- A task that was never launched, nor is about to be. -/
theorem Counted.unused (hc : Counted w m) :
    ¬ w.Launched w.guids.length ∧ pending m w.guids.length = 0 := by
  have hno : ¬ w.Launched w.guids.length :=
    fun hl => absurd (hc.tasks _ hl) (lt_irrefl _)
  have hlt : ∀ {i : Oid}, w.guids[w.guids.length]? ≠ some i := by
    intro i hi
    exact absurd (List.getElem?_eq_some_iff.mp hi).1 (lt_irrefl _)
  refine ⟨hno, List.countP_eq_zero.mpr ?_⟩
  rintro ⟨h, s⟩ hq hs
  have hk := hc.knows _ hq
  have hf := hc.base.fits _ hq
  rw [decide_eq_true_iff] at hs
  cases s with
  | dispatched t =>
      obtain rfl := Option.some.inj hs
      exact hno hk
  | count x f k l => exact hno (Option.some.inj hs ▸ hk.1)
  | verify x f k => exact hno (Option.some.inj hs ▸ hk.1)
  | uncount x f k l => exact hno (Option.some.inj hs ▸ hk)
  | relaunch x f => exact hno (Option.some.inj hs ▸ hk)
  | drawn xs x t =>
      obtain rfl := Option.some.inj hs
      exact hlt hf.2.2.1
  | inserted xs t b =>
      obtain rfl := Option.some.inj hs
      obtain ⟨-, i, hi⟩ := hf
      exact hlt hi
  | launched x f n => cases hs
  | quiet => cases hs
  | pass => cases hs
  | scheduling xs => cases hs
  | poll => cases hs
  | polling => cases hs
  | summing rid ids xs acc => cases hs
  | rated rid x f n xs acc => cases hs
  | owing rid x d xs acc => cases hs

theorem Counted.draw {xs : List Sjob} {x : Sjob}
    (hc : Counted w (m₁ ++ (h, .scheduling xs) :: m₂)) (hx : x ∈ xs) :
    Counted (w.drawGuid x.id) (m₁ ++ (h, .drawn (xs.filter (·.id ≠ x.id)) x
      w.guids.length) :: m₂) where
  base := hc.base.draw hx
  knows := by
    intro q hq
    rcases mem_around.mp hq with rfl | hq
    · exact hc.unused.1
    · have hk := hc.knows q (mem_around.mpr (.inr hq))
      cases hs : q.2 <;> rw [hs] at hk <;> exact hk
  loads := hc.loads
  tasks := by
    intro t hl
    have hlt := hc.tasks t hl
    simp only [World.drawGuid, List.length_append, List.length_singleton]
    exact Nat.lt_succ_of_lt hlt
  budget := by
    intro t
    have hbud := hc.budget t
    have hlab : (w.drawGuid x.id).labels = w.labels := rfl
    rw [pending_around] at hbud
    rw [pending_around, hlab]
    by_cases ht : w.guids.length = t
    · -- the new task was never launched
      subst ht
      have hpos : positions w.labels w.guids.length = ∅ := by
        refine Finset.eq_empty_of_forall_notMem fun k hk => ?_
        obtain ⟨b, hk⟩ := mem_positions.mp hk
        exact hc.unused.1 ⟨b, List.mem_of_getElem? hk⟩
      have hpend := hc.unused.2
      rw [pending_around] at hpend
      rw [hpos, Finset.card_empty]
      split <;> omega
    · have hne : ¬ (HandlerPhase.drawn (xs.filter (·.id ≠ x.id)) x
          w.guids.length).task? = some t := fun hs =>
        ht (Option.some.inj hs)
      rw [if_neg hne]
      exact le_trans (by omega) hbud
  reports := hc.reports
  delivered := hc.delivered
  finished := hc.finished

theorem Counted.insert {xs : List Sjob} {x : Sjob} {f : Flow}
    (hc : Counted w (m₁ ++ (h, .drawn xs x f.task) :: m₂))
    (hbl : f.block ∈ x.blockIds) :
    Counted (w.insertFlow x.id f)
      (m₁ ++ (h, .inserted xs f.task f.block) :: m₂) := by
  obtain ⟨-, ⟨z, hz, hid, -, -⟩, -, hfresh⟩ := hc.base.own
  have hmem := fun y => World.mem_insertFlow (f := f) hc.base.tidy.wf hz
    (z := y)
  rw [hid] at hmem
  -- the flows that were there before
  have hflow : ∀ y ∈ (w.insertFlow x.id f).sjobs, ∀ g ∈ y.flows,
      g = f ∨ ∃ y' ∈ w.sjobs, g ∈ y'.flows := by
    intro y hy g hg
    rcases (hmem y).mp hy with rfl | ⟨hy, -⟩
    · rw [List.mem_append, List.mem_singleton] at hg
      rcases hg with hg | rfl
      · exact .inr ⟨z, hz, hg⟩
      · exact .inl rfl
    · exact .inr ⟨y, hy, hg⟩
  exact {
    base := hc.base.insert hbl
    knows := by
      intro q hq
      rcases mem_around.mp hq with rfl | hq
      · refine ⟨hc.own, fun y hy g hg ht => ?_⟩
        rcases hflow y hy g hg with rfl | ⟨y', hy', hg⟩
        · rfl
        · refine absurd ?_ (hfresh y' hy')
          rw [← ht]
          exact List.mem_map_of_mem hg
      · have hk := hc.knows q (mem_around.mpr (.inr hq))
        have hno := hc.base.others trivial q hq
        cases hs : q.2 <;> rw [hs] at hk hno <;>
          first | exact hk | exact absurd trivial hno
    loads := by
      intro y hy g hg hl
      rcases hflow y hy g hg with rfl | ⟨y', hy', hg⟩
      · exact absurd hl hc.own
      · exact hc.loads y' hy' g hg hl
    tasks := hc.tasks
    budget := by
      intro t
      have hbud := hc.budget t
      rw [pending_around] at hbud ⊢
      exact hbud
    reports := hc.reports
    delivered := hc.delivered
    finished := by
      intro i hi
      refine hc.finished i ?_
      obtain ⟨y, hy, hi⟩ := hi
      rcases (hmem y).mp hy with rfl | ⟨hy, -⟩
      · exact ⟨z, hz, hi⟩
      · exact ⟨y, hy, hi⟩ }

/-- The handler of a completion reads the sjob. -/
theorem Counted.read {x : Sjob} {f : Flow} {k : Block}
    (hc : Counted w (m₁ ++ (h, .dispatched t) :: m₂))
    (hb : Base w (m₁ ++ (h, .count x f k .block) :: m₂))
    (hx : x ∈ w.sjobs) (hf : f ∈ x.flows) (ht : f.task = t) :
    Counted w (m₁ ++ (h, .count x f k .block) :: m₂) := by
  have hp : 0 < pending (m₁ ++ (h, .dispatched t) :: m₂) t := by
    have hs : (HandlerPhase.dispatched t).task? = some t := rfl
    rw [pending_around, if_pos hs]
    exact Nat.succ_pos _
  have hl : w.Launched t := hc.own
  refine hc.calm hb (.refl w) ⟨ht ▸ hl, hc.reported hp hx hf ht hl⟩
    (.inl ?_)
  exact congrArg some ht

/-- Every move keeps the count. -/
theorem Counted.exec (hc : Counted w (m₁ ++ (h, s) :: m₂))
    (hm : Move adm h s w s' w') : Counted w' (m₁ ++ (h, s') :: m₂) := by
  have hb := hc.base.exec hm
  have record : ∀ {e r}, e.isLaunch = false → w.Calm (w.record h e r) :=
    fun he => (World.Quiet.record he).calm
  cases hm with
  | quiet hq => exact hc.calm hb hq.calm hc.own (.inl rfl)
  | ignore => exact hc.calm hb (.refl w) trivial (.inr rfl)
  | read hx hf ht hk hid => exact hc.read hb hx hf ht
  | countBlock => exact hc.calm hb .blockTx hc.own (.inl rfl)
  | countSjob => exact hc.calm hb .sjobTx hc.own (.inl rfl)
  | countRawjob => exact hc.calm hb .rawTx hc.own (.inl rfl)
  | accept => exact hc.calm hb (.accept hc.own.2) hc.own.1 (.inl rfl)
  | uncountBlock => exact hc.calm hb .blockTx hc.own.1 (.inl rfl)
  | uncountSjob => exact hc.calm hb .sjobTx hc.own (.inl rfl)
  | uncountRawjob => exact hc.calm hb .rawTx hc.own (.inl rfl)
  | @relaunch x f n cmd r _ hn ht =>
      have hl : w.Launched cmd.task := ht ▸ hc.own
      refine hc.launch hb (congrArg some ht.symm) rfl ?_ (fun _ _ _ => hl)
        (fun _ _ _ _ _ => .inl hl) (hc.tasks _ hl)
      show (f.task, n) ∈ (w.record h (.launch n cmd) r).labels
      rw [World.labels_launch, ← ht]
      exact List.mem_append_right _ (List.mem_singleton_self _)
  | carry => exact hc.carry
  | pass => exact hc.calm hb (.refl w) trivial (.inl rfl)
  | draw hx => exact hc.draw hx
  | insert hbl => exact hc.insert hbl
  | @launch xs t b cmd r _ ht =>
      obtain ⟨-, i, hi⟩ := hc.base.own
      refine hc.launch hb (congrArg some ht.symm) rfl trivial
        (fun q hq hs => absurd hs (hc.base.others trivial q hq))
        (fun x hx g hg hgt => .inr (hc.own.2 x hx g hg (hgt.trans ht))) ?_
      rw [ht]
      exact (List.getElem?_eq_some_iff.mp hi).1
  | check hl => exact hc.calm hb (.refl w) trivial (.inl rfl)
  | list => exact hc.calm hb (.refl w) trivial (.inl rfl)
  | cursor => exact hc.calm hb (.refl w) trivial (.inl rfl)
  | rate => exact hc.calm hb (record rfl) trivial (.inl rfl)
  | sample => exact hc.calm hb .blockTx trivial (.inl rfl)
  | tally => exact hc.calm hb .sjobTx trivial (.inl rfl)
  | skip => exact hc.calm hb .sjobTx trivial (.inl rfl)
  | total => exact hc.calm hb .rawTx trivial (.inl rfl)
  | unknown => exact hc.calm hb (record rfl) trivial (.inl rfl)
  | gone => exact hc.calm hb (.refl w) trivial (.inl rfl)

theorem Counted.retire (hc : Counted w (m₁ ++ (h, s) :: m₂)) :
    Counted w (m₁ ++ m₂) :=
  { hc with
    base := hc.base.retire
    knows := fun q hq => hc.knows q (mem_around.mpr (.inr hq))
    budget := by
      intro t
      have hbud := hc.budget t
      rw [pending_around] at hbud
      omega }

-- ---------------------------------------------------------- starts

theorem pending_append (t : Guid) : pending (m ++ [(h, s)]) t
    = pending m t + if s.task? = some t then 1 else 0 := by
  have hlast : pending (m ++ (h, s) :: []) t = _ := pending_around t
  rwa [List.append_nil] at hlast

/-- A pass starts. -/
theorem Counted.start (hc : Counted w m) (hb : Base w (m ++ [(h, s)]))
    (hk : s.Knows w) (ht : s.task? = none) : Counted w (m ++ [(h, s)]) :=
  { hc with
    base := hb
    knows := by
      intro q hq
      rcases List.mem_append.mp hq with hq | hq
      · exact hc.knows q hq
      · rw [List.mem_singleton.mp hq]
        exact hk
    budget := by
      intro t
      rw [pending_append, ht, if_neg (by simp)]
      exact hc.budget t }

/-- The completions dispatched after one more report. -/
theorem World.card_completed (r : Report) (t : Guid)
    (hnew : r.Completes → r.launch ∉ w.completed r.task) :
    ((w.deliver r).completed t).card = (w.completed t).card
      + if r.phase.task? = some t then 1 else 0 := by
  have hmem : ∀ k, k ∈ (w.deliver r).completed t
      ↔ k ∈ w.completed t ∨ (r.Completes ∧ r.task = t ∧ r.launch = k) := by
    intro k
    rw [World.mem_completed, World.mem_completed]
    simp only [World.deliver, List.mem_append, List.mem_singleton]
    constructor
    · rintro ⟨r', hr' | rfl, hrest⟩
      · exact .inl ⟨r', hr', hrest⟩
      · exact .inr hrest
    · rintro (⟨r', hr', hrest⟩ | hrest)
      · exact ⟨r', .inl hr', hrest⟩
      · exact ⟨r, .inr rfl, hrest⟩
  by_cases hr : r.Completes ∧ r.task = t
  · obtain ⟨hr, rfl⟩ := hr
    have hphase : r.phase.task? = some r.task := by
      rw [Report.phase, if_pos hr]
      rfl
    have hset : (w.deliver r).completed r.task
        = insert r.launch (w.completed r.task) := by
      ext k
      rw [hmem, Finset.mem_insert]
      constructor
      · rintro (hk | ⟨-, -, rfl⟩)
        · exact .inr hk
        · exact .inl rfl
      · rintro (rfl | hk)
        · exact .inr ⟨hr, rfl, rfl⟩
        · exact .inl hk
    rw [hset, Finset.card_insert_of_notMem (hnew hr), if_pos hphase]
  · have hphase : r.phase.task? ≠ some t := by
      unfold Report.phase
      split
      · rename_i hc
        exact fun ht => hr ⟨hc, Option.some.inj ht⟩
      · intro ht
        cases ht
    have hset : (w.deliver r).completed t = w.completed t := by
      ext k
      rw [hmem]
      constructor
      · rintro (hk | ⟨hc, ht, -⟩)
        · exact hk
        · exact absurd ⟨hc, ht⟩ hr
      · exact .inl
    rw [hset, if_neg hphase, Nat.add_zero]

/-- A report is dispatched, a completion for the first time. -/
theorem Counted.dispatch {r : Report} (hc : Counted w m)
    (hb : Base (w.deliver r) (m ++ [(h, r.phase)]))
    (hr : r ∈ w.reports)
    (hnew : r.Completes → r.launch ∉ w.completed r.task) :
    Counted (w.deliver r) (m ++ [(h, r.phase)]) :=
  { hc with
    base := hb
    knows := by
      intro q hq
      rcases List.mem_append.mp hq with hq | hq
      · have hk := hc.knows q hq
        cases hs : q.2 <;> rw [hs] at hk <;> exact hk
      · rw [List.mem_singleton.mp hq]
        show r.phase.Knows _
        unfold Report.phase
        split
        · obtain ⟨b, hk⟩ := hc.reports r hr
          exact ⟨b, List.mem_of_getElem? hk⟩
        · trivial
    budget := by
      intro t
      have hbud := hc.budget t
      have hlab : (w.deliver r).labels = w.labels := rfl
      rw [pending_append, World.card_completed r t hnew, hlab]
      omega
    delivered := by
      intro r' hr'
      rcases List.mem_append.mp hr' with hr' | hr'
      · exact hc.delivered r' hr'
      · rw [List.mem_singleton.mp hr']
        exact hr }

/-- The launcher publishes a report. -/
theorem Counted.publish {r : Report} {b : Oid} (hc : Counted w m)
    (hb : Base (w.publish r) m)
    (hr : w.labels[r.launch]? = some (r.task, b)) :
    Counted (w.publish r) m := by
  have hrep : ∀ {i}, w.Reported i →
      (w.publish r).Reported i :=
    fun hi => hi.mono (List.prefix_refl _)
      fun _ hr' => List.mem_append_left _ hr'
  exact { hc with
    base := hb
    knows := by
      intro q hq
      have hk := hc.knows q hq
      cases hs : q.2 with
      | count x f k l => rw [hs] at hk; exact ⟨hk.1, hrep hk.2⟩
      | verify x f k => rw [hs] at hk; exact ⟨hk.1, hrep hk.2⟩
      | _ => rw [hs] at hk; exact hk
    reports := by
      intro r' hr'
      rcases List.mem_append.mp hr' with hr' | hr'
      · exact hc.reports r' hr'
      · rw [List.mem_singleton.mp hr']
        exact ⟨b, hr⟩
    delivered := fun r' hr' => List.mem_append_left _ (hc.delivered r' hr')
    finished := fun i hi => hrep (hc.finished i hi) }

end step

-- ========================================================== every run

/-- No completion of a launch is dispatched twice. -/
def Rules.once : Rules :=
  { Rules.free with
    dispatch := fun P r => r.Completes → ∀ r' ∈ P.world.delivered,
      r'.Completes → r'.launch ≠ r.launch }

theorem World.Fresh.counted {w : World} (h : w.Fresh) : Counted w [] where
  base := h.base
  knows := by simp
  loads := by
    rintro x hx f hf -
    rw [(h.sjobs x hx).flows] at hf
    cases hf
  tasks := by
    rintro t ⟨b, hb⟩
    rw [World.labels, h.log] at hb
    cases hb
  budget := by
    intro t
    have hpos : positions w.labels t = ∅ := by
      rw [World.labels, h.log]
      rfl
    rw [hpos]
    exact Nat.zero_le _
  reports := by simp [h.reports]
  delivered := by simp [h.delivered]
  finished := by
    rintro i ⟨x, hx, b, hb, -, hst⟩
    rw [((h.sjobs x hx).blocks b hb).1] at hst
    cases hst

theorem server_counted {conf : Conf} {w : World} (hw : w.Fresh)
    {P : ServerPool} (hrun : (server conf .once).Run ⟨w, []⟩ P) :
    ∃ m, Counted P.world m := by
  have hinv := Phases.invariant (M := phases Rules.once.reply)
    (J := Counted) (fun hc q _ => hc.base.tidy)
    (fun hc hm => hc.exec hm) (fun hc _ => hc.retire) ?_ ?_ hrun
    ⟨[], .nil, hw.counted⟩
  · obtain ⟨m, -, hc⟩ := hinv
    exact ⟨m, hc⟩
  · intro P h p w' m hm hc hs
    obtain ⟨hwalk, hfit, hframe, hsch⟩ := hs.walks
    refine ⟨startPhase w' h, ?_, hwalk⟩
    have hb : Base w' (m ++ [(h, startPhase w' h)]) :=
      hc.base.start hframe hfit (fun hs => (hsch hs).1) fun hs => by
        rw [hm.tags]
        exact (hsch hs).2
    cases hs with
    | schedule hno => exact hc.start hb trivial rfl
    | pollRate hno hp => exact hc.start hb trivial rfl
    | @status r hr hd =>
        rw [startPhase_deliver] at hb ⊢
        refine hc.dispatch hb hr fun hcr hmem => ?_
        obtain ⟨r', hr', hcr', -, hl⟩ := World.mem_completed.mp hmem
        exact hd hcr r' hr' hcr' hl
  · intro P w' m hm hc hh
    have hb := hc.base.outside hh.frame
    cases hh with
    | publish hr => exact hc.publish hb hr
    | launcher hl =>
        exact { hc with
          base := hb
          knows := by
            intro q hq
            have hk := hc.knows q hq
            cases hs : q.2 <;> rw [hs] at hk <;> exact hk }

/-- Whatever the order in which handlers and reports interleave, a block
is finished only if the launcher has reported the completion of a launch
of that block, provided no completion is dispatched twice. -/
theorem finished_block_completed {conf : Conf} {w : World} (hw : w.Fresh)
    {P : ServerPool} (hrun : (server conf .once).Run ⟨w, []⟩ P)
    {x : Sjob} (hx : x ∈ P.world.sjobs) {b : Block} (hb : b ∈ x.blocks)
    (hfin : b.state = .finished) : P.world.Reported b.id := by
  obtain ⟨m, hc⟩ := server_counted hw hrun
  exact hc.finished b.id ⟨x, hx, b, hb, rfl, hfin⟩

/-- The completion of the first launch. -/
def firstCompletion : Report := ⟨0, 0, ⟨3, 0⟩⟩

/-- The first of the two blocks is completed, and the second launched. -/
def completedFirst : World :=
  ((launchedFirst.publish firstCompletion).deliver firstCompletion).ran
    (.status 0) (mldStatus (plainConf false) 0 ⟨3, 0⟩)

theorem server_completedFirst (ru : Rules)
    (hru : ru.reply = Rules.free.reply)
    (hd : ru.dispatch ⟨launchedFirst.publish firstCompletion, []⟩
      firstCompletion) :
    (server (plainConf false) ru).Run ⟨twoBlocks, []⟩
      ⟨completedFirst, []⟩ := by
  have hlab : launchedFirst.labels[0]? = some (0, 20) := rfl
  have hpub := (server_launchedFirst hru).tail (.env (.publish
    (r := firstCompletion) hlab))
  exact server_ran hru hpub (.status (r := firstCompletion)
    (List.mem_append_right _ (List.mem_singleton_self _)) hd)

/-- The completion of a block that was transferred. -/
theorem finished_block_completed_first :
    (∃ x ∈ completedFirst.sjobs, ∃ b ∈ x.blocks, b.id = 20
      ∧ b.state = .finished) ∧ completedFirst.Reported 20 := by
  have hblock : ∃ x ∈ completedFirst.sjobs, ∃ b ∈ x.blocks, b.id = 20
      ∧ b.state = .finished :=
    ⟨_, List.mem_cons_self .., _, List.mem_cons_self .., rfl, rfl⟩
  refine ⟨hblock, ?_⟩
  obtain ⟨x, hx, b, hb, hid, hfin⟩ := hblock
  have hrun := server_completedFirst .once rfl
    (fun _ r hr => nomatch hr)
  exact hid ▸ finished_block_completed twoBlocks_fresh hrun hx hb hfin

/-- The same report, dispatched once more. -/
def completedTwice : World :=
  (completedFirst.deliver firstCompletion).ran (.status 1)
    (mldStatus (plainConf false) 0 ⟨3, 0⟩)

/-- A completion that is dispatched twice finishes the block launched in
between, of which nothing was reported. -/
theorem untransferred_block_finished :
    (server (plainConf false) .free).Run ⟨twoBlocks, []⟩
      ⟨completedTwice, []⟩
    ∧ (∃ x ∈ completedTwice.sjobs, ∃ b ∈ x.blocks, b.id = 21
      ∧ b.state = .finished)
    ∧ ¬ completedTwice.Reported 21 := by
  refine ⟨?_, ?_, ?_⟩
  · have hrun := server_completedFirst .free rfl trivial
    exact server_ran rfl hrun (.status (r := firstCompletion)
      (List.mem_singleton_self _) trivial)
  · exact ⟨_, List.mem_cons_self .., _, List.mem_cons_of_mem _
      (List.mem_cons_self ..), rfl, rfl⟩
  · rintro ⟨r, hr, -, hk⟩
    have hreports : completedTwice.reports = [firstCompletion] := rfl
    rw [hreports, List.mem_singleton] at hr
    have hlab : completedTwice.labels[0]? = some (0, 20) := rfl
    rw [hr] at hk
    have := hlab.symm.trans hk
    simp [firstCompletion] at this

end BigDataExpress
