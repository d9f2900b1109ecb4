/-
Reasoning about a handler that works on one sjob.

# Changes

A handler of an sjob `x` reads the document once and then writes to it,
to its rawjob and to the log. `Delta` is what it has written so far, and
`Act x d f d'` says that the store operation `f` takes the changes `d`
to `d'`. The operations that matter to other handlers (the states of the
sjob and of the rawjob, launches, the insertion of a flow) are not among
the acts: each has a rule of its own.

# Trackers

A `Tracker` is an assertion `T d w`, "the world `w` shows the changes
`d`", that every operation of a handler of `x` moves along, under a rely
and inside a guarantee. What the handlers do (`Status.lean`,
`Attempt.lean`) is proved once, over any tracker. Two kinds are used: the exact one of a
handler that runs alone (`Exact.lean`), and shared ones, of handlers
that run beside those of other sjobs.

The side conditions of the rules say what the code takes care of: an
sjob is set finished only when its blocks are, a rawjob is set finished
only after a look at all its sjobs, and set to error only after the
sjob. A tracker may ask in addition (`strict`) that a finished sjob is
left alone.
-/
import BigDataExpress.Proofs.Alike
import BigDataExpress.Server.Atomic

namespace BigDataExpress

open Interact Collection

-- ========================================================== the changes

/-- What a handler has changed so far: the document, the rawjob's state
(if written), the launches it has issued; also what its look at the
sjobs of the rawjob told it, and the token it has drawn. -/
structure Delta where
  doc : Sjob
  raw : Option RawjobState
  launches : List LaunchCmd
  seen : Option Bool
  drawn : Option Guid

/-- No change yet. -/
def Delta.init (x : Sjob) : Delta := ⟨x, none, [], none, none⟩

/-- The rawjob's id and state. -/
def Rawjob.status (r : Rawjob) : Oid × RawjobState := (r.id, r.state)

/-- The sjob a call is labelled with. -/
def Call.job? : Call → Option Oid
  | .sdnReserve job .. => some job
  | .sdnRelease job .. => some job
  | .wanRelease job _ => some job
  | .wanTerminate job _ => some job
  | .wanDelete job _ => job
  | _ => none

/-- A call that launches a transfer. -/
def Call.isLaunch : Call → Bool
  | .launch .. => true
  | _ => false

/-- Two worlds that differ in what is kept for display only. -/
structure World.SameJobs (w w' : World) : Prop where
  sjobs : w'.sjobs = w.sjobs
  rawjobs : w'.rawjobs = w.rawjobs
  blockDocs : w'.blockDocs = w.blockDocs
  sjobevents : w'.sjobevents = w.sjobevents
  guids : w'.guids = w.guids
  hasLauncher : w'.hasLauncher = w.hasLauncher
  log : w'.log = w.log
  reports : w'.reports = w.reports
  delivered : w'.delivered = w.delivered

-- ============================================================= the acts

/-- The store operation `f` takes the changes `d` to the third
argument. -/
inductive Act (x : Sjob) (d : Delta) : (World → World) → Delta → Prop
  | doc {f : Sjob → Sjob} : (∀ y, (f y).key = y.key) →
      (∀ y, (f y).state = y.state) →
      (∀ y z, y.Alike z → (f y).Alike (f z)) →
      Act x d (World.updateSjob (·.id == x.id) f) { d with doc := f d.doc }
  | flow {t : Guid} {g : Flow → Flow} : t ∈ d.doc.tasks →
      (∀ f, (g f).task = f.task) →
      (∀ f f', f.mark = f'.mark → (g f).mark = (g f').mark) →
      Act x d (World.updateFlow t g) { d with doc := d.doc.onFlow t g }
  | block {b : Oid} {g : Block → Block} : b ∈ x.blockIds →
      (∀ k, (g k).id = k.id) →
      (∀ k k', k.mark = k'.mark → (g k).mark = (g k').mark) →
      Act x d (World.updateBlock b g) { d with doc := d.doc.onBlock b g }
  | raw {f : Rawjob → Rawjob} : (∀ r, (f r).id = r.id) →
      (∀ r, (f r).state = r.state) →
      Act x d (World.updateRawjob x.rawjob f) d
  | display {f : World → World} :
      (∀ w : World, w.SameJobs (f w)) → Act x d f d

namespace Act

variable {x : Sjob} {d : Delta} {t : Guid} {b : Oid}

/-- The flow of a task changes its state. -/
theorem flowState (ht : t ∈ d.doc.tasks) (st : FlowState) :
    Act x d (World.updateSjobFlowState t st)
      { d with doc := d.doc.onFlow t (Flow.setState st) } :=
  .flow ht (fun _ => rfl) fun f f' h => by
    simp only [Flow.mark, Prod.mk.injEq] at h ⊢
    exact ⟨h.1, trivial, h.2.2⟩

/-- The flow of a task gets a block. -/
theorem flowBlock (ht : t ∈ d.doc.tasks) (n : Oid) :
    Act x d (World.updateSjobFlowBlock t n)
      { d with doc := d.doc.onFlow t fun f => { f with block := n } } :=
  .flow ht (fun _ => rfl) fun f f' h => by
    simp only [Flow.mark, Prod.mk.injEq] at h ⊢
    exact ⟨h.1, h.2.1, trivial⟩

/-- The flow of a task was active. -/
theorem flowActive (ht : t ∈ d.doc.tasks) (ms : Int) :
    Act x d (World.updateSjobFlowLastActive t ms)
      { d with doc := d.doc.onFlow t fun f => { f with lastActive := ms } } :=
  .flow ht (fun _ => rfl) fun _ _ h => h

/-- The flow of a task counts its bytes. -/
theorem flowTx (ht : t ∈ d.doc.tasks) (v : Int) :
    Act x d (World.incrementSjobFlowField t v)
      { d with doc := d.doc.onFlow t fun f =>
          { f with txBytes := f.txBytes + v } } :=
  .flow ht (fun _ => rfl) fun _ _ h => h

/-- A block of the sjob changes its state. -/
theorem blockState (hb : b ∈ x.blockIds) (st : BlockState) :
    Act x d (World.updateSjobBlockState b st)
      { d with doc := d.doc.onBlock b (Block.setState st) } :=
  .block hb (fun _ => rfl) fun k k' h => by
    simp only [Block.mark, Prod.mk.injEq] at h ⊢
    exact ⟨h.1, trivial, h.2.2⟩

/-- A block of the sjob has its start. -/
theorem blockStart (hb : b ∈ x.blockIds) (ms : Int) :
    Act x d (World.updateSjobBlockStart b ms)
      { d with doc := d.doc.onBlock b fun k => { k with start := ms } } :=
  .block hb (fun _ => rfl) fun _ _ h => h

/-- A block of the sjob has its stop. -/
theorem blockStop (hb : b ∈ x.blockIds) (ms : Int) :
    Act x d (World.updateSjobBlockStop b ms)
      { d with doc := d.doc.onBlock b fun k => { k with stop := ms } } :=
  .block hb (fun _ => rfl) fun _ _ h => h

/-- A block of the sjob counts its bytes. -/
theorem blockTx (hb : b ∈ x.blockIds) (v : Int) :
    Act x d (World.incrementSjobBlockField b v)
      { d with doc := d.doc.onBlock b fun k =>
          { k with txBytes := k.txBytes + v } } :=
  .block hb (fun _ => rfl) fun k k' h => by
    simp only [Block.mark, Prod.mk.injEq] at h ⊢
    exact ⟨h.1, h.2.1, h.2.2.1, by rw [h.2.2.2]⟩

/-- The sjob gets a message, not yet the state. -/
theorem sjobError (msg : String) :
    Act x d (World.updateSjobError x.id msg)
      { d with doc := { d.doc with error := some msg } } :=
  .doc (fun _ => rfl) (fun _ => rfl)
    fun _ _ h => ⟨h.state, rfl, h.flows, h.blocks⟩

/-- The sjob gets a number of flows. -/
theorem maxFlows (n : Int) :
    Act x d (World.updateSjobMaxFlows x.id n)
      { d with doc := { d.doc with maxFlows := n } } :=
  .doc (fun _ => rfl) (fun _ => rfl)
    fun _ _ h => ⟨h.state, h.error, h.flows, h.blocks⟩

/-- The sjob counts its bytes. -/
theorem sjobTx (v : Int) :
    Act x d (World.incrementSjobTxBytes x.id v)
      { d with doc := { d.doc with txBytes := d.doc.txBytes + v } } :=
  .doc (fun _ => rfl) (fun _ => rfl)
    fun _ _ h => ⟨h.state, h.error, h.flows, h.blocks⟩

/-- The sjob counts a retry. -/
theorem retry (v : Int) :
    Act x d (World.incrementTransferRetry x.id v)
      { d with doc := { d.doc with
          transferRetry := d.doc.transferRetry + v } } :=
  .doc (fun _ => rfl) (fun _ => rfl)
    fun _ _ h => ⟨h.state, h.error, h.flows, h.blocks⟩

/-- The message of the rawjob is not tracked. -/
theorem rawError (msg : String) :
    Act x d (World.updateRawjobError x.rawjob msg) d :=
  .raw (fun _ => rfl) fun _ => rfl

/-- Nor are its bytes. -/
theorem rawTx (v : Int) :
    Act x d (World.incrementRawjobField x.rawjob v) d :=
  .raw (fun _ => rfl) fun _ => rfl

/-- Nor are stages. -/
theorem stage (sid : Oid) (s : StageName) (v : SjobStage) :
    Act x d (World.updateSjobStage sid s v) d :=
  .display fun _ => ⟨rfl, rfl, rfl, rfl, rfl, rfl, rfl, rfl, rfl⟩

/-- Nor is what sites have sent. -/
theorem siteTx (id : Oid) (v : Int) : Act x d (World.incrementSiteTx id v) d :=
  .display fun _ => ⟨rfl, rfl, rfl, rfl, rfl, rfl, rfl, rfl, rfl⟩

/-- Nor is what sites have received. -/
theorem siteRx (id : Oid) (v : Int) : Act x d (World.incrementSiteRx id v) d :=
  .display fun _ => ⟨rfl, rfl, rfl, rfl, rfl, rfl, rfl, rfl, rfl⟩

end Act

-- ========================================================= the trackers

/-- An assertion that follows the operations of a handler of `x`. -/
structure Tracker (x : Sjob) where
  E : Env World Call Reply
  R : World → World → Prop
  G : World → World → Prop
  T : Delta → World → Prop
  /-- a finished sjob is left alone -/
  strict : Prop
  /-- what the block documents hold, and whether there is a launcher -/
  files : Oid → BlockFiles
  launcher : Bool
  /-- the verdicts a checksum verification can have, and whether a launch
  can be accepted or refused -/
  verdict : Bool → Prop
  answer : Bool → Prop
  refl : ∀ w, R w w
  like : ∀ {d y w}, d.doc.Alike y → T d w → T { d with doc := y } w
  stable : ∀ {d w w'}, T d w → R w w' → T d w'
  skip : ∀ {d w}, T d w → G w w
  blockFiles : ∀ {d w}, T d w → ∀ b, w.blockFiles b = files b
  hasLauncher : ∀ {d w}, T d w → w.hasLauncher = launcher
  act : ∀ {d f d' w}, Act x d f d' → T d w → G w (f w) ∧ T d' (f w)
  state : ∀ {d s w}, (s = .finished → ∀ b ∈ d.doc.blocks, b.state = .finished) →
    (strict → d.doc.state ≠ .finished) → T d w →
    G w (w.updateSjobState x.id s)
      ∧ T { d with doc := d.doc.setState s } (w.updateSjobState x.id s)
  raw : ∀ {d st w}, (st = .finished → d.seen = some true) →
    (st = .error → d.doc.state = .error) →
    (st = .transferring → strict → d.doc.state ≠ .finished) → T d w →
    G w (w.updateRawjobState x.rawjob st)
      ∧ T { d with raw := some st } (w.updateRawjobState x.rawjob st)
  call : ∀ {d e r w}, e.isLaunch = false → (∀ i ∈ e.job?, i = x.id) →
    E.adm w e r → T d w → G w (E.eff w e r) ∧ T d (E.eff w e r)
  launch : ∀ {d b cmd r w}, cmd.task ∈ d.doc.tasks →
    E.adm w (.launch b cmd) r → T d w → G w (E.eff w (.launch b cmd) r)
      ∧ T { d with launches := d.launches ++ [cmd] }
          (E.eff w (.launch b cmd) r)
  verified : ∀ {w url dtn sums} {r : VerifyAnswer},
    E.adm w (.verifyChecksum url dtn sums) r → verdict r.accepts
  answered : ∀ {w b cmd} {r : LaunchAnswer}, E.adm w (.launch b cmd) r →
    answer r.error.isNone
  look : ∀ {d w}, d.doc.state = .finished → T d w →
    (allFinished x.rawjob).rg E R G
      (fun r w => ∃ b, r = .ok b ∧ T { d with seen := some b } w) w
  draw : ∀ {d w}, T d w → G w (w.drawGuid x.id)
    ∧ T { d with drawn := some w.guids.length } (w.drawGuid x.id)
  insert : ∀ {d f w}, d.drawn = some f.task → T d w →
    G w (w.insertFlow x.id f)
      ∧ T { d with doc := { d.doc with flows := d.doc.flows ++ [f] },
                   drawn := none } (w.insertFlow x.id f)

namespace Tracker

variable {x : Sjob} (tr : Tracker x) {α β : Type}

/-- From the changes `d` the handler `p` runs inside the guarantee, and
ends with changes that satisfy `Q`. -/
def Spec (d : Delta) (p : Handler α) (Q : Except String α → Delta → Prop) :
    Prop :=
  ∀ w, tr.T d w →
    p.rg tr.E tr.R tr.G (fun r w => ∃ d', tr.T d' w ∧ Q r d') w

namespace Spec

variable {tr} {d d' : Delta} {Q : Except String α → Delta → Prop}

/-- A result. -/
theorem pure {a : α} (h : Q (.ok a) d) : tr.Spec d (Pure.pure a) Q :=
  fun _ hw _ hv => ⟨d, tr.stable hw hv, h⟩

/-- An exception. -/
theorem throw {m : String} (h : Q (.error m) d) :
    tr.Spec d (Prog.throw m) Q :=
  fun _ hw _ hv => ⟨d, tr.stable hw hv, h⟩

/-- What is established may be weakened. -/
theorem mono {p : Handler α} {Q' : Except String α → Delta → Prop}
    (hp : tr.Spec d p Q') (h : ∀ r d', Q' r d' → Q r d') : tr.Spec d p Q :=
  fun w hw => Prog.rg_mono (fun r _ ⟨d', hT, hQ⟩ => ⟨d', hT, h r d' hQ⟩)
    (hp w hw)

/-- A sequence, with what its first part establishes. -/
theorem bind {p : Handler α} {g : α → Handler β}
    {M : Except String α → Delta → Prop}
    {Q : Except String β → Delta → Prop} (hp : tr.Spec d p M)
    (hok : ∀ a d', M (.ok a) d' → tr.Spec d' (g a) Q)
    (herr : ∀ m d', M (.error m) d' → Q (.error m) d') :
    tr.Spec d (p >>= g) Q := by
  intro w hw
  refine Prog.rg_bind tr.refl (Prog.rg_mono ?_ (hp w hw))
  rintro (m | a) v ⟨d', hT, hM⟩
  · exact ⟨d', hT, herr m d' hM⟩
  · exact hok a d' hM v hT

/-- A part that ends without an exception, and what follows. -/
theorem seq {p : Handler α} {g : α → Handler β} {P : α → Delta → Prop}
    {Q : Except String β → Delta → Prop}
    (hp : tr.Spec d p fun r d' => ∃ a, r = .ok a ∧ P a d')
    (hk : ∀ a d', P a d' → tr.Spec d' (g a) Q) :
    tr.Spec d (p >>= g) Q := by
  refine bind hp ?_ ?_
  · rintro a d' ⟨a', ha, hP⟩
    cases ha
    exact hk a d' hP
  · rintro m d' ⟨a, ha, -⟩
    cases ha

/-- The document may be replaced by one alike. -/
theorem like {p : Handler α} {y : Sjob} (hy : d.doc.Alike y)
    (hp : tr.Spec { d with doc := y } p Q) : tr.Spec d p Q :=
  fun w hw => hp w (tr.like hy hw)

/-- The last operation of a handler. -/
theorem last {p : Handler α} (h : tr.Spec d (p >>= Pure.pure) Q) :
    tr.Spec d p Q := by
  have hp : p >>= Pure.pure = p := Prog.bind_pure p
  rwa [hp] at h

-- ------------------------------------------------------------ store rules

variable {k : Unit → Handler α} {f : World → World}

/-- One tracked operation, and what follows. -/
theorem act (hf : Act x d f d') (hk : tr.Spec d' (k ()) Q) :
    tr.Spec d (Prog.modify f >>= k) Q := by
  intro w hw v hv
  obtain ⟨hg, hT⟩ := tr.act hf (tr.stable hw hv)
  exact ⟨hg, hk _ hT⟩

/-- A stage set on a condition, and what follows. -/
theorem stageIf {c : Bool} {s : StageName} {v : SjobStage}
    (hk : tr.Spec d (k ()) Q) :
    tr.Spec d (SiteStore.updateSjobStageIf c x.id s v >>= k) Q := by
  cases c with
  | true => exact act (.stage x.id s v) hk
  | false => exact hk

/-- A change of the sjob's state, which finishes it only with all its
blocks. -/
theorem state {s : SjobState}
    (hfin : s = .finished → ∀ b ∈ d.doc.blocks, b.state = .finished)
    (hlive : tr.strict → d.doc.state ≠ .finished)
    (hk : tr.Spec { d with doc := d.doc.setState s } (k ()) Q) :
    tr.Spec d (SiteStore.updateSjobState x.id s >>= k) Q := by
  intro w hw v hv
  obtain ⟨hg, hT⟩ := tr.state hfin hlive (tr.stable hw hv)
  exact ⟨hg, hk _ hT⟩

/-- A change of the rawjob's state, which is finished only if all sjobs were
seen so. -/
theorem raw {st : RawjobState} (hfin : st = .finished → d.seen = some true)
    (herr : st = .error → d.doc.state = .error)
    (hlive : st = .transferring → tr.strict → d.doc.state ≠ .finished)
    (hk : tr.Spec { d with raw := some st } (k ()) Q) :
    tr.Spec d (SiteStore.updateRawjobState x.rawjob st >>= k) Q := by
  intro w hw v hv
  obtain ⟨hg, hT⟩ := tr.raw hfin herr hlive (tr.stable hw hv)
  exact ⟨hg, hk _ hT⟩

/-- A flow is inserted for the task that was drawn. -/
theorem insert {flow : Flow} (hdrawn : d.drawn = some flow.task)
    (hk : tr.Spec { d with
      doc := { d.doc with flows := d.doc.flows ++ [flow] },
      drawn := none } (k ()) Q) :
    tr.Spec d (SiteStore.insertFlow x.id flow >>= k) Q := by
  intro w hw v hv
  obtain ⟨hg, hT⟩ := tr.insert hdrawn (tr.stable hw hv)
  exact ⟨hg, hk _ hT⟩

/-- A task is drawn. -/
theorem draw {k : Guid → Handler α}
    (hk : ∀ t, tr.Spec { d with drawn := some t } (k t) Q) :
    tr.Spec d (SiteStore.guid x.id >>= k) Q := by
  intro w hw v hv
  obtain ⟨hg, hT⟩ := tr.draw (tr.stable hw hv)
  exact ⟨hg, hk _ _ hT⟩

-- ------------------------------------------------------------- read rules

/-- A read whose result the tracker does not know. -/
theorem read {β : Type} {g : World → β} {k : β → Handler α}
    (hk : ∀ b, tr.Spec d (k b) Q) : tr.Spec d (Prog.read g >>= k) Q := by
  intro w hw v hv
  have hT := tr.stable hw hv
  exact ⟨tr.skip hT, hk _ _ hT⟩

/-- The files of a block are read. -/
theorem files {b : Oid} {k : BlockFiles → Handler α}
    (hk : tr.Spec d (k (tr.files b)) Q) :
    tr.Spec d (SiteStore.getBlockFiles b >>= k) Q := by
  intro w hw v hv
  have hT := tr.stable hw hv
  refine ⟨tr.skip hT, ?_⟩
  show (k (v.blockFiles b)).rg _ _ _ _ v
  rw [tr.blockFiles hT]
  exact hk v hT

/-- Whether there is a launcher is read. -/
theorem launcher {k : Bool → Handler α}
    (hk : tr.Spec d (k tr.launcher) Q) :
    tr.Spec d (Prog.read (·.hasLauncher) >>= k) Q := by
  intro w hw v hv
  have hT := tr.stable hw hv
  refine ⟨tr.skip hT, ?_⟩
  show (k v.hasLauncher).rg _ _ _ _ v
  rw [tr.hasLauncher hT]
  exact hk v hT

/-- `rm.launcher()`, with a launcher and without. -/
theorem launcherQueue (hk : tr.launcher = true → tr.Spec d (k ()) Q)
    (hthrow : tr.launcher = false →
      Q (.error "launcher node not registered") d) :
    tr.Spec d (launcherQueue >>= k) Q := by
  have h : tr.Spec d (BigDataExpress.launcherQueue) fun r d' =>
      match r with
      | .ok _ => tr.launcher = true ∧ d' = d
      | .error m => tr.launcher = false ∧ d' = d
          ∧ m = "launcher node not registered" := by
    refine launcher ?_
    split
    · exact pure ⟨‹_›, rfl⟩
    · exact throw ⟨eq_false_of_ne_true ‹_›, rfl, rfl⟩
  refine bind h ?_ ?_
  · rintro ⟨⟩ d' ⟨hl, rfl⟩
    exact hk hl
  · rintro m d' ⟨hl, rfl, rfl⟩
    exact hthrow hl

/-- All sjobs of the rawjob are looked at. -/
theorem look {k : Bool → Handler α} (hfin : d.doc.state = .finished)
    (hk : ∀ b, tr.Spec { d with seen := some b } (k b) Q) :
    tr.Spec d (allFinished x.rawjob >>= k) Q := by
  refine seq (P := fun b d' => d' = { d with seen := some b }) ?_ ?_
  · intro w hw
    refine Prog.rg_mono ?_ (tr.look hfin hw)
    rintro r v ⟨b, rfl, hT⟩
    exact ⟨_, hT, b, rfl, rfl⟩
  · rintro b d' rfl
    exact hk b

-- ------------------------------------------------------------- call rules

/-- A call that launches nothing and is for no other sjob. -/
theorem call {e : Call} {k : Reply e → Handler α}
    (hl : e.isLaunch = false) (hjob : ∀ i ∈ e.job?, i = x.id)
    (hk : ∀ r, tr.Spec d (k r) Q) : tr.Spec d (ask e >>= k) Q := by
  intro w hw v hv r hr
  obtain ⟨hg, hT⟩ := tr.call hl hjob hr (tr.stable hw hv)
  exact ⟨hg, hk r _ hT⟩

/-- A launch for a task of the sjob. -/
theorem launch {b : Oid} {cmd : LaunchCmd} {k : LaunchAnswer → Handler α}
    (ht : cmd.task ∈ d.doc.tasks)
    (hk : ∀ r : LaunchAnswer, tr.answer r.error.isNone →
      tr.Spec { d with launches := d.launches ++ [cmd] } (k r) Q) :
    tr.Spec d (ask (.launch b cmd) >>= k) Q := by
  intro w hw v hv r hr
  obtain ⟨hg, hT⟩ := tr.launch ht hr (tr.stable hw hv)
  exact ⟨hg, hk r (tr.answered hr) _ hT⟩

/-- A verification, with its verdict. -/
theorem verify {url dtn : String} {sums : Checksum}
    {k : VerifyAnswer → Handler α}
    (hk : ∀ r : VerifyAnswer, tr.verdict r.accepts →
      tr.Spec d (k r) Q) :
    tr.Spec d (ask (.verifyChecksum url dtn sums) >>= k) Q := by
  intro w hw v hv r hr
  obtain ⟨hg, hT⟩ := tr.call (e := .verifyChecksum url dtn sums) rfl
    (fun i hi => nomatch hi) hr (tr.stable hw hv)
  exact ⟨hg, hk r (tr.verified hr) _ hT⟩

end Spec

end Tracker

end BigDataExpress
