/-
Quiet operations: those that leave alone what the bytes, the launches
and the finished blocks are told from.

A quiet operation may set the states of jobs and flows, error messages,
times, retry counters and whatever is kept for display, and it may take
a block out of the finished state, but never into it. Most of what the
handlers do is quiet, the whole network handling in particular; the
operations that are not are the moves of `Phase.lean`.
-/
import BigDataExpress.Proofs.NetActs
import BigDataExpress.Server.Dispatch

namespace BigDataExpress

open Interact Collection SiteStore

-- ====================================================== what is kept

/-- The block a flow carries. -/
def Flow.load (f : Flow) : Guid × Oid := (f.task, f.block)

/-- What is counted of a block. -/
def Block.tally (b : Block) : Oid × Int × Int := (b.id, b.size, b.txBytes)

/-- The ids, bytes, loads and tallies of a document. -/
def Sjob.core (x : Sjob) :
    Oid × Oid × Int × List (Guid × Oid) × List (Oid × Int × Int) :=
  (x.id, x.rawjob, x.txBytes, x.flows.map Flow.load,
    x.blocks.map Block.tally)

/-- What the ledger reads of a rawjob: its id and its finished bytes. -/
def Rawjob.core (r : Rawjob) : Oid × Int := (r.id, r.txBytes)

/-- The block `i` of the document is finished. -/
def Sjob.Finished (x : Sjob) (i : Oid) : Prop :=
  ∃ b ∈ x.blocks, b.id = i ∧ b.state = .finished

/-- The block `i` is finished. -/
def World.Finished (w : World) (i : Oid) : Prop :=
  ∃ x ∈ w.sjobs, x.Finished i

/-- Nothing has changed that a quiet operation may not change. -/
structure World.Quiet (w w' : World) : Prop where
  sjobs : w'.sjobs.map Sjob.core = w.sjobs.map Sjob.core
  finished : ∀ i, w'.Finished i → w.Finished i
  rawjobs : w'.rawjobs.map Rawjob.core = w.rawjobs.map Rawjob.core
  guids : w'.guids = w.guids
  hasLauncher : w'.hasLauncher = w.hasLauncher
  labels : w'.labels = w.labels
  reports : w'.reports = w.reports
  delivered : w'.delivered = w.delivered

/-- The operation is quiet in every world. -/
def QuietOp (f : World → World) : Prop := ∀ w : World, w.Quiet (f w)

/-- The handler does nothing but quiet operations and calls. -/
abbrev QuietActs {α : Type} (p : Handler α) : Prop :=
  p.Acts QuietOp fun e => e.isLaunch = false

-- ==================================================== the operations

/-- A world that is left alone is quiet. -/
theorem World.Quiet.refl (w : World) : w.Quiet w :=
  ⟨rfl, fun _ h => h, rfl, rfl, rfl, rfl, rfl, rfl⟩

/-- A call that is no launch. -/
theorem World.Quiet.record {w : World} {h : HandlerId} {e : Call}
    {r : Reply e} (he : e.isLaunch = false) : w.Quiet (w.record h e r) where
  sjobs := rfl
  finished := fun _ h => h
  rawjobs := rfl
  guids := rfl
  hasLauncher := rfl
  labels := by
    have hnone : labelsOf [⟨h, e, r⟩] = [] := by
      cases e <;> first | rfl | cases he
    have happ : labelsOf (w.log ++ [⟨h, e, r⟩])
        = labelsOf w.log ++ labelsOf [⟨h, e, r⟩] := List.filterMap_append
    exact happ.trans (by rw [hnone, List.append_nil]; rfl)
  reports := rfl
  delivered := rfl

namespace QuietOp

/-- An update of sjobs that keeps the core and finishes no block. -/
theorem updateSjob {p : Sjob → Bool} {f : Sjob → Sjob}
    (hcore : ∀ x, (f x).core = x.core)
    (hfin : ∀ x i, (f x).Finished i → x.Finished i) :
    QuietOp (World.updateSjob p f) := by
  intro w
  refine ⟨map_updateOne hcore w.sjobs, ?_, rfl, rfl, rfl, rfl, rfl, rfl⟩
  rintro i ⟨y, hy, hi⟩
  rcases mem_updateOne hy with hy | ⟨x, hx, -, rfl⟩
  · exact ⟨y, hy, hi⟩
  · exact ⟨x, hx, hfin x i hi⟩

/-- An update of sjobs that keeps the bytes and the blocks. -/
theorem doc {p : Sjob → Bool} {f : Sjob → Sjob}
    (hcore : ∀ x, (f x).core = x.core) (hb : ∀ x, (f x).blocks = x.blocks) :
    QuietOp (World.updateSjob p f) := by
  refine updateSjob hcore fun x i hi => ?_
  unfold Sjob.Finished at hi ⊢
  rwa [hb] at hi

/-- A change of flows is quiet if it leaves their loads. -/
theorem flow {t : Guid} {g : Flow → Flow}
    (hg : ∀ f, (g f).load = f.load) : QuietOp (World.updateFlow t g) := by
  refine doc (fun x => ?_) fun _ => rfl
  unfold Sjob.core
  rw [show (x.onFlow t g).flows.map Flow.load = x.flows.map Flow.load
    from map_updateOne hg x.flows]
  rfl

/-- A change of blocks is quiet if it leaves their tallies and finishes
none. -/
theorem block {b : Oid} {g : Block → Block}
    (hg : ∀ k, (g k).tally = k.tally)
    (hst : ∀ k, (g k).state = .finished → k.state = .finished) :
    QuietOp (World.updateBlock b g) := by
  refine updateSjob (fun x => ?_) ?_
  · unfold Sjob.core
    rw [show (x.onBlock b g).blocks.map Block.tally
      = x.blocks.map Block.tally from map_updateOne hg x.blocks]
    rfl
  · rintro x i ⟨k, hk, hid, hfin⟩
    rcases mem_updateOne hk with hk | ⟨k', hk', -, rfl⟩
    · exact ⟨k, hk, hid, hfin⟩
    · have hid' : (g k').id = k'.id := congrArg Prod.fst (hg k')
      exact ⟨k', hk', hid'.symm.trans hid, hst k' hfin⟩

/-- A change of a rawjob is quiet if it leaves its core. -/
theorem rawjob {rid : Oid} {f : Rawjob → Rawjob}
    (hf : ∀ r, (f r).core = r.core) : QuietOp (World.updateRawjob rid f) :=
  fun w => ⟨rfl, fun _ h => h, map_updateOne hf w.rawjobs, rfl, rfl, rfl,
    rfl, rfl⟩

/-- Changing nothing is quiet. -/
theorem id : QuietOp id := World.Quiet.refl

/-- An sjob may change its state. -/
theorem sjobState {sid : Oid} {s : SjobState} :
    QuietOp (World.updateSjobState sid s) := by
  intro w
  have h := doc (p := (·.id == sid)) (f := fun x => { x with state := s })
    (fun _ => rfl) (fun _ => rfl) w
  exact ⟨h.sjobs, h.finished, rfl, rfl, rfl, rfl, rfl, rfl⟩

/-- An sjob may change a stage. -/
theorem stage {sid : Oid} {s : StageName} {v : SjobStage} :
    QuietOp (World.updateSjobStage sid s v) :=
  fun _ => ⟨rfl, fun _ h => h, rfl, rfl, rfl, rfl, rfl, rfl⟩

/-- An sjob may get an error message. -/
theorem sjobError {sid : Oid} {msg : String} :
    QuietOp (World.updateSjobError sid msg) :=
  doc (fun _ => rfl) fun _ => rfl

/-- An sjob may get another number of flows. -/
theorem maxFlows {sid : Oid} {n : Int} :
    QuietOp (World.updateSjobMaxFlows sid n) :=
  doc (fun _ => rfl) fun _ => rfl

/-- An sjob may count a retry. -/
theorem retry {sid : Oid} {n : Int} :
    QuietOp (World.incrementTransferRetry sid n) :=
  doc (fun _ => rfl) fun _ => rfl

/-- A flow may change its state. -/
theorem flowState {t : Guid} {st : FlowState} :
    QuietOp (World.updateSjobFlowState t st) := flow fun _ => rfl

/-- A flow may be seen active. -/
theorem flowActive {t : Guid} {ms : Int} :
    QuietOp (World.updateSjobFlowLastActive t ms) := flow fun _ => rfl

/-- A flow may count its bytes. -/
theorem flowTx {t : Guid} {v : Int} :
    QuietOp (World.incrementSjobFlowField t v) := flow fun _ => rfl

/-- A block may change to a state that is not finished. -/
theorem blockState {b : Oid} {st : BlockState} (h : st ≠ .finished) :
    QuietOp (World.updateSjobBlockState b st) :=
  block (fun _ => rfl) fun _ hst => absurd hst h

/-- A block may get its start. -/
theorem blockStart {b : Oid} {ms : Int} :
    QuietOp (World.updateSjobBlockStart b ms) :=
  block (fun _ => rfl) fun _ h => h

/-- A block may get its stop. -/
theorem blockStop {b : Oid} {ms : Int} :
    QuietOp (World.updateSjobBlockStop b ms) :=
  block (fun _ => rfl) fun _ h => h

/-- A rawjob may change its state. -/
theorem rawState {rid : Oid} {st : RawjobState} :
    QuietOp (World.updateRawjobState rid st) := rawjob fun _ => rfl

/-- A rawjob may get an error message. -/
theorem rawError {rid : Oid} {msg : String} :
    QuietOp (World.updateRawjobError rid msg) := rawjob fun _ => rfl

/-- A site may count bytes sent. -/
theorem siteTx {i : Oid} {v : Int} : QuietOp (World.incrementSiteTx i v) :=
  fun _ => ⟨rfl, fun _ h => h, rfl, rfl, rfl, rfl, rfl, rfl⟩

/-- A site may count bytes received. -/
theorem siteRx {i : Oid} {v : Int} : QuietOp (World.incrementSiteRx i v) :=
  fun _ => ⟨rfl, fun _ h => h, rfl, rfl, rfl, rfl, rfl, rfl⟩

end QuietOp

-- ====================================================== the programs

/-- Network work is quiet. -/
theorem NetActs.quiet {α : Type} {sid : Oid} {p : Handler α}
    (hp : NetActs sid p) : QuietActs p := by
  refine hp.mono (fun f hf => ?_) fun e he => he.1
  cases hf with
  | id => exact .id
  | stage s v => exact .stage
  | state h => exact .sjobState

namespace QuietActs

/-- One quiet operation, and what follows. -/
theorem op {α : Type} {f : World → World} {k : Unit → Handler α}
    (hf : QuietOp f) (hk : QuietActs (k ())) :
    QuietActs (Prog.modify f >>= k) := .bind' (.modify hf) fun _ => hk

/-- A handler that reads is quiet if what follows is. -/
theorem read {α β : Type} {f : World → β} {k : β → Handler α}
    (hk : ∀ b, QuietActs (k b)) : QuietActs (Prog.read f >>= k) :=
  .bind' (.read .id f) hk

/-- A call that launches nothing is quiet if what follows is. -/
theorem call {α : Type} {e : Call} {k : Reply e → Handler α}
    (he : e.isLaunch = false) (hk : ∀ r, QuietActs (k r)) :
    QuietActs (ask e >>= k) := .bind' (.ask he) hk

/-- Failing a job is quiet. -/
theorem jobFail (err : String) (sid rid : Oid) :
    QuietActs (jobFail err sid rid) :=
  op .stage (op .sjobState (op .rawState (op .sjobError
    (.modify .rawError))))

/-- Tearing down and then failing a job is quiet. -/
theorem teardown_jobFail {sid : Oid} {flow : Flow} {err : String}
    {rid : Oid} : QuietActs (teardown sid flow >>= fun _ =>
      BigDataExpress.jobFail err sid rid) :=
  .bind' (NetActs.teardown flow).quiet fun _ => jobFail err sid rid

/-- Cleaning up after a failed schedule is quiet. -/
theorem scheduleCleanUp (rid sid : Oid) (err : String)
    (dtns : Option (Dtn × Dtn)) :
    QuietActs (scheduleCleanUp rid sid err dtns) := by
  refine op .stage ?_
  cases dtns with
  | none =>
      exact op .stage (op .sjobState (op .rawState (op .sjobError
        (.modify .rawError))))
  | some p =>
      exact .bind' (NetActs.teardownPaths p.1 p.2).quiet fun _ =>
        op .sjobState (op .rawState (op .sjobError (.modify .rawError)))

/-- A report that the transfer has started is quiet. -/
theorem statusStarted (x : Sjob) (f : Flow) :
    QuietActs (statusStarted x f) :=
  op .flowState (op .sjobState (op .stage (op .stage
    (call rfl fun _ => .modify .blockStart))))

/-- A report of an error is quiet. -/
theorem statusError (x : Sjob) (f : Flow) (ec : Int) :
    QuietActs (statusError x f ec) :=
  op .stage (op .stage (op .flowState (op (.blockState (by decide))
    teardown_jobFail)))

/-- Verifying the checksums of a block is quiet. -/
theorem verifyChecksums (conf : Conf) (x : Sjob) (f : Flow)
    (files : BlockFiles) : QuietActs (verifyChecksums conf x f files) := by
  unfold BigDataExpress.verifyChecksums
  split
  · exact .pure true
  · split
    · exact .pure true
    · refine op .sjobState (op .stage (read fun _ => call rfl fun r => ?_))
      split
      · exact op .stage (.pure _)
      · exact op .stage (.pure _)

/-- Asking whether all sjobs are finished is quiet. -/
theorem allFinished (rid : Oid) : QuietActs (allFinished rid) := by
  have hread : ∀ ids, QuietActs (readSjobs ids) := by
    intro ids
    induction ids with
    | nil => exact .pure []
    | cons i is ih => exact read fun _ => .bind' ih fun _ => .pure _
  exact .bind' (read fun ids => hread ids) fun _ => .pure _

/-- What is done after the last report of a flow is quiet. -/
theorem flowDone (conf : Conf) (x : Sjob) (f : Flow) (fin : Bool) :
    QuietActs (flowDone conf x f fin) := by
  have hif : QuietActs (updateSjobStageIf fin x.id .transferGeneral
      .success) := by
    cases fin with
    | true => exact .modify .stage
    | false => exact .pure ()
  refine op .flowState (.bind' hif fun _ =>
    .bind' (NetActs.teardown f).quiet fun _ => ?_)
  split
  · refine op .sjobState (.bind' (allFinished _) fun b => ?_)
    split
    · exact .modify .rawState
    · exact .pure ()
  · split
    · exact .modify .maxFlows
    · exact .pure ()

/-- What is done after a failed flow is quiet. -/
theorem flowFailed (rid sid : Oid) (err : String) :
    QuietActs (flowFailed rid sid err) :=
  op .sjobState (op .sjobError (op .rawState (.modify .rawError)))

/-- What is done about an unknown task is quiet. -/
theorem unknownTask (rid : Oid) (x : Sjob) (f : Flow) :
    QuietActs (unknownTask rid x f) :=
  .bind' (NetActs.teardownSdnPath ..).quiet fun _ =>
    .bind' (NetActs.teardownWanPath ..).quiet fun _ =>
      op .flowState (op (.blockState (by decide)) (flowFailed ..))

/-- The check for activity is quiet. -/
theorem checkActivity (conf : Conf) (rid : Oid) (x : Sjob) (f : Flow)
    (v now : Int) : QuietActs (checkActivity conf rid x f v now) := by
  unfold BigDataExpress.checkActivity
  split
  · exact .modify .flowActive
  · split
    · exact op .flowState (op (.blockState (by decide))
        (.bind' (NetActs.teardownSdnPath ..).quiet fun _ =>
          .bind' (NetActs.teardownWanPath ..).quiet fun _ =>
            flowFailed ..))
    · exact .pure ()

end QuietActs

end BigDataExpress
