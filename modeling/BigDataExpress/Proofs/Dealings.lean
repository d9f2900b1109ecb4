/-
What handlers deal with: verdicts on checksums, and launches.

Both are read off the log with their answers (`dealings`). Most of what
a handler does is steady: it adds nothing there, counts no refusal,
finishes no block. `World.Dealt` is what is known in the middle of a
handler that runs alone, and its rules take a handler apart from the
front, whatever it is answered. A run with its turns (`Server.Turns`)
says what was dealt with by which event.
-/
import BigDataExpress.Proofs.Atomic
import BigDataExpress.Proofs.Quiet

namespace BigDataExpress

open Interact Collection SiteStore

-- ========================================================== the dealings

/-- A verdict on checksums, or the launch of a block and whether it was
accepted. -/
inductive Dealing
  | verdict (ok : Bool)
  | launch (block : Oid) (ok : Bool)
deriving DecidableEq

/-- A launch, as against a verdict on one. -/
def Dealing.isLaunch : Dealing → Bool
  | .launch .. => true
  | .verdict _ => false

/-- What a call and its answer are. -/
def dealing : (e : Call) → Reply e → List Dealing
  | .verifyChecksum .., (r : VerifyAnswer) => [.verdict r.accepts]
  | .launch b _, (r : LaunchAnswer) => [.launch b r.error.isNone]
  | _, _ => []

/-- All launches and verdicts of a world, in the order of its log. -/
def World.dealings (w : World) : List Dealing :=
  w.log.flatMap fun e => dealing e.call e.reply

/-- A recorded call adds what it deals out. -/
theorem World.dealings_record (w : World) (h : HandlerId) (e : Call)
    (r : Reply e) :
    (w.record h e r).dealings = w.dealings ++ dealing e r := by
  unfold World.dealings World.record
  rw [List.flatMap_append, List.flatMap_singleton]

/-- The refusals each document counts. -/
def World.retries (w : World) : List (Oid × Int) :=
  w.sjobs.map fun x => (x.id, x.transferRetry)

-- ====================================================== steady handlers

/-- The block is in transfer, or a flow is being set up for it. -/
def Sjob.Busy (x : Sjob) (b : Oid) : Prop :=
  (∃ k ∈ x.blocks, k.id = b ∧ k.state = .transferring)
    ∨ ∃ f ∈ x.flows, f.block = b ∧ f.state = .setting

instance (x : Sjob) (b : Oid) : Decidable (x.Busy b) :=
  inferInstanceAs (Decidable (_ ∨ _))

/-- Some sjob has the block in transfer, or a flow being set up for it. -/
def World.Busy (w : World) (b : Oid) : Prop := ∃ x ∈ w.sjobs, x.Busy b

instance (w : World) (b : Oid) : Decidable (w.Busy b) :=
  inferInstanceAs (Decidable (∃ x ∈ w.sjobs, x.Busy b))

/-- An update of a block that does not put it in transfer. -/
theorem Sjob.Busy.of_onBlock {x : Sjob} {b c : Oid} {g : Block → Block}
    (h : (x.onBlock b g).Busy c) (hid : ∀ k, (g k).id = k.id)
    (hst : ∀ k, (g k).state = .transferring → k.state = .transferring) :
    x.Busy c := by
  refine h.imp_left fun hk => ?_
  obtain ⟨k, hk, hkc, hkst⟩ := hk
  rcases mem_updateOne hk with hk | ⟨k', hk', -, rfl⟩
  · exact ⟨k, hk, hkc, hkst⟩
  · exact ⟨k', hk', (hid k').symm.trans hkc, hst k' hkst⟩

/-- An update of a flow that does not set it up. -/
theorem Sjob.Busy.of_onFlow {x : Sjob} {t : Guid} {c : Oid}
    {g : Flow → Flow} (h : (x.onFlow t g).Busy c)
    (hg : ∀ f, (g f).state = .setting →
      f.state = .setting ∧ (g f).block = f.block) : x.Busy c := by
  refine h.imp_right fun hf => ?_
  obtain ⟨f, hf, hfc, hst⟩ := hf
  rcases mem_updateOne hf with hf | ⟨f', hf', -, rfl⟩
  · exact ⟨f, hf, hfc, hst⟩
  · obtain ⟨hst', hblk⟩ := hg f' hst
    exact ⟨f', hf', hblk.symm.trans hfc, hst'⟩

/-- The dealings `l` were made; nothing was counted or finished, and no
block has become busy that is not launched in them. -/
structure World.Dealt (w : World) (l : List Dealing) (w' : World) :
    Prop where
  dealings : w'.dealings = w.dealings ++ l
  retries : w'.retries = w.retries
  finished : ∀ i, w'.Finished i → w.Finished i
  busy : ∀ b, w'.Busy b → w.Busy b ∨ ∃ ok, .launch b ok ∈ l
  rawjobs : w'.rawjobs.map (·.id) = w.rawjobs.map (·.id)
  launcher : w'.hasLauncher = w.hasLauncher

/-- Not even dealings. -/
abbrev World.Steady (w w' : World) : Prop := w.Dealt [] w'

/-- What becomes of documents that stay as they are. -/
theorem World.Dealt.same {w w' : World} {l : List Dealing}
    (hd : w'.dealings = w.dealings ++ l) (hs : w'.sjobs = w.sjobs)
    (hr : w'.rawjobs.map (·.id) = w.rawjobs.map (·.id))
    (hl : w'.hasLauncher = w.hasLauncher) : w.Dealt l w' := by
  refine ⟨hd, ?_, ?_, ?_, hr, hl⟩
  · unfold World.retries
    rw [hs]
  · intro i hi
    unfold World.Finished at hi ⊢
    rwa [hs] at hi
  · intro b hb
    unfold World.Busy at hb ⊢
    rw [hs] at hb
    exact .inl hb

/-- A world that is left alone is steady. -/
theorem World.Dealt.refl (w : World) : w.Steady w :=
  .same (List.append_nil _).symm rfl rfl rfl

/-- What is dealt out in a row adds up. -/
theorem World.Dealt.trans {w w' w'' : World} {l l' : List Dealing}
    (h : w.Dealt l w') (h' : w'.Dealt l' w'') : w.Dealt (l ++ l') w'' where
  dealings := by rw [h'.dealings, h.dealings, List.append_assoc]
  retries := h'.retries.trans h.retries
  finished i hi := h.finished i (h'.finished i hi)
  busy b hb := by
    rcases h'.busy b hb with hb | ⟨ok, hok⟩
    · rcases h.busy b hb with hb | ⟨ok, hok⟩
      · exact .inl hb
      · exact .inr ⟨ok, List.mem_append_left _ hok⟩
    · exact .inr ⟨ok, List.mem_append_right _ hok⟩
  rawjobs := h'.rawjobs.trans h.rawjobs
  launcher := h'.launcher.trans h.launcher

/-- Something steady came after. -/
theorem World.Dealt.steady {w w' w'' : World} {l : List Dealing}
    (h : w.Dealt l w') (h' : w'.Steady w'') : w.Dealt l w'' := by
  have := h.trans h'
  rwa [List.append_nil] at this

/-- A call and its answer. -/
theorem World.Dealt.record (w : World) (h : HandlerId) (e : Call)
    (r : Reply e) : w.Dealt (dealing e r) (w.record h e r) :=
  .same (w.dealings_record h e r) rfl rfl rfl

/-- The operation keeps all that. -/
def SteadyOp (f : World → World) : Prop := ∀ w : World, w.Steady (f w)

/-- What the updated documents have, the documents had. -/
theorem World.updateSjob_back {P : Sjob → Prop} {p : Sjob → Bool}
    {f : Sjob → Sjob} (hf : ∀ x, P (f x) → P x) (w : World)
    (h : ∃ y ∈ (w.updateSjob p f).sjobs, P y) : ∃ x ∈ w.sjobs, P x := by
  obtain ⟨y, hy, hP⟩ := h
  rcases mem_updateOne hy with hy | ⟨x, hx, -, rfl⟩
  · exact ⟨y, hy, hP⟩
  · exact ⟨x, hx, hf x hP⟩

namespace SteadyOp

/-- Changing nothing is steady. -/
theorem id : SteadyOp id := World.Dealt.refl

/-- An update of a document that keeps its count, finishes no block and
makes none busy. -/
theorem updateSjob {p : Sjob → Bool} {f : Sjob → Sjob}
    (hf : ∀ x, ((f x).id, (f x).transferRetry) = (x.id, x.transferRetry))
    (hfin : ∀ x i, (f x).Finished i → x.Finished i)
    (hbusy : ∀ x b, (f x).Busy b → x.Busy b) :
    SteadyOp (World.updateSjob p f) := by
  intro w
  exact ⟨(List.append_nil _).symm, map_updateOne hf w.sjobs,
    fun i => w.updateSjob_back fun x => hfin x i,
    fun b hb => .inl (w.updateSjob_back (fun x => hbusy x b) hb), rfl, rfl⟩

/-- An update outside the blocks and flows. -/
theorem doc {p : Sjob → Bool} {f : Sjob → Sjob}
    (hf : ∀ x, ((f x).id, (f x).transferRetry) = (x.id, x.transferRetry))
    (hparts : ∀ x, ((f x).blocks, (f x).flows) = (x.blocks, x.flows)) :
    SteadyOp (World.updateSjob p f) := by
  refine updateSjob hf (fun x i hi => ?_) fun x b hb => ?_
  · have h : (f x).blocks = x.blocks := congrArg Prod.fst (hparts x)
    unfold Sjob.Finished at hi ⊢
    rwa [h] at hi
  · obtain ⟨h, h'⟩ := Prod.mk.inj (hparts x)
    unfold Sjob.Busy at hb ⊢
    rwa [h, h'] at hb

/-- An update of a block that keeps its state, or sets one in which it is
neither finished nor busy. -/
theorem block {b : Oid} {g : Block → Block} (hid : ∀ k, (g k).id = k.id)
    (hst : ∀ k, (g k).state = k.state
      ∨ (g k).state ≠ .finished ∧ (g k).state ≠ .transferring) :
    SteadyOp (World.updateBlock b g) := by
  refine updateSjob (fun x => rfl) (fun x i hi => ?_) fun x c hc => ?_
  · obtain ⟨k, hk, hki, hks⟩ := hi
    rcases mem_updateOne hk with hk | ⟨k', hk', -, rfl⟩
    · exact ⟨k, hk, hki, hks⟩
    · refine ⟨k', hk', (hid k').symm.trans hki, ?_⟩
      rcases hst k' with hsame | ⟨hfin, -⟩
      · exact hsame.symm.trans hks
      · exact absurd hks hfin
  · refine hc.of_onBlock hid fun k hk => ?_
    rcases hst k with hsame | ⟨-, htr⟩
    · exact hsame.symm.trans hk
    · exact absurd hk htr

/-- An update of a flow that does not set it up. -/
theorem flow {t : Guid} {g : Flow → Flow}
    (hg : ∀ f, (g f).state = .setting →
      f.state = .setting ∧ (g f).block = f.block) :
    SteadyOp (World.updateFlow t g) := by
  exact updateSjob (fun x => rfl) (fun x i hi => hi) fun x c hc =>
    hc.of_onFlow hg

/-- A change of a rawjob is steady if it leaves the id. -/
theorem raw {rid : Oid} {f : Rawjob → Rawjob} (hf : ∀ r, (f r).id = r.id) :
    SteadyOp (World.updateRawjob rid f) :=
  fun w => .same (List.append_nil _).symm rfl
    (map_updateOne hf w.rawjobs) rfl

/-- An sjob may change a stage. -/
theorem stage {sid : Oid} {s : StageName} {v : SjobStage} :
    SteadyOp (World.updateSjobStage sid s v) :=
  fun _ => .same (List.append_nil _).symm rfl rfl rfl

/-- An sjob may change its state. -/
theorem sjobState {sid : Oid} {s : SjobState} :
    SteadyOp (World.updateSjobState sid s) := by
  intro w
  have h : SteadyOp (World.updateSjob (·.id == sid)
      fun x => { x with state := s }) := doc (fun _ => rfl) fun _ => rfl
  exact ⟨(h w).dealings, (h w).retries, (h w).finished, (h w).busy,
    (h w).rawjobs, (h w).launcher⟩

/-- An sjob may get an error message. -/
theorem sjobError {sid : Oid} {msg : String} :
    SteadyOp (World.updateSjobError sid msg) :=
  doc (fun _ => rfl) fun _ => rfl

/-- An sjob may get another number of flows. -/
theorem maxFlows {sid : Oid} {n : Int} :
    SteadyOp (World.updateSjobMaxFlows sid n) :=
  doc (fun _ => rfl) fun _ => rfl

/-- An sjob may count its bytes. -/
theorem sjobTx {sid : Oid} {v : Int} :
    SteadyOp (World.incrementSjobTxBytes sid v) :=
  doc (fun _ => rfl) fun _ => rfl

/-- A flow may change its state, if it is not set up anew. -/
theorem flowState {t : Guid} {st : FlowState} (h : st ≠ .setting) :
    SteadyOp (World.updateSjobFlowState t st) :=
  flow fun _ hst => absurd hst h

/-- A flow may be seen active. -/
theorem flowActive {t : Guid} {ms : Int} :
    SteadyOp (World.updateSjobFlowLastActive t ms) :=
  flow fun _ hst => ⟨hst, rfl⟩

/-- A flow may count its bytes. -/
theorem flowTx {t : Guid} {v : Int} :
    SteadyOp (World.incrementSjobFlowField t v) :=
  flow fun _ hst => ⟨hst, rfl⟩

/-- A block may change its state, if it neither starts nor finishes. -/
theorem blockState {b : Oid} {st : BlockState}
    (h : st ≠ .finished ∧ st ≠ .transferring) :
    SteadyOp (World.updateSjobBlockState b st) :=
  block (fun _ => rfl) fun _ => .inr h

/-- A block may get its start. -/
theorem blockStart {b : Oid} {ms : Int} :
    SteadyOp (World.updateSjobBlockStart b ms) :=
  block (fun _ => rfl) fun _ => .inl rfl

/-- A block may get its stop. -/
theorem blockStop {b : Oid} {ms : Int} :
    SteadyOp (World.updateSjobBlockStop b ms) :=
  block (fun _ => rfl) fun _ => .inl rfl

/-- A block may count its bytes. -/
theorem blockTx {b : Oid} {v : Int} :
    SteadyOp (World.incrementSjobBlockField b v) :=
  block (fun _ => rfl) fun _ => .inl rfl

/-- A rawjob may change its state. -/
theorem rawState {rid : Oid} {st : RawjobState} :
    SteadyOp (World.updateRawjobState rid st) := raw fun _ => rfl

/-- A rawjob may get an error message. -/
theorem rawError {rid : Oid} {msg : String} :
    SteadyOp (World.updateRawjobError rid msg) := raw fun _ => rfl

/-- A rawjob may count its bytes. -/
theorem rawTx {rid : Oid} {v : Int} :
    SteadyOp (World.incrementRawjobField rid v) := raw fun _ => rfl

/-- A site may count bytes sent. -/
theorem siteTx {i : Oid} {v : Int} : SteadyOp (World.incrementSiteTx i v) :=
  fun _ => .same (List.append_nil _).symm rfl rfl rfl

/-- A site may count bytes received. -/
theorem siteRx {i : Oid} {v : Int} : SteadyOp (World.incrementSiteRx i v) :=
  fun _ => .same (List.append_nil _).symm rfl rfl rfl

end SteadyOp

/-- The handler deals with nothing, counts nothing and finishes
nothing. -/
abbrev SteadyActs {α : Type} (p : Handler α) : Prop :=
  p.Acts SteadyOp fun e => ∀ r, dealing e r = []

namespace SteadyActs

variable {sid rid : Oid}

/-- Setting a stage on a condition is steady. -/
theorem stageIf {c : Bool} {s : StageName} {v : SjobStage} :
    SteadyActs (updateSjobStageIf c sid s v) := by
  cases c with
  | true => exact .op .stage (.pure ())
  | false => exact .pure ()

/-- Failing a job is steady. -/
theorem jobFail (err : String) : SteadyActs (jobFail err sid rid) :=
  .op .stage (.op .sjobState (.op .rawState
    (.op .sjobError (.op .rawError (.pure ())))))

/-- Asking again and again is steady if the call deals out nothing. -/
theorem attempts {e : Call} {ok : Reply e → Bool}
    (he : ∀ r, dealing e r = []) (n : Nat) :
    SteadyActs (WAN.attempts e ok n) := by
  induction n with
  | zero => exact .pure false
  | succ n ih =>
      refine .call he fun r => ?_
      split
      · exact .pure true
      · exact ih

/-- Tearing down a WAN path is steady. -/
theorem teardownWanPath (uuid : String) :
    SteadyActs (teardownWanPath sid uuid) := by
  unfold BigDataExpress.teardownWanPath
  split
  · exact .pure 0
  · refine .op .sjobState (.op .stage
      (.bind' (attempts (fun _ => rfl) _) fun r => ?_))
    split
    · exact .op .stage (.pure _)
    · refine .bind' (attempts (fun _ => rfl) _) fun t => ?_
      split
      · exact .op .stage (.pure _)
      · refine .bind' (attempts (fun _ => rfl) _) fun d => ?_
        split
        · exact .op .stage (.pure _)
        · exact .op .stage (.pure _)

/-- Releasing one end of the SDN path is steady. -/
theorem releasePath (dtn peer : Dtn) (tear : StageName) :
    SteadyActs (releasePath sid dtn peer tear) := by
  unfold BigDataExpress.releasePath
  split
  · exact .bind' stageIf fun _ => .call (fun _ => rfl) fun _ => stageIf
  · exact .pure ()

/-- Tearing down after a flow is steady. -/
theorem teardown (f : Flow) : SteadyActs (teardown sid f) := by
  refine .op .stage (.bind' ?_ fun _ => .bind' (teardownWanPath _)
    fun _ => .op .stage (.pure ()))
  exact .op .sjobState (.bind' (releasePath ..) fun _ =>
    .bind' (releasePath ..) fun _ => .pure 0)

/-- A report that the transfer has started is steady. -/
theorem statusStarted (x : Sjob) (f : Flow) :
    SteadyActs (statusStarted x f) :=
  .op (.flowState (by decide)) (.op .sjobState (.op .stage
    (.op .stage (.call (fun _ => rfl) fun _ =>
      .op .blockStart (.pure ())))))

/-- A report of an error is steady. -/
theorem statusError (x : Sjob) (f : Flow) (ec : Int) :
    SteadyActs (statusError x f ec) :=
  .op .stage (.op .stage (.op (.flowState (by decide))
    (.op (.blockState (by decide)) (.bind' (teardown f)
      fun _ => jobFail _))))

/-- Counting a finished block is steady. -/
theorem countFinished (x : Sjob) (f : Flow) :
    SteadyActs (countFinished x f) := by
  unfold BigDataExpress.countFinished
  split
  · exact .pure ()
  · exact .call (fun _ => rfl) fun _ => .op .blockTx (.op .flowTx
      (.op .sjobTx (.op .rawTx (.op .siteTx
        (.op .siteRx (.pure ()))))))

/-- Taking back what a failed block had counted is steady. -/
theorem retrogress (x : Sjob) (f : Flow) : SteadyActs (retrogress x f) := by
  unfold BigDataExpress.retrogress
  split
  · exact .pure ()
  · exact .op .blockTx (.op .flowTx (.op .sjobTx
      (.op .rawTx (.pure ()))))

/-- Asking whether all sjobs are finished is steady. -/
theorem allFinished (rid : Oid) : SteadyActs (allFinished rid) := by
  have hread : ∀ ids, SteadyActs (readSjobs ids) := by
    intro ids
    induction ids with
    | nil => exact .pure []
    | cons i is ih => exact .look .id fun _ => .bind' ih fun _ => .pure _
  exact .bind' (.look .id fun ids => hread ids) fun _ => .pure _

/-- What is done after the last report of a flow is steady. -/
theorem flowDone (conf : Conf) (x : Sjob) (f : Flow) (fin : Bool) :
    SteadyActs (flowDone conf x f fin) := by
  refine .op (.flowState (by decide)) (.bind' stageIf fun _ =>
    .bind' (teardown f) fun _ => ?_)
  split
  · refine .op .sjobState (.bind' (allFinished _) fun b => ?_)
    split
    · exact .op .rawState (.pure ())
    · exact .pure ()
  · split
    · exact .op .maxFlows (.pure ())
    · exact .pure ()

end SteadyActs

-- ============================================== handlers from the front

section front

variable {conf : Conf} {a : Answers} {h : HandlerId} {α β : Type}

variable {w₀ w : World} {l : List Dealing} {Q : Except String α → World → Prop}

/-- A steady operation, and what follows. -/
theorem World.Dealt.op {f : World → World} {k : Unit → Handler α}
    (hw : w₀.Dealt l w) (hf : SteadyOp f)
    (hk : ∀ w', w₀.Dealt l w' → Prog.wp (a.env h) Q (k ()) w') :
    Prog.wp (a.env h) Q (Prog.modify f >>= k) w :=
  Prog.wp_modify_bind.mpr (hk _ (hw.steady (hf w)))

/-- A call, and what follows. -/
theorem World.Dealt.call {e : Call} {k : Reply e → Handler α}
    (hw : w₀.Dealt l w)
    (hk : ∀ r w', w₀.Dealt (l ++ dealing e r) w' →
      Prog.wp (a.env h) Q (k r) w') :
    Prog.wp (a.env h) Q (ask e >>= k) w :=
  Prog.wp_call.mpr fun r _ => hk r _ (hw.trans (.record w h e r))

/-- A read, and what follows. -/
theorem World.Dealt.read {f : World → β} {k : β → Handler α}
    (hw : w₀.Dealt l w)
    (hk : ∀ b, w₀.Dealt l w → Prog.wp (a.env h) Q (k b) w) :
    Prog.wp (a.env h) Q (Prog.read f >>= k) w :=
  Prog.wp_act.mpr (hk (f w) hw)

/-- A steady handler to its end. -/
theorem World.Dealt.ends {p : Handler β} (hw : w₀.Dealt l w)
    (hp : SteadyActs p) :
    Prog.wp (a.env h) (fun r w' => (∃ b, r = .ok b) ∧ w₀.Dealt l w') p w := by
  refine Prog.wp_of_acts (fun f hf w' hw' => hw'.steady (hf w')) ?_ hp hw
  intro e he w' r hw' _
  have hrec := World.Dealt.record w' h e r
  rw [he r] at hrec
  exact hw'.steady hrec

/-- A steady part of a handler, and what follows. -/
theorem World.Dealt.acts {p : Handler β} {k : β → Handler α}
    (hw : w₀.Dealt l w) (hp : SteadyActs p)
    (hk : ∀ b w', w₀.Dealt l w' → Prog.wp (a.env h) Q (k b) w') :
    Prog.wp (a.env h) Q (p >>= k) w := by
  rw [Prog.wp_bind']
  refine Prog.wp_mono ?_ (hw.ends hp)
  intro r w' hw'
  obtain ⟨⟨b, rfl⟩, hw'⟩ := hw'
  exact hk b w' hw'

/-- The checksums are looked at, or there are none. -/
theorem World.Dealt.verify {k : Bool → Handler α} (hw : w₀.Dealt [] w)
    (x : Sjob) (f : Flow) (files : BlockFiles)
    (hk : ∀ ok l w', w₀.Dealt l w' →
      l = [.verdict ok] ∨ ok = true ∧ l = [] →
      Prog.wp (a.env h) Q (k ok) w') :
    Prog.wp (a.env h) Q (verifyChecksums conf x f files >>= k) w := by
  unfold verifyChecksums
  rw [Prog.wp_bind']
  split
  · exact Prog.wp_pure'.mpr (hk true [] w hw (.inr ⟨rfl, rfl⟩))
  · split
    · exact Prog.wp_pure'.mpr (hk true [] w hw (.inr ⟨rfl, rfl⟩))
    · refine hw.op .sjobState fun w₁ h₁ => h₁.op .stage fun w₂ h₂ =>
        h₂.read fun site h₂ => h₂.call fun (r : VerifyAnswer) w₃ h₃ => ?_
      have h₃ : w₀.Dealt [.verdict r.accepts] w₃ := h₃
      by_cases hr : r.http ≠ 200 ∨ r.code ≠ some 0
      · have hacc : r.accepts = false := by
          unfold VerifyAnswer.accepts
          rcases hr with hr | hr
          · simp [hr]
          · simp [hr]
        rw [hacc] at h₃
        rw [if_pos hr]
        exact h₃.op .stage fun w₄ h₄ =>
          Prog.wp_pure'.mpr (hk false _ w₄ h₄ (.inl rfl))
      · have hacc : r.accepts = true := by
          rw [not_or, not_not, not_not] at hr
          unfold VerifyAnswer.accepts
          rw [hr.1, hr.2]
          rfl
        rw [hacc] at h₃
        rw [if_neg hr]
        exact h₃.op .stage fun w₄ h₄ =>
          Prog.wp_pure'.mpr (hk true _ w₄ h₄ (.inl rfl))

/-- The sjob and its rawjob have failed. -/
def World.JobFailed (w : World) (x : Sjob) : Prop :=
  (∃ y ∈ w.sjobs, y.id = x.id ∧ y.state = .error)
    ∧ ∃ r ∈ w.rawjobs, r.id = x.rawjob ∧ r.state = .error

/-- The ids stay as they are. -/
theorem World.Dealt.ids {w' : World} (h : w.Dealt l w') :
    w'.sjobs.map (·.id) = w.sjobs.map (·.id) := by
  have hids := congrArg (List.map Prod.fst) h.retries
  unfold World.retries at hids
  rwa [List.map_map, List.map_map] at hids

/-- The documents of an sjob and its rawjob are in the store, and no
others have their ids. -/
structure World.Owns (w : World) (x : Sjob) : Prop where
  ids : (w.sjobs.map (·.id)).Nodup
  rawjobs : (w.rawjobs.map (·.id)).Nodup
  sjob : x.id ∈ w.sjobs.map (·.id)
  rawjob : x.rawjob ∈ w.rawjobs.map (·.id)

/-- In a well-formed world every sjob owns its documents. -/
theorem World.WF.owns (hwf : w.WF) {x : Sjob} (hx : x ∈ w.sjobs) :
    w.Owns x :=
  ⟨hwf.ids, hwf.rawjobs, List.mem_map_of_mem hx, hwf.owned x hx⟩

/-- Which documents an sjob owns is a matter of the ids alone. -/
theorem World.Owns.congr {w' : World} {x : Sjob} (h : w.Owns x)
    (hs : w'.sjobs.map (·.id) = w.sjobs.map (·.id))
    (hr : w'.rawjobs.map (·.id) = w.rawjobs.map (·.id)) : w'.Owns x := by
  refine ⟨?_, ?_, ?_, ?_⟩
  · rw [hs]
    exact h.ids
  · rw [hr]
    exact h.rawjobs
  · rw [hs]
    exact h.sjob
  · rw [hr]
    exact h.rawjob

/-- An sjob owns what it owned. -/
theorem World.Dealt.owns {w' : World} {x : Sjob} (h : w.Dealt l w')
    (hx : w.Owns x) : w'.Owns x := hx.congr h.ids h.rawjobs

/-- The documents fail together. -/
theorem jobFail_failed {err : String} (x : Sjob)
    (hx : w.Owns x) :
    Prog.wp (a.env h) (fun _ w' => w.Steady w' ∧ w'.JobFailed x)
      (jobFail err x.id x.rawjob) w := by
  refine Prog.wp_modify_bind.mpr (Prog.wp_modify_bind.mpr
    (Prog.wp_modify_bind.mpr (Prog.wp_modify_bind.mpr
      (Prog.wp_modify.mpr ?_))))
  have hends : Prog.wp (a.env h) (fun r w' => (∃ b, r = .ok b) ∧ w.Steady w')
      (jobFail err x.id x.rawjob) w :=
    (World.Dealt.refl w).ends (.jobFail err)
  obtain ⟨-, hsteady⟩ := Prog.wp_modify.mp (Prog.wp_modify_bind.mp
    (Prog.wp_modify_bind.mp (Prog.wp_modify_bind.mp
      (Prog.wp_modify_bind.mp hends))))
  refine ⟨hsteady, ?_, ?_⟩
  · have hmem := (hsteady.owns hx).sjob
    obtain ⟨y, hy, hid⟩ := List.mem_map.mp hmem
    -- the message was written over the state
    obtain ⟨z, -, hyz⟩ := mem_updateOne_twice Sjob.id hx.ids hy hid
      fun _ => rfl
    exact ⟨y, hy, hid, by rw [hyz]⟩
  · have hmem := (hsteady.owns hx).rawjob
    obtain ⟨r, hr', hid⟩ := List.mem_map.mp hmem
    obtain ⟨z, -, hrz⟩ := mem_updateOne_twice Rawjob.id hx.rawjobs hr' hid
      fun _ => rfl
    exact ⟨r, hr', hid, by rw [hrz]⟩

/-- An update that makes at most a launched block busy. -/
theorem World.Dealt.lit {b : Oid} {ok : Bool} {p : Sjob → Bool}
    {f : Sjob → Sjob} (hw : w₀.Dealt l w) (hl : .launch b ok ∈ l)
    (hf : ∀ x, ((f x).id, (f x).transferRetry) = (x.id, x.transferRetry))
    (hfin : ∀ x i, (f x).Finished i → x.Finished i)
    (hbusy : ∀ x c, c ≠ b → (f x).Busy c → x.Busy c) :
    w₀.Dealt l (w.updateSjob p f) where
  dealings := hw.dealings
  retries := (map_updateOne hf w.sjobs).trans hw.retries
  finished i hi := hw.finished i (w.updateSjob_back (fun x => hfin x i) hi)
  busy c hc := by
    by_cases hcb : c = b
    · exact .inr ⟨ok, hcb ▸ hl⟩
    · exact hw.busy c (w.updateSjob_back (fun x => hbusy x c hcb) hc)
  rawjobs := hw.rawjobs
  launcher := hw.launcher

/-- The flow is given its block, and set up, in two updates. -/
theorem World.updateFlow_carry (w : World) (t : Guid) (b : Oid) :
    (w.updateSjobFlowBlock t b).updateSjobFlowState t .setting
      = w.updateFlow t (Flow.carry b) := by
  have htask : ∀ x : Sjob, Sjob.hasTask t (x.onFlow t
      fun f => { f with block := b }) = Sjob.hasTask t x := by
    intro x
    have hmap : (x.onFlow t fun f => { f with block := b }).tasks
        = x.tasks := by
      refine map_updateOne ?_ x.flows
      exact fun _ => rfl
    rw [Bool.eq_iff_iff, Sjob.hasTask_iff, Sjob.hasTask_iff, hmap]
  unfold World.updateSjobFlowBlock World.updateSjobFlowState
    World.updateFlow World.updateSjob
  rw [updateOne_updateOne htask]
  congr 2
  funext x
  refine Sjob.onFlow_onFlow ?_ t _ x
  exact fun _ => rfl

/-- A launched block is marked, and its flow set up for it. -/
theorem World.Dealt.carry {b : Oid} {ok : Bool} {t : Guid}
    (hw : w₀.Dealt l w) (hl : .launch b ok ∈ l) :
    w₀.Dealt l (((w.updateSjobBlockState b .transferring).updateSjobFlowBlock
      t b).updateSjobFlowState t .setting) := by
  rw [World.updateFlow_carry]
  have hblock : w₀.Dealt l (w.updateSjobBlockState b .transferring) := by
    refine hw.lit hl (fun _ => rfl) (fun x i hi => ?_) fun x c hne hc => ?_
    · obtain ⟨k, hk, hki, hst⟩ := hi
      rcases mem_updateOne hk with hk | ⟨k', -, -, rfl⟩
      · exact ⟨k, hk, hki, hst⟩
      · cases hst
    · refine hc.imp_left fun hk => ?_
      obtain ⟨k, hk, hki, hst⟩ := hk
      rcases mem_updateOne hk with hk | ⟨k', -, hp, rfl⟩
      · exact ⟨k, hk, hki, hst⟩
      · exact absurd (hki.symm.trans (beq_iff_eq.mp hp)) hne
  refine hblock.lit hl (fun _ => rfl) (fun x i hi => hi) fun x c hne hc => ?_
  refine hc.imp_right fun hf => ?_
  obtain ⟨f, hf, hfc, hst⟩ := hf
  rcases mem_updateOne hf with hf | ⟨f', -, -, rfl⟩
  · exact ⟨f, hf, hfc, hst⟩
  · exact absurd hfc.symm hne

/-- A launch that was due: the launcher is asked, or the job fails for
want of one. -/
inductive World.Asked (w : World) (x : Sjob) (b : Oid) (w' : World) : Prop
  | launch {ok : Bool} : w.hasLauncher = true → w.Dealt [.launch b ok] w' →
      Asked w x b w'
  | none : w.hasLauncher = false → w.Steady w' → w'.JobFailed x →
      Asked w x b w'

/-- A relaunch is a launch that was due. -/
theorem relaunch_asked (x : Sjob) (f : Flow) (b : Oid) (files : BlockFiles)
    (new : Bool) (hx : w.Owns x) :
    Prog.wp (a.env h) (fun _ w' => w.Asked x b w')
      (relaunch conf x f b files new) w := by
  refine (World.Dealt.refl w).op .stage fun w₁ h₁ => h₁.op .stage
    fun w₂ h₂ => h₂.acts .stageIf fun _ w₃ h₃ => Prog.wp_read_bind.mpr ?_
  rw [h₃.launcher]
  cases hl : w.hasLauncher with
  | false =>
      refine h₃.op .stage fun w₄ h₄ => h₄.acts (.teardown f)
        fun _ w₅ h₅ => ?_
      refine Prog.wp_mono ?_ (jobFail_failed x (h₅.owns hx))
      exact fun _ w' hw' => .none hl (h₅.steady hw'.1) hw'.2
  | true =>
      refine h₃.op .sjobState fun w₄ h₄ => ?_
      unfold launcherQueue
      rw [Prog.wp_bind']
      refine Prog.wp_read_bind.mpr ?_
      rw [h₄.launcher, hl]
      refine Prog.wp_pure'.mpr (h₄.call fun (r : LaunchAnswer) w₆ h₆ => ?_)
      have h₆ : w.Dealt [.launch b r.error.isNone] w₆ := h₆
      refine Prog.wp_modify_bind.mpr (Prog.wp_modify_bind.mpr
        (Prog.wp_modify_bind.mpr (Prog.wp_modify.mpr ?_)))
      exact .launch hl ((h₆.carry (List.mem_singleton_self _)).steady
        (SteadyOp.rawState _))

end front

-- ==================================================== the other handlers

/-- The operation is no dealing, and counts nothing. -/
def PlainOp (f : World → World) : Prop :=
  ∀ w, (f w).retries = w.retries ∧ (f w).dealings = w.dealings

/-- The handler counts nothing, and launches these blocks only. -/
abbrev PlainActs {α : Type} (B : Oid → Prop) (p : Handler α) : Prop :=
  p.Only PlainOp fun e => ∀ c cmd, e = .launch c cmd → B c

/-- What is steady counts no retry and deals out nothing. -/
theorem SteadyOp.plain {f : World → World} (hf : SteadyOp f) : PlainOp f :=
  fun w => ⟨(hf w).retries, (hf w).dealings.trans (List.append_nil _)⟩

/-- Changing nothing is plain. -/
theorem PlainOp.id : PlainOp id := fun _ => ⟨rfl, rfl⟩

/-- An update that keeps the count. -/
theorem PlainOp.doc {p : Sjob → Bool} {f : Sjob → Sjob}
    (hf : ∀ x, ((f x).id, (f x).transferRetry) = (x.id, x.transferRetry)) :
    PlainOp (World.updateSjob p f) :=
  fun w => ⟨map_updateOne hf w.sjobs, rfl⟩

/-- Network work is plain. -/
theorem NetActs.plain {α : Type} {sid : Oid} {p : Handler α}
    {B : Oid → Prop} (hp : NetActs sid p) : PlainActs B p := by
  refine (hp.mono (fun f hf => ?_) fun e he c cmd hc => ?_).only
  · cases hf with
    | id => exact .id
    | stage s v => exact SteadyOp.stage.plain
    | state h => exact SteadyOp.sjobState.plain
  · rw [hc] at he
    cases he.1

namespace PlainActs

variable {conf : Conf} {rid sid : Oid} {B : Oid → Prop}

/-- An operation, and what follows. -/
theorem op {α : Type} {f : World → World} {k : Unit → Handler α}
    (hf : SteadyOp f) (hk : PlainActs B (k ())) :
    PlainActs B (Prog.modify f >>= k) := .modify hf.plain hk

/-- A call that launches nothing, and what follows. -/
theorem call {α : Type} {e : Call} {k : Reply e → Handler α}
    (he : e.isLaunch = false) (hk : ∀ r, PlainActs B (k r)) :
    PlainActs B (ask e >>= k) := by
  refine .ask (fun c cmd hc => ?_) hk
  rw [hc] at he
  cases he

/-- Asking for the launcher is plain if what follows is. -/
theorem launcherQueue {α : Type} {k : Unit → Handler α}
    (hk : PlainActs B (k ())) :
    PlainActs B (BigDataExpress.launcherQueue >>= k) := by
  refine .bind (.read .id fun b => ?_) fun _ => hk
  split
  · exact .pure ()
  · exact .throw _

/-- Cleaning up after a failed schedule is plain. -/
theorem scheduleCleanUp (err : String) (dtns : Option (Dtn × Dtn)) :
    PlainActs B (scheduleCleanUp rid sid err dtns) := by
  refine op .stage ?_
  cases dtns with
  | none =>
      exact op .stage (op .sjobState (op .rawState (op .sjobError
        (op .rawError (.pure ())))))
  | some p =>
      exact .bind (NetActs.teardownPaths p.1 p.2).plain fun _ =>
        op .sjobState (op .rawState (op .sjobError
          (op .rawError (.pure ()))))

/-- Launching a flow for one of the blocks is plain. -/
theorem launchFlow {b : Oid} (hb : B b) (f : Flow) :
    PlainActs B (launchFlow rid sid b f) := by
  refine .modify (.doc fun _ => rfl) (.read .id fun files =>
    op .sjobState (op .stage (op .stage (launcherQueue
      (.ask (fun c cmd hc => by cases hc; exact hb)
        fun (r : LaunchAnswer) => ?_)))))
  cases r.error with
  | some err => exact op .stage (op .stage (scheduleCleanUp _ _))
  | none =>
      exact .modify (.doc fun _ => rfl) (.modify (.doc fun _ => rfl)
        (call rfl fun _ => op .flowActive (op .rawState (.pure ()))))

/-- Verifying the path before that is plain. -/
theorem verifyAndLaunch (rjob : Option Rawjob) {b : Oid} (hb : B b)
    (src dst : Dtn) (s d : Option String) :
    PlainActs B (verifyAndLaunch conf rjob rid sid b src dst s d) := by
  have hpath : NetActs sid (verifyPath src dst) := .verifyPath src dst
  refine op .sjobState (op .stage (.bind hpath.plain fun r => ?_))
  cases r with
  | error e => exact op .stage (op .stage (scheduleCleanUp _ _))
  | ok _ =>
      refine op .stage (op .stage (.bind ?_ fun flow => launchFlow hb flow))
      exact .bind ⟨fun _ => ⟨rfl, rfl⟩, fun _ => .pure _⟩ fun _ =>
        call rfl fun _ => .pure _

/-- Setting up the path before that is plain. -/
theorem connectAndLaunch (rjob : Option Rawjob) {b : Oid} (hb : B b)
    (p : DtnPair) :
    PlainActs B (connectAndLaunch conf rjob rid sid b p) := by
  refine op .stage ?_
  split
  · refine op .stage (.bind (NetActs.networkHandling ..).plain fun res => ?_)
    split
    · exact op .stage (scheduleCleanUp _ _)
    · exact verifyAndLaunch _ hb _ _ _ _
  · exact op .stage (op .stage (op .stage (verifyAndLaunch _ hb _ _ _ _)))

/-- Scheduling one of the blocks is plain. -/
theorem scheduleBlock (x : Sjob) {b : Oid} (hb : B b) :
    PlainActs B (scheduleBlock conf x b) := by
  have hpair : ∀ src dst, NetActs x.id
      (findBestEffortDtnPair x.srcstorage x.dststorage src dst) :=
    fun src dst => .findBestEffortDtnPair _ _ src dst
  refine .read .id fun rjob => .read .id fun src => .read .id fun dst =>
    op .sjobState (op .stage (op .stage
      (.bind (hpair src dst).plain fun r => ?_)))
  cases r with
  | error e => exact op .stage (op .stage (scheduleCleanUp _ _))
  | ok p => exact op .stage (op .stage (connectAndLaunch _ hb _))

/-- An attempt launches the first waiting block, if anything. -/
theorem scheduleSjob (conf : Conf) (x : Sjob) : PlainActs
    (fun c => x.flows = [] ∧ ∃ b, x.blocks.find? (·.state == .waiting) = some b
      ∧ b.id = c) (scheduleSjob conf x) := by
  unfold BigDataExpress.scheduleSjob
  split
  · exact .pure ()
  · rename_i hlen
    split
    · rename_i b hb
      refine scheduleBlock x ⟨?_, b, hb, rfl⟩
      exact List.eq_nil_of_length_eq_zero (by omega)
    · exact .pure ()

-- ---------------------------------------------------------- the polling

/-- What is done after a failed flow is plain. -/
theorem flowFailed (err : String) : PlainActs B (flowFailed rid sid err) :=
  op .sjobState (op .sjobError (op .rawState (op .rawError (.pure ()))))

/-- What is done about an unknown task is plain. -/
theorem unknownTask (x : Sjob) (f : Flow) :
    PlainActs B (unknownTask rid x f) :=
  .bind (NetActs.teardownSdnPath ..).plain fun _ =>
    .bind (NetActs.teardownWanPath ..).plain fun _ =>
      op (.flowState (by decide)) (op (.blockState (by decide)) (flowFailed _))

/-- The check for activity is plain. -/
theorem checkActivity (x : Sjob) (f : Flow) (v now : Int) :
    PlainActs B (checkActivity conf rid x f v now) := by
  unfold BigDataExpress.checkActivity
  split
  · exact op .flowActive (.pure ())
  · split
    · exact op (.flowState (by decide)) (op (.blockState (by decide))
        (.bind (NetActs.teardownSdnPath ..).plain fun _ =>
          .bind (NetActs.teardownWanPath ..).plain fun _ => flowFailed _))
    · exact .pure ()

/-- Polling one flow is plain. -/
theorem pollFlow (x : Sjob) (f : Flow) :
    PlainActs B (pollFlow conf rid x f) := by
  unfold BigDataExpress.pollFlow
  split
  · refine launcherQueue (call rfl fun (rate : RateAnswer) => ?_)
    split
    · exact .pure _
    · split
      · exact .bind (unknownTask x f) fun _ => .pure _
      · split
        · exact .pure _
        · exact .bind (call rfl fun _ => .bind (checkActivity ..)
            fun _ => op .blockTx (op .flowTx (.pure _))) fun _ => .pure _
  · exact .pure _

/-- Polling flows is plain, one after the other. -/
theorem pollFlows (x : Sjob) (fs : List Flow) (acc : Int) :
    PlainActs B (pollFlows conf rid x fs acc) := by
  induction fs generalizing acc with
  | nil => exact .pure _
  | cons f fs ih =>
      refine .bind (pollFlow x f) fun r => ?_
      cases r with
      | none => exact .pure _
      | some d => exact ih _

/-- Polling sjobs is plain, one after the other. -/
theorem pollSjobs (xs : List Sjob) (acc : Int) :
    PlainActs B (pollSjobs conf rid xs acc) := by
  induction xs generalizing acc with
  | nil => exact .pure _
  | cons x xs ih =>
      refine .bind (pollFlows x x.flows 0) fun r => ?_
      cases r with
      | none => exact .pure _
      | some d => exact op .sjobTx (ih _)

/-- Fetching the sjobs of a rawjob is plain. -/
theorem getSjobsFromRawjobId :
    PlainActs B (getSjobsFromRawjobId rid) := by
  have hread : ∀ ids, PlainActs B (readSjobs ids) := by
    intro ids
    induction ids with
    | nil => exact .pure []
    | cons i is ih =>
        exact .read .id fun _ => .bind ih fun _ => .pure _
  exact .read .id fun ids => hread ids

/-- Polling rawjobs is plain, one after the other. -/
theorem pollRawjobs (rs : List Rawjob) :
    PlainActs B (pollRawjobs conf rs) := by
  induction rs with
  | nil => exact .pure ()
  | cons r rs ih =>
      refine .bind (.bind getSjobsFromRawjobId fun xs =>
        .bind (pollSjobs xs 0) fun d => ?_) fun b => ?_
      · cases d with
        | none => exact .pure _
        | some d => exact op .rawTx (op .siteTx (op .siteRx (.pure _)))
      · split
        · exact ih
        · exact .pure ()

/-- The whole poll is plain. -/
theorem pollRate (conf : Conf) (B : Oid → Prop) :
    PlainActs B (pollRate conf) := by
  refine .read .id fun rs => ?_
  split
  · exact .pure ()
  · refine .read .id fun b => ?_
    split
    · exact .pure ()
    · exact pollRawjobs rs

end PlainActs

/-- What a whole such handler has dealt with. -/
theorem PlainActs.run {α : Type} {p : Handler α} {B : Oid → Prop}
    (hp : PlainActs B p) (a : Answers) (h : HandlerId)
    {o : Oracle World Call Reply} (ho : o.Admissible (a.env h)) (w : World) :
    (p.run (a.env h) o w).2.retries = w.retries
      ∧ ∃ l, (p.run (a.env h) o w).2.dealings = w.dealings ++ l
        ∧ ∀ c ok, .launch c ok ∈ l → B c := by
  have hwp := hp.wp (E := a.env h) (G := fun w w' => w'.retries = w.retries
    ∧ ∃ l, w'.dealings = w.dealings ++ l ∧ ∀ c ok, .launch c ok ∈ l → B c)
    ?_ ?_ ?_ ?_ w
  · exact Prog.wp_run ho hwp
  · exact fun w => ⟨rfl, [], (List.append_nil _).symm, by simp⟩
  · intro w w' w'' h h'
    obtain ⟨hr, l, hl, hB⟩ := h
    obtain ⟨hr', l', hl', hB'⟩ := h'
    refine ⟨hr'.trans hr, l ++ l', ?_, fun c ok hc => ?_⟩
    · rw [hl', hl, List.append_assoc]
    · rcases List.mem_append.mp hc with hc | hc
      · exact hB c ok hc
      · exact hB' c ok hc
  · intro f hf w
    obtain ⟨hr, hd⟩ := hf w
    exact ⟨hr, [], hd.trans (List.append_nil _).symm, by simp⟩
  · intro e he w r
    refine ⟨rfl, dealing e r, w.dealings_record h e r, fun c ok hc => ?_⟩
    cases e with
    | launch b cmd =>
        have hcb : Dealing.launch c ok = .launch b _ :=
          List.mem_singleton.mp hc
        cases hcb
        exact he _ cmd rfl
    | verifyChecksum => cases List.mem_singleton.mp hc
    | _ => cases hc

-- ============================================================== the turns

/-- An event of a run, with the server it was taken in and the one it
has left. -/
structure Server.Turn where
  before : Server
  event : Event
  after : Server

/-- A run with the turns it has taken. -/
inductive Server.Turns (conf : Conf) (s₀ : Server) :
    List Server.Turn → Server → Prop
  | nil : Turns conf s₀ [] s₀
  | snoc {l : List Server.Turn} {e : Event} {s s' : Server} :
      Turns conf s₀ l s → Server.Step conf e s s' →
      Turns conf s₀ (l ++ [⟨s, e, s'⟩]) s'

/-- What the turn has dealt with. -/
def Server.Turn.dealt (t : Server.Turn) : List Dealing :=
  t.after.world.dealings.drop t.before.world.dealings.length

section turns

variable {conf : Conf} {s : Server} {t : Server.Turn}

/-- What a turn deals out is what it adds to the log. -/
theorem Server.Turn.dealt_eq {l : List Dealing}
    (h : t.after.world.dealings = t.before.world.dealings ++ l) : t.dealt = l := by
  unfold Server.Turn.dealt
  rw [h, List.drop_left]

/-- A turn of a run, with the run before it. -/
theorem Server.Turns.split {s₀ : Server} {l₁ l₂ : List Server.Turn}
    (h : Server.Turns conf s₀ (l₁ ++ t :: l₂) s) :
    ∃ s₁ s₂ e, Server.Turns conf s₀ l₁ s₁ ∧ Server.Step conf e s₁ s₂
      ∧ t = ⟨s₁, e, s₂⟩ := by
  generalize hl : l₁ ++ t :: l₂ = l at h
  induction h generalizing l₂ with
  | nil => exact absurd hl (by simp)
  | @snoc l e s s' hrun hst ih =>
      rcases List.eq_nil_or_concat l₂ with rfl | ⟨m, u, rfl⟩
      · obtain ⟨rfl, ht⟩ := List.append_inj' hl rfl
        exact ⟨s, s', e, hrun, hst, (List.cons.inj ht).1⟩
      · rw [List.concat_eq_append, ← List.cons_append,
          ← List.append_assoc] at hl
        exact ih (List.append_inj' hl rfl).1

/-- The turn of a report, from this server. -/
theorem Server.Turns.reported {s₀ : Server} {l : List Server.Turn}
    (h : Server.Turns conf s₀ l s)
    (v n : Bool) (task : Guid) (state : Int) :
    Server.Turns conf s₀ (l ++ [⟨s, .status task ⟨state, 0⟩ (.of v n),
      s.reported conf v n task state⟩])
      (s.reported conf v n task state) :=
  h.snoc (.status (plainOracle_admissible v n _))

end turns

end BigDataExpress
