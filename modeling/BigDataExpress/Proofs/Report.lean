/-
The handler of a status report, over any tracker: `handleReport` ends
with one of the outcomes of `ReportOutcome`.

The lemmas follow the source from its inner functions outwards. Each
takes the changes made so far and says which changes it ends with; the
chain of rules in a proof is the sequence of statements of the function.
-/
import BigDataExpress.Proofs.Outcome

namespace BigDataExpress

open Interact Collection SiteStore

variable {x : Sjob} {tr : Tracker x} {d : Delta} {f : Flow} {conf : Conf}

-- ===================================================== selecting a block

/-- With nothing left to launch and all said to be finished, every other
block is. -/
theorem selectBlock_all {done : Oid} {bs : List Block} {b : Bool}
    (h : selectBlock done bs b = (true, none)) :
    b = true ∧ ∀ k ∈ bs, k.id ≠ done → k.state = .finished := by
  induction bs generalizing b with
  | nil =>
      simp only [selectBlock, Prod.mk.injEq] at h
      exact ⟨h.1, by simp⟩
  | cons k bs ih =>
      simp only [selectBlock] at h
      split at h
      · rename_i hid
        obtain ⟨hb, hbs⟩ := ih h
        refine ⟨hb, fun k' hk' hne => ?_⟩
        rcases List.mem_cons.mp hk' with rfl | hk'
        · exact absurd hid hne
        · exact hbs k' hk' hne
      · rename_i hid
        split at h
        · rename_i hst
          obtain ⟨hb, hbs⟩ := ih h
          refine ⟨hb, fun k' hk' hne => ?_⟩
          rcases List.mem_cons.mp hk' with rfl | hk'
          · exact hst
          · exact hbs k' hk' hne
        · cases (ih h).1
        · simp at h

/-- The block selected is a waiting one, other than the one just
done. -/
theorem selectBlock_some {done n : Oid} {bs : List Block} {b fin : Bool}
    (h : selectBlock done bs b = (fin, some n)) :
    n ≠ done ∧ ∃ k ∈ bs, k.id = n ∧ k.state = .waiting := by
  induction bs generalizing b with
  | nil => simp [selectBlock] at h
  | cons k bs ih =>
      have more : ∀ {b'}, selectBlock done bs b' = (fin, some n) →
          n ≠ done ∧ ∃ k' ∈ k :: bs, k'.id = n ∧ k'.state = .waiting := by
        intro b' h'
        obtain ⟨hne, k', hk', hid⟩ := ih h'
        exact ⟨hne, k', List.mem_cons_of_mem _ hk', hid⟩
      simp only [selectBlock] at h
      split at h
      · exact more h
      · rename_i hid
        split at h
        · exact more h
        · exact more h
        · rename_i hst
          simp only [Prod.mk.injEq, Option.some.injEq] at h
          obtain ⟨-, rfl⟩ := h
          exact ⟨hid, k, List.mem_cons_self .., rfl, hst⟩

-- ================================================================ failing

/-- A failed job: the sjob first, the rawjob after it. -/
theorem jobFail_spec {err : String}
    (hlive : tr.strict → d.doc.state ≠ .finished)
    {Q : Except String Unit → Delta → Prop}
    (h : Q (.ok ()) { d with doc := d.doc.fail, raw := some .error }) :
    tr.Spec d (jobFail err x.id x.rawjob) Q := by
  refine .act (.stage ..) (.state (by simp) hlive
    (.raw (by simp) (fun _ => rfl) (by simp) (.act (.sjobError err)
      (.last (.act (.rawError err) (.like (y := d.doc.fail) ?_
        (.pure h)))))))
  exact (Sjob.Alike.fail (.refl _) err).symm

/-- Tear the paths down and fail. -/
theorem teardown_jobFail_spec {err : String}
    (hlive : tr.strict → d.doc.state ≠ .finished)
    {Q : Except String Unit → Delta → Prop}
    (h : Q (.ok ()) { d with doc := d.doc.fail, raw := some .error }) :
    tr.Spec d (teardown x.id f >>= fun _ =>
      jobFail err x.id x.rawjob) Q := by
  refine .net (.teardown f) hlive fun _ s hs => jobFail_spec ?_ h
  rcases hs with rfl | hs
  · exact hlive
  · exact fun _ => hs.ne_finished

-- ========================================================== state 1 and 2

theorem statusStarted_spec (hf : f.task ∈ x.tasks) (hb : f.block ∈ x.blockIds)
    (hlive : tr.strict → x.state ≠ .finished) :
    tr.Spec (.init x) (statusStarted x f) fun r d => r = .ok ()
      ∧ d = ⟨(x.onFlow f.task (Flow.setState .transferring)).setState
          .transferring, none, [], none, none⟩ := by
  refine .act (.flowState hf _) (.state (by simp) hlive
    (.act (.stage ..) (.act (.stage ..) (.call rfl (by simp [Call.job?])
      fun now => .last (.act (.blockStart hb now)
        (.like (Sjob.Alike.symm ?_) (.pure ⟨rfl, rfl⟩)))))))
  exact .onBlock_same (.refl _) fun _ => rfl

theorem statusError_spec (hf : f.task ∈ x.tasks) (hb : f.block ∈ x.blockIds)
    (hlive : tr.strict → x.state ≠ .finished) (ec : Int) :
    tr.Spec (.init x) (statusError x f ec) fun r d => r = .ok ()
      ∧ d = ⟨((x.onFlow f.task (Flow.setState .error)).onBlock f.block
          (Block.setState .waiting)).fail, some .error, [], none, none⟩ := by
  exact .act (.stage ..) (.act (.stage ..) (.act (.flowState hf _)
    (.act (.blockState hb _) (teardown_jobFail_spec hlive
      ⟨rfl, rfl⟩))))

-- ============================================================= the counts

/-- Add to the counters of a block, its flow and its sjob. -/
def Sjob.count (f : Flow) (v : Int) (x : Sjob) : Sjob :=
  { (x.onBlock f.block fun k => { k with txBytes := k.txBytes + v }).onFlow
      f.task fun f => { f with txBytes := f.txBytes + v } with
    txBytes := x.txBytes + v }

theorem countFinished_spec {k : Block}
    (hk : x.blocks.find? (·.id == f.block) = some k)
    (hf : f.task ∈ d.doc.tasks) (hb : f.block ∈ x.blockIds) :
    tr.Spec d (countFinished x f) fun r d' => ∃ a, r = .ok a
      ∧ d' = { d with doc := d.doc.count f (k.size - k.txBytes) } := by
  unfold countFinished
  rw [hk]
  refine .call rfl (by simp [Call.job?]) fun _ => ?_
  refine .act (.blockTx hb _) ?_
  refine .act (.flowTx (by exact hf) _) ?_
  refine .act (.sjobTx _) ?_
  refine .act (.rawTx _) ?_
  refine .act (.siteTx ..) ?_
  exact .last (.act (.siteRx ..) (.pure ⟨(), rfl, rfl⟩))

theorem retrogress_spec {k : Block}
    (hk : x.blocks.find? (·.id == f.block) = some k)
    (hf : f.task ∈ d.doc.tasks) (hb : f.block ∈ x.blockIds) :
    tr.Spec d (retrogress x f) fun r d' => ∃ a, r = .ok a
      ∧ d' = { d with doc := d.doc.count f (-k.size) } := by
  unfold retrogress
  rw [hk]
  refine .act (.blockTx hb _) ?_
  refine .act (.flowTx (by exact hf) _) ?_
  refine .act (.sjobTx _) ?_
  exact .last (.act (.rawTx _) (.pure ⟨(), rfl, rfl⟩))

-- ======================================================= the verification

/-- The verdicts possible on the checksums of the flow's block. -/
def Tracker.Verdict (tr : Tracker x) (conf : Conf) (f : Flow) (v : Bool) :
    Prop :=
  if (tr.files f.block).checked conf then tr.verdict v else v = true

theorem verifyChecksums_spec (hlive : tr.strict → d.doc.state ≠ .finished) :
    tr.Spec d (verifyChecksums conf x f (tr.files f.block)) fun r d' =>
      ∃ v, r = .ok v ∧ tr.Verdict conf f v
        ∧ ∃ s, (s = d.doc.state ∨ s = .checksumVerification)
          ∧ d' = { d with doc := d.doc.setState s } := by
  unfold verifyChecksums Tracker.Verdict BlockFiles.checked
  split
  · rename_i hc
    refine .pure ⟨true, rfl, ?_, d.doc.state, .inl rfl, rfl⟩
    simp_all
  · rename_i hc
    split
    · rename_i hn
      refine .pure ⟨true, rfl, ?_, d.doc.state, .inl rfl, rfl⟩
      simp [hn]
    · rename_i sums hs
      have hchk : (conf.ldChecksum && (tr.files f.block).checksum.isSome)
          = true := by simp_all
      simp only [hchk, if_true]
      refine .state (by simp) hlive (.act (.stage ..) (.read fun site =>
        .verify fun r hr => ?_))
      split
      · rename_i hbad
        have : r.accepts = false := by
          simp only [VerifyAnswer.accepts, Bool.and_eq_false_iff,
            beq_eq_false_iff_ne]
          exact hbad
        rw [this] at hr
        exact .act (.stage ..) (.pure ⟨false, rfl, hr, _, .inr rfl, rfl⟩)
      · rename_i hgood
        have : r.accepts = true := by
          simp only [VerifyAnswer.accepts, Bool.and_eq_true, beq_iff_eq]
          simpa only [not_or, not_not] using hgood
        rw [this] at hr
        exact .act (.stage ..) (.pure ⟨true, rfl, hr, _, .inr rfl, rfl⟩)

-- ==================================================== relaunch and the end

/-- What a relaunch makes of the changes so far. -/
theorem relaunch_spec {block : Oid} {files : BlockFiles} {new : Bool}
    (hf : f.task ∈ d.doc.tasks) (hb : block ∈ x.blockIds)
    (hlive : tr.strict → d.doc.state ≠ .finished) :
    tr.Spec d (relaunch conf x f block files new) fun r d' => r = .ok ()
      ∧ (tr.launcher = true ∧ d' = { d with
          doc := ((d.doc.onBlock block (Block.setState .transferring)).onFlow
            f.task (Flow.carry block)).setState .launching,
          raw := some .transferring,
          launches := d.launches ++ [f.launchCmd files] }
        ∨ tr.launcher = false ∧ d' = { d with
            doc := d.doc.fail, raw := some .error }) := by
  refine .act (.stage ..) (.act (.stage ..) (.stageIf (.launcher ?_)))
  split
  · rename_i hl
    have hl' : tr.launcher = false := by simpa using hl
    exact .act (.stage ..) (teardown_jobFail_spec hlive
      ⟨rfl, .inr ⟨hl', rfl⟩⟩)
  · rename_i hl
    have hl' : tr.launcher = true := by simpa using hl
    refine .state (by simp) hlive (.launcherQueue (fun _ => ?_)
      fun hl'' => absurd (hl'.symm.trans hl'') (by decide))
    have hdoc := congrArg (fun z : Sjob => ({ d with
        doc := z.setState .launching,
        raw := some .transferring,
        launches := d.launches ++ [f.launchCmd files] } : Delta))
      (Sjob.onFlow_onFlow (g := fun f => { f with block := block })
        (fun _ => rfl) f.task (Flow.setState .setting)
        (d.doc.onBlock block (Block.setState .transferring)))
    have hf' : f.task ∈ (d.doc.onFlow f.task
        fun f => { f with block := block }).tasks :=
      Sjob.mem_tasks_onFlow (fun _ => rfl) hf
    refine .launch (by rw [Flow.launchCmd_task]; exact hf) fun r _ => ?_
    refine .act (.blockState hb _) ?_
    refine .act (.flowBlock (by exact hf) _) ?_
    refine .act (.flowState (by exact hf') _) ?_
    exact .last (.raw (by simp) (by simp) (fun _ _ hc => nomatch hc)
      (.pure ⟨rfl, .inl ⟨hl', hdoc⟩⟩))

/-- What the end of a flow makes of the changes so far. -/
theorem flowDone_spec {fin : Bool} (hf : f.task ∈ d.doc.tasks)
    (hfin : fin = true → ∀ b ∈ d.doc.blocks, b.state = .finished)
    (hlive : tr.strict → d.doc.state ≠ .finished) (hraw : d.raw = none) :
    tr.Spec d (flowDone conf x f fin) fun r d' => r = .ok ()
      ∧ (fin = true ∧ (∃ b, d' = { d with
          doc := (d.doc.onFlow f.task
            (Flow.setState .waitingToBeTeared)).setState .finished,
          raw := if b then some .finished else none,
          seen := some b })
        ∨ fin = false ∧ ∃ s, (s = d.doc.state ∨ s.Network) ∧ d' = { d with
            doc := (d.doc.onFlow f.task
              (Flow.setState .waitingToBeTeared)).setState s }) := by
  refine .act (.flowState hf _) (.stageIf
    (.net (.teardown f) hlive fun _ s hs => ?_))
  have hlive' : tr.strict → s ≠ .finished := by
    rcases hs with rfl | hs
    · exact hlive
    · exact fun _ => hs.ne_finished
  split
  · rename_i hfin'
    refine .state (fun _ => hfin hfin') hlive' (.look rfl fun b => ?_)
    cases b with
    | true =>
        exact .last (.raw (fun _ => rfl) (by simp) (by simp)
          (.pure ⟨rfl, .inl ⟨hfin', true, rfl⟩⟩))
    | false => exact .pure ⟨rfl, .inl ⟨hfin', false, by rw [← hraw]; rfl⟩⟩
  · rename_i hfin'
    have hno : fin = false := by simpa using hfin'
    split
    · exact .last (.act (.maxFlows _) (.like
        (y := (d.doc.onFlow f.task
          (Flow.setState .waitingToBeTeared)).setState s)
        ⟨rfl, rfl, rfl, rfl⟩ (.pure ⟨rfl, .inr ⟨hno, s, hs, rfl⟩⟩)))
    · exact .pure ⟨rfl, .inr ⟨hno, s, hs, rfl⟩⟩

-- ================================================================ state 3

/-- The document once the block's bytes are counted. -/
def Sjob.counted (x : Sjob) (f : Flow) (g : Block → Block) : Sjob :=
  (x.onBlock f.block g).onFlow f.task (Flow.setState .waiting)

theorem Sjob.counted_tasks {x : Sjob} {f : Flow} {g : Block → Block} :
    (x.counted f g).tasks = x.tasks :=
  Sjob.tasks_onFlow (g := Flow.setState .waiting) (fun _ => rfl) f.task
    (x.onBlock f.block g)

/-- The second write to the flow's state replaces the first. -/
theorem Sjob.counted_onFlow {x : Sjob} {f : Flow} {g : Block → Block}
    {h : Flow → Flow} : (x.counted f g).onFlow f.task h
      = (x.onBlock f.block g).onFlow f.task
        fun f => h (f.setState .waiting) :=
  Sjob.onFlow_onFlow (g := Flow.setState .waiting) (fun _ => rfl) f.task h
    (x.onBlock f.block g)

/-- Marking the block, and what follows. -/
theorem markFinished_spec {α : Type} {s : SjobState} {st : BlockState}
    {p : Handler α} {Q : Except String α → Delta → Prop}
    (hb : f.block ∈ x.blockIds)
    (hd : d.doc = (x.counted f (Block.complete st)).setState s)
    (hp : tr.Spec { d with
        doc := (x.counted f (Block.complete .finished)).setState s } p Q) :
    tr.Spec d (do
      updateSjobBlockState f.block .finished
      let now : Int ← ask .epochMs
      updateSjobBlockStop f.block now
      p) Q := by
  refine .act (.blockState hb _) (.call rfl (by simp [Call.job?])
    fun now => .act (.blockStop hb now)
      (.like (Sjob.Alike.symm (.onBlock_same ?_ fun _ => rfl)) hp))
  have hblocks := congrArg (fun z : Sjob => z.blocks.map Block.mark)
    (Sjob.onBlock_onBlock (g := Block.complete st) (fun _ => rfl) f.block
      (Block.setState .finished) x)
  rw [hd]
  exact ⟨rfl, rfl, rfl, hblocks⟩

/-- With the flow's block complete and nothing selected, every block is
finished. -/
theorem counted_finished (hnodup : x.blockIds.Nodup)
    (hall : ∀ k ∈ x.blocks, k.id ≠ f.block → k.state = .finished) :
    ∀ b ∈ (x.counted f (Block.complete .finished)).blocks,
      b.state = .finished := by
  have hmap : (x.counted f (Block.complete .finished)).blocks
      = x.blocks.map fun k => if k.id = f.block then k.complete .finished
        else k := updateOne_key hnodup
  intro b hb
  rw [hmap, List.mem_map] at hb
  obtain ⟨k, hk, rfl⟩ := hb
  split
  · rfl
  · rename_i hne
    exact hall k hk hne

/-- The bytes of the flow's block, counted and taken back. -/
theorem retrogressed_alike {k : Block} {s : SjobState} {n : Int}
    (hk : x.blocks.find? (·.id == f.block) = some k) :
    Sjob.Alike
      { ((x.counted f (Block.complete k.state)).setState s).count f (-k.size)
        with transferRetry := n }
      ((x.counted f (Block.restart k.state)).setState s) where
  state := rfl
  error := rfl
  flows := by
    have hflows := map_updateOne (p := (·.task == f.task))
      (f := fun f => { f with txBytes := f.txBytes + -k.size })
      (g := Flow.mark) (fun _ => rfl)
      (x.counted f (Block.complete k.state)).flows
    exact hflows.symm
  blocks := by
    have hblocks := congrArg (fun z : Sjob => z.blocks.map Block.mark)
      (Sjob.onBlock_onBlock (g := Block.complete k.state) (fun _ => rfl)
        f.block (fun b => { b with txBytes := b.txBytes + -k.size }) x)
    refine (map_updateOne_congr fun a ha => ?_).trans hblocks.symm
    obtain rfl : k = a := Option.some.inj (hk.symm.trans ha)
    simp only [Block.mark, Block.restart, Block.complete, Prod.mk.injEq,
      true_and]
    omega

/-- A restarted block, launched again. -/
theorem restarted_carry (st : BlockState) :
    ((x.counted f (Block.restart st)).onBlock f.block
      (Block.setState .transferring)).onFlow f.task (Flow.carry f.block)
    = (x.onBlock f.block (Block.restart .transferring)).onFlow f.task
        (Flow.carry f.block) := by
  have hb := Sjob.onBlock_onBlock (g := Block.restart st) (fun _ => rfl)
    f.block (Block.setState .transferring) x
  have hf := Sjob.onFlow_onFlow (g := Flow.setState .waiting)
    (fun _ => rfl) f.task (Flow.carry f.block)
    ((x.onBlock f.block (Block.restart st)).onBlock f.block
      (Block.setState .transferring))
  exact hf.trans (congrArg (Sjob.onFlow f.task (Flow.carry f.block)) hb)

/-- The bytes of the flow's block, counted to its size. -/
theorem counted_alike {k : Block}
    (hk : x.blocks.find? (·.id == f.block) = some k) :
    Sjob.Alike
      ((x.onFlow f.task (Flow.setState .waiting)).count f
        (k.size - k.txBytes))
      (x.counted f (Block.complete k.state)) where
  state := rfl
  error := rfl
  flows := by
    have hflows := map_updateOne (p := (·.task == f.task))
      (f := fun f => { f with txBytes := f.txBytes + (k.size - k.txBytes) })
      (g := Flow.mark) (fun _ => rfl)
      (x.onFlow f.task (Flow.setState .waiting)).flows
    exact hflows.symm
  blocks := map_updateOne_congr fun a ha => by
    obtain rfl : k = a := Option.some.inj (hk.symm.trans ha)
    simp only [Block.mark, Block.complete, Prod.mk.injEq, true_and]
    omega

section finished

variable {s : SjobState} {st : BlockState} {params : StatusParams}

theorem blockAccepted_spec (hnodup : x.blockIds.Nodup)
    (hf : f.task ∈ x.tasks) (hb : f.block ∈ x.blockIds)
    (hlive : tr.strict → s ≠ .finished)
    (hs : s = x.state ∨ s = .checksumVerification)
    (h3 : params.state = 3) :
    tr.Spec ⟨(x.counted f (Block.complete st)).setState s, none, [], none,
        none⟩ (blockAccepted conf x f) fun r d' => r = .ok ()
      ∧ ReportOutcome tr.files tr.launcher x f params true d' := by
  refine markFinished_spec hb rfl ?_
  have htask : f.task
      ∈ (x.counted f (Block.complete .finished)).tasks := by
    rw [Sjob.counted_tasks]
    exact hf
  split
  · rename_i fin n hsel
    obtain ⟨-, b, hbm, rfl, -⟩ := selectBlock_some hsel
    refine .files ((relaunch_spec htask (List.mem_map_of_mem hbm)
      hlive).mono ?_)
    rintro r d' ⟨rfl, ⟨hl, rfl⟩ | ⟨hl, rfl⟩⟩
    · have hdoc := congrArg (fun z : Sjob => (⟨z.setState .launching,
          some .transferring, [f.launchCmd (tr.files b.id)], none, none⟩ :
          Delta))
        (Sjob.onFlow_onFlow (g := Flow.setState .waiting) (fun _ => rfl)
          f.task (Flow.carry b.id)
          ((x.onBlock f.block (Block.complete .finished)).onBlock b.id
            (Block.setState .transferring)))
      exact ⟨rfl, .of_eq (.next h3 rfl hsel hl) hdoc⟩
    · exact ⟨rfl, .nextFails h3 rfl hsel hl⟩
  · rename_i fin hsel
    refine (flowDone_spec htask ?_ hlive rfl).mono ?_
    · rintro rfl
      exact counted_finished hnodup (selectBlock_all hsel).2
    · have hdoc := Sjob.counted_onFlow (x := x) (f := f)
        (g := Block.complete .finished)
        (h := Flow.setState .waitingToBeTeared)
      rintro r d' ⟨rfl, ⟨rfl, b, rfl⟩ | ⟨rfl, s', hs', rfl⟩⟩
      · have he := congrArg (fun z : Sjob => (⟨z.setState .finished,
          if b then some .finished else none, [], some b, none⟩ : Delta))
          hdoc
        exact ⟨rfl, .of_eq (.last h3 rfl hsel) he⟩
      · have he := congrArg (fun z : Sjob => (⟨z.setState s', none, [],
          none, none⟩ : Delta)) hdoc
        refine ⟨rfl, .of_eq (.rest (s := s') h3 rfl hsel ?_) he⟩
        rcases hs' with rfl | hn
        · rcases hs with rfl | rfl
          · exact .inl rfl
          · exact .inr ⟨nofun, nofun⟩
        · exact .inr ⟨hn.ne_finished, by cases hn <;> decide⟩

theorem blockRefused_spec (hf : f.task ∈ x.tasks)
    (hb : f.block ∈ x.blockIds) (hlive : tr.strict → s ≠ .finished)
    (h3 : params.state = 3) {k : Block}
    (hk : x.blocks.find? (·.id == f.block) = some k)
    (hst : ∀ b ∈ x.blocks, b.id = f.block → k.state = b.state) :
    tr.Spec ⟨(x.counted f (Block.complete k.state)).setState s, none, [],
        none, none⟩ (blockRefused conf x f (tr.files f.block)) fun r d' =>
      r = .ok ()
      ∧ ReportOutcome tr.files tr.launcher x f params false d' := by
  have htask : ∀ {g : Block → Block}, f.task ∈ (x.counted f g).tasks := by
    intro g
    rw [Sjob.counted_tasks]
    exact hf
  refine .seq (retrogress_spec hk htask hb) ?_
  rintro - d' rfl
  refine .act (.retry 1) (.like
    (y := (x.counted f (Block.restart k.state)).setState s) ?_ ?_)
  · exact retrogressed_alike hk
  · split
    · rename_i hr
      exact teardown_jobFail_spec hlive
        ⟨rfl, .retryFails h3 rfl (.inl hr) hst⟩
    · rename_i hr
      refine (relaunch_spec htask hb hlive).mono ?_
      rintro r d' ⟨rfl, ⟨hl, rfl⟩ | ⟨hl, rfl⟩⟩
      · have hdoc := congrArg (fun z : Sjob => (⟨z.setState .launching,
            some .transferring, [f.launchCmd (tr.files f.block)], none,
            none⟩ : Delta)) (restarted_carry (x := x) (f := f) k.state)
        exact ⟨rfl, .of_eq (.retry h3 rfl (not_le.mp hr) hl) hdoc⟩
      · exact ⟨rfl, .retryFails h3 rfl (.inr hl) hst⟩

theorem statusFinished_spec (hnodup : x.blockIds.Nodup)
    (hf : f.task ∈ x.tasks) (hb : f.block ∈ x.blockIds)
    (hlive : tr.strict → x.state ≠ .finished) (h3 : params.state = 3) :
    tr.Spec (.init x) (statusFinished conf x f) fun r d' => r = .ok ()
      ∧ ∃ v, tr.Verdict conf f v
        ∧ ReportOutcome tr.files tr.launcher x f params v d' := by
  obtain ⟨k, hkm, hid⟩ := List.mem_map.mp hb
  have hk : x.blocks.find? (·.id == f.block) = some k := by
    rw [← hid]
    exact find?_key Block.id hnodup hkm
  have hst : ∀ b ∈ x.blocks, b.id = f.block → k.state = b.state := by
    intro b hbm hb'
    have := find?_key Block.id hnodup hbm
    rw [hb', hk] at this
    rw [Option.some.inj this]
  refine .act (.stage ..) (.act (.stage ..) (.act (.flowState hf _)
    (.seq (countFinished_spec hk ?_ hb) ?_)))
  · exact Sjob.mem_tasks_onFlow (fun _ => rfl) hf
  rintro - d' rfl
  refine .like (counted_alike hk) (.files (.seq
    (verifyChecksums_spec hlive) ?_))
  rintro v d' ⟨hv, s, hs, rfl⟩
  have hlive' : tr.strict → s ≠ .finished := by
    rcases hs with rfl | rfl
    · exact hlive
    · exact fun _ => nofun
  cases v with
  | true =>
      refine (blockAccepted_spec hnodup hf hb hlive' hs h3).mono ?_
      rintro r d' ⟨rfl, ho⟩
      exact ⟨rfl, true, hv, ho⟩
  | false =>
      refine (blockRefused_spec hf hb hlive' h3 hk hst).mono ?_
      rintro r d' ⟨rfl, ho⟩
      exact ⟨rfl, false, hv, ho⟩

end finished

-- ============================================================ the handler

/-- A report for a flow of the sjob ends, without an exception, with one
of its outcomes. -/
theorem handleReport_spec (conf : Conf) (tr : Tracker x)
    (params : StatusParams)
    (hnodup : x.blockIds.Nodup) (hf : f.task ∈ x.tasks)
    (hb : f.block ∈ x.blockIds)
    (hlive : tr.strict → x.state ≠ .finished) :
    tr.Spec (.init x) (handleReport conf x f params) fun r d' => r = .ok ()
      ∧ ∃ v, (params.state = 3 → tr.Verdict conf f v)
        ∧ ReportOutcome tr.files tr.launcher x f params v d' := by
  unfold handleReport
  split
  · rename_i h1
    refine (statusStarted_spec hf hb hlive).mono ?_
    rintro r d' ⟨rfl, rfl⟩
    exact ⟨rfl, true, by omega, .started h1⟩
  · rename_i h1
    split
    · rename_i h2
      refine (statusError_spec hf hb hlive _).mono ?_
      rintro r d' ⟨rfl, rfl⟩
      exact ⟨rfl, true, by omega, .failed h2⟩
    · rename_i h2
      split
      · rename_i h3
        refine (statusFinished_spec hnodup hf hb hlive h3).mono ?_
        rintro r d' ⟨rfl, v, hv, ho⟩
        exact ⟨rfl, v, fun _ => hv, ho⟩
      · rename_i h3
        exact .pure ⟨rfl, true, fun h => absurd h h3,
          .ignored h1 h2 h3⟩

end BigDataExpress
