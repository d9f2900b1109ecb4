/-
A scheduling attempt and the sampling of a flow, over any tracker: they
end with one of the outcomes of `AttemptOutcome` and `SampleOutcome`.
-/
import BigDataExpress.Proofs.Outcome
import BigDataExpress.Server.PollRate

namespace BigDataExpress

open Interact Collection SiteStore

variable {x : Sjob} {tr : Tracker x} {d : Delta} {f : Flow} {conf : Conf}

-- =============================================================== failing

theorem scheduleCleanUp_spec {err : String} {dtns : Option (Dtn × Dtn)}
    (hlive : tr.strict → d.doc.state ≠ .finished)
    {Q : Except String Unit → Delta → Prop}
    (h : Q (.ok ()) { d with doc := d.doc.fail, raw := some .error }) :
    tr.Spec d (scheduleCleanUp x.rawjob x.id err dtns) Q := by
  have hfail : ∀ s, (tr.strict → s ≠ .finished) →
      tr.Spec { d with doc := d.doc.setState s } (do
        updateSjobState x.id .error
        updateRawjobState x.rawjob .error
        updateSjobError x.id err
        updateRawjobError x.rawjob err) Q := by
    intro s hs
    refine .state (by simp) hs (.raw (by simp) (fun _ => rfl) (by simp)
      (.act (.sjobError err) (.last (.act (.rawError err)
        (.like (y := d.doc.fail) ?_ (.pure h))))))
    exact (Sjob.Alike.fail (.refl _) err).symm
  refine .act (.stage ..) ?_
  cases dtns with
  | none => exact .act (.stage ..) (hfail d.doc.state hlive)
  | some p =>
      refine .net (.teardownPaths p.1 p.2) hlive fun _ s hs => hfail s ?_
      rcases hs with rfl | hs
      · exact hlive
      · exact fun _ => hs.ne_finished

-- ============================================================= launching

section attempt

variable {s : SjobState} {block : Oid}

/-- The end of an attempt: the flow is recorded and the launcher
called. -/
theorem launchFlow_spec (hempty : x.flows = [])
    (hstate : f.state = .scheduling) (hb : f.block ∈ x.blockIds)
    (hlive : tr.strict → s ≠ .finished) :
    tr.Spec ⟨x.setState s, none, [], none, some f.task⟩
      (launchFlow x.rawjob x.id f.block f)
      (AttemptOutcome tr.files tr.launcher tr.answer x f.block) := by
  -- the document with the flow
  have hdoc : ({ x.setState s with flows := x.flows ++ [f] } : Sjob)
      = (x.withFlow f).setState s := by
    rw [hempty]
    rfl
  refine .insert rfl (.files ?_)
  have htask : f.task ∈ (x.withFlow f).tasks := List.mem_cons_self ..
  rw [show ({ x.setState s with flows := (x.setState s).flows ++ [f] } : Sjob)
    = (x.withFlow f).setState s from hdoc]
  refine .state (by simp) hlive (.act (.stage ..) (.act (.stage ..)
    (.launcherQueue (fun hl => ?_) fun hl => .thrown hstate rfl hl)))
  refine .launch (by rw [Flow.launchCmd_task]; exact htask)
    fun res hres => ?_
  split
  · rename_i err herr
    rw [herr] at hres
    exact .act (.stage ..) (.act (.stage ..) (scheduleCleanUp_spec
      (by rintro - ⟨⟩) (.refused hstate rfl hl hres)))
  · rename_i hnone
    rw [hnone] at hres
    have hflow : (x.withFlow f).onFlow f.task (Flow.setState .setting)
        = x.withFlow (f.setState .setting) := by
      simp [Sjob.onFlow, Sjob.withFlow, updateOne]
    have htask' : f.task ∈ ((x.withFlow f).onFlow f.task
        (Flow.setState .setting)).tasks :=
      Sjob.mem_tasks_onFlow (fun _ => rfl) htask
    refine .act (.blockState hb _) ?_
    refine .act (.flowState (by exact htask) _) ?_
    refine .call rfl (by simp [Call.job?]) fun now => ?_
    refine .act (.flowActive (by exact htask') now) ?_
    refine .last (.raw (by simp) (by simp) (by rintro - - ⟨⟩) ?_)
    refine .like (y := ((x.withFlow (f.setState .setting)).onBlock f.block
      (Block.setState .transferring)).setState .launching) ?_
      (.pure (.launched rfl rfl hl hres))
    rw [← hflow]
    exact Sjob.Alike.hideFlow fun _ => rfl

theorem verifyAndLaunch_spec {rjob : Option Rawjob} {src dst : Dtn}
    {st st' : Option String} (hempty : x.flows = [])
    (hb : block ∈ x.blockIds) (hlive : tr.strict → s ≠ .finished) :
    tr.Spec ⟨x.setState s, none, [], none, none⟩
      (verifyAndLaunch conf rjob x.rawjob x.id block src dst st st')
      (AttemptOutcome tr.files tr.launcher tr.answer x block) := by
  refine .state (by simp) hlive (.act (.stage ..)
    (.net (.verifyPath src dst) (fun _ hc => nomatch hc)
      fun r s' hs' => ?_))
  have hlive' : tr.strict → s' ≠ .finished := by
    rcases hs' with rfl | hs'
    · exact fun _ hc => nomatch hc
    · exact fun _ => hs'.ne_finished
  split
  · exact .act (.stage ..) (.act (.stage ..) (scheduleCleanUp_spec hlive'
      .failed))
  · refine .act (.stage ..) (.act (.stage ..) (.seq
      (P := fun fl d => fl.state = .scheduling ∧ fl.block = block
        ∧ d = ⟨x.setState s', none, [], none, some fl.task⟩) ?_ ?_))
    · exact .draw fun t => .call rfl (by simp [Call.job?]) fun now =>
        .pure ⟨_, rfl, rfl, rfl, rfl⟩
    · rintro fl d ⟨hstate, rfl, rfl⟩
      exact launchFlow_spec hempty hstate hb hlive'

theorem connectAndLaunch_spec {rjob : Option Rawjob} {pair : DtnPair}
    (hempty : x.flows = []) (hb : block ∈ x.blockIds)
    (hlive : tr.strict → s ≠ .finished) :
    tr.Spec ⟨x.setState s, none, [], none, none⟩
      (connectAndLaunch conf rjob x.rawjob x.id block pair)
      (AttemptOutcome tr.files tr.launcher tr.answer x block) := by
  refine .act (.stage ..) ?_
  split
  · refine .act (.stage ..) (.net (.networkHandling ..) hlive
      fun res s' hs' => ?_)
    have hlive' : tr.strict → s' ≠ .finished := by
      rcases hs' with rfl | hs'
      · exact hlive
      · exact fun _ => hs'.ne_finished
    split
    · exact .act (.stage ..) (scheduleCleanUp_spec hlive' .failed)
    · exact verifyAndLaunch_spec hempty hb hlive'
  · exact .act (.stage ..) (.act (.stage ..) (.act (.stage ..)
      (verifyAndLaunch_spec hempty hb hlive)))

theorem scheduleBlock_spec (conf : Conf) (tr : Tracker x)
    (hempty : x.flows = [])
    (hb : block ∈ x.blockIds) (hlive : tr.strict → x.state ≠ .finished) :
    tr.Spec (.init x) (scheduleBlock conf x block)
      (AttemptOutcome tr.files tr.launcher tr.answer x block) := by
  refine .read fun rjob => .read fun src => .read fun dst =>
    .state (by simp) hlive (.act (.stage ..) (.act (.stage ..)
      (.net (.findBestEffortDtnPair ..) (fun _ hc => nomatch hc)
        fun r s' hs' => ?_)))
  have hlive' : tr.strict → s' ≠ .finished := by
    rcases hs' with rfl | hs'
    · exact fun _ hc => nomatch hc
    · exact fun _ => hs'.ne_finished
  split
  · exact .act (.stage ..) (.act (.stage ..) (scheduleCleanUp_spec hlive'
      .failed))
  · exact .act (.stage ..) (.act (.stage ..)
      (connectAndLaunch_spec hempty hb hlive'))

end attempt

-- ============================================================== sampling

theorem flowFailed_spec {err : String}
    (hlive : tr.strict → d.doc.state ≠ .finished)
    {Q : Except String Unit → Delta → Prop}
    (h : Q (.ok ()) { d with doc := d.doc.fail, raw := some .error }) :
    tr.Spec d (flowFailed x.rawjob x.id err) Q := by
  refine .state (by simp) hlive (.act (.sjobError err) (.raw (by simp)
    (fun _ => rfl) (by simp) (.last (.act (.rawError err)
      (.like (y := d.doc.fail) ?_ (.pure h))))))
  exact (Sjob.Alike.fail (.refl _) err).symm

/-- Network work made twice over, and what follows. -/
theorem teardownBoth_spec {α : Type} {p : Handler α}
    {Q : Except String α → Delta → Prop}
    (hlive : tr.strict → d.doc.state ≠ .finished)
    (hp : ∀ s, (tr.strict → s ≠ .finished) →
      tr.Spec { d with doc := d.doc.setState s } p Q) :
    tr.Spec d (do
      let _ ← teardownSdnPath x.id f.srcDtn f.dstDtn
      let _ ← teardownWanPath x.id f.srcDtn.wanUuid
      p) Q := by
  have keep : ∀ {s s' : SjobState}, (tr.strict → s ≠ .finished) →
      s' = s ∨ s'.Network → tr.strict → s' ≠ .finished := by
    rintro s s' hs (rfl | hn)
    · exact hs
    · exact fun _ => hn.ne_finished
  refine .net (.teardownSdnPath ..) hlive fun _ s hs =>
    .net (.teardownWanPath ..) (keep hlive hs) fun _ s' hs' => ?_
  exact hp s' (keep (keep hlive hs) hs')

theorem unknownTask_spec (hl : f.Live) (hf : f.task ∈ x.tasks)
    (hb : f.block ∈ x.blockIds)
    (hlive : tr.strict → x.state ≠ .finished) :
    tr.Spec (.init x) (unknownTask x.rawjob x f) fun r d =>
      ∃ a, r = .ok a ∧ SampleOutcome x f none d :=
  teardownBoth_spec hlive fun _ hs => .act (.flowState hf _)
    (.act (.blockState hb _) (flowFailed_spec hs
      ⟨(), rfl, .unknown hl⟩))

theorem countSample_spec {n : Int} (hl : f.Live) (hf : f.task ∈ x.tasks)
    (hb : f.block ∈ x.blockIds)
    (hlive : tr.strict → x.state ≠ .finished) :
    tr.Spec (.init x) (countSample conf x.rawjob x f n) fun r d =>
      ∃ v, r = .ok v ∧ SampleOutcome x f (some v) d := by
  refine .call rfl (by simp [Call.job?]) fun now => .seq
    (P := fun _ d => d = .init x ∨ d =
      ⟨((x.onFlow f.task (Flow.setState .error)).onBlock f.block
        (Block.setState .waiting)).fail, some .error, [], none, none⟩) ?_ ?_
  · unfold checkActivity
    split
    · exact .last (.act (.flowActive hf _) (.like (y := x)
        (Sjob.Alike.hideFlow fun _ => rfl)
        (.pure ⟨(), rfl, .inl rfl⟩)))
    · split
      · exact .act (.flowState hf _) (.act (.blockState hb _)
          (teardownBoth_spec hlive fun _ hs => flowFailed_spec hs
            ⟨(), rfl, .inr rfl⟩))
      · exact .pure ⟨(), rfl, .inl rfl⟩
  · -- the bytes are counted in both cases
    rintro - d (rfl | rfl)
    · refine .act (.blockTx hb _) (.act (.flowTx (by exact hf) _) ?_)
      exact .like (Sjob.Alike.hideFlow fun _ => rfl)
        (.pure ⟨_, rfl, .counted hl⟩)
    · have hf' : f.task ∈ (x.onFlow f.task (Flow.setState .error)).tasks :=
        Sjob.mem_tasks_onFlow (fun _ => rfl) hf
      refine .act (.blockTx hb _) (.act (.flowTx (by exact hf') _) ?_)
      exact .like (Sjob.Alike.hideFlow fun _ => rfl)
        (.pure ⟨_, rfl, .inactive hl⟩)

/-- The sampling of one flow. -/
theorem pollFlow_spec (hf : f.task ∈ x.tasks) (hb : f.block ∈ x.blockIds)
    (hlive : tr.strict → x.state ≠ .finished) :
    tr.Spec (.init x) (pollFlow conf x.rawjob x f) fun r d => match r with
      | .ok v => SampleOutcome x f v d
      | .error _ => d = .init x ∧ tr.launcher = false := by
  unfold pollFlow
  split
  · rename_i hlv
    refine .launcherQueue (fun _ => ?_) (fun hl => ⟨rfl, hl⟩)
    refine .call rfl (by simp [Call.job?]) fun rate => ?_
    split
    · exact .pure .skipped
    · split
      · refine .seq (P := fun _ d => SampleOutcome x f none d)
          (unknownTask_spec hlv hf hb hlive) fun _ d hd => .pure hd
      · split
        · exact .pure .skipped
        · exact .seq (countSample_spec hlv hf hb hlive) fun v d hd => .pure hd
  · exact .pure .skipped

end BigDataExpress
