/-
What a failed sjob leaves behind. A failure that the launcher reports,
or that polling finds, resets the flow and its block, and an attempt
that fails before its launch has no flow yet. A failure inside a report
of completion, and a launch that is refused, leave a flow that looks
as if it were still to be used.
-/
import BigDataExpress.Proofs.Failure

namespace BigDataExpress

open Interact Collection

/-- No block is in transfer, and the flow is given up. -/
def Sjob.NoLiveWork (x : Sjob) : Prop :=
  (∀ b ∈ x.blocks, b.state ≠ .transferring)
    ∧ ∀ f ∈ x.flows, f.state = .error

section outcome

variable {x y : Sjob} {f : Flow} {d : Delta}

theorem Sjob.Alike.noLiveWork (h : x.Alike y) (hx : x.NoLiveWork) :
    y.NoLiveWork := by
  constructor
  · intro b hb hst
    obtain ⟨b', hb', hm⟩ := h.block hb
    exact hx.1 b' hb' ((congrArg (·.2.1) hm).trans hst)
  · intro g hg
    obtain ⟨g', hg', hm⟩ := h.flow hg
    have hst : g'.state = g.state := congrArg (·.2.1) hm
    rw [← hst]
    exact hx.2 g' hg'

/-- The only block that can be in transfer, if any can be, is none. -/
theorem Sjob.Carries.none (h : ∀ i, x.Carries i) :
    ∀ b ∈ x.blocks, b.state ≠ .transferring := by
  intro b hb hst
  exact Nat.succ_ne_self b.id (h (b.id + 1) b hb hst).symm

/-- The flow and its block are reset. -/
theorem Sjob.Sound.noLiveWork_reset (hx : x.Sound)
    (hnodup : x.blockIds.Nodup) (hf : x.flows = [f]) :
    ((x.onFlow f.task (Flow.setState .error)).onBlock f.block
      (Block.setState .waiting)).fail.NoLiveWork := by
  constructor
  · refine Sjob.Carries.none (x := (x.onFlow f.task
      (Flow.setState .error)).onBlock f.block (Block.setState .waiting)) ?_
    exact Sjob.Carries.clear (x := x.onFlow f.task (Flow.setState .error))
      (hx.carries hf) hnodup fun _ => nofun
  · intro g hg
    have hone := Sjob.onFlow_single hf (Flow.setState .error)
    have hg' : g ∈ (x.onFlow f.task (Flow.setState .error)).flows := hg
    rw [hone, List.mem_singleton] at hg'
    rw [hg']
    rfl

/-- The bytes of a block do not matter. -/
theorem Sjob.NoLiveWork.addTx (hx : x.NoLiveWork) (i : Oid) (v : Int) :
    (x.onBlock i (Block.addTx v)).NoLiveWork := by
  refine ⟨fun b hb => ?_, hx.2⟩
  have hmap : (x.onBlock i (Block.addTx v)).blocks.map Block.state
      = x.blocks.map Block.state := map_updateOne (f := Block.addTx v)
      (fun _ => rfl) x.blocks
  have hst := List.mem_map_of_mem (f := Block.state) hb
  rw [hmap, List.mem_map] at hst
  obtain ⟨k, hk, he⟩ := hst
  rw [← he]
  exact hx.1 k hk

variable {files : Oid → BlockFiles} {launcher : Bool}

/-- A report that fails the sjob leaves no live work unless it is a
report of completion, and launches nothing. -/
theorem ReportOutcome.noLiveWork {params : StatusParams} {v : Bool}
    (ho : ReportOutcome files launcher x f params v d) (hx : x.Sound)
    (hnodup : x.blockIds.Nodup) (hf : x.flows = [f])
    (hne : x.state ≠ .error) (he : d.doc.state = .error) :
    d.launches = [] ∧ (d.doc.NoLiveWork ↔ params.state ≠ 3) := by
  -- a flow that waits is not given up
  have hwait : ∀ z : Sjob, z.flows = (x.onFlow f.task
      (Flow.setState .waiting)).flows → ¬ z.NoLiveWork := by
    intro z hz hw
    have hmem : f.setState .waiting ∈ z.flows := by
      rw [hz, Sjob.onFlow_single hf]
      exact List.mem_singleton_self _
    cases hw.2 _ hmem
  cases ho with
  | ignored => exact absurd he hne
  | started => cases he
  | failed h2 =>
      refine ⟨rfl, fun _ => ?_, fun _ => hx.noLiveWork_reset hnodup hf⟩
      rw [h2]
      decide
  | next => cases he
  | nextFails h3 => exact ⟨rfl, fun hw => absurd hw (hwait _ rfl),
      fun h => absurd h3 h⟩
  | last => cases he
  | rest h3 hv hsel hs =>
      rcases hs with hs | hs
      · exact absurd (hs ▸ he) hne
      · exact absurd he hs.2
  | retry => cases he
  | retryFails h3 => exact ⟨rfl, fun hw => absurd hw (hwait _ rfl),
      fun h => absurd h3 h⟩

/-- An attempt that fails leaves no live work unless it has launched. -/
theorem AttemptOutcome.noLiveWork {answer : Bool → Prop} {b : Oid}
    {r : Except String Unit}
    (ho : AttemptOutcome files launcher answer x b r d) (hx : x.Sound)
    (hempty : x.flows = []) (he : d.doc.state = .error) :
    d.doc.NoLiveWork ↔ d.launches = [] := by
  cases ho with
  | failed =>
      refine ⟨fun _ => rfl, fun _ => ⟨fun k hk hst => ?_, ?_⟩⟩
      · obtain ⟨f, hf, -⟩ := hx.carried k hk hst
        rw [hempty] at hf
        cases hf
      · intro g hg
        have hg' : g ∈ x.flows := hg
        rw [hempty] at hg'
        cases hg'
  | @refused f hst hfb hl ha =>
      refine ⟨fun hw => ?_, fun hl => nomatch hl⟩
      have := hw.2 f (List.mem_singleton_self f)
      rw [hst] at this
      cases this
  | launched => cases he
  | thrown => cases he

theorem SampleOutcome.noLiveWork {u : Option Int}
    (ho : SampleOutcome x f u d) (hx : x.Sound)
    (hnodup : x.blockIds.Nodup) (hf : x.flows = [f])
    (hne : x.state ≠ .error) (he : d.doc.state = .error) :
    d.doc.NoLiveWork := by
  cases ho with
  | skipped => exact absurd he hne
  | unknown => exact hx.noLiveWork_reset hnodup hf
  | counted => exact absurd he hne
  | inactive => exact (hx.noLiveWork_reset hnodup hf).addTx _ _

theorem SampleOutcome.launches {u : Option Int}
    (ho : SampleOutcome x f u d) : d.launches = [] := by
  cases ho <;> rfl

end outcome

-- ============================================================= one step

section step

variable {conf : Conf} {w w' : World} {x y : Sjob}

/-- The launches in what a handler has added to the log. -/
theorem LogGrows.launches {h : HandlerId} {sid : Oid} {ls : List LaunchCmd}
    {l new : List LogEntry} (hg : LogGrows h sid ls l (l ++ new)) :
    launchesOf new = [] ↔ ls = [] := by
  obtain ⟨new', he, hl, -⟩ := hg
  rw [List.append_cancel_left_eq] at he
  rw [he, hl, List.map_eq_nil_iff]

/-- A part of a polling pass launches nothing. -/
theorem PollStep.launches (hp : PollStep w w') :
    launchesOf w'.log = launchesOf w.log := by
  cases hp with
  | sample hx hf hl ho ht =>
      obtain ⟨new, hlog, hn, -⟩ := ht.log
      rw [hlog, launchesOf_append, hn, ho.launches]
      simp
  | idle hx ht hlog => rw [hlog]
  | totals ht => rw [ht.log]

theorem PollRun.launches (hp : PollRun w w') :
    launchesOf w'.log = launchesOf w.log := by
  induction hp with
  | refl => rfl
  | tail _ hst ih => exact hst.launches.trans ih

/-- An sjob that a part of a polling pass has failed. -/
theorem PollStep.noLiveWork (hp : PollStep w w') (hwf : w.WF)
    (hsd : w.Sound) (hy : y ∈ w'.sjobs) (herr : y.state = .error) :
    y.NoLiveWork ∨ ∃ z ∈ w.sjobs, z.id = y.id ∧ z.state = .error
      ∧ z.Alike y := by
  cases hp with
  | @sample x _ f v d hx hf hl ho ht =>
      rcases ht.mem_iff.mp hy with rfl | ⟨hy, -⟩
      · refine .inl (ht.alike.noLiveWork (ho.noLiveWork (hsd x hx)
          (hwf.blockIds_nodup hx) hf ?_ (ht.alike.state ▸ herr)))
        intro hc
        exact (hsd x hx).ended (.inl hc) f (by simp [hf]) hl
      · exact .inr ⟨y, hy, rfl, herr, .refl y⟩
  | @idle x _ hx ht hlog =>
      rcases ht.mem_iff.mp hy with rfl | ⟨hy, -⟩
      · exact .inr ⟨x, hx, ht.id.symm, ht.alike.state ▸ herr, ht.alike⟩
      · exact .inr ⟨y, hy, rfl, herr, .refl y⟩
  | totals ht =>
      rw [ht.sjobs] at hy
      exact .inr ⟨y, hy, rfl, herr, .refl y⟩

theorem PollRun.noLiveWork (hp : PollRun w w') (hw : w.WF ∧ w.Sound)
    (hy : y ∈ w'.sjobs) (herr : y.state = .error) :
    y.NoLiveWork ∨ ∃ z ∈ w.sjobs, z.id = y.id ∧ z.state = .error := by
  induction hp generalizing y with
  | refl => exact .inr ⟨y, hy, rfl, herr⟩
  | tail hrun hst ih =>
      have hw' := PollRun.sound hrun hw
      rcases hst.noLiveWork hw'.1 hw'.2 hy herr with h | ⟨z, hz, hid, hze, ha⟩
      · exact .inl h
      · rcases ih hz hze with h | ⟨u, hu, huid, hue⟩
        · exact .inl (ha.noLiveWork h)
        · exact .inr ⟨u, hu, huid.trans hid, hue⟩

/-- The event is a report of completion. -/
def Event.Completion (e : Event) : Prop :=
  ∃ t params a, e = .status t params a ∧ params.state = 3

/-- An sjob that an event has failed has no live work exactly when the
event is not a report of completion, and has launched nothing. -/
theorem Change.noLiveWork {l : List Sjob} {e : Event}
    (hc : Change conf l e w w') (hwf : w.WF) (hsd : w.Sound)
    (hx : x ∈ w.sjobs) (hy : y ∈ w'.sjobs) (hid : y.id = x.id)
    (hne : x.state ≠ .error) (herr : y.state = .error)
    {new : List LogEntry} (hlog : w'.log = w.log ++ new) :
    y.NoLiveWork ↔ ¬ e.Completion ∧ launchesOf new = [] := by
  -- an sjob that is still as it was has not been failed
  have hsame : ∀ {v : World}, v.WF → x ∈ v.sjobs → y ∈ v.sjobs → False := by
    intro v hv hxv hyv
    have hxy := hv.eq_of_id hxv hyv hid
    rw [hxy] at herr
    exact hne herr
  cases hc with
  | none => exact (hsame hwf hx hy).elim
  | launcher => exact (hsame hwf hx hy).elim
  | report hu herru hf hp hv ho ht =>
      rcases ht.mem_iff.mp hy with hy' | ⟨hy', -⟩
      · subst hy'
        obtain rfl := hwf.eq_of_id hx hu (ht.id.symm.trans hid)
        obtain ⟨hl, hiff⟩ := ho.noLiveWork (hsd _ hx)
          (hwf.blockIds_nodup hx) hf hne (ht.alike.state ▸ herr)
        have hg := ht.log
        rw [hlog] at hg
        rw [hg.launches, hl]
        constructor
        · intro hw
          refine ⟨?_, rfl⟩
          rintro ⟨_, _, _, ⟨⟩, h3⟩
          exact hiff.mp (ht.alike.symm.noLiveWork hw) h3
        · rintro ⟨hc, -⟩
          exact ht.alike.noLiveWork (hiff.mpr fun h3 =>
            hc ⟨_, _, _, rfl, h3⟩)
      · exact (hsame hwf hx hy').elim
  | attempt hl hz hid' hr ha hact hempty hb ho ht =>
      rcases ht.mem_iff.mp hy with hy' | ⟨hy', -⟩
      · subst hy'
        have hiff := ho.noLiveWork (ha.symm.sound (hsd _ hz)) hempty
          (ht.alike.state ▸ herr)
        have hg := ht.log
        rw [hlog] at hg
        rw [hg.launches]
        constructor
        · intro hw
          refine ⟨?_, hiff.mp (ht.alike.symm.noLiveWork hw)⟩
          rintro ⟨_, _, _, ⟨⟩, -⟩
        · rintro ⟨-, hl⟩
          exact ht.alike.noLiveWork (hiff.mpr hl)
      · exact (hsame hwf hx hy').elim
  | poll hrun =>
      have hls := hrun.launches
      rw [hlog, launchesOf_append, List.append_right_eq_self] at hls
      rcases hrun.noLiveWork ⟨hwf, hsd⟩ hy herr with hw | ⟨z, hz, hzid, hze⟩
      · refine ⟨fun _ => ⟨?_, hls⟩, fun _ => hw⟩
        rintro ⟨_, _, _, ⟨⟩, -⟩
      · have hxz := hwf.eq_of_id hx hz (hzid.trans hid)
        rw [hxz] at hze
        exact absurd hze hne

end step

-- ============================================================ every run

/-- In every reachable state, a step that fails an sjob leaves none of
its blocks in transfer and its flow, if any, in state error exactly when
the step is not a report of completion and no launch was issued in
it. -/
theorem failed_sjob_no_live_work {conf : Conf} {w : World} (hw : w.Fresh)
    {s s' : Server} {e : Event}
    (hrun : Server.Run conf (fun _ _ => True) ⟨w, []⟩ s)
    (hst : Server.Step conf e s s') {x y : Sjob} (hx : x ∈ s.world.sjobs)
    (hy : y ∈ s'.world.sjobs) (hid : y.id = x.id) (hne : x.state ≠ .error)
    (herr : y.state = .error) {new : List LogEntry}
    (hlog : s'.world.log = s.world.log ++ new) :
    ((∀ b ∈ y.blocks, b.state ≠ .transferring)
      ∧ ∀ f ∈ y.flows, f.state = .error)
    ↔ (¬ ∃ t params a, e = .status t params a ∧ params.state = 3)
      ∧ launchesOf new = [] := by
  have hg := hrun.good hw.good
  exact (hst.change hg).1.noLiveWork hg.wf hg.sound hx hy hid hne herr hlog

/-- The report of an error clears the flow and the block. -/
theorem failed_sjob_no_live_work_report :
    launchedOne.world.sjobs.map
        (fun x => (x.state, x.blocks.map (·.state)))
      = [(.launching, [.transferring, .waiting])]
    ∧ failedOne.world.sjobs.map (·.state) = [.error]
    ∧ ∀ y ∈ failedOne.world.sjobs,
        (∀ b ∈ y.blocks, b.state ≠ .transferring)
        ∧ ∀ f ∈ y.flows, f.state = .error := by
  refine ⟨rfl, rfl, fun y hy => ?_⟩
  obtain ⟨x, z, hx, hz, hid, hxs, hzs⟩ : ∃ x z,
      launchedOne.world.sjobs = [x] ∧ failedOne.world.sjobs = [z]
        ∧ z.id = x.id ∧ x.state = .launching ∧ z.state = .error :=
    ⟨_, _, rfl, rfl, rfl, rfl, rfl⟩
  rw [hz, List.mem_singleton] at hy
  subst hy
  have hst : Server.Step (plainConf false)
      (.status 0 ⟨2, 0⟩ (.of true true)) launchedOne failedOne :=
    .status (plainOracle_admissible true true _)
  have hlog : failedOne.world.log = launchedOne.world.log ++ [] := by
    rw [List.append_nil]
    rfl
  refine (failed_sjob_no_live_work twoBlocks_fresh
    (run_launchedOne trivial trivial) hst (x := x) (by simp [hx])
    (by simp [hz]) hid (by simp [hxs]) hzs hlog).mpr ⟨?_, rfl⟩
  rintro ⟨_, _, _, ⟨⟩, h3⟩
  cases h3

-- ===================================================== refused blocks

/-- The first block of two is launched, with checksums to be verified. -/
def launchedChecked : Server :=
  (Server.passed ⟨twoBlocks, []⟩).attempted (plainConf true) true true

/-- A report of completion of a block whose checksums are refused. -/
def Server.refused (s : Server) : Server :=
  s.reported (plainConf true) false true 0 3

/-- The third refusal fails the sjob, whose block stays in transfer on a
flow that waits. -/
theorem refused_sjob_live_work :
    Server.Run (plainConf true) (fun _ _ => True) ⟨twoBlocks, []⟩
        launchedChecked.refused.refused
    ∧ Server.Step (plainConf true) (.status 0 ⟨3, 0⟩ (.of false true))
        launchedChecked.refused.refused
        launchedChecked.refused.refused.refused
    ∧ launchedChecked.refused.refused.world.sjobs.map (·.state)
      = [.launching]
    ∧ launchedChecked.refused.refused.refused.world.sjobs.map
        (fun x => (x.state, x.flows.map (·.state), x.blocks.map (·.state)))
      = [(.error, [.waiting], [.transferring, .waiting])] :=
  ⟨(((Server.Run.passed .refl rfl trivial).attempted true true
      (by exact nofun) trivial).reported false true 0 3 trivial).reported
      false true 0 3 trivial,
    .status (plainOracle_admissible false true _), rfl, rfl⟩

end BigDataExpress
