/-
Sjobs that have ended. A failed sjob is left alone by everything that
comes later: reports are refused by its error message, scheduling passes
do not pick it and polling passes find no live flow. Nothing of the sort
guards a finished sjob against a late report, which starts it again; so
long as no report is handled for a finished sjob, it is left alone too.
-/
import BigDataExpress.Proofs.Live

namespace BigDataExpress

open Interact Collection

/-- The sjob has ended, well or not. -/
def Sjob.Terminal (x : Sjob) : Prop := x.state = .error ∨ x.state = .finished

/-- A call made for an sjob: labelled with it, or a launch with one of
its tasks. -/
def LogEntry.IsFor (e : LogEntry) (x : Sjob) : Prop :=
  e.call.job? = some x.id ∨ ∃ b cmd, e.call = .launch b cmd
    ∧ cmd.task ∈ x.tasks

/-- The sjob `x` looks as before, and no call was made for it. -/
structure World.LeftAlone (w : World) (x : Sjob) (w' : World) : Prop where
  doc : w'.StillAs x
  log : ∃ new, w'.log = w.log ++ new ∧ ∀ e ∈ new, ¬ e.IsFor x

namespace World.LeftAlone

variable {w w' w'' : World} {x y z : Sjob}

theorem refl (hx : x ∈ w.sjobs) : w.LeftAlone x w :=
  ⟨⟨x, hx, rfl, rfl, .refl x⟩, [], by simp, by simp⟩

theorem trans (h : w.LeftAlone x w') {y : Sjob} (hid : y.id = x.id)
    (hr : y.rawjob = x.rawjob) (ha : x.Alike y) (h' : w'.LeftAlone y w'') : w.LeftAlone x w'' := by
  obtain ⟨z, hz, hzid, hzr, hza⟩ := h'.doc
  obtain ⟨new, hlog, hnew⟩ := h.log
  obtain ⟨new', hlog', hnew'⟩ := h'.log
  refine ⟨⟨z, hz, hzid.trans hid, hzr.trans hr, ha.trans hza⟩, new ++ new', ?_, ?_⟩
  · rw [hlog', hlog, List.append_assoc]
  · intro e he
    rcases List.mem_append.mp he with he | he
    · exact hnew e he
    · have := hnew' e he
      unfold LogEntry.IsFor at this ⊢
      rwa [hid, ha.tasks] at this

/-- Work on another sjob. -/
theorem other {h : HandlerId} {d : Delta} (hx : x ∈ w.sjobs)
    (ht : At h w z y d w') (hne : x.id ≠ z.id) : w.LeftAlone x w' := by
  have hx' := ht.mem_iff.mpr (.inr ⟨hx, hne⟩)
  refine ⟨⟨x, hx', rfl, rfl, .refl x⟩, ?_⟩
  obtain ⟨new, hlog, hl, hlab⟩ := ht.log
  refine ⟨new, hlog, ?_⟩
  rintro e he (hjob | ⟨b, cmd, hcall, hmem⟩)
  · exact hne ((hlab e he).2 x.id (by rw [hjob]; rfl))
  · -- the task of a launch belongs to the other sjob
    have hcmd : (e.owner, cmd) ∈ launchesOf new :=
      mem_launchesOf.mpr ⟨e, he, rfl, b, hcall⟩
    rw [hl, List.mem_map] at hcmd
    obtain ⟨c, hc, hpair⟩ := hcmd
    obtain rfl : c = cmd := congrArg Prod.snd hpair
    have hxy := ht.wf.eq_of_task ht.doc_mem hx' (ht.own c hc) hmem
    exact hne (by rw [hxy, ht.id])

end World.LeftAlone

-- ============================================================= one step

/-- No report is handled for a finished sjob. -/
def NoneAfterFinish (e : Event) (s : Server) : Prop :=
  ∀ t params a, e = .status t params a →
    params.state = 1 ∨ params.state = 2 ∨ params.state = 3 →
    ∀ x ∈ s.world.sjobs, t ∈ x.tasks → x.state ≠ .finished

section step

variable {conf : Conf} {w w' : World} {x : Sjob}

theorem PollStep.leftAlone (h : PollStep w w') (hwf : w.WF) (hs : w.Sound)
    (hx : x ∈ w.sjobs) (ht : x.Terminal) : w.LeftAlone x w' := by
  cases h with
  | sample hz hf hl ho hat =>
      refine .other hx hat fun hid => ?_
      have hxz := hwf.eq_of_id hz hx hid
      subst hxz
      exact (hs x hx).ended ht _ (by rw [hf]; exact List.mem_singleton_self _)
        hl
  | @idle z y hz hat hlog =>
      refine ⟨?_, [], by simp [hlog], by simp⟩
      by_cases hid : x.id = z.id
      · obtain rfl := hwf.eq_of_id hz hx hid
        exact ⟨y, hat.doc_mem, hat.id, hat.rawjob, hat.alike⟩
      · exact ⟨x, hat.mem_iff.mpr (.inr ⟨hx, hid⟩), rfl, rfl, .refl x⟩
  | totals hsame =>
      exact ⟨⟨x, by rw [hsame.sjobs]; exact hx, rfl, rfl, .refl x⟩, [],
        by simp [hsame.log], by simp⟩

theorem PollRun.leftAlone (h : PollRun w w') (hp : w.WF ∧ w.Sound)
    (hx : x ∈ w.sjobs) (ht : x.Terminal) : w.LeftAlone x w' := by
  induction h with
  | refl => exact .refl hx
  | tail hrun hst ih =>
      obtain ⟨y, hy, hid, hr, ha⟩ := ih.doc
      have hp' := PollRun.sound hrun hp
      refine ih.trans hid hr ha (hst.leftAlone hp'.1 hp'.2 hy ?_)
      unfold Sjob.Terminal
      rw [ha.state]
      exact ht

/-- Whatever happens to a world, an sjob that has ended is left alone. -/
theorem Change.leftAlone {e : Event} {l : List Sjob}
    (h : Change conf l e w w') (hwf : w.WF) (hs : w.Sound)
    (hc : x.state = .finished → NoneAfterFinish e ⟨w, l⟩) (hx : x ∈ w.sjobs) (ht : x.Terminal) :
    w.LeftAlone x w' := by
  cases h with
  | none => exact .refl hx
  | launcher => exact ⟨⟨x, hx, rfl, rfl, .refl x⟩, [], by simp, by simp⟩
  | report hz herr hf hp hv ho hat =>
      refine .other hx hat fun hid => ?_
      have hxz := hwf.eq_of_id hz hx hid
      subst hxz
      rcases ht with ht | ht
      · have := (hs x hx).failed.mpr ht
        simp [herr] at this
      · exact hc ht _ _ _ rfl hp x hx (by simp [Sjob.tasks, hf]) ht
  | attempt hl hz hid hr ha hact hempty hb ho hat =>
      refine .other hx hat fun hxid => ?_
      have hxz := hwf.eq_of_id hz hx (hxid.trans hid.symm)
      rw [hxz] at ht
      unfold Sjob.Terminal at ht
      rw [ha.state] at ht
      rcases ht with ht | ht <;> simp [World.isActive, ht] at hact
  | poll hrun => exact hrun.leftAlone ⟨hwf, hs⟩ hx ht

end step

-- ============================================================ every run

/-- In a run in which no report is handled for a finished sjob, an sjob
that has ended keeps its state and those of its blocks and flows, and no
call is made for it any more. -/
theorem terminal_absorbing {conf : Conf} {w : World} (hw : w.Fresh)
    {s₁ s₂ : Server}
    (h₁ : Server.Run conf (fun _ _ => True) ⟨w, []⟩ s₁)
    (h₂ : Server.Run conf NoneAfterFinish s₁ s₂) {x : Sjob}
    (hx : x ∈ s₁.world.sjobs)
    (ht : x.state = .error ∨ x.state = .finished) :
    (∃ y ∈ s₂.world.sjobs, y.id = x.id ∧ y.state = x.state
      ∧ y.blocks.map (fun b => (b.id, b.state))
        = x.blocks.map (fun b => (b.id, b.state))
      ∧ y.flows.map (fun f => (f.task, f.state))
        = x.flows.map (fun f => (f.task, f.state)))
    ∧ ∃ new, s₂.world.log = s₁.world.log ++ new
      ∧ ∀ e ∈ new, e.call.job? ≠ some x.id
        ∧ ∀ b cmd, e.call = .launch b cmd → cmd.task ∉ x.tasks := by
  have hg := h₁.good hw.good
  have halone : s₁.world.LeftAlone x s₂.world ∧ s₂.Good := by
    induction h₂ with
    | refl => exact ⟨.refl hx, hg⟩
    | @tail s s' _ hst ih =>
        obtain ⟨e, hc, hst⟩ := hst
        obtain ⟨hl, hgs⟩ := ih
        obtain ⟨hch, hgs'⟩ := hst.change hgs
        obtain ⟨y, hy, hid, hr, ha⟩ := hl.doc
        refine ⟨hl.trans hid hr ha (hch.leftAlone hgs.wf
          hgs.sound (fun _ => hc) hy ?_), hgs'⟩
        unfold Sjob.Terminal
        rw [ha.state]
        exact ht
  obtain ⟨⟨y, hy, hid, -, ha⟩, new, hlog, hnew⟩ := halone.1
  refine ⟨⟨y, hy, hid, ha.state, ?_, ?_⟩, new, hlog, fun e he => ?_⟩
  · have := congrArg (List.map fun m => (m.1, m.2.1)) ha.blocks
    rw [List.map_map, List.map_map] at this
    exact this
  · have := congrArg (List.map fun m => (m.1, m.2.1)) ha.flows
    rw [List.map_map, List.map_map] at this
    exact this
  · have := hnew e he
    exact ⟨fun hj => this (.inl hj), fun b cmd hc hm => this
      (.inr ⟨b, cmd, hc, hm⟩)⟩

/-- The sjob of two blocks fails with its first one. -/
def failedOne : Server := launchedOne.reported (plainConf false) true true 0 2

/-- A report of completion that comes after the failure changes
nothing. -/
theorem terminal_absorbing_late_report :
    failedOne.world.sjobs.map (·.state) = [.error]
    ∧ ∃ x ∈ failedOne.world.sjobs, ∃ y ∈ (failedOne.reported
        (plainConf false) true true 0 3).world.sjobs,
        y.id = x.id ∧ y.state = x.state := by
  refine ⟨rfl, ?_⟩
  obtain ⟨x, hx⟩ : ∃ x, failedOne.world.sjobs = [x] := ⟨_, rfl⟩
  have hst : [x].map (·.state) = [SjobState.error] := by rw [← hx]; rfl
  have hmem : x ∈ failedOne.world.sjobs := by simp [hx]
  have hlate : NoneAfterFinish (.status 0 ⟨3, 0⟩ (.of true true))
      failedOne := by
    rintro _ _ _ ⟨⟩ - z hz - hfin
    rw [hx, List.mem_singleton] at hz
    subst hz
    simp [hfin] at hst
  obtain ⟨⟨y, hy, hid, hs, -⟩, -⟩ := terminal_absorbing twoBlocks_fresh
    ((run_launchedOne trivial trivial).reported true true 0 2 trivial)
    (Server.Run.reported .refl true true 0 3 hlate) hmem
    (.inl (by simpa using hst))
  exact ⟨x, hmem, y, hy, hid, hs⟩

-- ====================================================== a finished sjob

/-- An sjob of one block, and nothing else. -/
def oneBlock : World := newWorld [newSjob 10 1 [20]]

/-- The block is launched and reported done: the sjob is finished. -/
def finishedOne : Server :=
  ((Server.passed ⟨oneBlock, []⟩).attempted (plainConf false) true
    true).reported (plainConf false) true true 0 3

/-- The report that the transfer has started, delivered again after the
sjob is finished, puts it and its flow back in transfer. -/
theorem finished_sjob_restarted :
    Server.Run (plainConf false) (fun _ _ => True) ⟨oneBlock, []⟩ finishedOne
    ∧ Server.Run (plainConf false) (fun _ _ => True) finishedOne
        (finishedOne.reported (plainConf false) true true 0 1)
    ∧ finishedOne.world.sjobs.map
        (fun x => (x.state, x.flows.map (·.state)))
      = [(.finished, [.waitingToBeTeared])]
    ∧ (finishedOne.reported (plainConf false) true true 0
        1).world.sjobs.map (fun x => (x.state, x.flows.map (·.state)))
      = [(.transferring, [.transferring])] :=
  ⟨((Server.Run.passed .refl rfl trivial).attempted true true
      (by exact nofun) trivial).reported true true 0 3 trivial,
    Server.Run.reported .refl true true 0 1 trivial, rfl, rfl⟩

end BigDataExpress
