/-
One flow, one live block: whatever reports arrive, in whatever order and
however often, an sjob has at most one flow, the only block that can be
in transfer is the one the flow names, and a relaunch sends the files of
the block it records.
-/
import BigDataExpress.Proofs.Atomic

namespace BigDataExpress

open Interact Collection

-- ============================================================ relaunches

/-- The block a flow carries after a report is the one whose files were
launched. -/
theorem ReportOutcome.launch_files {files : Oid → BlockFiles}
    {launcher : Bool} {x : Sjob} {f : Flow} {params : StatusParams}
    {v : Bool} {d : Delta} (hf : x.flows = [f])
    (ho : ReportOutcome files launcher x f params v d) {cmd : LaunchCmd}
    (hc : cmd ∈ d.launches) :
    ∃ g ∈ d.doc.flows, g.task = f.task ∧ cmd = f.launchCmd (files g.block) := by
  have hone := Sjob.onFlow_single (x := x) hf
  cases ho with
  | @next fin n h3 hv hsel hl =>
      rw [List.mem_singleton] at hc
      refine ⟨f.carry n, ?_, rfl, hc⟩
      have hfl := hone (Flow.carry n)
      exact hfl ▸ List.mem_singleton_self _
  | retry h3 hv hr hl =>
      rw [List.mem_singleton] at hc
      refine ⟨f.carry f.block, ?_, rfl, hc⟩
      have hfl := hone (Flow.carry f.block)
      exact hfl ▸ List.mem_singleton_self _
  | _ => cases hc

/-- A launch in the log, with the handler that made it. -/
theorem mem_launchesOf {log : List LogEntry} {p : HandlerId × LaunchCmd} :
    p ∈ launchesOf log
      ↔ ∃ e ∈ log, e.owner = p.1 ∧ ∃ b, e.call = .launch b p.2 := by
  unfold launchesOf
  rw [List.mem_filterMap]
  constructor
  · rintro ⟨e, he, hp⟩
    split at hp
    · cases hp
      exact ⟨_, he, rfl, _, rfl⟩
    · cases hp
  · rintro ⟨⟨h, c, r⟩, he, ho, b, hc⟩
    obtain ⟨h', cmd⟩ := p
    simp only at ho hc
    subst ho hc
    exact ⟨_, he, rfl⟩

/-- The files and mode a launch command carries are those of the block
that the flow of its task names. -/
def World.Carries (w : World) (cmd : LaunchCmd) : Prop :=
  ∃ x ∈ w.sjobs, ∃ f ∈ x.flows, f.task = cmd.task
    ∧ cmd.files = (w.blockFiles f.block).files
    ∧ cmd.mode = (w.blockFiles f.block).mode

/-- A report launches the files of the block it then records. -/
theorem Change.launch_files {conf : Conf} {w w' : World} {l : List Sjob}
    {t : Guid} {params : StatusParams} {a : Answers}
    (h : Change conf l (.status t params a) w w') {new : List LogEntry}
    (hnew : w'.log = w.log ++ new) {p : HandlerId × LaunchCmd}
    (hp : p ∈ launchesOf new) : p.2.task = t ∧ w'.Carries p.2 := by
  cases h with
  | none =>
      rw [List.self_eq_append_right] at hnew
      subst hnew
      cases hp
  | report hx herr hf hp' hv ho ht =>
      obtain ⟨new', hlog, hl, -⟩ := ht.log
      rw [hlog, List.append_cancel_left_eq] at hnew
      subst hnew
      rw [hl, List.mem_map] at hp
      obtain ⟨cmd, hc, rfl⟩ := hp
      obtain ⟨g, hg, hgt, rfl⟩ := ho.launch_files hf hc
      obtain ⟨g', hg', hm⟩ := ht.alike.symm.flow hg
      have htask : g'.task = g.task := congrArg (·.1) hm
      have hblock : g'.block = g.block := congrArg (·.2.2) hm
      refine ⟨Flow.launchCmd_task .., _, ht.doc_mem, g', hg', ?_, ?_, ?_⟩
      · rw [htask, hgt, Flow.launchCmd_task]
      · simp [Flow.launchCmd, World.blockFiles, ht.blockDocs, hblock]
      · simp [Flow.launchCmd, World.blockFiles, ht.blockDocs, hblock]

-- ============================================================ every run

/-- In every state of every run each sjob has at most one flow, and its
blocks in transfer are the one block that the flow names; and whatever
report is handled next, a launch it makes sends the files of the block
that the flow then names. -/
theorem one_flow_one_live_block {conf : Conf} {w : World} (hw : w.Fresh)
    {s : Server} (hrun : Server.Run conf (fun _ _ => True) ⟨w, []⟩ s) :
    (∀ x ∈ s.world.sjobs, x.flows.length ≤ 1
      ∧ (∀ b ∈ x.blocks, b.state = .transferring →
          ∃ f ∈ x.flows, f.block = b.id)
      ∧ ∀ b ∈ x.blocks, ∀ b' ∈ x.blocks, b.state = .transferring →
          b'.state = .transferring → b = b')
    ∧ ∀ t params a s', Server.Step conf (.status t params a) s s' →
        ∀ new, s'.world.log = s.world.log ++ new →
        ∀ p ∈ launchesOf new, p.2.task = t ∧ s'.world.Carries p.2 := by
  have hg := hrun.good hw.good
  refine ⟨fun x hx => ?_, fun t params a s' hs new hnew p hp => ?_⟩
  · have hsx := hg.sound x hx
    refine ⟨hsx.single, hsx.carried, fun b hb b' hb' hst hst' => ?_⟩
    obtain ⟨f, hf, hfb⟩ := hsx.carried b hb hst
    obtain ⟨f', hf', hfb'⟩ := hsx.carried b' hb' hst'
    have hff : f = f' := by
      have := hsx.flows_eq hf
      rw [this, List.mem_singleton] at hf'
      exact hf'.symm
    have hid : b'.id = b.id := by rw [← hfb, ← hfb', hff]
    have hfind := find?_key Block.id (hg.wf.blockIds_nodup hx) hb
    have hfind' := find?_key Block.id (hg.wf.blockIds_nodup hx) hb'
    rw [hid, hfind] at hfind'
    exact Option.some.inj hfind'
  · exact (hs.change hg).1.launch_files hnew hp

/-- After the first block of two is reported done, the second one is on
its way, on the same flow. -/
theorem one_flow_one_live_block_second :
    (launchesOf (launchedOne.reported (plainConf false) true true 0
      3).world.log).map (fun p => p.2.files.map (·.size)) = [[20], [21]]
    ∧ ∀ x ∈ (launchedOne.reported (plainConf false) true true 0
        3).world.sjobs, x.flows.length ≤ 1 :=
  ⟨rfl, fun x hx => ((one_flow_one_live_block twoBlocks_fresh
    ((run_launchedOne trivial trivial).reported true true 0 3
      trivial)).1 x hx).1⟩

end BigDataExpress
