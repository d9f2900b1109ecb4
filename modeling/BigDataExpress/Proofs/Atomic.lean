/-
The state machine of whole handlers: what each event can do, and the
invariant of its runs.

`Change` is the inversion of a step: nothing, one outcome of a report or
of a scheduling attempt for one sjob, or a polling pass. The invariant
(`Server.Good`) is that the store is well-formed, its sjobs are sound,
and that the sjobs a scheduling pass has still to look at are, unless
they had a flow to begin with, as the pass has read them.
-/
import BigDataExpress.Proofs.Poll

namespace BigDataExpress

open Interact Collection

-- ====================================================== initial states

/-- An sjob as `bootstrap()` stores it. -/
structure Sjob.Fresh (x : Sjob) : Prop where
  state : x.state = .bootstrap
  flows : x.flows = []
  error : x.error = none
  txBytes : x.txBytes = 0
  blocks : ∀ b ∈ x.blocks, b.state = .waiting ∧ b.txBytes = 0 ∧ 0 ≤ b.size

/-- A store of jobs just submitted, before any handler has run. -/
structure World.Fresh (w : World) : Prop where
  wf : w.WF
  sjobs : ∀ x ∈ w.sjobs, x.Fresh
  rawjobs : ∀ r ∈ w.rawjobs, r.state = .waiting ∧ r.txBytes = 0
  log : w.log = []
  reports : w.reports = []
  delivered : w.delivered = []
  sjobevents : w.sjobevents = []

theorem Sjob.Fresh.sound {x : Sjob} (h : x.Fresh) : x.Sound where
  single := by simp [h.flows]
  names := by simp [h.flows]
  carried := by
    intro b hb hst
    rw [(h.blocks b hb).1] at hst
    cases hst
  failed := by simp [h.error, h.state]
  ended := by simp [h.flows]

-- ======================================================== the inversion

/-- What an event can do to the world; `l` are the sjobs the scheduling
pass has still to look at. -/
inductive Change (conf : Conf) (l : List Sjob) :
    Event → World → World → Prop
  | none {e : Event} {w : World} : Change conf l e w w
  | launcher {w : World} {b : Bool} :
      Change conf l (.launcher b) w { w with hasLauncher := b }
  /-- a report for the flow `f` of the sjob `x` -/
  | report {w w' : World} {x y : Sjob} {f : Flow} {params : StatusParams}
      {a : Answers} {n : Nat} {v : Bool} {d : Delta} : x ∈ w.sjobs →
      x.error = none → x.flows = [f] →
      params.state = 1 ∨ params.state = 2 ∨ params.state = 3 →
      (params.state = 3 →
        if (w.blockFiles f.block).checked conf then a.verified v
        else v = true) →
      ReportOutcome w.blockFiles w.hasLauncher x f params v d →
      At (.status n) w x y d w' →
      Change conf l (.status f.task params a) w w'
  /-- an attempt at the block `b` of the sjob `z`, read as `x` -/
  | attempt {w w' : World} {x y z : Sjob} {b : Block} {a : Answers}
      {r : Except String Unit} {d : Delta} : l.head? = some x →
      z ∈ w.sjobs → z.id = x.id →
      z.rawjob = x.rawjob → x.Alike z → World.isActive x = true →
      x.flows = [] → b ∈ x.blocks →
      AttemptOutcome w.blockFiles w.hasLauncher a.launched x b.id r d →
      At .schedule w x y d w' → Change conf l (.schedule a) w w'
  | poll {w w' : World} : PollRun w w' → Change conf l .poll w w'

-- ========================================================= the invariant

/-- The sjob read as `x` still looks so. -/
def World.StillAs (w : World) (x : Sjob) : Prop :=
  ∃ z ∈ w.sjobs, z.id = x.id ∧ z.rawjob = x.rawjob ∧ x.Alike z

structure Server.Good (s : Server) : Prop where
  wf : s.world.WF
  sound : s.world.Sound
  active : ∀ x ∈ s.pending, World.isActive x = true
  nodup : (s.pending.map (·.id)).Nodup
  same : ∀ x ∈ s.pending, x.flows = [] → s.world.StillAs x

theorem World.Fresh.good {w : World} (h : w.Fresh) :
    Server.Good ⟨w, []⟩ :=
  ⟨h.wf, fun x hx => (h.sjobs x hx).sound, by simp, by simp, by simp⟩

section step

variable {conf : Conf} {w w' : World} {x y z : Sjob} {d : Delta}
  {l : List Sjob}

/-- Work on another sjob leaves the document alone. -/
theorem World.StillAs.other {h : HandlerId} (hs : w.StillAs z)
    (ht : At h w x y d w') (hne : z.id ≠ x.id) : w'.StillAs z := by
  obtain ⟨u, hu, hid, hr, ha⟩ := hs
  exact ⟨u, ht.mem_iff.mpr (.inr ⟨hu, hid ▸ hne⟩), hid, hr, ha⟩

/-- An sjob with a flow is not one read without. -/
theorem World.StillAs.ne_of_flow {f : Flow} (hwf : w.WF) (hs : w.StillAs z)
    (hz : z.flows = []) (hx : x ∈ w.sjobs) (hf : x.flows = [f]) :
    z.id ≠ x.id := by
  obtain ⟨u, hu, hid, -, ha⟩ := hs
  intro he
  have hux := hwf.eq_of_id hx hu (hid.trans he)
  have hlen := congrArg List.length ha.flows
  rw [List.length_map, List.length_map, hux, hf, hz] at hlen
  cases hlen

theorem PollStep.stillAs (h : PollStep w w') (hwf : w.WF)
    (hz : z.flows = []) (hs : w.StillAs z) : w'.StillAs z := by
  cases h with
  | sample hx hf hl ho ht => exact hs.other ht (hs.ne_of_flow hwf hz hx hf)
  | @idle x y hx ht hlog =>
      by_cases hne : z.id = x.id
      · obtain ⟨u, hu, hid, hr, ha⟩ := hs
        obtain rfl := hwf.eq_of_id hx hu (hid.trans hne)
        exact ⟨y, ht.doc_mem, ht.id.trans hid, ht.rawjob.trans hr,
          ha.trans ht.alike⟩
      · exact hs.other ht hne
  | totals ht =>
      obtain ⟨u, hu, hrest⟩ := hs
      exact ⟨u, by rw [ht.sjobs]; exact hu, hrest⟩

theorem PollRun.stillAs (h : PollRun w w') (hp : w.WF ∧ w.Sound)
    (hz : z.flows = []) (hs : w.StillAs z) :
    (w'.WF ∧ w'.Sound) ∧ w'.StillAs z := by
  induction h with
  | refl => exact ⟨hp, hs⟩
  | tail _ hst ih =>
      obtain ⟨⟨hwf, hsd⟩, hs'⟩ := ih
      exact ⟨⟨hst.wf hwf, hst.sound hwf hsd⟩, hst.stillAs hwf hz hs'⟩

theorem PollRun.sound (h : PollRun w w') (hp : w.WF ∧ w.Sound) :
    w'.WF ∧ w'.Sound := by
  induction h with
  | refl => exact hp
  | tail _ hst ih => exact ⟨hst.wf ih.1, hst.sound ih.1 ih.2⟩

/-- Work on one sound sjob keeps the sjobs sound. -/
theorem At.sound {h : HandlerId} (ht : At h w x y d w') (hs : w.Sound)
    (hd : d.doc.Sound) : w'.Sound := by
  intro u hu
  rcases ht.mem_iff.mp hu with rfl | ⟨hu, -⟩
  · exact ht.alike.sound hd
  · exact hs u hu

-- =============================================================== a report

/-- The flow a report is for. -/
theorem mldStatus_change (conf : Conf) (t : Guid) (params : StatusParams)
    {a : Answers} {n : Nat} {o : Oracle World Call Reply} (hwf : w.WF)
    (hs : w.Sound) (ho : o.Admissible (a.env (.status n))) :
    Change conf l (.status t params a) w
      ((mldStatus conf t params).run (a.env (.status n)) o w).2 := by
  unfold mldStatus SiteStore.getSjobFromTaskId
  rw [Prog.run_read]
  split
  · exact .none
  · rename_i x hx
    have hmem := List.mem_of_find?_eq_some hx
    split
    · exact .none
    · rename_i herr
      have hnone : x.error = none := by simpa using herr
      split
      · exact .none
      · rename_i f hf
        have hfm := List.mem_of_find?_eq_some hf
        obtain rfl : f.task = t := by simpa using List.find?_some hf
        have hsound := hs x hmem
        have hspec := handleReport_spec conf (exact (.status n) a w x)
          params (hwf.blockIds_nodup hmem)
          (List.mem_map_of_mem hfm) (hsound.names f hfm)
          (fun hf => hf.elim)
        obtain ⟨d, y, ht, -, v, hv, hout⟩ :=
          exact_run hwf hmem rfl rfl (.refl x) hspec ho
        by_cases hp : params.state = 1 ∨ params.state = 2
            ∨ params.state = 3
        · exact .report hmem hnone (hsound.flows_eq hfm) hp hv hout ht
        · simp only [not_or] at hp
          have hskip : handleReport conf x f params = pure () := by
            simp only [handleReport, hp, if_false]
          rw [hskip]
          exact .none

-- ============================================================ an attempt

theorem Server.iterate_world (conf : Conf) (a : Answers)
    (o : Oracle World Call Reply) (w : World) (x : Sjob) (xs : List Sjob) :
    (Server.iterate conf a o w x xs).world
      = ((scheduleSjob conf x).run (a.env .schedule) o w).2 := by
  unfold Server.iterate
  split
  · rename_i hr
    rw [hr]
  · rename_i hr
    rw [hr]

theorem scheduleSjob_change (conf : Conf) {a : Answers}
    {o : Oracle World Call Reply} {xs : List Sjob} (hg : Server.Good ⟨w, x :: xs⟩)
    (ho : o.Admissible (a.env .schedule)) :
    Change conf (x :: xs) (.schedule a) w (Server.iterate conf a o w x xs).world
      ∧ ∀ z ∈ xs, z.flows = [] →
        (Server.iterate conf a o w x xs).world.StillAs z := by
  rw [Server.iterate_world]
  have hrest : ∀ z ∈ xs, z.flows = [] → w.StillAs z :=
    fun z hz => hg.same z (List.mem_cons_of_mem _ hz)
  unfold scheduleSjob
  split
  · exact ⟨.none, hrest⟩
  · rename_i hlen
    have hempty : x.flows = [] := by
      cases hfl : x.flows with
      | nil => rfl
      | cons f fs => simp [hfl] at hlen
    split
    · rename_i b hb
      have hbm := List.mem_of_find?_eq_some hb
      obtain ⟨z, hz, hid, hr, ha⟩ := hg.same x (List.mem_cons_self ..) hempty
      obtain ⟨d, y, ht, hout⟩ := exact_run hg.wf hz hid hr ha
        (scheduleBlock_spec conf (exact .schedule a w x) hempty
          (List.mem_map_of_mem hbm) fun hf => hf.elim) ho
      refine ⟨.attempt rfl hz hid hr ha (hg.active x (List.mem_cons_self ..))
        hempty hbm hout ht, fun u hu hfu => (hrest u hu hfu).other ht ?_⟩
      have hnd := hg.nodup
      rw [List.map_cons, List.nodup_cons] at hnd
      exact fun he => hnd.1 (he ▸ List.mem_map_of_mem hu)
    · exact ⟨.none, hrest⟩

-- ========================================================= the invariant

/-- An active sjob has not failed. -/
theorem Sjob.Sound.error_of_active (hx : x.Sound)
    (hact : World.isActive x = true) : x.error = none := by
  have hne : x.state ≠ .error := by
    intro hc
    simp [World.isActive, hc] at hact
  have := mt hx.failed.mp hne
  simpa using this

theorem Change.sound {e : Event} (h : Change conf l e w w') (hwf : w.WF)
    (hs : w.Sound) : w'.WF ∧ w'.Sound := by
  cases h with
  | none => exact ⟨hwf, hs⟩
  | launcher => exact ⟨hwf.congr rfl rfl (List.prefix_refl _), hs⟩
  | report hx herr hf hp hv ho ht =>
      exact ⟨ht.wf, ht.sound hs (ho.sound (hs _ hx)
        (hwf.blockIds_nodup hx) hf herr)⟩
  | attempt hl hz hid hr ha hact hempty hb ho ht =>
      have hx := ha.symm.sound (hs _ hz)
      have hnodup := hwf.blockIds_nodup hz
      rw [ha.blockIds] at hnodup
      exact ⟨ht.wf, ht.sound hs (ho.sound hx hnodup hempty
        (hx.error_of_active hact) (List.mem_map_of_mem hb))⟩
  | poll hrun => exact hrun.sound ⟨hwf, hs⟩

/-- Work on an sjob with a flow leaves those read without one alone. -/
theorem Change.stillAs {e : Event} (h : Change conf l e w w')
    (hwf : w.WF) (hs : w.Sound) (he : ∀ a, e ≠ .schedule a)
    (hz : z.flows = []) (hst : w.StillAs z) : w'.StillAs z := by
  cases h with
  | none => exact hst
  | launcher => exact hst
  | report hx herr hf hp hv ho ht =>
      exact hst.other ht (hst.ne_of_flow hwf hz hx hf)
  | attempt => exact absurd rfl (he _)
  | poll hrun => exact (hrun.stillAs ⟨hwf, hs⟩ hz hst).2

/-- Every step is a change, and keeps the invariant. -/
theorem Server.Step.change {s s' : Server} {e : Event}
    (h : Server.Step conf e s s') (hg : s.Good) :
    Change conf s.pending e s.world s'.world ∧ s'.Good := by
  cases h with
  | @pass w =>
      refine ⟨.none, hg.wf, hg.sound, ?_, ?_, ?_⟩
      · intro x hx
        have := (List.mem_insertionSort _).mp hx
        exact (List.mem_filter.mp this).2
      · have hperm := List.perm_insertionSort
          (fun a b : Sjob => a.submittedAt ≤ b.submittedAt)
          (w.sjobs.filter World.isActive)
        refine (hperm.map (·.id)).nodup_iff.mpr ?_
        exact hg.wf.ids.sublist (List.filter_sublist.map _)
      · intro x hx _
        have := (List.mem_insertionSort _).mp hx
        exact ⟨x, (List.mem_filter.mp this).1, rfl, rfl, .refl x⟩
  | @schedule w x xs a o ho =>
      obtain ⟨hch, hsame⟩ := scheduleSjob_change conf hg ho
      obtain ⟨hwf, hs⟩ := hch.sound hg.wf hg.sound
      have hnd := hg.nodup
      rw [List.map_cons, List.nodup_cons] at hnd
      refine ⟨hch, hwf, hs, ?_, ?_, ?_⟩
      · intro z hz
        refine hg.active z (List.mem_cons_of_mem _ ?_)
        unfold iterate at hz
        split at hz
        · exact hz
        · cases hz
      · unfold iterate
        split
        · exact hnd.2
        · exact List.nodup_nil
      · intro z hz hfz
        refine hsame z ?_ hfz
        unfold iterate at hz
        split at hz
        · exact hz
        · cases hz
  | @status w l t params a n o ho =>
      have hch := mldStatus_change (l := l) conf t params hg.wf hg.sound ho
      obtain ⟨hwf, hs⟩ := hch.sound hg.wf hg.sound
      exact ⟨hch, hwf, hs, hg.active, hg.nodup, fun x hx hf =>
        hch.stillAs hg.wf hg.sound nofun hf (hg.same x hx hf)⟩
  | @poll w l o =>
      have hrun := (Prog.wp_run (E := Answers.any.env .pollRate) (o := o)
        (fun w e => ?_) (pollRate_wp conf hg.wf hg.sound)).2
      have hch : Change conf l .poll w _ := .poll hrun
      · obtain ⟨hwf, hs⟩ := hch.sound hg.wf hg.sound
        exact ⟨hch, hwf, hs, hg.active, hg.nodup, fun x hx hf =>
          hch.stillAs hg.wf hg.sound nofun hf (hg.same x hx hf)⟩
      · cases e <;> trivial
  | launcher =>
      exact ⟨.launcher, hg.wf.congr rfl rfl (List.prefix_refl _), hg.sound,
        hg.active, hg.nodup, hg.same⟩

/-- The invariant holds in every state of every run. -/
theorem Server.Run.good {C : Event → Server → Prop} {s s' : Server}
    (h : Server.Run conf C s s') (hg : s.Good) : s'.Good := by
  induction h with
  | refl => exact hg
  | tail _ hst ih =>
      obtain ⟨e, -, hst⟩ := hst
      exact (hst.change ih).2

end step

-- ====================================================== a concrete store

/-- A DTN that needs no path. -/
def publicDtn (id : String) : Dtn where
  id := id
  ip := "192.0.2.1"
  dataIp := "192.0.2.1"
  dataMac := ""
  dtpCtrlPort := 5001
  sdnSetup := false
  dataVlanId := 0
  wanStatic := []
  stp := none
  site := ⟨"", ""⟩
  wanUuid := ""
  pathId := -1

/-- Every call is answered well, but for the verification of checksums
and launches, which are answered as said. -/
def plainOracle (verified launched : Bool) : Oracle World Call Reply :=
  fun _ e => match e with
    | .availableDtn .. => (⟨200, none, [], [publicDtn "dtn"]⟩ : DtnAnswer)
    | .sdnReserve .. => (⟨0, some 7, "", ""⟩ : ReserveAnswer)
    | .sdnRelease .. => ()
    | .icmpPing .. => (⟨200, some 0, ""⟩ : PingAnswer)
    | .verifyChecksum .. =>
        (⟨200, some (if verified then 0 else 1)⟩ : VerifyAnswer)
    | .wanCreate .. => (⟨"wan", 1, 1, 1⟩ : WanCreateRes)
    | .wanReserve .. => (201 : Int)
    | .wanCommit .. => (200 : Int)
    | .wanRelease .. => (200 : Int)
    | .wanTerminate .. => (200 : Int)
    | .wanDelete .. => (200 : Int)
    | .launch .. =>
        (⟨if launched then none else some "refused"⟩ : LaunchAnswer)
    | .mldRate .. => (⟨false, 0, 10⟩ : RateAnswer)
    | .epochMs => (0 : Int)

/-- These two answers. -/
def Answers.of (verified launched : Bool) : Answers :=
  ⟨(· = verified), (· = launched)⟩

theorem plainOracle_admissible (verified launched : Bool) (h : HandlerId) :
    (plainOracle verified launched).Admissible
      ((Answers.of verified launched).env h) := by
  intro w e
  cases e with
  | verifyChecksum => cases verified <;> rfl
  | launch => cases launched <;> rfl
  | _ => trivial

/-- A rawjob just submitted. -/
def newRawjob (id : Oid) : Rawjob :=
  ⟨id, .waiting, 0, 90, 91, ⟨"", "", ""⟩, ⟨"", "", ""⟩, none⟩

/-- An sjob just stored, with these blocks of 100 bytes. -/
def newSjob (id rawjob : Oid) (blocks : List Oid) : Sjob where
  id := id
  rawjob := rawjob
  type := .bestEffort
  submittedAt := 0
  state := .bootstrap
  srcsite := 90
  dstsite := 91
  srcstorage := "/src"
  dststorage := "/dst"
  txBytes := 0
  maxFlows := 1
  transferRetry := 0
  flows := []
  blocks := blocks.map fun i => ⟨i, .waiting, 100, 0, 0, 0⟩
  error := none

/-- A store with one rawjob and these sjobs; the file of a block has the
block's number as its size. -/
def newWorld (sjobs : List Sjob) : World where
  rawjobs := [newRawjob 1]
  sjobs := sjobs
  sites := []
  blockDocs := (sjobs.flatMap Sjob.blockIds).map fun i =>
    ⟨i, [⟨"f", "g", i⟩], 0, some ⟨"md5", []⟩⟩
  sjobevents := []
  stages := fun _ _ => none
  guids := []
  hasLauncher := true
  log := []
  reports := []
  delivered := []

/-- Passwords for the launcher, checksums if said so. -/
def plainConf (checksum : Bool) : Conf :=
  .default checksum (some ("user", "password"))

theorem newSjob_fresh (id rawjob : Oid) (blocks : List Oid) :
    (newSjob id rawjob blocks).Fresh := by
  refine ⟨rfl, rfl, rfl, rfl, fun b hb => ?_⟩
  obtain ⟨i, -, rfl⟩ := List.mem_map.mp hb
  exact ⟨rfl, rfl, Int.natCast_nonneg 100⟩

theorem newWorld_fresh {xs : List Sjob}
    (hnew : ∀ x ∈ xs, ∃ i bs, x = newSjob i 1 bs)
    (hids : (xs.map (·.id)).Nodup)
    (hblocks : (xs.flatMap Sjob.blockIds).Nodup) : (newWorld xs).Fresh where
  wf := {
    ids := hids
    blocks := hblocks
    tasks := by
      intro x hx
      obtain ⟨i, bs, rfl⟩ := hnew x hx
      exact List.nodup_nil
    owner := by
      intro x hx t ht
      obtain ⟨i, bs, rfl⟩ := hnew x hx
      cases ht
    rawjobs := List.nodup_singleton 1
    owned := by
      intro x hx
      obtain ⟨i, bs, rfl⟩ := hnew x hx
      exact List.mem_singleton_self 1 }
  sjobs := by
    intro x hx
    obtain ⟨i, bs, rfl⟩ := hnew x hx
    exact newSjob_fresh i 1 bs
  rawjobs := by
    intro r hr
    rw [List.mem_singleton.mp hr]
    exact ⟨rfl, rfl⟩
  log := rfl
  reports := rfl
  delivered := rfl
  sjobevents := rfl

namespace Server

/-- The pass looks at the next sjob. -/
def attempted (conf : Conf) (verified launched : Bool) (s : Server) : Server :=
  match s.pending with
  | [] => s
  | x :: xs => iterate conf (.of verified launched)
      (plainOracle verified launched) s.world x xs

/-- A report is handled. -/
def reported (conf : Conf) (verified launched : Bool) (t : Guid)
    (state : Int) (s : Server) : Server :=
  ⟨((mldStatus conf t ⟨state, 0⟩).run
    ((Answers.of verified launched).env (.status 0))
    (plainOracle verified launched) s.world).2, s.pending⟩

/-- A pass begins. -/
def passed (s : Server) : Server := ⟨s.world, s.world.activeBestEffortSjobs⟩

variable {conf : Conf} {C : Event → Server → Prop} {s s' : Server}

theorem Run.passed (h : Run conf C s s') (hp : s'.pending = [])
    (hc : C .pass s') : Run conf C s s'.passed := by
  obtain ⟨w, l⟩ := s'
  obtain rfl : l = [] := hp
  exact h.tail ⟨_, hc, .pass⟩

theorem Run.attempted (h : Run conf C s s') (v l : Bool)
    (hp : s'.pending ≠ []) (hc : C (.schedule (.of v l)) s') :
    Run conf C s (s'.attempted conf v l) := by
  obtain ⟨w, xs⟩ := s'
  cases xs with
  | nil => exact absurd rfl hp
  | cons x xs => exact h.tail ⟨_, hc, .schedule (plainOracle_admissible v l _)⟩

theorem Run.reported (h : Run conf C s s') (v l : Bool) (t : Guid)
    (state : Int) (hc : C (.status t ⟨state, 0⟩ (.of v l)) s') :
    Run conf C s (s'.reported conf v l t state) :=
  h.tail ⟨_, hc, .status (plainOracle_admissible v l _)⟩

theorem Run.launcher (h : Run conf C s s') (b : Bool)
    (hc : C (.launcher b) s') :
    Run conf C s ⟨{ s'.world with hasLauncher := b }, s'.pending⟩ :=
  h.tail ⟨_, hc, .launcher⟩

end Server

/-- An sjob of two blocks, and nothing else. -/
def twoBlocks : World := newWorld [newSjob 10 1 [20, 21]]

theorem twoBlocks_fresh : twoBlocks.Fresh :=
  newWorld_fresh (by
    intro x hx
    exact ⟨10, [20, 21], List.mem_singleton.mp hx⟩) (by decide) (by decide)

/-- The first of the two blocks is launched. -/
def launchedOne : Server :=
  (Server.passed ⟨twoBlocks, []⟩).attempted (plainConf false) true true

theorem run_launchedOne {C : Event → Server → Prop}
    (hpass : C .pass ⟨twoBlocks, []⟩)
    (hsch : C (.schedule (.of true true)) (Server.passed ⟨twoBlocks, []⟩)) :
    Server.Run (plainConf false) C ⟨twoBlocks, []⟩ launchedOne :=
  (Server.Run.passed (.refl) rfl hpass).attempted true true nofun hsch

end BigDataExpress
