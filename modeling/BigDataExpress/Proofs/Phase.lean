/-
The phases of the handlers: what a handler can do next that is not
quiet.

# The phases

The handler of a completion is dispatched, reads the sjob, adds the rest
of the block to the counters of the block, the sjob and the rawjob, and
then either marks the block finished or takes its bytes back; after that
it may launch a block on the flow and, once the launch is made, record
it in the flow. A scheduling pass works on sjobs it has read without a
flow: for each it may draw a task, insert the flow, and launch. A
polling pass reads the sjobs of a rawjob and goes through them: it
samples the flow, adds the difference to the block, to the sjob, and in
the end to the rawjob.

# The moves

`Move` lists what one action can do in each phase, and `mldStatus`,
`schedule` and `pollRate` are shown to make only such moves (`Walks`).
Invariants of the server are proved from the moves alone.
-/
import BigDataExpress.Proofs.Quiet

namespace BigDataExpress

open Interact Collection SiteStore

-- ============================================================ the phases

/-- The counters of a block, in the order in which they are added to. -/
inductive Level
  | block | sjob | rawjob
deriving DecidableEq

inductive HandlerPhase
  /-- only quiet operations are left -/
  | quiet
  /-- a completion, before the sjob is read -/
  | dispatched (t : Guid)
  /-- the rest of the block `k` is added, next to this counter -/
  | count (x : Sjob) (f : Flow) (k : Block) (l : Level)
  /-- all is counted, and nothing decided -/
  | verify (x : Sjob) (f : Flow) (k : Block)
  /-- the size of the block is taken back, next from this counter -/
  | uncount (x : Sjob) (f : Flow) (k : Block) (l : Level)
  /-- a block may be launched on the flow -/
  | relaunch (x : Sjob) (f : Flow)
  /-- the block `n` was launched, and the flow does not know -/
  | launched (x : Sjob) (f : Flow) (n : Oid)
  /-- a scheduling pass, before it reads the sjobs -/
  | pass
  /-- the sjobs `xs` may still be given a flow -/
  | scheduling (xs : List Sjob)
  /-- the task `t` was drawn for the sjob `x` -/
  | drawn (xs : List Sjob) (x : Sjob) (t : Guid)
  /-- the flow is stored, and its block not launched -/
  | inserted (xs : List Sjob) (t : Guid) (b : Oid)
  /-- a polling pass, before it knows of a launcher -/
  | poll
  /-- a polling pass between two rawjobs -/
  | polling
  /-- the sjobs `ids` of a rawjob are to be read, `xs` have been, and
  `acc` bytes of others are not added to the rawjob -/
  | summing (rid : Oid) (ids : List Oid) (xs : List Sjob) (acc : Int)
  /-- the flow `f` of `x` was sampled -/
  | rated (rid : Oid) (x : Sjob) (f : Flow) (n : Int) (xs : List Sjob)
      (acc : Int)
  /-- `d` bytes of a block of `x` are not added to `x` -/
  | owing (rid : Oid) (x : Sjob) (d : Int) (xs : List Sjob) (acc : Int)

namespace HandlerPhase

/-- The phases a handler may end in. -/
def Stops : HandlerPhase → Prop
  | quiet | relaunch .. | pass | scheduling _ | inserted .. | poll
  | polling => True
  | _ => False

end HandlerPhase

-- ============================================================= the moves

/-- The sjobs of a pass that may be given a flow. -/
def World.idleSjobs (w : World) : List Sjob :=
  w.activeBestEffortSjobs.filter (·.flows.isEmpty)

/-- What one action of the handler `h` can do; `adm` are the answers a
call can have. -/
inductive Move (adm : World → (e : Call) → Reply e → Prop) (h : HandlerId) :
    HandlerPhase → World → HandlerPhase → World → Prop
  | quiet {s : HandlerPhase} {w w' : World} : w.Quiet w' → Move adm h s w s w'
  -- a completion
  | ignore {t : Guid} {w : World} : Move adm h (.dispatched t) w .quiet w
  | read {t : Guid} {x : Sjob} {f : Flow} {k : Block} {w : World} :
      x ∈ w.sjobs → f ∈ x.flows → f.task = t → k ∈ x.blocks →
      k.id = f.block →
      Move adm h (.dispatched t) w (.count x f k .block) w
  | countBlock {x : Sjob} {f : Flow} {k : Block} {w : World} :
      Move adm h (.count x f k .block) w (.count x f k .sjob)
        (w.incrementSjobBlockField f.block (k.size - k.txBytes))
  | countSjob {x : Sjob} {f : Flow} {k : Block} {w : World} :
      Move adm h (.count x f k .sjob) w (.count x f k .rawjob)
        (w.incrementSjobTxBytes x.id (k.size - k.txBytes))
  | countRawjob {x : Sjob} {f : Flow} {k : Block} {w : World} :
      Move adm h (.count x f k .rawjob) w (.verify x f k)
        (w.incrementRawjobField x.rawjob (k.size - k.txBytes))
  | accept {x : Sjob} {f : Flow} {k : Block} {w : World} :
      Move adm h (.verify x f k) w (.relaunch x f)
        (w.updateSjobBlockState f.block .finished)
  | uncountBlock {x : Sjob} {f : Flow} {k : Block} {w : World} :
      Move adm h (.verify x f k) w (.uncount x f k .sjob)
        (w.incrementSjobBlockField f.block (-k.size))
  | uncountSjob {x : Sjob} {f : Flow} {k : Block} {w : World} :
      Move adm h (.uncount x f k .sjob) w (.uncount x f k .rawjob)
        (w.incrementSjobTxBytes x.id (-k.size))
  | uncountRawjob {x : Sjob} {f : Flow} {k : Block} {w : World} :
      Move adm h (.uncount x f k .rawjob) w (.relaunch x f)
        (w.incrementRawjobField x.rawjob (-k.size))
  | relaunch {x : Sjob} {f : Flow} {n : Oid} {cmd : LaunchCmd}
      {r : Reply (.launch n cmd)} {w : World} : n ∈ x.blockIds →
      cmd.task = f.task → Move adm h (.relaunch x f) w (.launched x f n)
        (w.record h (.launch n cmd) r)
  | carry {x : Sjob} {f : Flow} {n : Oid} {w : World} :
      Move adm h (.launched x f n) w .quiet
        (w.updateSjobFlowBlock f.task n)
  -- a scheduling pass
  | pass {w : World} : Move adm h .pass w (.scheduling w.idleSjobs) w
  | draw {xs : List Sjob} {x : Sjob} {w : World} : x ∈ xs →
      Move adm h (.scheduling xs) w
        (.drawn (xs.filter (·.id ≠ x.id)) x w.guids.length)
        (w.drawGuid x.id)
  | insert {xs : List Sjob} {x : Sjob} {f : Flow} {w : World} :
      f.block ∈ x.blockIds →
      Move adm h (.drawn xs x f.task) w (.inserted xs f.task f.block)
        (w.insertFlow x.id f)
  | launch {xs : List Sjob} {t : Guid} {b : Oid} {cmd : LaunchCmd}
      {r : Reply (.launch b cmd)} {w : World} : cmd.task = t →
      Move adm h (.inserted xs t b) w (.scheduling xs)
        (w.record h (.launch b cmd) r)
  -- a polling pass
  | check {w : World} : w.hasLauncher = true → Move adm h .poll w .polling w
  | list {rid : Oid} {w : World} : Move adm h .polling w (.summing rid
      ((w.sjobs.filter (·.rawjob == rid)).map (·.id)) [] 0) w
  | cursor {rid i : Oid} {ids : List Oid} {xs : List Sjob} {w : World} :
      Move adm h (.summing rid (i :: ids) xs 0) w
        (.summing rid ids (xs ++ (w.sjob? i).toList) 0) w
  | rate {rid : Oid} {x : Sjob} {f : Flow} {xs : List Sjob} {acc : Int}
      {r : RateAnswer} {w : World} : f ∈ x.flows →
      adm w (.mldRate f.task) r → r.timedOut = false → r.code = 0 →
      Move adm h (.summing rid [] (x :: xs) acc) w
        (.rated rid x f r.transferred xs acc)
        (w.record h (.mldRate f.task) r)
  | sample {rid : Oid} {x : Sjob} {f : Flow} {n : Int} {xs : List Sjob}
      {acc : Int} {w : World} :
      Move adm h (.rated rid x f n xs acc) w
        (.owing rid x (n - lastTxBytes x f.block) xs acc)
        (w.incrementSjobBlockField f.block (n - lastTxBytes x f.block))
  | tally {rid : Oid} {x : Sjob} {d : Int} {xs : List Sjob} {acc : Int}
      {w : World} :
      Move adm h (.owing rid x d xs acc) w (.summing rid [] xs (acc + d))
        (w.incrementSjobTxBytes x.id d)
  | skip {rid : Oid} {x : Sjob} {xs : List Sjob} {acc : Int} {w : World} :
      Move adm h (.summing rid [] (x :: xs) acc) w (.summing rid [] xs acc)
        (w.incrementSjobTxBytes x.id 0)
  | total {rid : Oid} {acc : Int} {w : World} :
      Move adm h (.summing rid [] [] acc) w .polling
        (w.incrementRawjobField rid acc)
  | unknown {rid : Oid} {x : Sjob} {f : Flow} {xs : List Sjob} {acc : Int}
      {r : RateAnswer} {w : World} : f ∈ x.flows →
      adm w (.mldRate f.task) r → r.timedOut = false → r.code = 1 →
      Move adm h (.summing rid [] (x :: xs) acc) w .quiet
        (w.record h (.mldRate f.task) r)
  | gone {rid : Oid} {x : Sjob} {xs : List Sjob} {acc : Int} {w : World} :
      w.hasLauncher = false →
      Move adm h (.summing rid [] (x :: xs) acc) w .quiet w

/-- What handlers rely on: flows name blocks of their sjob, and there is
at most one. -/
structure World.Tidy (w : World) : Prop where
  wf : w.WF
  names : ∀ x ∈ w.sjobs, ∀ f ∈ x.flows, f.block ∈ x.blockIds
  single : ∀ x ∈ w.sjobs, x.flows.length ≤ 1

/-- The abstract machine of the handlers. -/
def phases (adm : World → (e : Call) → Reply e → Prop) :
    Phases World HandlerId Call Reply HandlerPhase where
  pre _ w := w.Tidy
  move := Move adm
  stop := HandlerPhase.Stops

-- ====================================================== quiet programs

section follow

variable {ru : Rules} {h : HandlerId} {α β : Type}

/-- The handler makes only moves, and ends as said. -/
abbrev Walks (ru : Rules) (h : HandlerId) (p : Handler α)
    (Q : Except String α → HandlerPhase → Prop) (s : HandlerPhase) : Prop :=
  p.Follows (ru.env h) (fun _ w => w.Tidy) (Move ru.reply h) Q s

end follow

end BigDataExpress

namespace Interact.Prog.Follows

open BigDataExpress SiteStore

variable {ru : Rules} {h : HandlerId} {α β : Type}
  {Q : Except String α → HandlerPhase → Prop} {s : HandlerPhase}

/-- A quiet part stays in its phase. -/
theorem quiet_acts {p : Handler α} (hp : QuietActs p) :
    Walks ru h p (fun r s' => ∃ a, r = .ok a ∧ s' = s) s :=
  .of_acts (fun _ hf w _ => .quiet (hf w))
    (fun _ he _ _ _ _ => .quiet (.record he)) hp

theorem quiet {p : Handler β} {k : β → Handler α}
    (hp : QuietActs p) (hk : ∀ b, Walks ru h (k b) Q s) :
    Walks ru h (p >>= k) Q s := by
  refine .seq (P := fun _ s' => s' = s) (quiet_acts hp) ?_
  rintro b s' rfl
  exact hk b

/-- A quiet part at the end. -/
theorem stop {p : Handler α} (hp : QuietActs p)
    (hs : ∀ a, Q (.ok a) s) : Walks ru h p Q s := by
  refine (quiet_acts hp).mono ?_
  rintro r s' ⟨a, rfl, rfl⟩
  exact hs a

theorem op {f : World → World} {k : Unit → Handler α}
    (hf : QuietOp f) (hk : Walks ru h (k ()) Q s) :
    Walks ru h (Prog.modify f >>= k) Q s :=
  .modify s (fun w _ => .quiet (hf w)) hk

/-- A read whose result is not looked at. -/
theorem any {f : World → β} {k : β → Handler α}
    (hk : ∀ b, Walks ru h (k b) Q s) :
    Walks ru h (Prog.read f >>= k) Q s :=
  .read fun w _ => ⟨s, .quiet (.refl w), hk _⟩

theorem call {e : Call} {k : Reply e → Handler α}
    (he : e.isLaunch = false) (hk : ∀ r, Walks ru h (k r) Q s) :
    Walks ru h (BigDataExpress.ask e >>= k) Q s :=
  .ask fun _ r _ _ => ⟨s, .quiet (.record he), hk r⟩

theorem stageIf {c : Bool} {sid : Oid} {st : StageName}
    {v : SjobStage} {k : Unit → Handler α}
    (hk : Walks ru h (k ()) Q s) :
    Walks ru h (updateSjobStageIf c sid st v >>= k) Q s := by
  cases c with
  | true => exact .op .stage hk
  | false => exact hk

/-- `rm.launcher()`, in a phase where the handler may give up. -/
theorem launcherQueue {k : Unit → Handler α}
    (hk : Walks ru h (k ()) Q s) (hs : ∀ m, Q (.error m) s) :
    Walks ru h (BigDataExpress.launcherQueue >>= k) Q s := by
  refine .bind (M := fun _ s' => s' = s) ?_ ?_ ?_
  · refine .any fun b => ?_
    cases b with
    | true => exact .pure rfl
    | false => rfl
  · rintro ⟨⟩ s' rfl
    exact hk
  · rintro m s' rfl
    exact hs m

end Interact.Prog.Follows

namespace BigDataExpress

open Interact Collection SiteStore

section follow

variable {ru : Rules} {h : HandlerId} {α β : Type}

-- ========================================================= a completion

section completion

variable {conf : Conf} {x : Sjob} {f : Flow} {k : Block}

/-- The end of a handler. -/
abbrev Ends (α : Type) : Except String α → HandlerPhase → Prop :=
  fun _ s => s.Stops

theorem countFinished_walks
    (hk : x.blocks.find? (·.id == f.block) = some k) :
    Walks ru h (countFinished x f)
      (fun r s => ∃ a, r = .ok a ∧ s = .verify x f k)
      (.count x f k .block) := by
  unfold countFinished
  rw [hk]
  refine .call rfl fun _ => ?_
  refine .modify _ (fun w _ => .countBlock) (.op .flowTx ?_)
  refine .modify _ (fun w _ => .countSjob) ?_
  refine .modify _ (fun w _ => .countRawjob) ?_
  exact .op .siteTx (.stop (.modify .siteRx) fun a => ⟨a, rfl, rfl⟩)

theorem retrogress_walks
    (hk : x.blocks.find? (·.id == f.block) = some k) :
    Walks ru h (retrogress x f)
      (fun r s => ∃ a, r = .ok a ∧ s = .relaunch x f) (.verify x f k) := by
  unfold retrogress
  rw [hk]
  refine .modify _ (fun w _ => .uncountBlock) (.op .flowTx ?_)
  refine .modify _ (fun w _ => .uncountSjob) ?_
  exact .last (.modify _ (fun w _ => .uncountRawjob) ⟨(), rfl, rfl⟩)

theorem relaunch_walks {block : Oid} {files : BlockFiles} {new : Bool}
    (hb : block ∈ x.blockIds) :
    Walks ru h (relaunch conf x f block files new) (Ends Unit)
      (.relaunch x f) := by
  refine .op .stage (.op .stage (.stageIf (.any fun b => ?_)))
  cases b with
  | false =>
      exact .op .stage (.stop .teardown_jobFail fun _ => trivial)
  | true =>
      refine .op .sjobState (.launcherQueue ?_ fun _ => trivial)
      refine .ask fun w r _ _ => ⟨.launched x f block,
        .relaunch hb f.launching_task, ?_⟩
      refine .op (.blockState (by decide))
        (.modify .quiet (fun w _ => .carry) ?_)
      exact .stop (.op .flowState (.modify .rawState)) fun _ => trivial

/-- A block that is selected is one of the sjob's. -/
theorem selectBlock_mem {done n : Oid} {bs : List Block} {b fin : Bool}
    (hsel : selectBlock done bs b = (fin, some n)) :
    n ∈ bs.map (·.id) := by
  induction bs generalizing b with
  | nil => simp [selectBlock] at hsel
  | cons k bs ih =>
      simp only [selectBlock] at hsel
      rw [List.map_cons, List.mem_cons]
      split at hsel
      · exact .inr (ih hsel)
      · split at hsel
        · exact .inr (ih hsel)
        · exact .inr (ih hsel)
        · simp only [Prod.mk.injEq, Option.some.injEq] at hsel
          exact .inl hsel.2.symm

theorem blockAccepted_walks :
    Walks ru h (blockAccepted conf x f) (Ends Unit) (.verify x f k) := by
  refine .modify _ (fun w _ => .accept) (.call rfl fun _ =>
    .op .blockStop ?_)
  split
  · rename_i fin n hsel
    exact .any fun files => relaunch_walks (selectBlock_mem hsel)
  · exact .stop (.flowDone ..) fun _ => trivial

theorem blockRefused_walks {files : BlockFiles}
    (hk : x.blocks.find? (·.id == f.block) = some k)
    (hb : f.block ∈ x.blockIds) :
    Walks ru h (blockRefused conf x f files) (Ends Unit)
      (.verify x f k) := by
  refine .seq (retrogress_walks hk) ?_
  rintro - s rfl
  refine .op .retry ?_
  split
  · exact .stop .teardown_jobFail fun _ => trivial
  · exact relaunch_walks hb

theorem statusFinished_walks
    (hk : x.blocks.find? (·.id == f.block) = some k)
    (hb : f.block ∈ x.blockIds) :
    Walks ru h (statusFinished conf x f) (Ends Unit)
      (.count x f k .block) := by
  refine .op .stage (.op .stage (.op .flowState
    (.seq (countFinished_walks hk) ?_)))
  rintro - s rfl
  refine .any fun files => .quiet (.verifyChecksums ..) fun ok => ?_
  split
  · exact blockAccepted_walks
  · exact blockRefused_walks hk hb

/-- The phase in which the handler of a report starts. -/
def Report.phase (r : Report) : HandlerPhase :=
  if r.Completes then .dispatched r.task else .quiet

theorem mldStatus_walks (conf : Conf) (r : Report) :
    Walks ru h (mldStatus conf r.task r.params) (Ends Unit) r.phase := by
  by_cases hr : r.Completes
  · rw [Report.phase, if_pos hr]
    refine .read fun w hw => ?_
    have leave : ∃ s', Move ru.reply h (.dispatched r.task) w s' w
        ∧ Walks ru h (pure () : Handler Unit) (Ends Unit) s' :=
      ⟨.quiet, .ignore, trivial⟩
    cases hx : w.sjobs.find? (Sjob.hasTask r.task) with
    | none => exact leave
    | some x =>
        simp only
        split
        · exact leave
        · cases hf : x.flows.find? (·.task == r.task) with
          | none => exact leave
          | some f =>
              have hxm := List.mem_of_find?_eq_some hx
              have hfm := List.mem_of_find?_eq_some hf
              have ht : f.task = r.task := by simpa using List.find?_some hf
              have hb := hw.names x hxm f hfm
              obtain ⟨k, hkm, hid⟩ := List.mem_map.mp hb
              have hk : x.blocks.find? (·.id == f.block) = some k := by
                rw [← hid]
                exact find?_key Block.id (hw.wf.blockIds_nodup hxm) hkm
              refine ⟨_, .read hxm hfm ht hkm hid, ?_⟩
              have h3 : r.params.state = 3 := hr
              simp only [handleReport, h3]
              exact statusFinished_walks hk hb
  · rw [Report.phase, if_neg hr]
    refine .any fun x => ?_
    split
    · trivial
    · split
      · trivial
      · split
        · trivial
        · unfold handleReport
          split
          · exact .stop (.statusStarted ..) fun _ => trivial
          · split
            · exact .stop (.statusError ..) fun _ => trivial
            · rw [if_neg (show ¬ r.params.state = 3 from hr)]
              trivial

end completion

end follow

end BigDataExpress
