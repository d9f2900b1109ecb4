/-
Retransmission is bounded.

A refused verification makes the handler take the bytes back, count the
refusal in the document, and launch the block again or give the job up;
which of the two depends on the count it has read before. What a handler
deals with on the way is read off the log (`dealings`); `Refused` is what
a handler that has seen the checksums fail has done. Over a run the refusals of an sjob then are what its
document counts, and no more than two of them were followed by a launch.
-/
import BigDataExpress.Proofs.Dealings

namespace BigDataExpress

open Interact Collection SiteStore

-- ========================================================== a completion

section completion

variable {conf : Conf} {a : Answers} {h : HandlerId} {w₀ w : World}
  {l : List Dealing}

/-- The counts with one refusal more for the sjob. -/
def World.counted (w : World) (sid : Oid) : List (Oid × Int) :=
  updateOne (·.1 == sid) (fun c => (c.1, c.2 + 1)) w.retries

theorem World.retries_increment (w : World) (sid : Oid) :
    (w.incrementTransferRetry sid 1).retries = w.counted sid := by
  unfold World.counted World.retries World.incrementTransferRetry
    World.updateSjob
  generalize w.sjobs = l
  induction l with
  | nil => rfl
  | cons x l ih =>
      rw [updateOne_cons, List.map_cons, updateOne_cons]
      split
      · rfl
      · rw [List.map_cons, ih]

/-- Nothing launched, or the block. -/
def Launches (b : Oid) (l : List Dealing) : Prop :=
  l = [] ∨ ∃ ok, l = [.launch b ok]

theorem Launches.no_verdict {b : Oid} {l : List Dealing} {ok : Bool}
    (hl : Launches b l) : Dealing.verdict ok ∉ l := by
  rcases hl with rfl | ⟨v, rfl⟩
  · exact List.not_mem_nil
  · simp

/-- The dealings that were made, and the blocks that have become busy
with them. -/
structure World.Led (w : World) (l : List Dealing) (w' : World) :
    Prop where
  dealings : w'.dealings = w.dealings ++ l
  busy : ∀ b, w'.Busy b → w.Busy b ∨ ∃ ok, .launch b ok ∈ l

/-- The launch of `b` that was due has been asked for, or the job has
failed for want of a launcher. -/
def World.Served (w : World) (x : Sjob) (b : Oid) (l : List Dealing)
    (w' : World) : Prop :=
  (w.hasLauncher = true → ∃ ok, .launch b ok ∈ l)
    ∧ (w.hasLauncher = false → w'.JobFailed x)

/-- No verification has failed, and none is counted. -/
structure World.Unrefused (w : World) (l : List Dealing) (w' : World) :
    Prop where
  led : w.Led l w'
  verdicts : Dealing.verdict false ∉ l
  retries : w'.retries = w.retries

/-- The handler of a report for the flow `f` of `x` has seen the
checksums fail. -/
structure World.Refused (w : World) (x : Sjob) (f : Flow)
    (l : List Dealing) (w' : World) : Prop where
  led : w.Led (.verdict false :: l) w'
  launches : Launches f.block l
  /-- the third time is the last -/
  failed : 2 ≤ x.transferRetry → l = [] ∧ w'.JobFailed x
  served : x.transferRetry < 2 → w.Served x f.block l w'
  retries : w'.retries = w.counted x.id
  finished : ∀ i, w'.Finished i → w.Finished i

theorem World.Dealt.led {w' : World} (h : w.Dealt l w') : w.Led l w' :=
  ⟨h.dealings, h.busy⟩

/-- A change between the two that is no dealing, and makes nothing
busy. -/
theorem World.Dealt.led_over {w₁ w' : World} {m : List Dealing}
    (h : w₀.Dealt l w) (h' : w₁.Dealt m w')
    (hd : w₁.dealings = w.dealings) (hb : ∀ b, w₁.Busy b → w.Busy b) :
    w₀.Led (l ++ m) w' := by
  refine ⟨?_, fun b hbusy => ?_⟩
  · rw [h'.dealings, hd, h.dealings, List.append_assoc]
  · rcases h'.busy b hbusy with hbusy | ⟨ok, hok⟩
    · refine (h.busy b (hb b hbusy)).imp_right fun hok => ?_
      exact ⟨hok.choose, List.mem_append_left _ hok.choose_spec⟩
    · exact .inr ⟨ok, List.mem_append_right _ hok⟩

theorem World.Dealt.unrefused {w' : World} (h : w.Dealt l w')
    (hl : Dealing.verdict false ∉ l) : w.Unrefused l w' :=
  ⟨h.led, hl, h.retries⟩

/-- The counter is all that goes up. -/
theorem World.incrementTransferRetry_keeps (w : World) (sid : Oid) :
    (∀ i, (w.incrementTransferRetry sid 1).Finished i → w.Finished i)
      ∧ (∀ b, (w.incrementTransferRetry sid 1).Busy b → w.Busy b)
      ∧ (w.incrementTransferRetry sid 1).sjobs.map (·.id)
        = w.sjobs.map (·.id) := by
  refine ⟨fun i => ?_, fun b => ?_, ?_⟩
  · refine w.updateSjob_back ?_
    exact fun x hx => hx
  · refine w.updateSjob_back ?_
    exact fun x hx => hx
  · refine map_updateOne ?_ w.sjobs
    exact fun _ => rfl

/-- So is the state of a block that is marked finished. -/
theorem World.finishBlock_keeps (w : World) (b : Oid) :
    (w.updateSjobBlockState b .finished).retries = w.retries
      ∧ (∀ c, (w.updateSjobBlockState b .finished).Busy c → w.Busy c)
      ∧ (w.updateSjobBlockState b .finished).sjobs.map (·.id)
        = w.sjobs.map (·.id) := by
  refine ⟨?_, fun c => w.updateSjob_back fun x hx => ?_, ?_⟩
  · refine map_updateOne ?_ w.sjobs
    exact fun _ => rfl
  · exact Sjob.Busy.of_onBlock hx (fun _ => rfl) fun k hk => by cases hk
  · refine map_updateOne ?_ w.sjobs
    exact fun _ => rfl

theorem World.Dealt.counted {w' : World} (h : w.Dealt l w') (sid : Oid) :
    w'.counted sid = w.counted sid := by
  unfold World.counted
  rw [h.retries]

/-- A launch that was due is served. -/
theorem World.Asked.dealt {x : Sjob} {b : Oid} {w' : World}
    (h : w.Asked x b w') :
    ∃ l, w.Dealt l w' ∧ Launches b l ∧ w.Served x b l w' := by
  cases h with
  | launch hl hd =>
      refine ⟨_, hd, .inr ⟨_, rfl⟩, fun _ => ⟨_, List.mem_singleton_self _⟩,
        fun hno => ?_⟩
      rw [hl] at hno
      cases hno
  | none hl hd hf =>
      refine ⟨_, hd, .inl rfl, fun hyes => ?_, fun _ => hf⟩
      rw [hl] at hyes
      cases hyes

/-- The same launcher, and more dealings. -/
theorem World.Served.congr {x : Sjob} {b : Oid} {l m : List Dealing}
    {w' : World} (h : w.Served x b l w')
    (hl : w.hasLauncher = w₀.hasLauncher) (hlm : ∀ d ∈ l, d ∈ m) :
    w₀.Served x b m w' := by
  unfold World.Served at h ⊢
  rw [hl] at h
  refine ⟨fun hyes => ?_, h.2⟩
  obtain ⟨ok, hok⟩ := h.1 hyes
  exact ⟨ok, hlm _ hok⟩

/-- A refused block. -/
theorem blockRefused_refused (x : Sjob) (f : Flow) (files : BlockFiles)
    (hx : w₀.Owns x) (hw : w₀.Dealt [.verdict false] w) :
    Prog.wp (a.env h) (fun _ w' => ∃ l, w₀.Refused x f l w')
      (blockRefused conf x f files) w := by
  refine hw.acts (.retrogress x f) fun _ w₁ h₁ =>
    Prog.wp_modify_bind.mpr ?_
  obtain ⟨hfin, hbusy, hids⟩ := w₁.incrementTransferRetry_keeps x.id
  have hcount := (w₁.retries_increment x.id).trans (h₁.counted x.id)
  have h₂ := World.Dealt.refl (w₁.incrementTransferRetry x.id 1)
  have hx₂ := (h₁.owns hx).congr hids rfl
  split
  · rename_i hge
    refine h₂.acts (.teardown f) fun _ w₃ h₃ => ?_
    refine Prog.wp_mono ?_ (jobFail_failed x (h₃.owns hx₂))
    intro _ w' hw'
    obtain ⟨hst, hfail⟩ := hw'
    have h' := h₃.steady hst
    exact ⟨[], {
      led := h₁.led_over h' rfl hbusy
      launches := .inl rfl
      failed := fun _ => ⟨rfl, hfail⟩
      served := fun hlt => absurd hlt (not_lt.mpr hge)
      retries := h'.retries.trans hcount
      finished := fun i hi =>
        h₁.finished i (hfin i (h'.finished i hi)) }⟩
  · rename_i hlt
    refine Prog.wp_mono ?_ (relaunch_asked x f f.block files false hx₂)
    intro _ w' hw'
    obtain ⟨m, h', hm, hserved⟩ := hw'.dealt
    exact ⟨m, {
      led := h₁.led_over h' rfl hbusy
      launches := hm
      failed := fun hge => absurd hge hlt
      served := fun _ => hserved.congr h₁.launcher fun _ hd => hd
      retries := h'.retries.trans hcount
      finished := fun i hi =>
        h₁.finished i (hfin i (h'.finished i hi)) }⟩

/-- An accepted block. -/
theorem blockAccepted_unrefused (x : Sjob) (f : Flow) (hx : w₀.Owns x)
    (hw : w₀.Dealt l w) (hl : Dealing.verdict false ∉ l) :
    Prog.wp (a.env h) (fun _ w' => ∃ l, w₀.Unrefused l w'
        ∧ ∀ b, (selectBlock f.block x.blocks true).2 = some b →
          w₀.Served x b l w')
      (blockAccepted conf x f) w := by
  refine Prog.wp_modify_bind.mpr ?_
  obtain ⟨hret, hbusy, hids⟩ := w.finishBlock_keeps f.block
  -- what follows is told from the world with the block finished
  have hbase : ∀ m w', (w.updateSjobBlockState f.block .finished).Dealt m w' →
      Dealing.verdict false ∉ m → w₀.Unrefused (l ++ m) w' := by
    intro m w' h' hm
    refine ⟨hw.led_over h' rfl hbusy, ?_, ?_⟩
    · rw [List.mem_append, not_or]
      exact ⟨hl, hm⟩
    · rw [h'.retries, hret, hw.retries]
  have hx' := (hw.owns hx).congr hids rfl
  refine (World.Dealt.refl _).call fun (now : Int) w₁ h₁ =>
    h₁.op .blockStop fun w₂ h₂ => ?_
  split
  · rename_i next heq
    refine h₂.read fun files h₂ => ?_
    refine Prog.wp_mono ?_ (relaunch_asked x f _ files true (h₂.owns hx'))
    intro _ w' hw'
    obtain ⟨m, h', hm, hserved⟩ := hw'.dealt
    refine ⟨_, hbase _ w' (h₂.trans h') hm.no_verdict, fun b hb => ?_⟩
    rw [heq] at hb
    cases hb
    exact hserved.congr (h₂.launcher.trans hw.launcher) fun _ hd =>
      List.mem_append_right _ (List.mem_append_right _ hd)
  · rename_i heq
    refine Prog.wp_mono ?_ (h₂.ends (.flowDone conf x f _))
    intro _ w' hw'
    refine ⟨_, hbase _ w' hw'.2 List.not_mem_nil, fun b hb => ?_⟩
    rw [heq] at hb
    cases hb

/-- The block that a report on the flow `f` of `x` makes due, after this
verdict. -/
def Sjob.due (x : Sjob) (f : Flow) (params : StatusParams) (ok : Bool) :
    Option Oid :=
  if params.state ≠ 3 then none
  else if ok then (selectBlock f.block x.blocks true).2
  else if x.transferRetry ≥ 2 then none
  else some f.block

/-- A report for the flow: no verification has failed, and what is due
is served, or one has. -/
def World.Handled (w : World) (x : Sjob) (f : Flow) (params : StatusParams)
    (w' : World) : Prop :=
  (∃ l, w.Unrefused l w' ∧ ∀ b, x.due f params true = some b →
    w.Served x b l w')
  ∨ params.state = 3 ∧ ∃ l, w.Refused x f l w'

/-- A completed transfer. -/
theorem statusFinished_handled (x : Sjob) (f : Flow) {params : StatusParams}
    (hp : params.state = 3) (hx : w₀.Owns x) :
    Prog.wp (a.env h) (fun _ w' => w₀.Handled x f params w')
      (statusFinished conf x f) w₀ := by
  have hdue : x.due f params true = (selectBlock f.block x.blocks true).2 := by
    unfold Sjob.due
    rw [if_neg (not_not.mpr hp), if_pos rfl]
  refine (World.Dealt.refl w₀).op .stage fun w₁ h₁ => h₁.op .stage
    fun w₂ h₂ => h₂.op (.flowState (by decide)) fun w₃ h₃ =>
      h₃.acts (.countFinished x f) fun _ w₄ h₄ => h₄.read fun files h₄ =>
        h₄.verify x f files fun ok l w₅ h₅ hok => ?_
  cases ok with
  | true =>
      have hl : Dealing.verdict false ∉ l := by
        rcases hok with rfl | ⟨-, rfl⟩
        · simp
        · exact List.not_mem_nil
      refine Prog.wp_mono ?_ (blockAccepted_unrefused x f hx h₅ hl)
      intro _ w' hw'
      unfold World.Handled
      rw [hdue]
      exact .inl hw'
  | false =>
      rcases hok with rfl | ⟨hc, -⟩
      · refine Prog.wp_mono ?_ (blockRefused_refused x f files hx h₅)
        exact fun _ w' hw' => .inr ⟨hp, hw'⟩
      · cases hc

theorem handleReport_handled (x : Sjob) (f : Flow) (params : StatusParams)
    (hx : w₀.Owns x) :
    Prog.wp (a.env h) (fun _ w' => w₀.Handled x f params w')
      (handleReport conf x f params) w₀ := by
  have hsteady : ∀ {p : Handler Unit}, params.state ≠ 3 → SteadyActs p →
      Prog.wp (a.env h) (fun _ w' => w₀.Handled x f params w') p w₀ := by
    intro p hne hp
    refine Prog.wp_mono ?_ ((World.Dealt.refl w₀).ends hp)
    intro _ w' hw'
    refine .inl ⟨[], hw'.2.unrefused List.not_mem_nil, fun b hb => ?_⟩
    rw [Sjob.due, if_pos hne] at hb
    cases hb
  unfold handleReport
  split
  · rename_i hone
    exact hsteady (by omega) (.statusStarted x f)
  · split
    · rename_i htwo
      exact hsteady (by omega) (.statusError x f _)
    · split
      · rename_i hp
        exact statusFinished_handled x f hp hx
      · rename_i hp
        exact hsteady hp (.pure ())

/-- The sjob and the flow that a report for the task is about. -/
structure World.Found (w : World) (t : Guid) (x : Sjob) (f : Flow) :
    Prop where
  sjob : w.sjobs.find? (Sjob.hasTask t) = some x
  error : x.error = none
  flow : x.flows.find? (·.task == t) = some f

/-- Any report. -/
theorem mldStatus_handled (conf : Conf) (t : Guid) (params : StatusParams)
    (hwf : w₀.WF) :
    Prog.wp (a.env h) (fun _ w' => (∃ x f, w₀.Found t x f
          ∧ w₀.Handled x f params w')
        ∨ w₀.Unrefused [] w' ∧ ∀ x f, ¬ w₀.Found t x f)
      (mldStatus conf t params) w₀ := by
  have hrefl : w₀.Unrefused [] w₀ :=
    (World.Dealt.refl w₀).unrefused List.not_mem_nil
  unfold mldStatus getSjobFromTaskId
  refine Prog.wp_read_bind.mpr ?_
  split
  · rename_i hnone
    refine Prog.wp_pure'.mpr (.inr ⟨hrefl, fun x f hfd => ?_⟩)
    rw [hfd.sjob] at hnone
    cases hnone
  · rename_i x hx
    split
    · rename_i herr
      refine Prog.wp_pure'.mpr (.inr ⟨hrefl, fun y f hfd => ?_⟩)
      obtain rfl := Option.some.inj (hx.symm.trans hfd.sjob)
      rw [hfd.error] at herr
      cases herr
    · rename_i herr
      split
      · rename_i hnone
        refine Prog.wp_pure'.mpr (.inr ⟨hrefl, fun y f hfd => ?_⟩)
        obtain rfl := Option.some.inj (hx.symm.trans hfd.sjob)
        rw [hfd.flow] at hnone
        cases hnone
      · rename_i f hf
        refine Prog.wp_mono ?_ (handleReport_handled x f params
          (hwf.owns (List.mem_of_find?_eq_some hx)))
        have hnone : x.error = none := by simpa using herr
        exact fun _ w' hw' => .inl ⟨x, f, ⟨hx, hnone, hf⟩, hw'⟩

end completion

-- ============================================================== the turns

namespace Server.Turn

variable (t : Server.Turn)

/-- The turn handles a report for the sjob `i`. -/
def reports (i : Oid) : Bool :=
  match t.event with
  | .status task _ _ =>
      (t.before.world.sjobs.find? (Sjob.hasTask task)).any (·.id == i)
  | _ => false

/-- The failed verifications of blocks of `i` in the turn. -/
def failures (i : Oid) : Nat :=
  if t.reports i then t.dealt.count (.verdict false) else 0

/-- The launches in the turn, if a verification for `i` has failed
there. -/
def relaunches (i : Oid) : Nat :=
  if 0 < t.failures i then t.dealt.countP Dealing.isLaunch else 0

end Server.Turn

/-- All failed verifications of an sjob. -/
def failures (i : Oid) (l : List Server.Turn) : Nat :=
  (l.map (·.failures i)).sum

/-- All launches of an sjob that follow a failed verification. -/
def relaunches (i : Oid) (l : List Server.Turn) : Nat :=
  (l.map (·.relaunches i)).sum

/-- What a turn can be: one without a failed verification, or one with
one for an sjob. -/
inductive Server.Turn.Kind (t : Server.Turn) : Prop
  | calm : (∀ i, t.failures i = 0) →
      t.after.world.retries = t.before.world.retries → Kind t
  | refused {x : Sjob} {f : Flow} {l : List Dealing} :
      x ∈ t.before.world.sjobs → (∀ i, t.reports i = (x.id == i)) →
      t.before.world.Refused x f l t.after.world → Kind t

section turns

variable {conf : Conf} {s s' : Server} {e : Event} {t : Server.Turn}

theorem Server.Step.kind (h : Server.Step conf e s s') (hg : s.Good) :
    Server.Turn.Kind ⟨s, e, s'⟩ := by
  cases h with
  | pass => exact .calm (fun _ => rfl) rfl
  | @schedule w x xs a o ho =>
      refine .calm (fun _ => rfl) ?_
      show (Server.iterate conf a o w x xs).world.retries = w.retries
      rw [Server.iterate_world]
      exact ((PlainActs.scheduleSjob conf x).run a .schedule ho w).1
  | @status w l task params a n o ho =>
      have hwp := Prog.wp_run ho (mldStatus_handled conf task
        params hg.wf)
      have hcalm : ∀ m w', w.Unrefused m w' → Server.Turn.Kind
          ⟨⟨w, l⟩, .status task params a, ⟨w', l⟩⟩ := by
        intro m w' hm
        refine .calm (fun i => ?_) hm.retries
        unfold Server.Turn.failures
        rw [Server.Turn.dealt_eq hm.led.dealings,
          List.count_eq_zero_of_not_mem hm.verdicts, ite_self]
      rcases hwp with ⟨x, f, hfd, ⟨m, hm, -⟩ | ⟨-, m, href⟩⟩ | ⟨hm, -⟩
      · exact hcalm m _ hm
      · refine .refused (List.mem_of_find?_eq_some hfd.sjob) (fun i => ?_)
          href
        exact congrArg (Option.any fun y : Sjob => y.id == i) hfd.sjob
      · exact hcalm _ _ hm
  | @poll w l o =>
      refine .calm (fun _ => rfl) ?_
      refine (PlainActs.pollRate conf fun _ => False).run .any .pollRate
        (fun w e => ?_) w |>.1
      cases e <;> trivial
  | launcher => exact .calm (fun _ => rfl) rfl

/-- One failed verification, for the sjob, and at most one launch. -/
theorem World.Refused.counts {x : Sjob} {f : Flow} {l : List Dealing}
    (h : t.before.world.Refused x f l t.after.world)
    (hx : ∀ i, t.reports i = (x.id == i)) (i : Oid) :
    t.failures i = (if x.id = i then 1 else 0)
      ∧ t.relaunches i ≤ (if x.id = i then 1 else 0)
      ∧ (2 ≤ x.transferRetry → t.relaunches i = 0) := by
  have hd := Server.Turn.dealt_eq h.led.dealings
  have hone : t.dealt.count (.verdict false) = 1 := by
    rw [hd, List.count_cons_self,
      List.count_eq_zero_of_not_mem h.launches.no_verdict]
  unfold Server.Turn.relaunches Server.Turn.failures
  rw [hx i, hone, hd]
  by_cases hi : x.id = i
  · have hle : l.length ≤ 1 := by
      rcases h.launches with rfl | ⟨ok, rfl⟩
      · exact Nat.zero_le 1
      · exact le_refl 1
    simp only [hi, beq_self_eq_true, if_true, Nat.lt_one_iff]
    refine ⟨trivial, ?_, fun hge => ?_⟩
    · rw [List.countP_cons_of_neg (by decide)]
      exact List.countP_le_length.trans hle
    · rw [(h.failed hge).1]
      rfl
  · simp [hi]

/-- The counts after a turn. -/
theorem Server.Turn.Kind.retries (h : t.Kind)
    (hids : (t.before.world.sjobs.map (·.id)).Nodup) {y : Sjob}
    (hy : y ∈ t.after.world.sjobs) : ∃ z ∈ t.before.world.sjobs, z.id = y.id
      ∧ y.transferRetry = z.transferRetry + t.failures y.id := by
  have hmem : (y.id, y.transferRetry) ∈ t.after.world.retries :=
    List.mem_map_of_mem (f := fun x : Sjob => (x.id, x.transferRetry)) hy
  cases h with
  | calm hzero hr =>
      rw [hr] at hmem
      obtain ⟨z, hz, heq⟩ := List.mem_map.mp hmem
      obtain ⟨hid, hc⟩ := Prod.mk.inj heq
      refine ⟨z, hz, hid, ?_⟩
      rw [hzero, hc]
      simp
  | @refused x f l hx hrep href =>
      have hkeys : (t.before.world.retries.map Prod.fst).Nodup := by
        unfold World.retries
        rwa [List.map_map]
      rw [href.retries, World.counted, updateOne_key hkeys] at hmem
      obtain ⟨c, hc, heq⟩ := List.mem_map.mp hmem
      obtain ⟨z, hz, rfl⟩ := List.mem_map.mp hc
      rw [(href.counts hrep y.id).1]
      by_cases hi : z.id = x.id
      · rw [if_pos hi] at heq
        obtain ⟨hid, hcnt⟩ := Prod.mk.inj heq
        rw [if_pos (hi.symm.trans hid)]
        exact ⟨z, hz, hid, hcnt.symm⟩
      · rw [if_neg hi] at heq
        obtain ⟨hid, hcnt⟩ := Prod.mk.inj heq
        rw [if_neg fun he => hi (hid.trans he.symm)]
        exact ⟨z, hz, hid, by simp [hcnt]⟩

-- =============================================================== the runs

variable {w₀ : World} {l : List Server.Turn}

theorem failures_snoc (i : Oid) (l : List Server.Turn) (t : Server.Turn) :
    failures i (l ++ [t]) = failures i l + t.failures i := by
  simp [failures]

theorem relaunches_snoc (i : Oid) (l : List Server.Turn)
    (t : Server.Turn) :
    relaunches i (l ++ [t]) = relaunches i l + t.relaunches i := by
  simp [relaunches]

/-- A run keeps the store good, and the documents count the failed
verifications. -/
theorem Server.Turns.counted (hfresh : w₀.Fresh)
    (hzero : ∀ x ∈ w₀.sjobs, x.transferRetry = 0)
    (h : Server.Turns conf ⟨w₀, []⟩ l s) :
    s.Good ∧ ∀ x ∈ s.world.sjobs, x.transferRetry = failures x.id l := by
  induction h with
  | nil => exact ⟨hfresh.good, fun x hx => hzero x hx⟩
  | @snoc l e s s' hrun hst ih =>
      obtain ⟨hg, hcount⟩ := ih
      refine ⟨(hst.change hg).2, fun y hy => ?_⟩
      obtain ⟨z, hz, hid, hval⟩ := (hst.kind hg).retries hg.wf.ids hy
      rw [hval, hcount z hz, hid, failures_snoc]
      exact (Nat.cast_add _ _).symm

/-- No more relaunches than failures, and no more than two. -/
theorem Server.Turns.relaunches_le (hfresh : w₀.Fresh)
    (hzero : ∀ x ∈ w₀.sjobs, x.transferRetry = 0)
    (h : Server.Turns conf ⟨w₀, []⟩ l s) (i : Oid) :
    relaunches i l ≤ failures i l ∧ relaunches i l ≤ 2 := by
  induction h with
  | nil => exact ⟨le_refl 0, Nat.zero_le 2⟩
  | @snoc l e s s' hrun hst ih =>
      obtain ⟨hg, hcount⟩ := hrun.counted hfresh hzero
      rw [failures_snoc, relaunches_snoc]
      cases hst.kind hg with
      | calm hno hr =>
          have hnone : Server.Turn.relaunches ⟨s, e, s'⟩ i = 0 := by
            unfold Server.Turn.relaunches
            rw [hno i]
            rfl
          rw [hno i, hnone]
          exact ih
      | @refused x f m hx hrep href =>
          obtain ⟨hf, hle, hlast⟩ := href.counts hrep i
          rw [hf]
          by_cases hi : x.id = i
          · have hcnt := hcount x hx
            rw [hi] at hcnt
            rw [if_pos hi] at hle ⊢
            by_cases hge : 2 ≤ failures i l
            · rw [hlast (by omega)]
              omega
            · omega
          · rw [if_neg hi] at hle ⊢
            omega

/-- Retransmission is bounded: the document counts the failed
verifications of its sjob, at most two of them make a block be launched
again, a handler that has seen one finishes no block, and one that has
seen the third launches nothing and leaves the job failed. -/
theorem retransmission_bounded (hfresh : w₀.Fresh)
    (hzero : ∀ x ∈ w₀.sjobs, x.transferRetry = 0)
    (h : Server.Turns conf ⟨w₀, []⟩ l s) :
    (∀ x ∈ s.world.sjobs, x.transferRetry = failures x.id l)
      ∧ (∀ i, relaunches i l ≤ 2)
      ∧ ∀ l₁ t l₂ i, l = l₁ ++ t :: l₂ → 0 < t.failures i →
        (∀ b, t.after.world.Finished b → t.before.world.Finished b)
          ∧ (2 ≤ failures i l₁ → t.relaunches i = 0
            ∧ ∃ x ∈ t.before.world.sjobs, x.id = i
              ∧ t.after.world.JobFailed x) := by
  refine ⟨(h.counted hfresh hzero).2, fun i =>
    (h.relaunches_le hfresh hzero i).2, ?_⟩
  intro l₁ t l₂ i hl hfail
  rw [hl] at h
  obtain ⟨s₁, s₂, e, hrun, hst, rfl⟩ := h.split
  obtain ⟨hg, hcount⟩ := hrun.counted hfresh hzero
  cases hst.kind hg with
  | calm hno hr =>
      rw [hno i] at hfail
      exact absurd hfail (lt_irrefl 0)
  | @refused x f m hx hrep href =>
      obtain ⟨hf, -, hlast⟩ := href.counts hrep i
      have hid : x.id = i := by
        by_contra hne
        rw [hf, if_neg hne] at hfail
        exact lt_irrefl 0 hfail
      refine ⟨href.finished, fun hge => ?_⟩
      have htwo : 2 ≤ x.transferRetry := by
        have hcnt := hcount x hx
        rw [hid] at hcnt
        omega
      exact ⟨hlast htwo, x, hx, hid, (href.failed htwo).2⟩

-- ====================================================== a concrete run

/-- The first of two blocks is launched, and its checksums fail this
many times. -/
def refusedTimes : Nat → Server
  | 0 => (Server.passed ⟨twoBlocks, []⟩).attempted (plainConf true) true true
  | k + 1 => (refusedTimes k).reported (plainConf true) false true 0 3

/-- The turns of that run. -/
def refusals : Nat → List Server.Turn
  | 0 => [⟨⟨twoBlocks, []⟩, .pass, Server.passed ⟨twoBlocks, []⟩⟩,
      ⟨Server.passed ⟨twoBlocks, []⟩, .schedule (.of true true),
        refusedTimes 0⟩]
  | k + 1 => refusals k ++ [⟨refusedTimes k,
      .status 0 ⟨3, 0⟩ (.of false true), refusedTimes (k + 1)⟩]

theorem refusals_turns (k : Nat) : Server.Turns (plainConf true)
    ⟨twoBlocks, []⟩ (refusals k) (refusedTimes k) := by
  induction k with
  | zero =>
      have hpass : Server.Turns (plainConf true) ⟨twoBlocks, []⟩
          [⟨⟨twoBlocks, []⟩, .pass, Server.passed ⟨twoBlocks, []⟩⟩]
          (Server.passed ⟨twoBlocks, []⟩) := Server.Turns.nil.snoc .pass
      exact hpass.snoc (.schedule (plainOracle_admissible true true _))
  | succ k ih => exact ih.reported false true 0 3

/-- Three failures, two relaunches. -/
theorem retransmission_thrice : failures 10 (refusals 3) = 3
    ∧ relaunches 10 (refusals 3) = 2
    ∧ ∀ x ∈ (refusedTimes 3).world.sjobs,
      x.transferRetry = failures x.id (refusals 3) :=
  ⟨by decide +kernel, by decide +kernel,
    (retransmission_bounded twoBlocks_fresh (by decide +kernel)
      (refusals_turns 3)).1⟩

end turns

end BigDataExpress
