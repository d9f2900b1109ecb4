/-
A polling pass that runs alone is a sequence of small steps (`PollStep`):
it samples the flow of one sjob after the other, and adds to the
counters of rawjobs and sites in between.

The pass works from documents it has read before. That they are still
the current ones when their turn comes is the invariant of its loops:
the pass has only written to documents it has already been through.
-/
import BigDataExpress.Proofs.Exact
import BigDataExpress.Proofs.Sound

namespace BigDataExpress

open Interact Collection SiteStore

/-- Worlds that differ in counters of rawjobs and sites. -/
structure World.SameStatus (w w' : World) : Prop where
  sjobs : w'.sjobs = w.sjobs
  rawjobs : w'.rawjobs.map Rawjob.status = w.rawjobs.map Rawjob.status
  blockDocs : w'.blockDocs = w.blockDocs
  guids : w'.guids = w.guids
  hasLauncher : w'.hasLauncher = w.hasLauncher
  log : w'.log = w.log
  reports : w'.reports = w.reports
  delivered : w'.delivered = w.delivered

theorem World.SameStatus.wf {w w' : World} (h : w.SameStatus w')
    (hwf : w.WF) : w'.WF :=
  hwf.congr (by rw [h.sjobs]) (World.rawjob_ids h.rawjobs)
    (h.guids ▸ List.prefix_refl _)

/-- One part of a polling pass. -/
inductive PollStep : World → World → Prop
  /-- an sjob with a live flow -/
  | sample {w w' : World} {x y : Sjob} {f : Flow} {v : Option Int}
      {d : Delta} : x ∈ w.sjobs → x.flows = [f] → f.Live →
      SampleOutcome x f v d → At .pollRate w x y d w' → PollStep w w'
  /-- an sjob without one -/
  | idle {w w' : World} {x y : Sjob} : x ∈ w.sjobs →
      At .pollRate w x y (.init x) w' → w'.log = w.log → PollStep w w'
  /-- the counters of a rawjob and its sites -/
  | totals {w w' : World} : w.SameStatus w' → PollStep w w'

/-- The sjobs of a world are sound. -/
def World.Sound (w : World) : Prop := ∀ x ∈ w.sjobs, x.Sound

namespace PollStep

variable {w w' : World}

theorem wf (h : PollStep w w') (hwf : w.WF) : w'.WF := by
  cases h with
  | sample hx hf hl ho ht => exact ht.wf
  | idle hx ht hlog => exact ht.wf
  | totals hs => exact hs.wf hwf

theorem sound (h : PollStep w w') (hwf : w.WF) (hs : w.Sound) :
    w'.Sound := by
  intro z hz
  cases h with
  | sample hx hf hl ho ht =>
      rcases ht.mem_iff.mp hz with rfl | ⟨hz, -⟩
      · exact ht.alike.sound (ho.sound (hs _ hx) (hwf.blockIds_nodup hx) hf)
      · exact hs z hz
  | idle hx ht hlog =>
      rcases ht.mem_iff.mp hz with rfl | ⟨hz, -⟩
      · exact ht.alike.sound (hs _ hx)
      · exact hs z hz
  | totals ht =>
      rw [ht.sjobs] at hz
      exact hs z hz

theorem hasLauncher (h : PollStep w w') :
    w'.hasLauncher = w.hasLauncher := by
  cases h with
  | sample hx hf hl ho ht => exact ht.hasLauncher
  | idle hx ht hlog => exact ht.hasLauncher
  | totals ht => exact ht.hasLauncher

end PollStep

/-- What is kept along a pass. -/
structure World.Pollable (w : World) : Prop where
  wf : w.WF
  sound : w.Sound
  launcher : w.hasLauncher = true

theorem PollStep.pollable {w w' : World} (h : PollStep w w')
    (hp : w.Pollable) : w'.Pollable :=
  ⟨h.wf hp.wf, h.sound hp.wf hp.sound, h.hasLauncher.trans hp.launcher⟩

abbrev PollRun : World → World → Prop := Relation.ReflTransGen PollStep

theorem PollRun.pollable {w w' : World} (h : PollRun w w')
    (hp : w.Pollable) : w'.Pollable := by
  induction h with
  | refl => exact hp
  | tail _ hs ih => exact hs.pollable ih

-- ============================================================== one sjob

section poll

variable {conf : Conf}

/-- Without a live flow nothing is sampled. -/
theorem pollFlows_idle {rid : Oid} {x : Sjob} {fs : List Flow} {acc : Int}
    (h : ∀ f ∈ fs, ¬ f.Live) :
    pollFlows conf rid x fs acc = pure (some acc) := by
  induction fs generalizing acc with
  | nil => rfl
  | cons f fs ih =>
      have hskip : pollFlow conf rid x f = pure (some 0) :=
        if_neg (h f (List.mem_cons_self ..))
      unfold pollFlows
      rw [hskip]
      show pollFlows conf rid x fs (acc + 0) = _
      rw [Int.add_zero]
      exact ih fun g hg => h g (List.mem_cons_of_mem _ hg)

/-- The only flow of an sjob, when it is live. -/
theorem pollFlows_spec (conf : Conf) {x : Sjob} (tr : Tracker x) {f : Flow}
    (hx : x.Sound) (hf : x.flows = [f]) (hl : tr.launcher = true)
    (hlive : tr.strict → x.state ≠ .finished) :
    tr.Spec (.init x) (pollFlows conf x.rawjob x x.flows 0) fun r d =>
      ∃ v, r = .ok v ∧ ∃ v', SampleOutcome x f v' d := by
  rw [hf]
  have hmem : f ∈ x.flows := by simp [hf]
  refine .bind (pollFlow_spec (List.mem_map_of_mem hmem)
    (hx.names f hmem) hlive) ?_ ?_
  · intro v d ho
    cases v with
    | none => exact .pure ⟨_, rfl, _, ho⟩
    | some v => exact .pure ⟨_, rfl, _, ho⟩
  · rintro m d ⟨-, hno⟩
    rw [hl] at hno
    cases hno

/-- Adding to the bytes of an sjob is not visible. -/
theorem At.tally {h : HandlerId} {w₀ w : World} {x y : Sjob} {d : Delta}
    (ht : At h w₀ x y d w) (v : Int) :
    ∃ y', At h w₀ x y' d (w.incrementSjobTxBytes x.id v) := by
  obtain ⟨y', ht'⟩ := ht.act (.sjobTx v)
  have ha : d.doc.Alike y' := by
    have := ht'.alike
    exact ⟨this.state, this.error, this.flows, this.blocks⟩
  exact ⟨y', { ht' with alike := ha }⟩

/-- What the flows of one sjob come to, before and after its bytes are
added up. -/
theorem pollFlows_wp {x : Sjob} {w : World} (hp : w.Pollable)
    (hx : x ∈ w.sjobs) :
    Prog.wp (Answers.any.env .pollRate) (fun r w' => (∃ v, r = .ok v)
      ∧ ∃ y d, At .pollRate w x y d w'
        ∧ ∀ y' w'', At .pollRate w x y' d w'' → w''.log = w'.log →
          PollStep w w'')
      (pollFlows conf x.rawjob x x.flows 0) w := by
  have hinit := At.init (h := .pollRate) hp.wf hx rfl rfl (.refl x)
  by_cases hlive : ∃ f ∈ x.flows, f.Live
  · obtain ⟨f, hf, hl⟩ := hlive
    have hfl := (hp.sound x hx).flows_eq hf
    have hspec := pollFlows_spec conf (exact .pollRate .any w x)
      (hp.sound x hx) hfl hp.launcher
      (fun hf => hf.elim) w ⟨x, hinit⟩
    refine Prog.wp_mono ?_ hspec
    rintro r w₁ ⟨d, ⟨y, ht⟩, v, rfl, v', ho⟩
    exact ⟨⟨v, rfl⟩, y, d, ht, fun y' w'' ht' _ =>
      .sample hx hfl hl ho ht'⟩
  · rw [pollFlows_idle fun f hf hl => hlive ⟨f, hf, hl⟩]
    simp only [Prog.wp_pure']
    exact ⟨⟨_, rfl⟩, x, _, hinit, fun y' w'' ht' hlog =>
      .idle hx ht' hlog⟩

theorem pollSjobs_wp {rid : Oid} {xs : List Sjob} {acc : Int} {w : World}
    (hp : w.Pollable) (hxs : ∀ x ∈ xs, x ∈ w.sjobs ∧ x.rawjob = rid)
    (hnd : (xs.map (·.id)).Nodup) :
    Prog.wp (Answers.any.env .pollRate)
      (fun r w' => (∃ v, r = .ok v) ∧ PollRun w w')
      (pollSjobs conf rid xs acc) w := by
  induction xs generalizing w acc with
  | nil =>
      simp only [pollSjobs, Prog.wp_pure']
      exact ⟨⟨_, rfl⟩, .refl⟩
  | cons x xs ih =>
      obtain ⟨hx, rfl⟩ := hxs x (List.mem_cons_self ..)
      simp only [pollSjobs, Prog.wp_bind']
      refine Prog.wp_mono ?_ (pollFlows_wp hp hx)
      rintro r w₁ ⟨⟨v, rfl⟩, y, d, ht, hstep⟩
      cases v with
      | none =>
          simp only [Prog.wp_pure']
          exact ⟨⟨_, rfl⟩, .single (hstep y w₁ ht rfl)⟩
      | some v =>
          simp only [Prog.wp_bind', SiteStore.incrementSjobTxBytes,
            Prog.wp_modify]
          obtain ⟨y', ht'⟩ := ht.tally v
          have hs := hstep y' _ ht' rfl
          rw [List.map_cons, List.nodup_cons] at hnd
          refine Prog.wp_mono ?_ (ih (hs.pollable hp) ?_ hnd.2)
          · rintro r w₂ ⟨hr, hrun⟩
            exact ⟨hr, .head hs hrun⟩
          · -- the documents still to come have not been touched
            intro z hz
            obtain ⟨hzw, hzr⟩ := hxs z (List.mem_cons_of_mem _ hz)
            refine ⟨ht'.mem_iff.mpr (.inr ⟨hzw, fun hid => ?_⟩), hzr⟩
            exact hnd.1 (hid ▸ List.mem_map_of_mem hz)

-- ============================================================ one rawjob

/-- The documents of a rawjob, as an undisturbed cursor reads them. -/
theorem getSjobsFromRawjobId_wp {E : Env World Call Reply} {w : World}
    (hwf : w.WF) (rid : Oid) :
    Prog.wp E (fun r w' => w' = w
      ∧ r = .ok (w.sjobs.filter (·.rawjob == rid)))
      (getSjobsFromRawjobId rid) w := by
  simp only [getSjobsFromRawjobId, Prog.wp_bind', Prog.wp_read]
  refine Prog.wp_mono ?_ (readSjobs_wp _)
  rintro r w' ⟨rfl, rfl⟩
  refine ⟨rfl, congrArg _ ?_⟩
  have hsome : ∀ l : List Sjob, (∀ z ∈ l, z ∈ w'.sjobs) →
      (l.map (·.id)).filterMap w'.sjob? = l := by
    intro l hl
    induction l with
    | nil => rfl
    | cons z l ih =>
        have hz := hwf.sjob?_eq (hl z (List.mem_cons_self ..))
        rw [List.map_cons, List.filterMap_cons_some hz,
          ih fun u hu => hl u (List.mem_cons_of_mem _ hu)]
  exact hsome _ fun z hz => (List.mem_filter.mp hz).1

theorem pollRawjob_wp {r : Rawjob} {w : World} (hp : w.Pollable) :
    Prog.wp (Answers.any.env .pollRate)
      (fun r w' => (∃ v, r = .ok v) ∧ PollRun w w')
      (pollRawjob conf r) w := by
  simp only [pollRawjob, Prog.wp_bind']
  refine Prog.wp_mono ?_ (getSjobsFromRawjobId_wp hp.wf r.id)
  rintro r₁ w₁ ⟨rfl, rfl⟩
  have hids : ((w₁.sjobs.filter (·.rawjob == r.id)).map (·.id)).Nodup :=
    hp.wf.ids.sublist (List.filter_sublist.map _)
  refine Prog.wp_mono ?_ (pollSjobs_wp hp ?_ hids)
  · rintro r₂ w₂ ⟨⟨v, rfl⟩, hrun⟩
    cases v with
    | none =>
        simp only [Prog.wp_pure']
        exact ⟨⟨_, rfl⟩, hrun⟩
    | some v =>
        simp only [Prog.wp_bind', SiteStore.incrementRawjobField,
          SiteStore.incrementSiteTx, SiteStore.incrementSiteRx,
          Prog.wp_modify, Prog.wp_pure']
        refine ⟨⟨_, rfl⟩, hrun.tail (.totals ?_)⟩
        exact ⟨rfl, World.status_updateRawjob (fun _ => rfl)
          (fun _ => rfl), rfl, rfl, rfl, rfl, rfl, rfl⟩
  · intro z hz
    rw [List.mem_filter, beq_iff_eq] at hz
    exact hz

-- ============================================================== the pass

theorem pollRawjobs_wp {rs : List Rawjob} {w : World} (hp : w.Pollable) :
    Prog.wp (Answers.any.env .pollRate)
      (fun r w' => r = .ok () ∧ PollRun w w') (pollRawjobs conf rs) w := by
  induction rs generalizing w with
  | nil =>
      simp only [pollRawjobs, Prog.wp_pure']
      exact ⟨trivial, .refl⟩
  | cons r rs ih =>
      simp only [pollRawjobs, Prog.wp_bind']
      refine Prog.wp_mono ?_ (pollRawjob_wp hp)
      rintro r₁ w₁ ⟨⟨v, rfl⟩, hrun⟩
      cases v with
      | false =>
          simp only [Bool.false_eq_true, if_false, Prog.wp_pure']
          exact ⟨trivial, hrun⟩
      | true =>
          simp only [if_true]
          refine Prog.wp_mono ?_ (ih (hrun.pollable hp))
          rintro r₂ w₂ ⟨rfl, hrun'⟩
          exact ⟨rfl, hrun.trans hrun'⟩

/-- A pass ends without an exception, and is a sequence of its steps. -/
theorem pollRate_wp (conf : Conf) {w : World} (hwf : w.WF) (hs : w.Sound) :
    Prog.wp (Answers.any.env .pollRate)
      (fun r w' => r = .ok () ∧ PollRun w w') (pollRate conf) w := by
  simp only [pollRate, SiteStore.getRawjobsFromState, Prog.wp_bind',
    Prog.wp_read]
  split
  · simp only [Prog.wp_pure']
    exact ⟨trivial, .refl⟩
  · simp only [Prog.wp_bind', Prog.wp_read]
    split
    · simp only [Prog.wp_pure']
      exact ⟨trivial, .refl⟩
    · rename_i hl
      exact pollRawjobs_wp ⟨hwf, hs, by simpa using hl⟩

end poll

end BigDataExpress
