/-
A failed rawjob. Every failure of an sjob writes error to its rawjob
too, but every launch writes transferring, whatever the rawjob's state
was: a failed rawjob stays failed as long as no launch is accepted for
another of its sjobs (`NoLaunchWhenFailed`).
-/
import BigDataExpress.Proofs.Terminal

namespace BigDataExpress

open Interact Collection

-- ====================================================== a failed rawjob

/-- The rawjob is in state error. -/
def World.RawFailed (w : World) (rid : Oid) : Prop :=
  (rid, RawjobState.error) ∈ w.rawjobs.map Rawjob.status

/-- Every failed sjob has a failed rawjob. -/
def World.FailuresShow (w : World) : Prop :=
  ∀ x ∈ w.sjobs, x.state = .error → w.RawFailed x.rawjob

section raw

variable {conf : Conf} {w w' : World} {x y : Sjob} {d : Delta}
  {h : HandlerId} {rid : Oid}

theorem World.RawFailed.congr (hf : w.RawFailed rid)
    (he : w'.rawjobs.map Rawjob.status = w.rawjobs.map Rawjob.status) :
    w'.RawFailed rid := by
  unfold World.RawFailed at hf ⊢
  rw [he]
  exact hf

/-- A failed rawjob stays so unless something else is written to it. -/
theorem At.rawFailed (ht : At h w x y d w') (hf : w.RawFailed rid)
    (hraw : x.rawjob = rid → ∀ st ∈ d.raw, st = .error) :
    w'.RawFailed rid := by
  unfold World.RawFailed at hf ⊢
  obtain ⟨r, hr, hst⟩ := List.mem_map.mp hf
  have hid : r.id = rid := congrArg Prod.fst hst
  have herr : r.state = .error := congrArg Prod.snd hst
  rw [ht.rawjobs, List.mem_map]
  refine ⟨r, hr, ?_⟩
  by_cases hrx : r.id = x.rawjob
  · rw [if_pos hrx, hid]
    cases hd : d.raw with
    | none => rw [Option.getD_none, herr]
    | some st => rw [Option.getD_some, hraw (hrx ▸ hid) st (by rw [hd]; rfl)]
  · rw [if_neg hrx, hst]

/-- Writing error to the rawjob of an sjob makes it failed. -/
theorem At.rawFailed_self (ht : At h w x y d w')
    (hx : x.rawjob ∈ w.rawjobs.map (·.id)) (hraw : d.raw = some .error) :
    w'.RawFailed x.rawjob := by
  obtain ⟨r, hr, hid⟩ := List.mem_map.mp hx
  unfold World.RawFailed
  rw [ht.rawjobs, List.mem_map]
  refine ⟨r, hr, ?_⟩
  rw [if_pos hid, hraw, hid]
  rfl

/-- A failure shows after work on one sjob: the one it failed, if it did,
and those that had failed before. -/
theorem At.failuresShow (ht : At h w x y d w') (hs : w.FailuresShow)
    (hx : x.rawjob ∈ w.rawjobs.map (·.id))
    (hself : d.doc.state = .error → d.raw = some .error)
    (hothers : ∀ z ∈ w.sjobs, z.state = .error → z.id ≠ x.id →
      x.rawjob = z.rawjob → ∀ st ∈ d.raw, st = .error) :
    w'.FailuresShow := by
  intro z hz herr
  rcases ht.mem_iff.mp hz with rfl | ⟨hz, hne⟩
  · rw [ht.rawjob]
    exact ht.rawFailed_self hx (hself (ht.alike.state ▸ herr))
  · exact ht.rawFailed (hs z hz herr) (hothers z hz herr hne)

-- ============================================================= outcomes

/-- With this verdict the flow's block, or the next one, is launched. -/
def Sjob.Relaunches (x : Sjob) (f : Flow) (v : Bool) : Prop :=
  if v then (selectBlock f.block x.blocks true).2 ≠ none
  else x.transferRetry < 2

variable {files : Oid → BlockFiles} {launcher : Bool} {f : Flow}
  {params : StatusParams} {v : Bool}

/-- A report writes error to the rawjob, or launches, or has seen every
sjob finished. -/
theorem ReportOutcome.raw_cases
    (ho : ReportOutcome files launcher x f params v d) :
    (∀ st ∈ d.raw, st = .error)
      ∨ params.state = 3 ∧ launcher = true ∧ x.Relaunches f v
      ∨ d.seen = some true := by
  cases ho with
  | ignored => exact .inl (by simp)
  | started => exact .inl (by simp)
  | failed => exact .inl (by simp)
  | next h3 hv hsel hl =>
      refine .inr (.inl ⟨h3, hl, ?_⟩)
      rw [Sjob.Relaunches, if_pos hv, hsel]
      simp
  | nextFails => exact .inl (by simp)
  | @last seen h3 hv hsel =>
      cases seen with
      | true => exact .inr (.inr rfl)
      | false => exact .inl (by simp)
  | rest => exact .inl (by simp)
  | retry h3 hv hr hl =>
      refine .inr (.inl ⟨h3, hl, ?_⟩)
      rw [Sjob.Relaunches, hv]
      exact hr
  | retryFails => exact .inl (by simp)

/-- A report that fails the sjob fails the rawjob. -/
theorem ReportOutcome.raw_of_error
    (ho : ReportOutcome files launcher x f params v d)
    (hx : x.state ≠ .error) (he : d.doc.state = .error) :
    d.raw = some .error := by
  cases ho with
  | ignored => exact absurd he hx
  | started => cases he
  | failed => rfl
  | next => cases he
  | nextFails => rfl
  | last => cases he
  | rest h3 hv hsel hs =>
      rcases hs with hs | hs
      · exact absurd (hs ▸ he) hx
      · exact absurd he hs.2
  | retry => cases he
  | retryFails => rfl

theorem AttemptOutcome.raw_cases {answer : Bool → Prop} {b : Oid}
    {r : Except String Unit}
    (ho : AttemptOutcome files launcher answer x b r d) :
    (∀ st ∈ d.raw, st = .error) ∨ answer true := by
  cases ho with
  | failed => exact .inl (by simp)
  | refused => exact .inl (by simp)
  | launched hst hb hl ha => exact .inr ha
  | thrown => exact .inl (by simp)

theorem AttemptOutcome.raw_of_error {answer : Bool → Prop} {b : Oid}
    {r : Except String Unit}
    (ho : AttemptOutcome files launcher answer x b r d)
    (he : d.doc.state = .error) : d.raw = some .error := by
  cases ho with
  | failed => rfl
  | refused => rfl
  | launched => cases he
  | thrown => cases he

theorem SampleOutcome.raw_cases {u : Option Int}
    (ho : SampleOutcome x f u d) : ∀ st ∈ d.raw, st = .error := by
  cases ho <;> simp

/-- A sample of a live flow that leaves the sjob failed has failed it. -/
theorem SampleOutcome.raw_of_error {u : Option Int}
    (ho : SampleOutcome x f u d) (hx : x.state ≠ .error)
    (he : d.doc.state = .error) : d.raw = some .error := by
  cases ho with
  | skipped => exact absurd he hx
  | unknown => rfl
  | counted => exact absurd he hx
  | inactive => rfl

-- ============================================================= one step

/-- No launch is accepted for an sjob of a failed rawjob: neither that of
a scheduling attempt, nor one a report of completion leads to. -/
def NoLaunchWhenFailed (conf : Conf) (e : Event) (s : Server) : Prop :=
  (∀ a x xs, e = .schedule a → s.pending = x :: xs →
    s.world.RawFailed x.rawjob → ¬ a.launched true)
  ∧ ∀ t params a, e = .status t params a → params.state = 3 →
    s.world.hasLauncher = true → ∀ x ∈ s.world.sjobs, x.error = none →
    s.world.RawFailed x.rawjob → ∀ f ∈ x.flows, f.task = t → ∀ v,
    (if (s.world.blockFiles f.block).checked conf then a.verified v
      else v = true) → ¬ x.Relaunches f v

theorem PollStep.failuresShow (hp : PollStep w w') (hwf : w.WF)
    (hsd : w.Sound) (hs : w.FailuresShow) : w'.FailuresShow := by
  cases hp with
  | sample hx hf hl ho ht =>
      refine ht.failuresShow hs (hwf.owned _ hx) (ho.raw_of_error ?_)
        fun _ _ _ _ _ => ho.raw_cases
      intro herr
      exact (hsd _ hx).ended (.inl herr) _ (by simp [hf]) hl
  | idle hx ht hlog =>
      intro z hz herr
      rcases ht.mem_iff.mp hz with rfl | ⟨hz, -⟩
      · rw [ht.rawjob]
        exact ht.rawFailed (hs _ hx (ht.alike.state ▸ herr))
          fun _ st hst => nomatch hst
      · exact ht.rawFailed (hs z hz herr) fun _ st hst => nomatch hst
  | totals ht =>
      intro z hz herr
      rw [ht.sjobs] at hz
      exact (hs z hz herr).congr ht.rawjobs

theorem PollRun.failuresShow (hp : PollRun w w') (hw : w.WF ∧ w.Sound)
    (hs : w.FailuresShow) : w'.FailuresShow := by
  induction hp with
  | refl => exact hs
  | tail hrun hst ih =>
      have hw' := PollRun.sound hrun hw
      exact hst.failuresShow hw'.1 hw'.2 ih

theorem Change.failuresShow {l : List Sjob} {e : Event}
    (hc : Change conf l e w w') (hwf : w.WF) (hsd : w.Sound)
    (hno : NoLaunchWhenFailed conf e ⟨w, l⟩) (hs : w.FailuresShow) :
    w'.FailuresShow := by
  cases hc with
  | none => exact hs
  | launcher => exact hs
  | @report _ _ x _ f _ _ _ v d hx herr hf hp hv ho ht =>
      refine ht.failuresShow hs (hwf.owned _ hx) (ho.raw_of_error ?_) ?_
      · intro hc
        have := (hsd x hx).failed.mpr hc
        simp [herr] at this
      · intro z hz hzerr hne hraw
        rcases ho.raw_cases with hr | ⟨h3, hl, hre⟩ | hseen
        · exact hr
        · exact absurd hre (hno.2 _ _ _ rfl h3 hl x hx herr
            (hraw ▸ hs z hz hzerr) f (by simp [hf]) rfl v (hv h3))
        · -- the failed sjob was seen to be finished
          have := (ht.seen true hseen).mp rfl z hz hraw.symm hne
          rw [hzerr] at this
          cases this
  | @attempt _ _ x _ z b a r d hl hz hid hr ha hact hempty hb ho ht =>
      refine ht.failuresShow hs (hr ▸ hwf.owned z hz) ho.raw_of_error ?_
      intro u hu huerr hne hraw
      rcases ho.raw_cases with hr | hans
      · exact hr
      · obtain ⟨xs, rfl⟩ : ∃ xs, l = x :: xs := by
          cases l with
          | nil => cases hl
          | cons u us => exact ⟨us, by rw [Option.some.inj hl]⟩
        exact absurd hans (hno.1 a x xs rfl rfl (hraw ▸ hs u hu huerr))
  | poll hrun => exact hrun.failuresShow ⟨hwf, hsd⟩ hs

end raw

-- ============================================================ every run

/-- What holds along a run: failures show, and one that has occurred
stays. -/
theorem Server.Run.failuresShow {conf : Conf} {s s' : Server}
    (hrun : Server.Run conf (NoLaunchWhenFailed conf) s s') (hg : s.Good)
    (hs : s.world.FailuresShow) :
    s'.Good ∧ s'.world.FailuresShow
      ∧ ∀ x ∈ s.world.sjobs, x.state = .error → s'.world.StillAs x := by
  induction hrun with
  | refl => exact ⟨hg, hs, fun x hx _ => ⟨x, hx, rfl, rfl, .refl x⟩⟩
  | tail _ hst ih =>
      obtain ⟨e, hc, hst⟩ := hst
      obtain ⟨hg', hs', hstill⟩ := ih
      obtain ⟨hch, hgood⟩ := hst.change hg'
      refine ⟨hgood, hch.failuresShow hg'.wf hg'.sound hc hs', ?_⟩
      intro x hx herr
      obtain ⟨y, hy, hid, hr, ha⟩ := hstill x hx herr
      have hyerr : y.state = .error := ha.state.trans herr
      obtain ⟨z, hz, hzid, hzr, hza⟩ := (hch.leftAlone hg'.wf hg'.sound
        (fun hfin => by rw [hyerr] at hfin; cases hfin) hy (.inl hyerr)).doc
      exact ⟨z, hz, hzid.trans hid, hzr.trans hr, ha.trans hza⟩

/-- In a run in which no launch is accepted for an sjob of a failed
rawjob, a rawjob is failed from the moment one of its sjobs is. -/
theorem failed_rawjob_stays_failed {conf : Conf} {w : World} (hw : w.Fresh)
    {s₁ s₂ : Server}
    (h₁ : Server.Run conf (NoLaunchWhenFailed conf) ⟨w, []⟩ s₁)
    (h₂ : Server.Run conf (NoLaunchWhenFailed conf) s₁ s₂) {x : Sjob}
    (hx : x ∈ s₁.world.sjobs) (herr : x.state = .error) :
    ∃ r ∈ s₂.world.rawjobs, r.id = x.rawjob ∧ r.state = .error := by
  have hfresh : w.FailuresShow := by
    intro z hz hc
    rw [(hw.sjobs z hz).state] at hc
    cases hc
  obtain ⟨hg, hs, -⟩ := h₁.failuresShow hw.good hfresh
  obtain ⟨-, hs', hstill⟩ := h₂.failuresShow hg hs
  obtain ⟨y, hy, -, hr, ha⟩ := hstill x hx herr
  obtain ⟨r, hrm, hst⟩ :=
    List.mem_map.mp (hs' y hy (ha.state.trans herr))
  exact ⟨r, hrm, (congrArg Prod.fst hst).trans hr, congrArg Prod.snd hst⟩

-- ------------------------------------------------------ two runs of it

theorem NoLaunchWhenFailed.of_rawjobs {conf : Conf} {e : Event} {s : Server}
    (h : ∀ p ∈ s.world.rawjobs.map Rawjob.status, p.2 ≠ .error) :
    NoLaunchWhenFailed conf e s :=
  ⟨fun _ _ _ _ _ hf => absurd rfl (h _ hf),
    fun _ _ _ _ _ _ _ _ _ hf => absurd rfl (h _ hf)⟩

/-- Two sjobs of one block each, of the same rawjob. -/
def twoSjobs : World := newWorld [newSjob 10 1 [20], newSjob 11 1 [21]]

theorem twoSjobs_fresh : twoSjobs.Fresh :=
  newWorld_fresh (by
    intro x hx
    rcases List.mem_cons.mp hx with rfl | hx
    · exact ⟨10, [20], rfl⟩
    · exact ⟨11, [21], List.mem_singleton.mp hx⟩) (by decide) (by decide)

/-- The pass has launched the first of the two sjobs. -/
def firstLaunched : Server :=
  (Server.passed ⟨twoSjobs, []⟩).attempted (plainConf false) true true

/-- Its transfer fails before the pass gets to the second one. -/
def firstFailed : Server :=
  firstLaunched.reported (plainConf false) true true 0 2

theorem run_firstFailed {C : Event → Server → Prop}
    (hpass : C .pass ⟨twoSjobs, []⟩)
    (hsch : C (.schedule (.of true true)) (Server.passed ⟨twoSjobs, []⟩))
    (hrep : C (.status 0 ⟨2, 0⟩ (.of true true)) firstLaunched) :
    Server.Run (plainConf false) C ⟨twoSjobs, []⟩ firstFailed :=
  ((Server.Run.passed .refl rfl hpass).attempted true true (by exact nofun)
    hsch).reported true true 0 2 hrep

/-- The launch of the second sjob is refused: the rawjob stays failed. -/
theorem failed_rawjob_stays_failed_refused :
    firstFailed.world.sjobs.map (·.state) = [.error, .bootstrap]
    ∧ ∃ r ∈ (firstFailed.attempted (plainConf false) true
        false).world.rawjobs, r.id = 1 ∧ r.state = .error := by
  refine ⟨rfl, ?_⟩
  obtain ⟨x, z, hx, hraw⟩ :
      ∃ x z, firstFailed.world.sjobs = [x, z] ∧ x.rawjob = 1 :=
    ⟨_, _, rfl, rfl⟩
  have hst : [x, z].map (·.state) = [SjobState.error, .bootstrap] := by
    rw [← hx]
    rfl
  have hrun := run_firstFailed (C := NoLaunchWhenFailed (plainConf false))
    (.of_rawjobs (by decide)) (.of_rawjobs (by decide))
    (.of_rawjobs (by
      intro p hp
      have hw : p ∈ [((1, .transferring) : Oid × RawjobState)] := hp
      rw [List.mem_singleton.mp hw]
      nofun))
  have hnext : NoLaunchWhenFailed (plainConf false)
      (.schedule (.of true false)) firstFailed := by
    constructor
    · rintro _ _ _ ⟨⟩ - - hl
      cases hl
    · rintro _ _ _ ⟨⟩
  rw [← hraw]
  exact failed_rawjob_stays_failed twoSjobs_fresh hrun
    (Server.Run.attempted .refl true false nofun hnext)
    (by simp [hx]) (by simpa using congrArg List.head? hst)

/-- The launch of the second sjob is accepted: the rawjob of the failed
sjob is transferring again. -/
theorem failed_rawjob_transferring_again :
    Server.Run (plainConf false) (fun _ _ => True) ⟨twoSjobs, []⟩ firstFailed
    ∧ Server.Run (plainConf false) (fun _ _ => True) firstFailed
        (firstFailed.attempted (plainConf false) true true)
    ∧ firstFailed.world.sjobs.map (fun x => (x.id, x.rawjob, x.state))
      = [(10, 1, .error), (11, 1, .bootstrap)]
    ∧ firstFailed.world.rawjobs.map (fun r => (r.id, r.state))
      = [(1, .error)]
    ∧ (firstFailed.attempted (plainConf false) true true).world.rawjobs.map
        (fun r => (r.id, r.state)) = [(1, .transferring)] :=
  ⟨run_firstFailed trivial trivial trivial,
    Server.Run.attempted .refl true true nofun trivial, rfl, rfl, rfl⟩

end BigDataExpress
