/-
A scheduling attempt takes all or nothing: it ends with the block
launched over the paths it has obtained, or failed with everything given
back.

What it gives back is decided by the answers it gets. A WAN path whose
release or termination is refused to the end is not deleted; a LAN path
that is reported installed under the number `-1` cannot be told from no
path and is not released; and without a launcher the attempt throws
after its paths are up. `Clean` says that nothing of the sort has
occurred.
-/
import BigDataExpress.Proofs.Ledger
import BigDataExpress.Proofs.Failure

namespace BigDataExpress

open Interact Collection

-- ================================================ obtained and returned

/-- Everything obtained was given back. -/
structure Returned (l : List Item) : Prop where
  paths : ∀ url dtn p, .path url dtn p ∈ l → .release url dtn p ∈ l
  wans : ∀ u, .wan u ∈ l → ∃ ok, .wanDelete u ok ∈ l

/-- The requests to take WAN paths down were accepted in the end, and no
LAN path has the number `-1`. -/
structure Clean (l : List Item) : Prop where
  released : ∀ u, .wanRelease u false ∈ l → .wanRelease u true ∈ l
  terminated : ∀ u, .wanTerminate u false ∈ l → .wanTerminate u true ∈ l
  numbered : ∀ url dtn, .path url dtn (-1) ∉ l

/-- The paths that the DTNs of an attempt say it has. -/
inductive Acquired (src dst : Dtn) : List Item → Prop
  | none {l : List Item} : src.wanUuid = "" → src.pathId = -1 →
      dst.pathId = -1 → WanGivenUp l → Acquired src dst l
  | some {code : Int} {l : List Item} :
      SdnTrace src dst code src.pathId dst.pathId l →
      Acquired src dst (wanItems src.wanUuid ++ l)

section returned

variable {src dst : Dtn} {l ln lm lc : List Item}

/-- The path is the one the DTN says it has. -/
def Dtn.HasPath (d : Dtn) (url dtn : String) (p : Int) : Prop :=
  url = d.site.url ∧ dtn = d.id ∧ p = d.pathId

theorem mem_releaseItems {d : Dtn} {url dtn : String} {p : Int} :
    .release url dtn p ∈ releaseItems d ↔ p ≠ -1 ∧ d.HasPath url dtn p := by
  unfold releaseItems Dtn.HasPath
  split
  · rename_i hp
    simp only [List.mem_singleton, Item.release.injEq]
    constructor
    · rintro ⟨hu, hd, rfl⟩
      exact ⟨hp, hu, hd, rfl⟩
    · rintro ⟨-, h⟩
      exact h
  · rename_i hp
    rw [ne_eq, not_not] at hp
    simp only [List.not_mem_nil, false_iff]
    rintro ⟨hne, -, -, rfl⟩
    exact hne hp

/-- Only paths are among the entries of the two sites, and every one is
in the DTNs. -/
theorem SdnTrace.mem {code p q : Int} (h : SdnTrace src dst code p q l)
    (hp : src.pathId = p) (hq : dst.pathId = q) {i : Item} (hi : i ∈ l) :
    ∃ url dtn n, i = .path url dtn n
      ∧ (src.HasPath url dtn n ∨ dst.HasPath url dtn n) := by
  have hsrc : ∃ url dtn n, Item.path src.site.url src.id p
      = .path url dtn n
      ∧ (src.HasPath url dtn n ∨ dst.HasPath url dtn n) :=
    ⟨_, _, _, rfl, .inl ⟨rfl, rfl, hp.symm⟩⟩
  have hdst : ∃ url dtn n, Item.path dst.site.url dst.id q
      = .path url dtn n
      ∧ (src.HasPath url dtn n ∨ dst.HasPath url dtn n) :=
    ⟨_, _, _, rfl, .inr ⟨rfl, rfl, hq.symm⟩⟩
  cases h with
  | noSrc => cases hi
  | noDst =>
      rw [List.mem_singleton.mp hi]
      exact hsrc
  | both =>
      rcases List.mem_cons.mp hi with hi | hi
      · rw [hi]
        exact hsrc
      · rw [List.mem_singleton.mp hi]
        exact hdst

-- ------------------------------------------------------ kinds of entries

/-- The part of an attempt an entry belongs to; a deletion may belong to
the setup of a WAN path or to the clean up. -/
inductive Phase
  | network | probe | cleanUp | deletion
deriving DecidableEq

def Item.phase : Item → Phase
  | .path .. => .network
  | .wan _ => .network
  | .ping _ => .probe
  | .launch .. => .probe
  | .release .. => .cleanUp
  | .wanRelease .. => .cleanUp
  | .wanTerminate .. => .cleanUp
  | .wanDelete .. => .deletion

theorem Acquired.phase (h : Acquired src dst ln) {i : Item} (hi : i ∈ ln) :
    i.phase = .network ∨ i.phase = .deletion := by
  cases h with
  | none hu hp hq hw =>
      obtain ⟨u, rfl | ⟨ok, rfl⟩⟩ := hw.only i hi
      · exact .inl rfl
      · exact .inr rfl
  | some hs =>
      left
      rcases List.mem_append.mp hi with hi | hi
      · unfold wanItems at hi
        split at hi
        · cases hi
        · rw [List.mem_singleton.mp hi]
          rfl
      · obtain ⟨_, _, _, rfl, -⟩ := hs.mem rfl rfl hi
        rfl

theorem releaseItems_only {d : Dtn} {i : Item} (hi : i ∈ releaseItems d) :
    ∃ url dtn p, i = .release url dtn p := by
  unfold releaseItems at hi
  split at hi
  · exact ⟨_, _, _, List.mem_singleton.mp hi⟩
  · cases hi

theorem WanTeardown.phase {u : String} (h : WanTeardown u l) {i : Item}
    (hi : i ∈ l) : i.phase = .cleanUp ∨ i.phase = .deletion := by
  obtain ⟨ok, rfl | rfl | rfl⟩ := h.only i hi
  · exact .inl rfl
  · exact .inl rfl
  · exact .inr rfl

theorem Cleaned.phase (h : Cleaned src dst lc) {i : Item} (hi : i ∈ lc) :
    i.phase = .cleanUp ∨ i.phase = .deletion := by
  obtain ⟨lw, rfl, hw⟩ := h
  rw [List.mem_append, List.mem_append] at hi
  rcases hi with (hi | hi) | hi
  · obtain ⟨_, _, _, rfl⟩ := releaseItems_only hi
    exact .inl rfl
  · obtain ⟨_, _, _, rfl⟩ := releaseItems_only hi
    exact .inl rfl
  · rcases hw with ⟨-, rfl⟩ | ⟨-, hw⟩
    · cases hi
    · exact hw.phase hi

/-- The entries of an attempt that fails. -/
structure FailedTrace (src dst : Dtn) (ln lm lc : List Item) : Prop where
  net : Acquired src dst ln
  probes : ∀ i ∈ lm, i.phase = .probe
  down : Cleaned src dst lc

namespace FailedTrace

variable (h : FailedTrace src dst ln lm lc) {i : Item}
include h

theorem mem_network (hi : i.phase = .network) :
    i ∈ ln ++ lm ++ lc ↔ i ∈ ln := by
  rw [List.mem_append, List.mem_append, or_assoc, or_iff_left]
  rintro (hm | hm)
  · rw [h.probes i hm] at hi
    cases hi
  · rcases h.down.phase hm with hc | hc <;> rw [hc] at hi <;> cases hi

theorem mem_cleanUp (hi : i.phase = .cleanUp) :
    i ∈ ln ++ lm ++ lc ↔ i ∈ lc := by
  rw [List.mem_append, List.mem_append, or_iff_right]
  rintro (hm | hm)
  · rcases h.net.phase hm with hc | hc <;> rw [hc] at hi <;> cases hi
  · rw [h.probes i hm] at hi
    cases hi

theorem mem_probe (hi : i.phase = .probe) : i ∈ ln ++ lm ++ lc ↔ i ∈ lm := by
  rw [List.mem_append, List.mem_append, or_assoc, or_iff_right, or_iff_left]
  · intro hm
    rcases h.down.phase hm with hc | hc <;> rw [hc] at hi <;> cases hi
  · intro hm
    rcases h.net.phase hm with hc | hc <;> rw [hc] at hi <;> cases hi

theorem mem_deletion (hi : i.phase = .deletion) :
    i ∈ ln ++ lm ++ lc ↔ i ∈ ln ∨ i ∈ lc := by
  rw [List.mem_append, List.mem_append, or_assoc, or_congr_right]
  rw [or_iff_right]
  intro hm
  rw [h.probes i hm] at hi
  cases hi

-- ------------------------------------------------------ given back or not

omit h in
/-- The entries of a WAN path among those of the clean up. -/
theorem mem_wan {lw : List Item} (hi : ∀ url dtn p, i ≠ .release url dtn p) :
    i ∈ releaseItems src ++ releaseItems dst ++ lw ↔ i ∈ lw := by
  rw [List.mem_append, or_iff_right]
  intro hm
  rcases List.mem_append.mp hm with hm | hm
  · obtain ⟨url, dtn, p, he⟩ := releaseItems_only hm
    exact hi url dtn p he
  · obtain ⟨url, dtn, p, he⟩ := releaseItems_only hm
    exact hi url dtn p he

omit h in
/-- The releases among the entries of the clean up. -/
theorem mem_release (hc : Cleaned src dst lc) {url dtn : String} {p : Int} :
    .release url dtn p ∈ lc
      ↔ p ≠ -1 ∧ (src.HasPath url dtn p ∨ dst.HasPath url dtn p) := by
  obtain ⟨lw, rfl, hw⟩ := hc
  have hnot : Item.release url dtn p ∉ lw := by
    intro hi
    rcases hw with ⟨-, rfl⟩ | ⟨-, hw⟩
    · cases hi
    · obtain ⟨ok, hc | hc | hc⟩ := hw.only _ hi <;> cases hc
  simp only [List.mem_append, mem_releaseItems, hnot, or_false, and_or_left]

/-- A path obtained is released exactly when it has a number. -/
theorem paths_iff :
    (∀ url dtn p, .path url dtn p ∈ ln ++ lm ++ lc →
      .release url dtn p ∈ ln ++ lm ++ lc)
    ↔ ∀ url dtn, .path url dtn (-1) ∉ ln ++ lm ++ lc := by
  constructor
  · intro hall url dtn hi
    have hr := hall url dtn (-1) hi
    rw [h.mem_cleanUp rfl, mem_release h.down] at hr
    exact hr.1 rfl
  · intro hnum url dtn p hi
    rw [h.mem_cleanUp rfl, mem_release h.down]
    refine ⟨?_, ?_⟩
    · rintro rfl
      exact hnum url dtn hi
    · rw [h.mem_network rfl] at hi
      cases h.net with
      | none hu hp hq hw => obtain ⟨u, hc | ⟨ok, hc⟩⟩ := hw.only _ hi <;> cases hc
      | some hs =>
          rcases List.mem_append.mp hi with hi | hi
          · unfold wanItems at hi
            split at hi
            · cases hi
            · cases List.mem_singleton.mp hi
          · obtain ⟨_, _, _, he, hh⟩ := hs.mem rfl rfl hi
            cases he
            exact hh

/-- A WAN path obtained is deleted exactly when the requests before that
were accepted. -/
theorem wans_iff :
    (∀ u, .wan u ∈ ln ++ lm ++ lc →
      ∃ ok, .wanDelete u ok ∈ ln ++ lm ++ lc)
    ↔ (∀ u, .wanRelease u false ∈ ln ++ lm ++ lc →
        .wanRelease u true ∈ ln ++ lm ++ lc)
      ∧ ∀ u, .wanTerminate u false ∈ ln ++ lm ++ lc →
        .wanTerminate u true ∈ ln ++ lm ++ lc := by
  have hW : ∀ u, Item.wan u ∈ ln ++ lm ++ lc ↔ .wan u ∈ ln :=
    fun u => h.mem_network rfl
  have hD : ∀ u ok, Item.wanDelete u ok ∈ ln ++ lm ++ lc
      ↔ .wanDelete u ok ∈ ln ∨ .wanDelete u ok ∈ lc :=
    fun u ok => h.mem_deletion rfl
  have hR : ∀ u ok, Item.wanRelease u ok ∈ ln ++ lm ++ lc
      ↔ .wanRelease u ok ∈ lc := fun u ok => h.mem_cleanUp rfl
  have hT : ∀ u ok, Item.wanTerminate u ok ∈ ln ++ lm ++ lc
      ↔ .wanTerminate u ok ∈ lc := fun u ok => h.mem_cleanUp rfl
  simp only [hW, hD, hR, hT]
  obtain ⟨lw, rfl, hw⟩ := h.down
  simp only [mem_wan (i := .wanDelete ..) (by simp),
    mem_wan (i := .wanRelease ..) (by simp),
    mem_wan (i := .wanTerminate ..) (by simp)]
  rcases hw with ⟨hu, rfl⟩ | ⟨hu, hw⟩
  · -- there is nothing to take down
    simp only [List.not_mem_nil, or_false, false_implies, implies_true,
      and_self, iff_true]
    intro u hi
    cases h.net with
    | none hu hp hq hg => exact hg.deleted u hi
    | some hs =>
        rw [wanItems, if_pos hu, List.nil_append] at hi
        obtain ⟨_, _, _, he, -⟩ := hs.mem rfl rfl hi
        cases he
  · cases h.net with
    | none hu' => exact absurd hu' hu
    | @some _ l hs =>
        have hpath : ∀ i ∈ l, ∃ url dtn n, i = .path url dtn n := by
          intro i hi
          obtain ⟨url, dtn, n, he, -⟩ := hs.mem rfl rfl hi
          exact ⟨url, dtn, n, he⟩
        have hwan : ∀ u, Item.wan u ∈ wanItems src.wanUuid ++ l
            ↔ u = src.wanUuid := by
          intro u
          rw [wanItems, if_neg hu, List.singleton_append, List.mem_cons,
            Item.wan.injEq, or_iff_left]
          intro hi
          obtain ⟨_, _, _, he⟩ := hpath _ hi
          cases he
        have hdel : ∀ u ok, Item.wanDelete u ok
            ∉ wanItems src.wanUuid ++ l := by
          intro u ok hi
          rw [wanItems, if_neg hu, List.singleton_append,
            List.mem_cons] at hi
          rcases hi with hi | hi
          · cases hi
          · obtain ⟨_, _, _, he⟩ := hpath _ hi
            cases he
        simp only [hwan, hdel, false_or, forall_eq, hw.deleted]
        have hone : ∀ u ok, Item.wanRelease u ok ∈ lw ∨
            .wanTerminate u ok ∈ lw → u = src.wanUuid := by
          rintro u ok (hi | hi)
          · obtain ⟨_, he | he | he⟩ := hw.only _ hi <;> cases he
            rfl
          · obtain ⟨_, he | he | he⟩ := hw.only _ hi <;> cases he
            rfl
        constructor
        · rintro ⟨hr, ht⟩
          refine ⟨fun u hi => ?_, fun u hi => ?_⟩
          · obtain rfl := hone u false (.inl hi)
            exact hr hi
          · obtain rfl := hone u false (.inr hi)
            exact ht hi
        · rintro ⟨hr, ht⟩
          exact ⟨hr _, ht _⟩

/-- After a failure everything is given back exactly when the answers
were clean. -/
theorem returned_iff :
    Returned (ln ++ lm ++ lc) ↔ Clean (ln ++ lm ++ lc) := by
  constructor
  · intro hr
    exact ⟨(h.wans_iff.mp hr.wans).1, (h.wans_iff.mp hr.wans).2,
      h.paths_iff.mp hr.paths⟩
  · intro hc
    exact ⟨h.paths_iff.mpr hc.numbered,
      h.wans_iff.mpr ⟨hc.released, hc.terminated⟩⟩

end FailedTrace

end returned

-- =========================================================== the attempt

/-- The state of the rawjob. -/
def World.RawIs (rid : Oid) (st : RawjobState) (w : World) : Prop :=
  ∀ r, w.rawjob? rid = some r → r.state = st

/-- The sjob has a flow between the two DTNs. -/
def World.HasRoute (sid : Oid) (r : Dtn × Dtn) (w : World) : Prop :=
  ∀ q, w.routes.find? (·.1 == sid) = some q → r ∈ q.2

/-- The entries of an attempt, and how it has ended. -/
inductive AttemptTrace (launcher : Bool) (rid sid : Oid) (w : World) :
    Except String Unit → List Item → Prop
  | failed {src dst : Dtn} {ln lm lc : List Item} :
      FailedTrace src dst ln lm lc → (.ping true ∈ lm → launcher = true) →
      .launch true ∉ lm → w.RawIs rid .error →
      AttemptTrace launcher rid sid w (.ok ()) (ln ++ lm ++ lc)
  | thrown {m : String} {l : List Item} : .ping true ∈ l →
      launcher = false → AttemptTrace launcher rid sid w (.error m) l
  | launched {src dst : Dtn} {code : Int} {l lm : List Item} :
      launcher = true → SdnTrace src dst code src.pathId dst.pathId l →
      src.wanUuid = dst.wanUuid → (∀ i ∈ lm, i.phase = .probe) →
      .launch true ∈ lm → w.RawIs rid .transferring →
      w.HasRoute sid (src, dst) →
      AttemptTrace launcher rid sid w (.ok ())
        (wanItems src.wanUuid ++ l ++ lm)

section attempt

variable {h : HandlerId} {w w' : World} {rid sid : Oid}
  {Q : Except String Unit → World → Prop}

theorem World.rawjob?_updateRawjob {f : Rawjob → Rawjob}
    (hf : ∀ r, (f r).id = r.id) (w : World) :
    (w.updateRawjob rid f).rawjob? rid = (w.rawjob? rid).map f :=
  find?_updateOne (fun r => by rw [hf]) w.rawjobs

theorem World.rawIs_updateRawjobState (rid : Oid) (st : RawjobState)
    (w : World) : (w.updateRawjobState rid st).RawIs rid st := by
  intro r hr
  rw [updateRawjobState, rawjob?_updateRawjob, Option.map_eq_some_iff] at hr
  · obtain ⟨r', -, rfl⟩ := hr
    rfl
  · exact fun _ => rfl

theorem World.RawIs.error {st : RawjobState} (hw : w.RawIs rid st)
    (msg : String) : (w.updateRawjobError rid msg).RawIs rid st := by
  intro r hr
  rw [updateRawjobError, rawjob?_updateRawjob, Option.map_eq_some_iff] at hr
  · obtain ⟨r', hr', rfl⟩ := hr
    exact hw r' hr'
  · exact fun _ => rfl

/-- An inserted flow is a route of its sjob. -/
theorem World.hasRoute_insertFlow (sid : Oid) (f : Flow) (w : World) :
    (w.insertFlow sid f).HasRoute sid (f.srcDtn, f.dstDtn) := by
  intro q hq
  have hfind : (w.insertFlow sid f).sjobs.find? (·.id == sid)
      = (w.sjobs.find? (·.id == sid)).map
        fun x => { x with flows := x.flows ++ [f] } :=
    find?_updateOne (f := fun x : Sjob => { x with flows := x.flows ++ [f] })
      (fun _ => rfl) w.sjobs
  rw [routes, List.find?_map, Option.map_eq_some_iff] at hq
  obtain ⟨y, hy, rfl⟩ := hq
  have hy' : (w.insertFlow sid f).sjobs.find? (·.id == sid) = some y := hy
  rw [hfind, Option.map_eq_some_iff] at hy'
  obtain ⟨x, -, rfl⟩ := hy'
  simp

/-- What is known in the middle of an attempt that began at `w₀`. -/
abbrev SinceThen (w₀ : World) (l : List Item) (w : World) : Prop :=
  Since World.ledger World.frame w₀ l w

/-- The end of the clean up: the sjob and the rawjob are failed. -/
theorem fail_wp {err : String}
    (hQ : ∀ w', w'.ledger = w.ledger → w'.RawIs rid .error →
      Q (.ok ()) w') :
    Prog.wp (Answers.any.env h) Q (do
      SiteStore.updateSjobState sid .error
      SiteStore.updateRawjobState rid .error
      SiteStore.updateSjobError sid err
      SiteStore.updateRawjobError rid err) w := by
  simp only [SiteStore.updateSjobState, SiteStore.updateRawjobState,
    SiteStore.updateSjobError, SiteStore.updateRawjobError, Prog.wp_bind',
    Prog.wp_modify]
  refine hQ _ rfl ?_
  refine World.RawIs.error ?_ err
  exact World.rawIs_updateRawjobState rid .error _

theorem scheduleCleanUp_wp {w₀ : World} {l : List Item} {err : String}
    {src dst : Dtn} (hw : SinceThen w₀ l w)
    (hQ : ∀ lc w', Cleaned src dst lc → w'.ledger = w₀.ledger ++ (l ++ lc) →
      w'.RawIs rid .error → Q (.ok ()) w') :
    Prog.wp (Answers.any.env h) Q
      (scheduleCleanUp rid sid err (some (src, dst))) w := by
  refine hw.skip Ledger.stage fun _ w₁ hw₁ => ?_
  refine hw₁.step (teardownPaths_ledger sid src dst) ?_
  intro _ lc w₂ hc hw₂
  refine fail_wp fun w' hl' hr => hQ lc w' hc ?_ hr
  rw [hl', hw₂.record]

/-- The end of an attempt whose path is up and verified, after the
entries `lp` of the path and the pings `lm`. -/
theorem launchFlow_wp {w₀ : World} {b : Oid} {f : Flow} {code : Int}
    {lp lm : List Item}
    (hs : SdnTrace f.srcDtn f.dstDtn code f.srcDtn.pathId f.dstDtn.pathId lp)
    (hu : f.srcDtn.wanUuid = f.dstDtn.wanUuid)
    (hm : ∀ i ∈ lm, ∃ ok, i = .ping ok) (hp : .ping true ∈ lm)
    (hw : SinceThen w₀ (wanItems f.srcDtn.wanUuid ++ lp ++ lm) w)
    (hQ : ∀ r l w', w'.ledger = w₀.ledger ++ l →
      AttemptTrace w₀.hasLauncher rid sid w' r l → Q r w') :
    Prog.wp (Answers.any.env h) Q (launchFlow rid sid b f) w := by
  have hphase : ∀ ok, ∀ i ∈ lm ++ [.launch ok], i.phase = .probe := by
    intro ok i hi
    rcases List.mem_append.mp hi with hi | hi
    · obtain ⟨ok, rfl⟩ := hm i hi
      rfl
    · rw [List.mem_singleton.mp hi]
      rfl
  simp only [launchFlow, SiteStore.insertFlow]
  rw [Prog.wp_bind', Prog.wp_modify]
  -- from here on the routes have the new flow
  have hroute := World.hasRoute_insertFlow sid f w
  have hlau : (w.insertFlow sid f).hasLauncher = w₀.hasLauncher :=
    congrArg Prod.snd hw.frame
  have hled : (w.insertFlow sid f).ledger
      = w₀.ledger ++ (wanItems f.srcDtn.wanUuid ++ lp ++ lm) := hw.record
  have h₀ : SinceThen (w.insertFlow sid f) [] (w.insertFlow sid f) :=
    .start _
  refine h₀.skip Emits.read fun files w₁ hw₁ => ?_
  refine hw₁.skip Ledger.state fun _ w₂ hw₂ => ?_
  refine hw₂.skip Ledger.stage fun _ w₃ hw₃ => ?_
  refine hw₃.skip Ledger.stage fun _ w₄ hw₄ => ?_
  have hlau₄ : w₄.hasLauncher = w₀.hasLauncher :=
    (congrArg Prod.snd hw₄.frame).trans hlau
  by_cases hno : w₄.hasLauncher = true
  · simp only [launcherQueue, Prog.wp_bind', Prog.wp_read, if_pos hno,
      Prog.wp_pure']
    refine hw₄.step (Ledger.ask _) ?_
    rintro (res : LaunchAnswer) l w₅ rfl hw₅
    rw [List.nil_append] at hw₅
    cases herr : res.error with
    | some err =>
        -- the launch is refused
        have hitem : item (.launch b (f.launchCmd files)) res
            = [.launch false] := by simp [item, herr]
        rw [hitem] at hw₅
        refine hw₅.skip Ledger.stage fun _ w₆ hw₆ => ?_
        refine hw₆.skip Ledger.stage fun _ w₇ hw₇ => ?_
        refine scheduleCleanUp_wp hw₇ fun lc w' hc hlc hraw => ?_
        refine hQ _ _ w' ?_ (.failed ⟨.some hs, hphase false, hc⟩
          (fun _ => hlau₄ ▸ hno) ?_ hraw)
        · rw [hlc, hled]
          simp only [List.append_assoc]
        · intro hi
          rcases List.mem_append.mp hi with hi | hi
          · obtain ⟨ok, hc⟩ := hm _ hi
            cases hc
          · cases List.mem_singleton.mp hi
    | none =>
        have hitem : item (.launch b (f.launchCmd files)) res
            = [.launch true] := by simp [item, herr]
        rw [hitem] at hw₅
        refine hw₅.skip Ledger.blockState fun _ w₆ hw₆ => ?_
        refine hw₆.skip (Ledger.flow fun _ => rfl) fun _ w₇ hw₇ => ?_
        refine hw₇.step (Ledger.ask .epochMs) ?_
        rintro (now : Int) l w₈ rfl hw₈
        refine hw₈.skip (Ledger.flow fun _ => rfl) fun _ w₉ hw₉ => ?_
        simp only [SiteStore.updateRawjobState, Prog.wp_modify]
        have hroute₉ : w₉.HasRoute sid (f.srcDtn, f.dstDtn) := by
          intro q hq
          have : w₉.routes = (w.insertFlow sid f).routes :=
            congrArg Prod.fst hw₉.frame
          rw [this] at hq
          exact hroute q hq
        refine hQ _ _ _ ?_ (.launched (hlau₄ ▸ hno) hs hu (hphase true)
          (by simp) (World.rawIs_updateRawjobState rid _ w₉) hroute₉)
        show w₉.ledger = _
        rw [hw₉.record, hled]
        simp only [item, List.append_nil, List.append_assoc]
  · -- there is no launcher to ask
    simp only [launcherQueue, Prog.wp_bind', Prog.wp_read, if_neg hno,
      Prog.wp_throw]
    refine hQ _ _ w₄ (by rw [hw₄.record, List.append_nil, hled])
      (.thrown (by simp [hp]) ?_)
    rw [← hlau₄]
    simpa using hno

theorem prepareFlow_ledger (conf : Conf) (rjob : Option Rawjob) (sid : Oid)
    (src dst : Dtn) (s d : Option String) (b : Oid) :
    Ledger h (prepareFlow conf rjob sid src dst s d b) fun f l =>
      l = [] ∧ f.srcDtn = src ∧ f.dstDtn = dst := by
  have hguid : Ledger h (SiteStore.guid sid) fun _ l => l = [] := by
    refine ⟨fun w => ?_⟩
    simp only [SiteStore.guid, Prog.wp_act, Prog.wp_pure]
    exact ⟨rfl, _, [], rfl, (List.append_nil _).symm, rfl⟩
  refine .skip hguid fun task => Ledger.call fun now => ?_
  exact .pure ⟨rfl, rfl, rfl⟩

/-- Verification and launch, once the paths `lp` are up. -/
theorem verifyAndLaunch_wp {conf : Conf} {rjob : Option Rawjob}
    {w₀ : World} {b : Oid} {src dst : Dtn} {s d : Option String}
    {code : Int} {lp : List Item}
    (hs : SdnTrace src dst code src.pathId dst.pathId lp)
    (hu : src.wanUuid = dst.wanUuid)
    (hw : SinceThen w₀ (wanItems src.wanUuid ++ lp) w)
    (hQ : ∀ r l w', w'.ledger = w₀.ledger ++ l →
      AttemptTrace w₀.hasLauncher rid sid w' r l → Q r w') :
    Prog.wp (Answers.any.env h) Q
      (verifyAndLaunch conf rjob rid sid b src dst s d) w := by
  refine hw.skip Ledger.state fun _ w₁ hw₁ => ?_
  refine hw₁.skip Ledger.stage fun _ w₂ hw₂ => ?_
  refine hw₂.step (verifyPath_ledger src dst) ?_
  intro r lm w₃ hp hw₃
  cases r with
  | error e =>
      refine hw₃.skip Ledger.stage fun _ w₄ hw₄ => ?_
      refine hw₄.skip Ledger.stage fun _ w₅ hw₅ => ?_
      refine scheduleCleanUp_wp hw₅ fun lc w' hc hlc hraw => ?_
      refine hQ _ _ w' hlc (.failed ⟨.some hs, ?_, hc⟩ ?_ ?_ hraw)
      · intro i hi
        obtain ⟨ok, rfl⟩ := hp.only i hi
        rfl
      · intro hi
        cases hp.answered.mp hi
      · intro hi
        obtain ⟨ok, hc⟩ := hp.only _ hi
        cases hc
  | ok u =>
      refine hw₃.skip Ledger.stage fun _ w₄ hw₄ => ?_
      refine hw₄.skip Ledger.stage fun _ w₅ hw₅ => ?_
      refine hw₅.step (prepareFlow_ledger ..) ?_
      rintro f l w₆ ⟨rfl, rfl, rfl⟩ hw₆
      rw [List.append_nil] at hw₆
      exact launchFlow_wp hs hu hp.only (hp.answered.mpr rfl) hw₆ hQ

/-- The DTN with the paths it was given. -/
def Dtn.given (uuid : String) (id : Int) (d : Dtn) : Dtn :=
  { d with wanUuid := uuid, pathId := id }

/-- The paths in use do not depend on what the DTNs had before. -/
theorem SdnTrace.given {src dst : Dtn} {code p q : Int} {l : List Item}
    (hs : SdnTrace src dst code p q l) (u : String) :
    SdnTrace (src.given u p) (dst.given u q) code p q l := by
  cases hs with
  | noSrc hc => exact .noSrc hc
  | noDst hc => exact .noDst hc
  | both => exact .both

/-- What network handling has obtained is in the DTNs. -/
theorem NetTrace.acquired {src dst : Dtn} {res : NetRes} {l : List Item}
    (hn : NetTrace src dst res l) :
    Acquired (src.given res.wanUuid res.srcSdnPathId)
      (dst.given res.wanUuid res.dstSdnPathId) l := by
  cases hn with
  | noWan hc hu hp hq hw => exact .none hu hp hq hw
  | sdn hs => exact .some (hs.given res.wanUuid)

theorem connectAndLaunch_wp {conf : Conf} {rjob : Option Rawjob}
    {w₀ : World} {b : Oid} {pair : DtnPair} (hw : SinceThen w₀ [] w)
    (hQ : ∀ r l w', w'.ledger = w₀.ledger ++ l →
      AttemptTrace w₀.hasLauncher rid sid w' r l → Q r w') :
    Prog.wp (Answers.any.env h) Q
      (connectAndLaunch conf rjob rid sid b pair) w := by
  refine hw.skip Ledger.stage fun _ w₁ hw₁ => ?_
  split
  · -- a private pair gets a path
    refine hw₁.skip Ledger.stage fun _ w₂ hw₂ => ?_
    refine hw₂.step (networkHandling_ledger ..) ?_
    intro res ln w₃ hn hw₃
    rw [List.nil_append] at hw₃
    split
    · refine hw₃.skip Ledger.stage fun _ w₄ hw₄ => ?_
      refine scheduleCleanUp_wp hw₄ fun lc w' hc hlc hraw => ?_
      have htrace : FailedTrace _ _ ln [] lc := ⟨hn.acquired, by simp, hc⟩
      refine hQ _ _ w' ?_ (.failed htrace (by simp) (by simp) hraw)
      rw [hlc, List.append_nil]
    · rename_i hcode
      cases hn with
      | noWan hc => exact absurd hc hcode
      | sdn hs => exact verifyAndLaunch_wp (hs.given res.wanUuid) rfl hw₃ hQ
  · -- a public pair needs none
    refine hw₁.skip Ledger.stage fun _ w₂ hw₂ => ?_
    refine hw₂.skip Ledger.stage fun _ w₃ hw₃ => ?_
    refine hw₃.skip Ledger.stage fun _ w₄ hw₄ => ?_
    have hnone : SdnTrace (pair.srcDtn.given "" (-1))
        (pair.dstDtn.given "" (-1)) 1 (-1) (-1) [] := .noSrc (by decide)
    exact verifyAndLaunch_wp hnone rfl hw₄ hQ

theorem scheduleBlock_wp (conf : Conf) (x : Sjob) (b : Oid) (w : World) :
    Prog.wp (Answers.any.env h) (fun r w' => ∃ l, w'.ledger = w.ledger ++ l
      ∧ AttemptTrace w.hasLauncher x.rawjob x.id w' r l)
      (scheduleBlock conf x b) w := by
  have h₀ : SinceThen w [] w := .start w
  refine h₀.skip Emits.read fun rjob w₁ hw₁ => ?_
  refine hw₁.skip Emits.read fun src w₂ hw₂ => ?_
  refine hw₂.skip Emits.read fun dst w₃ hw₃ => ?_
  refine hw₃.skip Ledger.state fun _ w₄ hw₄ => ?_
  refine hw₄.skip Ledger.stage fun _ w₅ hw₅ => ?_
  refine hw₅.skip Ledger.stage fun _ w₆ hw₆ => ?_
  refine hw₆.skip (findBestEffortDtnPair_ledger ..) fun r w₇ hw₇ => ?_
  cases r with
  | error e =>
      -- no DTNs, and so nothing to give back
      refine hw₇.skip Ledger.stage fun _ w₈ hw₈ => ?_
      refine hw₈.skip Ledger.stage fun _ w₉ hw₉ => ?_
      refine hw₉.skip Ledger.stage fun _ v hv => ?_
      refine hv.skip Ledger.stage fun _ v' hv' => ?_
      refine fail_wp fun w' hl hraw => ⟨[], hl.trans hv'.record, ?_⟩
      have htrace : FailedTrace (publicDtn "") (publicDtn "") [] [] [] :=
        ⟨.none rfl rfl rfl ⟨by simp, by simp⟩, by simp,
          [], rfl, .inl ⟨rfl, rfl⟩⟩
      exact .failed htrace (by simp) (by simp) hraw
  | ok pair =>
      refine hw₇.skip Ledger.stage fun _ w₈ hw₈ => ?_
      refine hw₈.skip Ledger.stage fun _ w₉ hw₉ => ?_
      exact connectAndLaunch_wp hw₉ fun r l w' hl ht => ⟨l, hl, ht⟩

end attempt

-- ===================================================== all or nothing

/-- The block `b` of `x` was launched: its flow has the paths that were
obtained. -/
def LaunchedOver (x : Sjob) (b : Oid) (l : List Item) (w : World) : Prop :=
  ∃ y ∈ w.sjobs, y.id = x.id ∧ y.state = .launching
    ∧ (∃ k ∈ y.blocks, k.id = b ∧ k.state = .transferring)
    ∧ ∃ f, y.flows = [f] ∧ f.block = b
      ∧ (∀ url dtn p, .path url dtn p ∈ l →
        f.srcDtn.HasPath url dtn p ∨ f.dstDtn.HasPath url dtn p)
      ∧ ∀ u, .wan u ∈ l → f.srcDtn.wanUuid = u ∧ f.dstDtn.wanUuid = u

/-- The sjob `x` has failed, and everything was given back. -/
def FailedReturned (x : Sjob) (l : List Item) (w : World) : Prop :=
  (∃ y ∈ w.sjobs, y.id = x.id ∧ y.state = .error)
    ∧ (∃ r ∈ w.rawjobs, r.id = x.rawjob ∧ r.state = .error) ∧ Returned l

section final

variable {h : HandlerId} {w w' : World} {x y : Sjob} {d : Delta}
  {r : Except String Unit} {l : List Item} {b : Block}

/-- The rawjob state that was written. -/
theorem At.raw_state (ht : At h w x y d w')
    (hx : x.rawjob ∈ w.rawjobs.map (·.id)) {st : RawjobState}
    (hraw : d.raw = some st) :
    ∃ r ∈ w'.rawjobs, r.id = x.rawjob ∧ r.state = st := by
  obtain ⟨r, hr, hid⟩ := List.mem_map.mp hx
  have hmem : (x.rawjob, st) ∈ w'.rawjobs.map Rawjob.status := by
    rw [ht.rawjobs, List.mem_map]
    refine ⟨r, hr, ?_⟩
    rw [if_pos hid, hraw, hid]
    rfl
  obtain ⟨r', hr', he⟩ := List.mem_map.mp hmem
  exact ⟨r', hr', congrArg Prod.fst he, congrArg Prod.snd he⟩

/-- Two accounts of the rawjob's state agree. -/
theorem At.rawIs_eq (ht : At h w x y d w')
    (hx : x.rawjob ∈ w.rawjobs.map (·.id)) {st st' : RawjobState}
    (hraw : d.raw = some st) (his : w'.RawIs x.rawjob st') : st = st' := by
  obtain ⟨r, hr, hid, hst⟩ := ht.raw_state hx hraw
  have hfind := find?_key Rawjob.id ht.wf.rawjobs hr
  rw [hid] at hfind
  exact hst.symm.trans (his r hfind)

/-- The entries of paths in use are in the DTNs. -/
theorem SdnTrace.recorded {src dst : Dtn} {code : Int} {lp lm : List Item}
    (hs : SdnTrace src dst code src.pathId dst.pathId lp)
    (hu : src.wanUuid = dst.wanUuid) (hm : ∀ i ∈ lm, i.phase = .probe) :
    (∀ url dtn p, .path url dtn p ∈ wanItems src.wanUuid ++ lp ++ lm →
      src.HasPath url dtn p ∨ dst.HasPath url dtn p)
    ∧ ∀ u, .wan u ∈ wanItems src.wanUuid ++ lp ++ lm →
      src.wanUuid = u ∧ dst.wanUuid = u := by
  have hwan : ∀ i ∈ wanItems src.wanUuid, i = .wan src.wanUuid := by
    intro i hi
    unfold wanItems at hi
    split at hi
    · cases hi
    · exact List.mem_singleton.mp hi
  constructor
  · intro url dtn p hi
    rw [List.mem_append, List.mem_append] at hi
    rcases hi with (hi | hi) | hi
    · cases hwan _ hi
    · obtain ⟨_, _, _, he, hh⟩ := hs.mem rfl rfl hi
      cases he
      exact hh
    · cases hm _ hi
  · intro u hi
    rw [List.mem_append, List.mem_append] at hi
    rcases hi with (hi | hi) | hi
    · cases hwan _ hi
      exact ⟨rfl, hu.symm⟩
    · obtain ⟨_, _, _, he, -⟩ := hs.mem rfl rfl hi
      cases he
    · cases hm _ hi

/-- The document of an sjob whose block was launched. -/
theorem At.launchedOver {src dst : Dtn} {lp lm : List Item} {code : Int}
    {f : Flow} (hb : b ∈ x.blocks) (hnodup : x.blockIds.Nodup)
    (hfb : f.block = b.id)
    (ht : At h w x y d w') (hd : d.doc = ((x.withFlow f).onBlock b.id
      (Block.setState .transferring)).setState .launching)
    (hs : SdnTrace src dst code src.pathId dst.pathId lp)
    (hu : src.wanUuid = dst.wanUuid) (hm : ∀ i ∈ lm, i.phase = .probe)
    (hroute : w'.HasRoute x.id (src, dst)) :
    LaunchedOver x b.id (wanItems src.wanUuid ++ lp ++ lm) w' := by
  have ha := ht.alike
  rw [hd] at ha
  refine ⟨y, ht.doc_mem, ht.id, ha.state, ?_, ?_⟩
  · -- the block
    have hk : Block.setState .transferring b
        ∈ ((x.withFlow f).onBlock b.id (Block.setState .transferring)).blocks
        := (Sjob.mem_onBlock hnodup).mpr ⟨b, hb, (if_pos rfl).symm⟩
    obtain ⟨k, hky, hmark⟩ := ha.symm.block hk
    exact ⟨k, hky, congrArg (·.1) hmark, congrArg (·.2.1) hmark⟩
  · -- the flow
    obtain ⟨g, hg⟩ : ∃ g, y.flows = [g] := by
      have hlen := congrArg List.length ha.flows
      rw [List.length_map, List.length_map] at hlen
      exact List.length_eq_one_iff.mp hlen
    have hgb : g.block = b.id := by
      have hmark : y.flows.map Flow.mark = [f.mark] := ha.flows
      rw [hg] at hmark
      have := congrArg (·.2.2) (List.singleton_inj.mp hmark)
      exact Eq.trans this hfb
    have hfind : w'.routes.find? (·.1 == x.id)
        = some (y.id, y.flows.map fun f => (f.srcDtn, f.dstDtn)) := by
      rw [World.routes, List.find?_map]
      have hy := ht.wf.sjob?_eq ht.doc_mem
      rw [ht.id] at hy
      exact congrArg (Option.map _) hy
    have hmem := hroute _ hfind
    rw [hg, List.map_singleton, List.mem_singleton, Prod.mk.injEq] at hmem
    obtain ⟨rfl, rfl⟩ := hmem
    exact ⟨g, hg, hgb, hs.recorded hu hm⟩

theorem AttemptTrace.all_or_nothing {files : Oid → BlockFiles}
    {answer : Bool → Prop} (hb : b ∈ x.blocks) (hnodup : x.blockIds.Nodup)
    (hx : x.rawjob ∈ w.rawjobs.map (·.id)) (ht : At h w x y d w')
    (ho : AttemptOutcome files w.hasLauncher answer x b.id r d)
    (htr : AttemptTrace w.hasLauncher x.rawjob x.id w' r l) :
    (r = .ok () ∧ Xor (LaunchedOver x b.id l w') (FailedReturned x l w'))
    ↔ (.ping true ∈ l → w.hasLauncher = true)
      ∧ (∀ u, .wanRelease u false ∈ l → .wanRelease u true ∈ l)
      ∧ (∀ u, .wanTerminate u false ∈ l → .wanTerminate u true ∈ l)
      ∧ (.launch true ∉ l → ∀ url dtn, .path url dtn (-1) ∉ l) := by
  have hone : ∀ y' ∈ w'.sjobs, y'.id = x.id → y' = y := fun y' hy' hid =>
    ht.wf.eq_of_id ht.doc_mem hy' (hid.trans ht.id.symm)
  cases htr with
  | @failed src dst ln lm lc hf hp hl hraw =>
      have herr : y.state = .error ∧ d.raw = some .error := by
        rw [ht.alike.state]
        cases ho with
        | failed => exact ⟨rfl, rfl⟩
        | refused => exact ⟨rfl, rfl⟩
        | launched => cases ht.rawIs_eq hx rfl hraw
      have hno : ¬ LaunchedOver x b.id (ln ++ lm ++ lc) w' := by
        rintro ⟨y', hy', hid, hst, -⟩
        rw [hone y' hy' hid, herr.1] at hst
        cases hst
      have hlaunch : Item.launch true ∉ ln ++ lm ++ lc := by
        rw [hf.mem_probe rfl]
        exact hl
      constructor
      · rintro ⟨-, ⟨hc, -⟩ | ⟨hret, -⟩⟩
        · exact absurd hc hno
        · have hclean := hf.returned_iff.mp hret.2.2
          exact ⟨fun hi => hp ((hf.mem_probe rfl).mp hi), hclean.released,
            hclean.terminated, fun _ => hclean.numbered⟩
      · rintro ⟨-, hrel, hter, hnum⟩
        refine ⟨rfl, .inr ⟨⟨⟨y, ht.doc_mem, ht.id, herr.1⟩,
          ht.raw_state hx herr.2, ?_⟩, hno⟩⟩
        exact hf.returned_iff.mpr ⟨hrel, hter, hnum hlaunch⟩
  | thrown hp hl =>
      constructor
      · rintro ⟨hc, -⟩
        cases hc
      · rintro ⟨hc, -⟩
        rw [hl] at hc
        cases hc hp
  | @launched src dst code lp lm hlau hs hu hm hl hraw hroute =>
      have hover : LaunchedOver x b.id (wanItems src.wanUuid ++ lp ++ lm) w'
          ∧ y.state = .launching := by
        cases ho with
        | failed => cases ht.rawIs_eq hx rfl hraw
        | refused => cases ht.rawIs_eq hx rfl hraw
        | launched hst hfb => exact ⟨ht.launchedOver hb hnodup hfb rfl hs hu
            hm hroute, ht.alike.state⟩
      -- nothing was taken down
      have hdown : ∀ i ∈ wanItems src.wanUuid ++ lp ++ lm,
          i.phase ≠ .cleanUp := by
        intro i hi hc
        rcases List.mem_append.mp hi with hi | hi
        · rcases (Acquired.some hs).phase hi with he | he <;>
            rw [he] at hc <;> cases hc
        · rw [hm i hi] at hc
          cases hc
      constructor
      · rintro -
        refine ⟨fun _ => hlau, fun u hi => absurd rfl (hdown _ hi),
          fun u hi => absurd rfl (hdown _ hi), fun hno => ?_⟩
        exact absurd (List.mem_append_right _ hl) hno
      · rintro -
        refine ⟨rfl, .inl ⟨hover.1, ?_⟩⟩
        rintro ⟨⟨y', hy', hid, hst⟩, -⟩
        rw [hone y' hy' hid, hover.2] at hst
        cases hst

end final

-- ============================================================ every run

/-- The outcome of an attempt at the first waiting block, and its
entries. -/
theorem attempt_traced {conf : Conf} {w : World} {x : Sjob} {xs : List Sjob}
    (hg : Server.Good ⟨w, x :: xs⟩) (hflows : x.flows = []) {b : Block}
    (hb : x.blocks.find? (·.state == .waiting) = some b) (a : Answers)
    {o : Oracle World Call Reply} (ho : o.Admissible (a.env .schedule))
    {r : Except String Unit} {w' : World}
    (hout : (scheduleSjob conf x).run (a.env .schedule) o w = (r, w')) :
    ∃ l y d, w'.ledger = w.ledger ++ l
      ∧ AttemptTrace w.hasLauncher x.rawjob x.id w' r l
      ∧ At .schedule w x y d w'
      ∧ AttemptOutcome w.blockFiles w.hasLauncher a.launched x b.id r d := by
  obtain ⟨z, hz, hid, hr, ha⟩ := hg.same x (List.mem_cons_self ..) hflows
  have hsched : scheduleSjob conf x = scheduleBlock conf x b.id := by
    simp only [scheduleSjob, hflows, hb]
    rfl
  rw [hsched] at hout
  obtain ⟨d, y, ht, hout'⟩ := exact_run hg.wf hz hid hr ha
    (scheduleBlock_spec conf (exact .schedule a w x) hflows
      (List.mem_map_of_mem (List.mem_of_find?_eq_some hb)) fun hf => hf.elim)
    ho
  have hadm : o.Admissible (Answers.any.env .schedule) := by
    intro v e
    cases e <;> trivial
  obtain ⟨l, hl, htr⟩ := Prog.wp_run hadm
    (scheduleBlock_wp (h := .schedule) conf x b.id w)
  have henv : (scheduleBlock conf x b.id).run (Answers.any.env .schedule) o w
      = (scheduleBlock conf x b.id).run (a.env .schedule) o w := by
    refine Prog.run_env ?_ o _ w
    rfl
  rw [henv, hout] at hl htr
  rw [hout] at ht hout'
  exact ⟨l, y, d, hl, htr, ht, hout'⟩

/-- Whatever the state of the run and whatever the answers to the calls,
an attempt ends without an exception in one of the two ways exactly when
the answers are these: a path that works is found only while there is a
launcher, a WAN path that is to be released or terminated is so in the
end, and an attempt whose launch was not accepted was given no LAN path
with the number `-1`. -/
theorem attempt_all_or_nothing {conf : Conf} {w₀ : World} (hw₀ : w₀.Fresh)
    {w : World} {x : Sjob} {xs : List Sjob}
    (hrun : Server.Run conf (fun _ _ => True) ⟨w₀, []⟩ ⟨w, x :: xs⟩)
    (hflows : x.flows = []) {b : Block}
    (hb : x.blocks.find? (·.state == .waiting) = some b)
    (o : Oracle World Call Reply) {r : Except String Unit} {w' : World}
    (hout : (scheduleSjob conf x).run (Answers.any.env .schedule) o w
      = (r, w')) {new : List LogEntry} (hlog : w'.log = w.log ++ new) :
    (r = .ok () ∧ Xor (LaunchedOver x b.id (items new) w')
      (FailedReturned x (items new) w'))
    ↔ (.ping true ∈ items new → w.hasLauncher = true)
      ∧ (∀ u, .wanRelease u false ∈ items new →
          .wanRelease u true ∈ items new)
      ∧ (∀ u, .wanTerminate u false ∈ items new →
          .wanTerminate u true ∈ items new)
      ∧ (.launch true ∉ items new →
          ∀ url dtn, .path url dtn (-1) ∉ items new) := by
  have hg := hrun.good hw₀.good
  obtain ⟨z, hz, hid, hr, ha⟩ := hg.same x (List.mem_cons_self ..) hflows
  have hnodup := hg.wf.blockIds_nodup hz
  rw [ha.blockIds] at hnodup
  have hadm : o.Admissible (Answers.any.env .schedule) := by
    intro v e
    cases e <;> trivial
  obtain ⟨l, y, d, hl, htr, ht, ho⟩ :=
    attempt_traced hg hflows hb .any hadm hout
  have hitems : items new = l := by
    have hled : items (w.log ++ new) = items w.log ++ l := by
      rw [← hlog]
      exact hl
    rw [items_append, List.append_cancel_left_eq] at hled
    exact hled
  rw [hitems]
  exact htr.all_or_nothing (List.mem_of_find?_eq_some hb) hnodup
    (hr ▸ hg.wf.owned z hz) ht ho

/-- With a launcher and a path that works, the attempt at the first of
two blocks ends in one of the two ways. -/
theorem attempt_all_or_nothing_launched :
    items launchedOne.world.log = [.ping true, .launch true]
    ∧ Xor (LaunchedOver (newSjob 10 1 [20, 21]) 20
        (items launchedOne.world.log) launchedOne.world)
      (FailedReturned (newSjob 10 1 [20, 21])
        (items launchedOne.world.log) launchedOne.world) := by
  have hitems : items launchedOne.world.log = [.ping true, .launch true] :=
    rfl
  have hrun : Server.Run (plainConf false) (fun _ _ => True)
      ⟨twoBlocks, []⟩ ⟨twoBlocks, newSjob 10 1 [20, 21] :: []⟩ :=
    Server.Run.passed .refl rfl trivial
  have hlog : launchedOne.world.log = twoBlocks.log ++ launchedOne.world.log :=
    rfl
  have hiff := attempt_all_or_nothing twoBlocks_fresh hrun rfl
    (b := ⟨20, .waiting, 100, 0, 0, 0⟩) rfl (plainOracle true true)
    (r := .ok ()) rfl hlog
  rw [hitems] at hiff ⊢
  exact ⟨rfl, (hiff.mpr ⟨fun _ => rfl, by simp, by simp, by simp⟩).2⟩

-- ======================================================== no launcher

/-- A DTN with a static path to its peer. -/
def privateDtn : Dtn :=
  { publicDtn "dtn" with wanStatic := [⟨"", [⟨10000, 1, 1⟩]⟩] }

/-- Every call is answered well, and the DTNs are private. -/
def privateOracle : Oracle World Call Reply := fun w e => match e with
  | .availableDtn .. => (⟨200, none, [privateDtn], []⟩ : DtnAnswer)
  | e => plainOracle true true w e

/-- The launcher has gone when the pass begins. -/
def withoutLauncher : World := { twoBlocks with hasLauncher := false }

/-- The attempt sets up both paths and verifies them, and then throws:
the paths stay, and the sjob is neither launched nor failed. -/
theorem attempt_throws_without_launcher :
    Server.Run (plainConf false) (fun _ _ => True) ⟨twoBlocks, []⟩
        ⟨withoutLauncher, [newSjob 10 1 [20, 21]]⟩
    ∧ ((scheduleSjob (plainConf false) (newSjob 10 1 [20, 21])).run
        (Answers.any.env .schedule) privateOracle withoutLauncher).1
      = .error "launcher node not registered"
    ∧ items ((scheduleSjob (plainConf false) (newSjob 10 1 [20, 21])).run
        (Answers.any.env .schedule) privateOracle withoutLauncher).2.log
      = [.path "" "dtn" 7, .path "" "dtn" 7, .ping true]
    ∧ ((scheduleSjob (plainConf false) (newSjob 10 1 [20, 21])).run
        (Answers.any.env .schedule) privateOracle
          withoutLauncher).2.sjobs.map (·.state) = [.launching] :=
  ⟨(Server.Run.launcher .refl false trivial).passed rfl trivial, rfl, rfl,
    rfl⟩

end BigDataExpress
