/-
What the network functions touch: they set stages and the setup and
teardown states of the sjob they work for, and make calls for it, none
of them a launch. No network function ends in an exception.
-/
import BigDataExpress.Proofs.Tracker

namespace BigDataExpress

open Interact

/-- The states an sjob passes through while its paths are handled. -/
inductive SjobState.Network : SjobState → Prop
  | wanSetup : Network .wanSetup
  | sdnSetup : Network .sdnSetup
  | sdnTeardown : Network .sdnTeardown
  | wanTeardown : Network .wanTeardown

/-- No network state is the finished one. -/
theorem SjobState.Network.ne_finished {s : SjobState} (h : s.Network) :
    s ≠ .finished := by
  cases h <;> decide

/-- The writes of a network function. -/
inductive NetOp (sid : Oid) : (World → World) → Prop
  | id : NetOp sid id
  | stage (s : StageName) (v : SjobStage) :
      NetOp sid (World.updateSjobStage sid s v)
  | state {s : SjobState} : s.Network →
      NetOp sid (World.updateSjobState sid s)

/-- The calls of a network function. -/
def NetCall (sid : Oid) (e : Call) : Prop :=
  e.isLaunch = false ∧ ∀ i ∈ e.job?, i = sid

/-- A handler that only does network work for an sjob. -/
abbrev NetActs {α : Type} (sid : Oid) (p : Handler α) : Prop :=
  p.Acts (NetOp sid) (NetCall sid)

namespace NetActs

variable {sid : Oid} {α : Type}

/-- Setting a stage of the sjob is one of them. -/
theorem stage {s : StageName} {v : SjobStage} :
    NetActs sid (SiteStore.updateSjobStage sid s v) :=
  .modify (.stage s v)

/-- So is setting it on a condition. -/
theorem stageIf {c : Bool} {s : StageName} {v : SjobStage} :
    NetActs sid (SiteStore.updateSjobStageIf c sid s v) := by
  cases c with
  | true => exact stage
  | false => exact .pure ()

/-- So is putting the sjob in a network state. -/
theorem state {s : SjobState} (h : s.Network) :
    NetActs sid (SiteStore.updateSjobState sid s) :=
  .modify (.state h)

/-- A call for no sjob. -/
theorem other {e : Call} (hl : e.isLaunch = false) (hj : e.job? = none) :
    NetActs sid (ask e) :=
  .ask ⟨hl, by simp [hj]⟩

/-- A call for the sjob. -/
theorem own {e : Call} (hl : e.isLaunch = false)
    (hj : e.job? = some sid) : NetActs sid (ask e) :=
  .ask ⟨hl, by simp [hj]⟩

-- ================================================================== WAN

/-- Asking a network agent again and again changes nothing else. -/
theorem attempts {e : Call} {ok : Reply e → Bool} (he : NetCall sid e)
    (n : Nat) : NetActs sid (WAN.attempts e ok n) := by
  induction n with
  | zero => exact .pure false
  | succ n ih =>
      refine .bind' (.ask he) fun r => ?_
      split
      · exact .pure true
      · exact ih

/-- Releasing a WAN path is network work. -/
theorem release (uuid : String) : NetActs sid (WAN.release sid uuid) :=
  attempts ⟨rfl, by simp [Call.job?]⟩ _

/-- Terminating a WAN path is network work. -/
theorem terminate (uuid : String) : NetActs sid (WAN.terminate sid uuid) :=
  attempts ⟨rfl, by simp [Call.job?]⟩ _

/-- Deleting a WAN path is network work. -/
theorem del (uuid : String) : NetActs sid (WAN.del (some sid) uuid) :=
  attempts ⟨rfl, by simp [Call.job?]⟩ _

/-- Deleting a WAN path names no sjob. -/
theorem del_none (uuid : String) : NetActs sid (WAN.del none uuid) :=
  attempts ⟨rfl, by simp [Call.job?]⟩ _

/-- Setting up a WAN path: the reservation, then its states. -/
theorem setupWanPath (src dst : Dtn) (v v' : String) :
    NetActs sid (setupWanPath src dst v v') := by
  refine .bind' (other rfl rfl) fun c => ?_
  split
  · exact .pure _
  · refine .bind' (other rfl rfl) fun r1 => ?_
    split
    · exact .bind' (del_none _) fun _ => .pure _
    · refine .bind' (other rfl rfl) fun r2 => ?_
      split
      · exact .bind' (del_none _) fun _ => .pure _
      · exact .pure _

/-- Tearing down a WAN path: release, terminate, delete. -/
theorem teardownWanPath (uuid : String) :
    NetActs sid (teardownWanPath sid uuid) := by
  unfold BigDataExpress.teardownWanPath
  split
  · exact .pure 0
  · refine .bind' (state .wanTeardown) fun _ => .bind' stage fun _ =>
      .bind' (release uuid) fun r => ?_
    split
    · exact .bind' stage fun _ => .pure _
    · refine .bind' (terminate uuid) fun t => ?_
      split
      · exact .bind' stage fun _ => .pure _
      · refine .bind' (del uuid) fun d => ?_
        split
        · exact .bind' stage fun _ => .pure _
        · exact .bind' stage fun _ => .pure _

-- ================================================================== SDN

/-- One try to reserve, if what follows a failure is one too. -/
theorem reserveAttempt {url : String} {req : ReserveRequest}
    {setup : Bool} {lan tear : StageName}
    {failed : ReserveAnswer → Handler (Except ReserveAnswer Int)}
    (hf : ∀ r, NetActs sid (failed r)) :
    NetActs sid (reserveAttempt sid url req setup lan tear failed) := by
  refine .bind' stageIf fun _ => .bind' (own rfl rfl) fun r => ?_
  split
  · exact .bind' stageIf fun _ => .bind' stageIf fun _ => .pure _
  · exact hf r

/-- All tries to reserve, by induction on those that are left. -/
theorem reserveLoop (url : String) (req : ReserveRequest) (setup : Bool)
    (lan tear : StageName) (n : Nat) :
    NetActs sid (reserveLoop sid url req setup lan tear n) := by
  induction n with
  | zero =>
      exact reserveAttempt fun r => .bind' stage fun _ => .pure _
  | succ n ih => exact reserveAttempt fun _ => ih

/-- The pings before the path is set up. -/
theorem prePings (c : Bool) (src dst : Dtn) :
    NetActs sid (prePings c src dst) := by
  cases c with
  | true =>
      exact .bind' (other rfl rfl) fun _ => .bind' (other rfl rfl)
        fun _ => .pure _
  | false => exact .pure ()

/-- Setting up the SDN path: pings, reservation on both ends. -/
theorem setupSdnPath (src dst : Dtn) (rate : Int) (c : Bool)
    (v v' : Int) : NetActs sid (setupSdnPath sid src dst rate c v v') := by
  refine .bind' (prePings c src dst) fun _ =>
    .bind' (reserveLoop ..) fun r => ?_
  split
  · exact .pure _
  · refine .bind' (reserveLoop ..) fun r' => ?_
    split
    · exact .pure _
    · exact .pure _

/-- Releasing one end of the SDN path. -/
theorem releasePath (dtn peer : Dtn) (tear : StageName) :
    NetActs sid (releasePath sid dtn peer tear) := by
  unfold BigDataExpress.releasePath
  split
  · exact .bind' stageIf fun _ => .bind' (own rfl rfl) fun _ => stageIf
  · exact .pure ()

/-- Tearing down the SDN path at both ends. -/
theorem teardownSdnPath (src dst : Dtn) :
    NetActs sid (teardownSdnPath sid src dst) :=
  .bind' (state .sdnTeardown) fun _ => .bind' (releasePath ..) fun _ =>
    .bind' (releasePath ..) fun _ => .pure 0

-- ===================================================== whole-path handling

/-- Pinging until an answer comes, by induction on the tries left. -/
theorem pingLoop (url dtn dest : String) (n : Nat) :
    NetActs sid (pingLoop url dtn dest n) := by
  induction n with
  | zero =>
      refine .bind' (other rfl rfl) fun r => ?_
      split
      · exact .pure _
      · exact .pure _
  | succ n ih =>
      refine .bind' (other rfl rfl) fun r => ?_
      split
      · exact .pure _
      · exact ih

/-- Verifying a path in both directions. -/
theorem verifyPath (src dst : Dtn) : NetActs sid (verifyPath src dst) :=
  pingLoop ..

/-- Choosing a best-effort pair of DTNs only asks. -/
theorem findBestEffortDtnPair (s d : String) (src dst : SiteInfo) :
    NetActs sid (findBestEffortDtnPair s d src dst) := by
  refine .bind' (other rfl rfl) fun r => .bind' (other rfl rfl) fun r' => ?_
  split
  · exact .pure _
  · split
    · exact .pure _
    · split
      · exact .pure _
      · split
        · exact .pure _
        · exact .pure _

/-- The network handler of a path that is pending. -/
theorem networkPending (src dst : Dtn) :
    NetActs sid (networkPending sid src dst) :=
  .bind' stage fun _ => .bind' stageIf fun _ => stageIf

/-- The network handler of an SDN path. -/
theorem networkSdn (src dst : Dtn) (uuid : String) (bw v v' : Int) :
    NetActs sid (networkSdn sid src dst uuid bw v v') := by
  refine .bind' (state .sdnSetup) fun _ =>
    .bind' (setupSdnPath ..) fun r => ?_
  split
  · exact .pure _
  · exact .pure _

/-- The network handler of an sjob, by the kind of its path. -/
theorem networkHandling (src dst : Dtn) :
    NetActs sid (networkHandling sid src dst) := by
  unfold BigDataExpress.networkHandling
  split
  · exact .bind' stage fun _ => .bind' stage fun _ =>
      .bind' (networkPending ..) fun _ => networkSdn ..
  · split
    · refine .bind' (state .wanSetup) fun _ => .bind' stage fun _ =>
        .bind' stage fun _ => .bind' (networkPending ..) fun _ =>
        .bind' (setupWanPath ..) fun r => ?_
      split
      · exact .bind' stage fun _ => .pure _
      · exact .bind' stage fun _ => .bind' stage fun _ => networkSdn ..
    · exact .bind' stage fun _ => .pure _

/-- Tearing down whatever path there is. -/
theorem teardownPaths (src dst : Dtn) :
    NetActs sid (teardownPaths sid src dst) :=
  .bind' (teardownSdnPath ..) fun _ => .bind' (teardownWanPath ..)
    fun _ => stage

/-- Tearing down after a flow. -/
theorem teardown (flow : Flow) : NetActs sid (teardown sid flow) :=
  .bind' stage fun _ => teardownPaths ..

end NetActs

-- ======================================================= the tracker rule

/-- Network work leaves the document as it is, up to its state. -/
theorem Tracker.Spec.net {x : Sjob} {tr : Tracker x} {α β : Type}
    {d : Delta} {p : Handler α} {k : α → Handler β}
    {Q : Except String β → Delta → Prop} (hp : NetActs x.id p)
    (hlive : tr.strict → d.doc.state ≠ .finished)
    (hk : ∀ a s, s = d.doc.state ∨ s.Network →
      tr.Spec { d with doc := d.doc.setState s } (k a) Q) :
    tr.Spec d (p >>= k) Q := by
  -- the assertion kept: the document with one of the passing states
  let I : World → Prop := fun w => ∃ s, (s = d.doc.state ∨ s.Network)
    ∧ tr.T { d with doc := d.doc.setState s } w
  have live : ∀ s, s = d.doc.state ∨ s.Network → tr.strict →
      (d.doc.setState s).state ≠ .finished := by
    rintro s (rfl | hs) hst
    · exact hlive hst
    · exact hs.ne_finished
  have hK : ∀ f, NetOp x.id f → ∀ w, I w → tr.G w (f w) ∧ I (f w) := by
    rintro f hf w ⟨s, hs, hT⟩
    cases hf with
    | id => exact ⟨tr.skip hT, s, hs, hT⟩
    | stage n v =>
        obtain ⟨hg, hT'⟩ := tr.act (.stage x.id n v) hT
        exact ⟨hg, s, hs, hT'⟩
    | @state s' hn =>
        obtain ⟨hg, hT'⟩ := tr.state (s := s')
          (fun h => absurd h hn.ne_finished) (live s hs) hT
        exact ⟨hg, s', .inr hn, hT'⟩
  have hC : ∀ e, NetCall x.id e → ∀ w r, I w → tr.E.adm w e r →
      tr.G w (tr.E.eff w e r) ∧ I (tr.E.eff w e r) := by
    rintro e ⟨hl, hj⟩ w r ⟨s, hs, hT⟩ hr
    obtain ⟨hg, hT'⟩ := tr.call hl hj hr hT
    exact ⟨hg, s, hs, hT'⟩
  have hI : ∀ w w', I w → tr.R w w' → I w' := by
    rintro w w' ⟨s, hs, hT⟩ hR
    exact ⟨s, hs, tr.stable hT hR⟩
  refine seq (P := fun _ d' => ∃ s, (s = d.doc.state ∨ s.Network)
    ∧ d' = { d with doc := d.doc.setState s }) ?_ ?_
  · intro w hw
    refine Prog.rg_mono ?_ (Prog.rg_of_acts hI hK hC hp ⟨_, .inl rfl, hw⟩)
    rintro r v ⟨⟨a, rfl⟩, s, hs, hT⟩
    exact ⟨_, hT, a, rfl, s, hs, rfl⟩
  · rintro a d' ⟨s, hs, rfl⟩
    exact hk a s hs

end BigDataExpress
