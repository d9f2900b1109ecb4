/-
The ledger of a scheduling attempt: which network paths it is given, and
which it gives back.

`items` reads the ledger off the log of calls: LAN paths installed and
released, WAN paths created and the requests to take them down, pings
and launches, with the answers that matter. The functions of
`Network.lean` get a trace spec each, over any handler that runs alone;
the frame is the DTN pairs of the flows and whether there is a launcher.
-/
import BigDataExpress.Lib.Trace
import BigDataExpress.Proofs.Atomic

namespace BigDataExpress

open Interact Collection

-- ============================================================ the ledger

/-- An entry of the ledger; the flag is whether the request was
accepted. -/
inductive Item
  | path (url dtn : String) (id : Int)
  | release (url dtn : String) (id : Int)
  | wan (uuid : String)
  | wanRelease (uuid : String) (ok : Bool)
  | wanTerminate (uuid : String) (ok : Bool)
  | wanDelete (uuid : String) (ok : Bool)
  | ping (ok : Bool)
  | launch (ok : Bool)
deriving DecidableEq

/-- What a call and its answer mean for the ledger. A reservation that
`setup_sdn_path` takes for a failure gives no path, and a creation
without a uuid no WAN path. -/
def item : (e : Call) → Reply e → List Item
  | .sdnReserve _ url req, (r : ReserveAnswer) =>
      match r.path? with
      | some p => [.path url req.srcId p]
      | none => []
  | .sdnRelease _ url req, _ => [.release url req.dtn req.installedPathId]
  | .wanCreate .., (r : WanCreateRes) =>
      if r.uuid = "" then [] else [.wan r.uuid]
  | .wanRelease _ uuid, (r : Int) => [.wanRelease uuid (r == 200)]
  | .wanTerminate _ uuid, (r : Int) => [.wanTerminate uuid (r == 200)]
  | .wanDelete _ uuid, (r : Int) => [.wanDelete uuid (r == 200)]
  | .icmpPing .., (r : PingAnswer) => [.ping (r.code.getD 0 == 0)]
  | .launch .., (r : LaunchAnswer) => [.launch r.error.isNone]
  | _, _ => []

/-- What a log says about paths and pings. -/
def items (log : List LogEntry) : List Item :=
  log.flatMap fun e => item e.call e.reply

/-- A longer log says more. -/
theorem items_append (l l' : List LogEntry) :
    items (l ++ l') = items l ++ items l' := List.flatMap_append

/-- What the log of a world says of them. -/
def World.ledger (w : World) : List Item := items w.log

-- ============================================================= the frame

/-- The DTN pairs of the flows of each sjob. -/
def World.routes (w : World) : List (Oid × List (Dtn × Dtn)) :=
  w.sjobs.map fun x => (x.id, x.flows.map fun f => (f.srcDtn, f.dstDtn))

/-- What network handling leaves as it is. -/
def World.frame (w : World) : List (Oid × List (Dtn × Dtn)) × Bool :=
  (w.routes, w.hasLauncher)

/-- An update of an sjob that keeps its id and the DTNs of its flows. -/
theorem World.routes_updateSjob {p : Sjob → Bool} {f : Sjob → Sjob}
    (hf : ∀ x, (f x).id = x.id
      ∧ (f x).flows.map (fun f => (f.srcDtn, f.dstDtn))
        = x.flows.map fun f => (f.srcDtn, f.dstDtn)) (w : World) :
    (w.updateSjob p f).routes = w.routes :=
  map_updateOne (fun x => by rw [(hf x).1, (hf x).2]) w.sjobs

/-- The routes stay if the flows keep their ends. -/
theorem World.routes_updateFlow {t : Guid} {g : Flow → Flow}
    (hg : ∀ f, ((g f).srcDtn, (g f).dstDtn) = (f.srcDtn, f.dstDtn))
    (w : World) : (w.updateFlow t g).routes = w.routes :=
  routes_updateSjob (f := Sjob.onFlow t g)
    (fun x => ⟨rfl, map_updateOne hg x.flows⟩) w

section traces

variable {h : HandlerId}

/-- A trace spec of a handler of `schedule()`. -/
abbrev Ledger {α : Type} (h : HandlerId) (p : Handler α)
    (P : α → List Item → Prop) : Prop :=
  Emits (Answers.any.env h) World.ledger World.frame p P

namespace Ledger

variable {β : Type} {P : β → List Item → Prop}

/-- Actions that are not in the ledger and keep the frame. -/
theorem modify {f : World → World} (hlog : ∀ w, (f w).log = w.log)
    (hr : ∀ w, (f w).routes = w.routes)
    (hl : ∀ w, (f w).hasLauncher = w.hasLauncher) :
    Ledger h (Prog.modify f) fun _ l => l = [] :=
  Emits.modify (fun w => by rw [World.ledger, World.ledger, hlog])
    fun w => by rw [World.frame, World.frame, hr, hl]

/-- A call adds its item, if it has one. -/
theorem ask (e : Call) : Ledger h (BigDataExpress.ask e)
    fun r l => l = item e r := by
  refine Emits.ask (fun w r => ?_) fun w r => rfl
  show items (w.log ++ [⟨h, e, r⟩]) = _
  rw [items_append]
  simp [items, World.ledger]

/-- Setting a stage is no item. -/
theorem stage {sid : Oid} {n : StageName} {v : SjobStage} :
    Ledger h (SiteStore.updateSjobStage sid n v) fun _ l => l = [] :=
  modify (fun _ => rfl) (fun _ => rfl) fun _ => rfl

/-- Nor is setting it on a condition. -/
theorem stageIf {c : Bool} {sid : Oid} {n : StageName} {v : SjobStage} :
    Ledger h (SiteStore.updateSjobStageIf c sid n v) fun _ l => l = [] := by
  unfold SiteStore.updateSjobStageIf
  split
  · exact stage
  · exact .pure rfl

/-- Nor is a change of state. -/
theorem state {sid : Oid} {s : SjobState} :
    Ledger h (SiteStore.updateSjobState sid s) fun _ l => l = [] :=
  modify (fun _ => rfl) (World.routes_updateSjob fun _ => ⟨rfl, rfl⟩)
    fun _ => rfl

/-- Nor is one of a block. -/
theorem blockState {b : Oid} {st : BlockState} :
    Ledger h (SiteStore.updateSjobBlockState b st) fun _ l => l = [] :=
  modify (fun _ => rfl) (World.routes_updateSjob fun _ => ⟨rfl, rfl⟩)
    fun _ => rfl

/-- Nor is an update of a flow that keeps its ends. -/
theorem flow {t : Guid} {g : Flow → Flow}
    (hg : ∀ f, ((g f).srcDtn, (g f).dstDtn) = (f.srcDtn, f.dstDtn)) :
    Ledger h (Prog.modify (World.updateFlow t g)) fun _ l => l = [] :=
  modify (fun _ => rfl) (World.routes_updateFlow hg) fun _ => rfl

/-- A call, first in a sequence. -/
theorem call {e : Call} {k : Reply e → Handler β}
    (hk : ∀ r, Ledger h (k r) fun b l => P b (item e r ++ l)) :
    Ledger h (BigDataExpress.ask e >>= k) P := by
  refine (ask e).bind fun r l hl => ?_
  rw [hl]
  exact hk r

end Ledger

open Ledger (stage stageIf state)

-- ============================================================ WAN paths

/-- A request that was repeated until it was accepted, or given up. -/
structure Tried (g : Bool → Item) (b : Bool) (l : List Item) : Prop where
  only : ∀ i ∈ l, i = g true ∨ i = g false
  accepted : g true ∈ l ↔ b = true
  refused : b = false → g false ∈ l

/-- Only items of its own kind come of trying. -/
theorem Tried.not_mem {g : Bool → Item} {b : Bool} {l : List Item}
    (h : Tried g b l) {i : Item} (hi : ∀ ok, i ≠ g ok) : i ∉ l := by
  intro hm
  rcases h.only i hm with hc | hc
  · exact hi true hc
  · exact hi false hc

/-- And all of them say how a try went. -/
theorem Tried.kind {g : Bool → Item} {b : Bool} {l : List Item}
    (h : Tried g b l) {i : Item} (hi : i ∈ l) : ∃ ok, i = g ok := by
  rcases h.only i hi with hc | hc
  · exact ⟨true, hc⟩
  · exact ⟨false, hc⟩

/-- Accepted or not, the request was made. -/
theorem Tried.made {g : Bool → Item} {b : Bool} {l : List Item}
    (h : Tried g b l) : ∃ ok, g ok ∈ l := by
  cases b with
  | true => exact ⟨true, h.accepted.mpr rfl⟩
  | false => exact ⟨false, h.refused rfl⟩

/-- A request that is repeated a number of times. -/
theorem attempts_ledger {e : Call} {ok : Reply e → Bool} {g : Bool → Item}
    (hg : ∀ r, item e r = [g (ok r)]) (hne : g true ≠ g false) (n : Nat) :
    Ledger h (WAN.attempts e ok (n + 1)) (Tried g) := by
  induction n with
  | zero =>
      refine Ledger.call fun r => ?_
      rw [hg]
      cases hok : ok r with
      | true => exact .pure ⟨by simp, by simp, nofun⟩
      | false => exact .pure ⟨by simp, by simp [hne], by simp⟩
  | succ n ih =>
      refine Ledger.call fun r => ?_
      rw [hg]
      cases hok : ok r with
      | true => exact .pure ⟨by simp, by simp, nofun⟩
      | false =>
          refine ih.mono fun b l hl => ⟨?_, ?_, fun _ => by simp⟩
          · intro i hi
            rcases List.mem_cons.mp hi with hi | hi
            · exact .inr hi
            · exact hl.only i hi
          · rw [List.singleton_append, List.mem_cons, ← hl.accepted]
            simp [hne]

/-- The entries of a WAN path that could be created but not set up, or
none. -/
structure WanGivenUp (l : List Item) : Prop where
  only : ∀ i ∈ l, ∃ u, i = .wan u ∨ ∃ ok, i = .wanDelete u ok
  deleted : ∀ u, .wan u ∈ l → ∃ ok, .wanDelete u ok ∈ l

/-- The deletion of a path that was created. -/
theorem WanGivenUp.of_tried {u : String} {b : Bool} {l : List Item}
    (h : Tried (.wanDelete u) b l) : WanGivenUp (.wan u :: l) where
  only := by
    intro i hi
    rcases List.mem_cons.mp hi with hi | hi
    · exact ⟨u, .inl hi⟩
    · exact ⟨u, .inr (h.kind hi)⟩
  deleted := by
    intro v hv
    rcases List.mem_cons.mp hv with hv | hv
    · cases hv
      obtain ⟨ok, hok⟩ := h.made
      exact ⟨ok, List.mem_cons_of_mem _ hok⟩
    · exact absurd hv (h.not_mem (by simp))

/-- A WAN path that could not be set up was given up; one that was has its
id. -/
theorem setupWanPath_ledger (src dst : Dtn) (srcVlan dstVlan : String) :
    Ledger h (setupWanPath src dst srcVlan dstVlan) fun res l =>
      res.code ≠ 0 ∧ WanGivenUp l
      ∨ res.code = 0 ∧ res.wanUuid ≠ "" ∧ l = [.wan res.wanUuid] := by
  have hdel : ∀ u, Ledger h (WAN.del none u) (Tried (.wanDelete u)) :=
    fun u => attempts_ledger (fun r => rfl) (by simp) 3
  refine Ledger.call fun (cres : WanCreateRes) => ?_
  by_cases hu : cres.uuid = ""
  · simp only [hu, if_true]
    exact .pure (.inl ⟨by simp, by simp [item, hu], by simp [item, hu]⟩)
  · have hitem : item (.wanCreate src.stpName dst.stpName srcVlan dstVlan)
        cres = [.wan cres.uuid] := if_neg hu
    rw [hitem]
    simp only [hu, if_false]
    refine Ledger.call fun (r1 : Int) => ?_
    show Ledger h (ite _ _ _) _
    split
    · exact (hdel _).bind fun b l hl =>
        .pure (.inl ⟨by simp, by simpa [item] using WanGivenUp.of_tried hl⟩)
    · refine Ledger.call fun (r2 : Int) => ?_
      show Ledger h (ite _ _ _) _
      split
      · exact (hdel _).bind fun b l hl =>
          .pure (.inl ⟨by simp, by simpa [item] using WanGivenUp.of_tried hl⟩)
      · exact .pure (.inr ⟨rfl, hu, rfl⟩)

-- ============================================================ LAN paths

/-- One try to reserve: a path, or what is done after a refusal. -/
theorem reserveAttempt_ledger {sid : Oid} {url : String}
    {req : ReserveRequest} {setup : Bool} {lan tear : StageName}
    {failed : ReserveAnswer → Handler (Except ReserveAnswer Int)}
    {P : Except ReserveAnswer Int → List Item → Prop}
    (hok : ∀ p, P (.ok p) [.path url req.srcId p])
    (hfail : ∀ r, Ledger h (failed r) P) :
    Ledger h (reserveAttempt sid url req setup lan tear failed) P := by
  refine .skip stageIf fun _ => Ledger.call fun (r : ReserveAnswer) => ?_
  simp only [item]
  cases r.path? with
  | some p =>
      exact .skip stageIf fun _ => .skip stageIf fun _ => .pure (hok p)
  | none => exact hfail r

/-- A reservation ends with a path, or without one. -/
def Reserved (url dtn : String) (r : Except ReserveAnswer Int)
    (l : List Item) : Prop :=
  (∃ p, r = .ok p ∧ l = [.path url dtn p]) ∨ (∃ a, r = .error a) ∧ l = []

/-- The tries to reserve end in one path or in none. -/
theorem reserveLoop_ledger (sid : Oid) (url : String) (req : ReserveRequest)
    (setup : Bool) (lan tear : StageName) (n : Nat) :
    Ledger h (reserveLoop sid url req setup lan tear n)
      (Reserved url req.srcId) := by
  induction n with
  | zero =>
      refine reserveAttempt_ledger (fun p => .inl ⟨p, rfl, rfl⟩) fun r => ?_
      exact .skip stage fun _ => .pure (.inr ⟨⟨r, rfl⟩, rfl⟩)
  | succ n ih =>
      exact reserveAttempt_ledger (fun p => .inl ⟨p, rfl, rfl⟩) fun _ => ih

/-- The paths at the two sites: neither, the source's, or both. -/
inductive SdnTrace (src dst : Dtn) : Int → Int → Int → List Item → Prop
  | noSrc {code : Int} : code ≠ 0 → SdnTrace src dst code (-1) (-1) []
  | noDst {code p : Int} : code ≠ 0 →
      SdnTrace src dst code p (-1) [.path src.site.url src.id p]
  | both {p q : Int} : SdnTrace src dst 0 p q
      [.path src.site.url src.id p, .path dst.site.url dst.id q]

/-- The setup leaves paths at neither site, at the source's, or at both, and
its result says which. -/
theorem setupSdnPath_ledger (sid : Oid) (src dst : Dtn) (rate v v' : Int) :
    Ledger h (setupSdnPath sid src dst rate false v v') fun res l =>
      SdnTrace src dst res.code res.srcPathId res.dstPathId l := by
  refine .skip (.pure rfl) fun _ => (reserveLoop_ledger ..).bind ?_
  rintro r l (⟨p, rfl, rfl⟩ | ⟨⟨a, rfl⟩, rfl⟩)
  · refine (reserveLoop_ledger ..).bind ?_
    rintro r l (⟨q, rfl, rfl⟩ | ⟨⟨a, rfl⟩, rfl⟩)
    · exact .pure .both
    · exact .pure (.noDst (by simp))
  · exact .pure (.noSrc (by simp))

-- ===================================================== network handling

/-- The entry of a WAN path in use. -/
def wanItems (uuid : String) : List Item :=
  if uuid = "" then [] else [.wan uuid]

/-- What network handling has obtained, with the result it reports. -/
inductive NetTrace (src dst : Dtn) (res : NetRes) : List Item → Prop
  /-- no WAN path, and so nothing else -/
  | noWan {l : List Item} : res.code ≠ 0 → res.wanUuid = "" →
      res.srcSdnPathId = -1 → res.dstSdnPathId = -1 → WanGivenUp l →
      NetTrace src dst res l
  | sdn {l : List Item} :
      SdnTrace src dst res.code res.srcSdnPathId res.dstSdnPathId l →
      NetTrace src dst res (wanItems res.wanUuid ++ l)

/-- The network handler of an SDN path leaves what the setup leaves. -/
theorem networkSdn_ledger (sid : Oid) (src dst : Dtn) (uuid : String)
    (bw v v' : Int) :
    Ledger h (networkSdn sid src dst uuid bw v v') fun res l =>
      res.wanUuid = uuid
        ∧ SdnTrace src dst res.code res.srcSdnPathId res.dstSdnPathId l := by
  refine .skip state fun _ => (setupSdnPath_ledger ..).bind ?_
  intro res l hl
  split
  · exact .pure ⟨rfl, by simpa using hl⟩
  · rename_i hc
    rw [ne_eq, not_not] at hc
    rw [hc] at hl
    exact .pure ⟨rfl, by simpa using hl⟩

/-- A path that is pending reserves nothing. -/
theorem networkPending_ledger (sid : Oid) (src dst : Dtn) :
    Ledger h (networkPending sid src dst) fun _ l => l = [] :=
  .skip stage fun _ => .skip stageIf fun _ => stageIf

/-- Whatever the kind of the path, its trace is as said. -/
theorem networkHandling_ledger (sid : Oid) (src dst : Dtn) :
    Ledger h (networkHandling sid src dst) (NetTrace src dst) := by
  unfold networkHandling
  split
  · -- a static path
    refine .skip stage fun _ => .skip stage fun _ =>
      .skip (networkPending_ledger ..) fun _ => ?_
    refine (networkSdn_ledger ..).mono ?_
    rintro res l ⟨hu, hl⟩
    have htrace : NetTrace src dst res _ := .sdn hl
    rwa [hu] at htrace
  · split
    · -- a dynamic path
      refine .skip state fun _ => .skip stage fun _ =>
        .skip stage fun _ => .skip (networkPending_ledger ..) fun _ =>
        (setupWanPath_ledger ..).bind ?_
      rintro res l (⟨hc, hl⟩ | ⟨hc, hu, rfl⟩)
      · rw [if_pos hc]
        refine .skip stage fun _ => .pure ?_
        rw [List.append_nil]
        exact .noWan hc rfl rfl rfl hl
      · rw [if_neg (not_not.mpr hc)]
        refine .skip stage fun _ => .skip stage fun _ => ?_
        refine (networkSdn_ledger ..).mono ?_
        rintro res' l ⟨hu', hl⟩
        have htrace : NetTrace src dst res' _ := .sdn hl
        rwa [wanItems, if_neg (hu' ▸ hu), hu'] at htrace
    · refine .skip stage fun _ => .pure ?_
      exact .noWan (by simp) rfl rfl rfl ⟨by simp, by simp⟩

-- ============================================================= clean up

/-- The entry of the release of a path; `-1` is no path. -/
def releaseItems (d : Dtn) : List Item :=
  if d.pathId ≠ -1 then [.release d.site.url d.id d.pathId] else []

/-- Releasing an end releases the path it has, if it has one. -/
theorem releasePath_ledger (sid : Oid) (dtn peer : Dtn) (tear : StageName) :
    Ledger h (releasePath sid dtn peer tear) fun _ l =>
      l = releaseItems dtn := by
  unfold releasePath releaseItems
  split
  · refine .skip stageIf fun _ => Ledger.call fun r => ?_
    refine Emits.mono stageIf fun _ l hl => ?_
    rw [hl]
    rfl
  · exact .pure rfl

/-- Both ends are released. -/
theorem teardownSdnPath_ledger (sid : Oid) (src dst : Dtn) :
    Ledger h (teardownSdnPath sid src dst) fun _ l =>
      l = releaseItems src ++ releaseItems dst := by
  refine .skip state fun _ => (releasePath_ledger ..).bind ?_
  rintro - l rfl
  refine (releasePath_ledger ..).bind ?_
  rintro - l rfl
  refine .pure ?_
  rw [List.append_nil]

/-- The entries of the teardown of a WAN path: it is deleted exactly when
the two requests before that were accepted in the end. -/
structure WanTeardown (uuid : String) (l : List Item) : Prop where
  only : ∀ i ∈ l, ∃ ok, i = .wanRelease uuid ok ∨ i = .wanTerminate uuid ok
    ∨ i = .wanDelete uuid ok
  deleted : (∃ ok, .wanDelete uuid ok ∈ l)
    ↔ (.wanRelease uuid false ∈ l → .wanRelease uuid true ∈ l)
      ∧ (.wanTerminate uuid false ∈ l → .wanTerminate uuid true ∈ l)

namespace WanTeardown

variable {uuid : String} {l l' l'' : List Item}

/-- The release is refused. -/
theorem of_release (h : Tried (.wanRelease uuid) false l) :
    WanTeardown uuid l where
  only := by
    intro i hi
    obtain ⟨ok, hok⟩ := h.kind hi
    exact ⟨ok, .inl hok⟩
  deleted := by
    have hfalse := h.refused rfl
    have htrue : Item.wanRelease uuid true ∉ l := by simp [h.accepted]
    have hdel : ∀ ok, Item.wanDelete uuid ok ∉ l :=
      fun ok => h.not_mem (by simp)
    simp [hfalse, htrue, hdel]

/-- The termination is refused. -/
theorem of_terminate (h : Tried (.wanRelease uuid) true l)
    (h' : Tried (.wanTerminate uuid) false l') :
    WanTeardown uuid (l ++ l') where
  only := by
    intro i hi
    rcases List.mem_append.mp hi with hi | hi
    · obtain ⟨ok, hok⟩ := h.kind hi
      exact ⟨ok, .inl hok⟩
    · obtain ⟨ok, hok⟩ := h'.kind hi
      exact ⟨ok, .inr (.inl hok)⟩
  deleted := by
    have hfalse := h'.refused rfl
    have htrue : Item.wanTerminate uuid true ∉ l' := by simp [h'.accepted]
    have hother : Item.wanTerminate uuid true ∉ l := h.not_mem (by simp)
    have hdel : ∀ ok, Item.wanDelete uuid ok ∉ l :=
      fun ok => h.not_mem (by simp)
    have hdel' : ∀ ok, Item.wanDelete uuid ok ∉ l' :=
      fun ok => h'.not_mem (by simp)
    simp [hfalse, htrue, hother, hdel, hdel']

/-- The deletion is tried. -/
theorem of_delete {b : Bool} (h : Tried (.wanRelease uuid) true l)
    (h' : Tried (.wanTerminate uuid) true l')
    (h'' : Tried (.wanDelete uuid) b l'') :
    WanTeardown uuid (l ++ (l' ++ l'')) where
  only := by
    intro i hi
    rcases List.mem_append.mp hi with hi | hi
    · obtain ⟨ok, hok⟩ := h.kind hi
      exact ⟨ok, .inl hok⟩
    · rcases List.mem_append.mp hi with hi | hi
      · obtain ⟨ok, hok⟩ := h'.kind hi
        exact ⟨ok, .inr (.inl hok)⟩
      · obtain ⟨ok, hok⟩ := h''.kind hi
        exact ⟨ok, .inr (.inr hok)⟩
  deleted := by
    obtain ⟨ok, hok⟩ := h''.made
    refine ⟨fun _ => ⟨fun _ => ?_, fun _ => ?_⟩, fun _ => ⟨ok, ?_⟩⟩
    · simp [h.accepted]
    · simp [h'.accepted]
    · simp [hok]

end WanTeardown

/-- A WAN path that is there is torn down. -/
theorem teardownWanPath_ledger (sid : Oid) (uuid : String) :
    Ledger h (teardownWanPath sid uuid) fun _ l =>
      uuid = "" ∧ l = [] ∨ uuid ≠ "" ∧ WanTeardown uuid l := by
  have hrel : Ledger h (WAN.release sid uuid) (Tried (.wanRelease uuid)) :=
    attempts_ledger (fun r => rfl) (by simp) 3
  have hter : Ledger h (WAN.terminate sid uuid)
      (Tried (.wanTerminate uuid)) :=
    attempts_ledger (fun r => rfl) (by simp) 3
  have hdel : Ledger h (WAN.del (some sid) uuid) (Tried (.wanDelete uuid)) :=
    attempts_ledger (fun r => rfl) (by simp) 3
  -- the stage written last is not in the ledger
  have hend : ∀ (v : SjobStage) (n : Int) {l : List Item},
      WanTeardown uuid l → uuid ≠ "" →
      Ledger h (do
        SiteStore.updateSjobStage sid .teardownWanDynamic v
        pure n) fun (_ : Int) l' => uuid = "" ∧ l ++ l' = []
          ∨ uuid ≠ "" ∧ WanTeardown uuid (l ++ l') := by
    intro v n l hl hu
    refine .skip stage fun _ => .pure (.inr ⟨hu, ?_⟩)
    rwa [List.append_nil]
  unfold teardownWanPath
  split
  · exact .pure (.inl ⟨‹_›, rfl⟩)
  · rename_i hu
    refine .skip state fun _ => .skip stage fun _ => hrel.bind ?_
    intro b l hl
    cases b with
    | false => exact hend _ _ (.of_release hl) hu
    | true =>
        refine hter.bind ?_
        intro b l' hl'
        simp only [← List.append_assoc]
        cases b with
        | false => exact hend _ _ (.of_terminate hl hl') hu
        | true =>
            refine hdel.bind ?_
            intro b l'' hl''
            have hall := WanTeardown.of_delete hl hl' hl''
            rw [← List.append_assoc] at hall
            simp only [← List.append_assoc]
            cases b with
            | false => exact hend _ _ hall hu
            | true => exact hend _ _ hall hu

/-- The entries of the clean up after a failed attempt. -/
def Cleaned (src dst : Dtn) (l : List Item) : Prop :=
  ∃ lw, l = releaseItems src ++ releaseItems dst ++ lw
    ∧ (src.wanUuid = "" ∧ lw = []
      ∨ src.wanUuid ≠ "" ∧ WanTeardown src.wanUuid lw)

/-- So is whatever path there is. -/
theorem teardownPaths_ledger (sid : Oid) (src dst : Dtn) :
    Ledger h (teardownPaths sid src dst) fun _ l => Cleaned src dst l := by
  refine (teardownSdnPath_ledger ..).bind ?_
  rintro - l rfl
  refine (teardownWanPath_ledger ..).bind ?_
  intro n lw hlw
  refine Emits.mono stage ?_
  rintro - l rfl
  exact ⟨lw, by rw [List.append_nil], hlw⟩

-- =================================================== path verification

/-- The pings of a path verification: it succeeds with the first that is
answered. -/
structure Pinged (r : Except (Int × String) Unit) (l : List Item) :
    Prop where
  only : ∀ i ∈ l, ∃ ok, i = .ping ok
  answered : .ping true ∈ l ↔ r = .ok ()

/-- One ping adds pings only, if what follows a failure does. -/
theorem pingAttempt_ledger {url dtn destination : String}
    {failed : PingAnswer → Handler (Except (Int × String) Unit)}
    (hfail : ∀ r, Ledger h (failed r) Pinged) :
    Ledger h (pingAttempt url dtn destination failed) Pinged := by
  refine Ledger.call fun (r : PingAnswer) => ?_
  by_cases hr : r.code.getD 0 = 0
  · have hi : item (.icmpPing url dtn destination) r = [.ping true] := by
      simp [item, hr]
    rw [if_pos hr, hi]
    exact .pure ⟨by simp, by simp⟩
  · have hi : item (.icmpPing url dtn destination) r = [.ping false] := by
      simp [item, hr]
    rw [if_neg hr, hi]
    refine (hfail r).mono fun q l hl => ⟨?_, ?_⟩
    · intro i hi
      rcases List.mem_cons.mp hi with hi | hi
      · exact ⟨false, hi⟩
      · exact hl.only i hi
    · rw [← hl.answered]
      simp

/-- Verifying adds pings only. -/
theorem verifyPath_ledger (src dst : Dtn) :
    Ledger h (verifyPath src dst) Pinged := by
  have hloop : ∀ (url dtn dest : String) (n : Nat),
      Ledger h (pingLoop url dtn dest n) Pinged := by
    intro url dtn dest n
    induction n with
    | zero =>
        refine pingAttempt_ledger fun r => ?_
        exact .pure ⟨by simp, by simp⟩
    | succ n ih => exact pingAttempt_ledger fun _ => ih
  exact hloop ..

/-- Choosing a pair adds nothing. -/
theorem findBestEffortDtnPair_ledger (s d : String) (src dst : SiteInfo) :
    Ledger h (findBestEffortDtnPair s d src dst) fun _ l => l = [] := by
  refine Ledger.call fun rSrc => Ledger.call fun rDst => ?_
  split
  · exact .pure rfl
  · split
    · exact .pure rfl
    · split
      · exact .pure rfl
      · split
        · exact .pure rfl
        · exact .pure rfl

end traces

end BigDataExpress
