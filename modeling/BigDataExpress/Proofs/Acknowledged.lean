/-
Launches are acknowledged: a block is in transfer, or a flow set up for
it, only while the launcher has accepted the last launch of the block.

The attempt of `schedule()` waits for the answer and fails the job when
it is none or a refusal. `mld_status` does not look at the answer: the
block is marked as in transfer whatever it is. Runs in which the launcher
refuses none of those launches, and is there when an attempt has verified
its path, keep the invariant (`World.Acknowledged`), and a launch that is
due and not accepted leaves the job failed and its path taken down.
-/
import BigDataExpress.Proofs.AllOrNothing
import BigDataExpress.Proofs.Retries

namespace BigDataExpress

open Interact Collection SiteStore

-- ====================================================== the last launch

/-- The answer to a launch of the block. -/
def Dealing.answer (b : Oid) : Dealing → Option Bool
  | .launch c ok => if c = b then some ok else none
  | .verdict _ => none

theorem Dealing.answer_eq {b : Oid} {d : Dealing} {ok : Bool} :
    d.answer b = some ok ↔ d = .launch b ok := by
  unfold Dealing.answer
  cases d with
  | verdict v => simp
  | launch c v =>
      by_cases hc : c = b
      · simp [hc]
      · simp [hc]

/-- Whether the last launch of the block was accepted. -/
def World.lastLaunch (w : World) (b : Oid) : Option Bool :=
  w.dealings.reverse.findSome? (Dealing.answer b)

/-- Every busy block was accepted by the launcher, the last time. -/
def World.Acknowledged (w : World) : Prop :=
  ∀ b, w.Busy b → w.lastLaunch b = some true

/-- What was busy and not refused, or is launched and not refused, is
acknowledged. -/
theorem World.Acknowledged.step {w w' : World} {l : List Dealing}
    (hw : w.Acknowledged) (hd : w'.dealings = w.dealings ++ l)
    (hb : ∀ b, w'.Busy b → (w.Busy b ∨ ∃ ok, .launch b ok ∈ l)
      ∧ .launch b false ∉ l) : w'.Acknowledged := by
  intro b hbusy
  obtain ⟨hold, hno⟩ := hb b hbusy
  unfold World.lastLaunch
  rw [hd, List.reverse_append, List.findSome?_append]
  cases hl : l.reverse.findSome? (Dealing.answer b) with
  | some ok =>
      obtain ⟨d, hmem, hans⟩ := List.exists_of_findSome?_eq_some hl
      rw [Dealing.answer_eq.mp hans, List.mem_reverse] at hmem
      cases ok with
      | true => rfl
      | false => exact absurd hmem hno
  | none =>
      rw [List.findSome?_eq_none_iff] at hl
      rcases hold with hold | ⟨ok, hok⟩
      · exact hw b hold
      · have := hl _ (List.mem_reverse.mpr hok)
        rw [Dealing.answer_eq.mpr rfl] at this
        cases this

-- ========================================================== an attempt

section attempt

variable {h : HandlerId} {w w' : World} {x y z : Sjob} {c : Oid}

theorem Sjob.Alike.busy (ha : x.Alike y) (hy : y.Busy c) : x.Busy c := by
  rcases hy with ⟨k, hk, rfl, hst⟩ | ⟨f, hf, rfl, hst⟩
  · have hmem : k.mark ∈ x.blocks.map Block.mark := by
      rw [← ha.blocks]
      exact List.mem_map_of_mem hk
    obtain ⟨k', hk', hmark⟩ := List.mem_map.mp hmem
    refine .inl ⟨k', hk', congrArg Prod.fst hmark, ?_⟩
    exact (congrArg (·.2.1) hmark).trans hst
  · obtain ⟨f', hf', hmark⟩ := ha.flow hf
    refine .inr ⟨f', hf', congrArg (·.2.2) hmark, ?_⟩
    exact (congrArg (·.2.1) hmark).trans hst

/-- Work on one sjob makes the blocks busy that it makes busy there. -/
theorem At.busy {d : Delta} (ht : At h w x y d w') (hc : w'.Busy c) :
    d.doc.Busy c ∨ w.Busy c := by
  obtain ⟨u, hu, huc⟩ := hc
  rcases ht.mem_iff.mp hu with rfl | ⟨hu, -⟩
  · exact .inl (ht.alike.busy huc)
  · exact .inr ⟨u, hu, huc⟩

/-- Only a launched block becomes busy. -/
theorem AttemptOutcome.busy {files : Oid → BlockFiles} {launcher : Bool}
    {answer : Bool → Prop} {b : Oid} {r : Except String Unit} {d : Delta}
    (ho : AttemptOutcome files launcher answer x b r d)
    (hc : d.doc.Busy c) :
    x.Busy c ∨ c = b ∧ r = .ok () ∧ d.raw = some .transferring := by
  -- a flow that waits for its launch is not set up yet
  have hwith : ∀ f : Flow, f.state = .scheduling → (x.withFlow f).Busy c →
      x.Busy c := by
    intro f hst hbusy
    rcases hbusy with hk | ⟨g, hg, -, hgst⟩
    · exact .inl hk
    · rw [List.mem_singleton.mp hg, hst] at hgst
      cases hgst
  cases ho with
  | failed => exact .inl hc
  | refused hst => exact .inl (hwith _ hst hc)
  | thrown hst => exact .inl (hwith _ hst hc)
  | @launched f hst hf =>
      rcases hc with ⟨k, hk, rfl, hkst⟩ | ⟨g, hg, rfl, -⟩
      · rcases mem_updateOne hk with hk | ⟨k', hk', hp, rfl⟩
        · exact .inl (.inl ⟨k, hk, rfl, hkst⟩)
        · exact .inr ⟨beq_iff_eq.mp hp, rfl, rfl⟩
      · rw [List.mem_singleton.mp hg, hf]
        exact .inr ⟨rfl, rfl, rfl⟩

/-- The waiting block of an sjob without flows is not busy. -/
theorem Server.Good.idle {xs : List Sjob} (hg : Server.Good ⟨w, x :: xs⟩)
    (hflows : x.flows = []) {b : Block}
    (hb : x.blocks.find? (·.state == .waiting) = some b) : ¬ w.Busy b.id := by
  obtain ⟨z, hz, hid, -, ha⟩ := hg.same x (List.mem_cons_self ..) hflows
  have hbm := List.mem_of_find?_eq_some hb
  have hwait : b.state = .waiting := by
    have := List.find?_some hb
    exact beq_iff_eq.mp this
  have hnodup := hg.wf.blockIds_nodup hz
  rw [ha.blockIds] at hnodup
  have hbz : b.id ∈ z.blockIds := by
    rw [ha.blockIds]
    exact List.mem_map_of_mem hbm
  intro hbusy
  obtain ⟨u, hu, hub⟩ := hbusy
  have hmem : b.id ∈ u.blockIds := by
    rcases hub with ⟨k, hk, hki, -⟩ | ⟨f, hf, hfb, -⟩
    · exact hki ▸ List.mem_map_of_mem hk
    · exact hfb ▸ (hg.sound u hu).names f hf
  obtain rfl : u = z := eq_of_subkey hg.wf.blocks hz hu hbz hmem
  rcases ha.busy hub with ⟨k, hk, hki, hst⟩ | ⟨f, hf, -⟩
  · obtain rfl : k = b := List.inj_on_of_nodup_map hnodup hk hbm hki
    rw [hwait] at hst
    cases hst
  · rw [hflows] at hf
    cases hf

end attempt

-- ======================================================== the two records

/-- The launches in a log, as the ledger and as the dealings have them. -/
theorem launch_mem_items {new : List LogEntry} {ok : Bool} :
    .launch ok ∈ items new
      ↔ ∃ b, .launch b ok ∈ new.flatMap fun e => dealing e.call e.reply := by
  unfold items
  simp only [List.mem_flatMap]
  constructor
  · intro hi
    obtain ⟨⟨h, e, r⟩, he, hi⟩ := hi
    cases e with
    | launch b cmd =>
        have hok : Item.launch ok = .launch _ := List.mem_singleton.mp hi
        cases hok
        exact ⟨b, _, he, List.mem_singleton_self _⟩
    | sdnReserve s u q =>
        revert hi
        simp only [item]
        split <;> simp
    | wanCreate =>
        revert hi
        simp only [item]
        split <;> simp
    | _ => simp [item] at hi
  · intro hb
    obtain ⟨b, ⟨h, e, r⟩, he, hb⟩ := hb
    cases e with
    | launch b' cmd =>
        have hok : Dealing.launch b ok = .launch b' _ :=
          List.mem_singleton.mp hb
        cases hok
        exact ⟨_, he, List.mem_singleton_self _⟩
    | verifyChecksum => simp [dealing] at hb
    | _ => simp [dealing] at hb

/-- As many launches among the dealings as commands were sent. -/
theorem launches_length (new : List LogEntry) :
    (new.flatMap fun e => dealing e.call e.reply).countP Dealing.isLaunch
      = (launchesOf new).length := by
  induction new with
  | nil => rfl
  | cons e new ih =>
      rw [List.flatMap_cons, List.countP_append, ih,
        show launchesOf (e :: new) = launchesOf [e] ++ launchesOf new
          from launchesOf_append [e] new, List.length_append]
      obtain ⟨h, e, r⟩ := e
      cases e <;> rfl

/-- One launch at most. -/
theorem eq_of_one_launch {l : List Dealing}
    (hl : l.countP Dealing.isLaunch ≤ 1) {b c : Oid} {v v' : Bool}
    (hb : .launch b v ∈ l) (hc : .launch c v' ∈ l) : b = c ∧ v = v' := by
  rw [List.countP_eq_length_filter] at hl
  have hb' := List.mem_filter.mpr ⟨hb, (rfl : Dealing.isLaunch _ = true)⟩
  have hc' := List.mem_filter.mpr ⟨hc, (rfl : Dealing.isLaunch _ = true)⟩
  match hf : l.filter Dealing.isLaunch, hl with
  | [d], _ =>
      rw [hf, List.mem_singleton] at hb' hc'
      have heq := hb'.trans hc'.symm
      cases heq
      exact ⟨rfl, rfl⟩
  | [], _ =>
      rw [hf] at hb'
      cases hb'

-- ============================================================ the turns

/-- What the turn has added to the ledger. -/
def Server.Turn.items (t : Server.Turn) : List Item :=
  t.after.world.ledger.drop t.before.world.ledger.length

theorem Server.Turn.items_eq {t : Server.Turn} {l : List Item}
    (h : t.after.world.ledger = t.before.world.ledger ++ l) :
    t.items = l := by
  unfold Server.Turn.items
  rw [h, List.drop_left]

/-- The paths of the flow were given back. -/
structure Flow.TornDown (f : Flow) (l : List Item) : Prop where
  src : f.srcDtn.pathId ≠ -1 →
    .release f.srcDtn.site.url f.srcDtn.id f.srcDtn.pathId ∈ l
  dst : f.dstDtn.pathId ≠ -1 →
    .release f.dstDtn.site.url f.dstDtn.id f.dstDtn.pathId ∈ l
  wan : f.srcDtn.wanUuid ≠ "" → ∃ ok, .wanDelete f.srcDtn.wanUuid ok ∈ l

/-- A launch that is due in the turn is accepted, or the job ends the turn
failed and its path taken down. For an attempt it is due when the path
has been verified. -/
def Server.Turn.Settled (t : Server.Turn) : Prop :=
  match t.event with
  | .schedule _ => ∀ x b, t.before.pending.head? = some x → x.flows = [] →
      x.blocks.find? (·.state == .waiting) = some b → .ping true ∈ t.items →
      .launch b.id true ∈ t.dealt
        ∨ FailedReturned x t.items t.after.world
  | .status task params _ => ∀ x f b, t.before.world.Found task x f →
      x.due f params (!t.dealt.contains (.verdict false)) = some b →
      .launch b true ∈ t.dealt
        ∨ t.after.world.JobFailed x ∧ f.TornDown t.items
  | _ => True

/-- The answers of the turn: the launcher refuses no launch of a report,
it is there when an attempt has verified its path, and what has to be
taken down can be. -/
def Server.Turn.Heard (t : Server.Turn) : Prop :=
  match t.event with
  | .schedule _ => .ping true ∈ t.items →
      t.before.world.hasLauncher = true
        ∧ (.launch true ∉ t.items → Clean t.items)
  | .status .. => (∀ b, .launch b false ∉ t.dealt)
      ∧ (t.before.world.hasLauncher = false →
        (∀ u, .wanRelease u false ∈ t.items → .wanRelease u true ∈ t.items)
          ∧ ∀ u, .wanTerminate u false ∈ t.items →
            .wanTerminate u true ∈ t.items)
  | _ => True

section turns

variable {conf : Conf} {w w' : World} {x y : Sjob} {xs : List Sjob}
  {a : Answers} {o : Oracle World Call Reply}

/-- An attempt without an accepted launch has failed. -/
theorem AttemptTrace.failedReturned {h : HandlerId} {files : Oid → BlockFiles}
    {answer : Bool → Prop} {b : Block} {r : Except String Unit} {d : Delta}
    {l : List Item} (hb : b ∈ x.blocks) (hnodup : x.blockIds.Nodup)
    (hx : x.rawjob ∈ w.rawjobs.map (·.id)) (ht : At h w x y d w')
    (ho : AttemptOutcome files w.hasLauncher answer x b.id r d)
    (htr : AttemptTrace w.hasLauncher x.rawjob x.id w' r l)
    (hlau : w.hasLauncher = true) (hno : .launch true ∉ l)
    (hclean : Clean l) : FailedReturned x l w' := by
  obtain ⟨-, hxor⟩ := (htr.all_or_nothing hb hnodup hx ht ho).mpr
    ⟨fun _ => hlau, hclean.released, hclean.terminated,
      fun _ => hclean.numbered⟩
  rcases hxor with ⟨⟨y', hy', hid, hst, -⟩, -⟩ | ⟨hf, -⟩
  · -- the sjob is launching, so the launch was accepted
    obtain rfl : y' = y :=
      ht.wf.eq_of_id ht.doc_mem hy' (hid.trans ht.id.symm)
    rw [ht.alike.state] at hst
    cases ho with
    | failed => cases hst
    | refused => cases hst
    | thrown _ _ hnone =>
        rw [hnone] at hlau
        cases hlau
    | launched =>
        cases htr with
        | failed _ _ _ hraw => cases ht.rawIs_eq hx rfl hraw
        | launched _ _ _ _ hl =>
            exact absurd (List.mem_append_right _ hl) hno
  · exact hf

/-- The launches of an attempt: one at most, in both records. -/
theorem attempt_launches {h : HandlerId} {files : Oid → BlockFiles}
    {answer : Bool → Prop} {b : Oid} {r : Except String Unit} {d : Delta}
    {l : List Item} {m : List Dealing} (ht : At h w x y d w')
    (ho : AttemptOutcome files w.hasLauncher answer x b r d)
    (hl : w'.ledger = w.ledger ++ l) (hm : w'.dealings = w.dealings ++ m) :
    m.countP Dealing.isLaunch ≤ 1
      ∧ (.launch true ∈ l ↔ ∃ c, .launch c true ∈ m) := by
  obtain ⟨new, hlog, hn, -⟩ := ht.log
  have hl' : l = items new := by
    rw [World.ledger, hlog, items_append] at hl
    exact (List.append_cancel_left hl).symm
  have hm' : m = new.flatMap fun e => dealing e.call e.reply := by
    rw [World.dealings, hlog, List.flatMap_append] at hm
    exact (List.append_cancel_left hm).symm
  rw [hl', hm', launches_length, hn, List.length_map]
  refine ⟨?_, launch_mem_items⟩
  cases ho with
  | failed => exact Nat.zero_le 1
  | refused => exact le_refl 1
  | launched => exact le_refl 1
  | thrown => exact Nat.zero_le 1

/-- A scheduling turn keeps the invariant, and settles the launch. -/
theorem schedule_acknowledged (hg : Server.Good ⟨w, x :: xs⟩)
    (hw : w.Acknowledged) (ho : o.Admissible (a.env .schedule)) :
    (Server.iterate conf a o w x xs).world.Acknowledged
      ∧ (Server.Turn.Heard ⟨⟨w, x :: xs⟩, .schedule a,
          Server.iterate conf a o w x xs⟩ →
        Server.Turn.Settled ⟨⟨w, x :: xs⟩, .schedule a,
          Server.iterate conf a o w x xs⟩) := by
  obtain ⟨-, m, hm, honly⟩ := (PlainActs.scheduleSjob conf x).run a
    .schedule ho w
  by_cases hfree : x.flows = []
      ∧ ∃ b, x.blocks.find? (·.state == .waiting) = some b
  · obtain ⟨hflows, b, hb⟩ := hfree
    obtain ⟨z, hz, hid, hr, ha⟩ := hg.same x (List.mem_cons_self ..) hflows
    have hidle := hg.idle hflows hb
    have hnodup := hg.wf.blockIds_nodup hz
    rw [ha.blockIds] at hnodup
    have hraw : x.rawjob ∈ w.rawjobs.map (·.id) := hr ▸ hg.wf.owned z hz
    obtain ⟨r, w', hrun⟩ : ∃ r w',
      (scheduleSjob conf x).run (a.env .schedule) o w = (r, w') :=
        ⟨_, _, rfl⟩
    obtain rfl : (Server.iterate conf a o w x xs).world = w' := by
      rw [Server.iterate_world, hrun]
    obtain ⟨l, y, d, hl, htr, ht, hout⟩ :=
      attempt_traced hg hflows hb a ho hrun
    rw [hrun] at hm
    obtain ⟨hone, hlaunch⟩ := attempt_launches ht hout hl hm
    -- an accepted launch is the one of the block
    have hmine : .launch true ∈ l → .launch b.id true ∈ m := by
      intro hi
      obtain ⟨c, hc⟩ := hlaunch.mp hi
      obtain ⟨-, b', hb', rfl⟩ := honly c true hc
      rw [hb] at hb'
      cases hb'
      exact hc
    refine ⟨hw.step hm fun c hc => ?_, fun hheard => ?_⟩
    · have hold : w.Busy c → (w.Busy c ∨ ∃ ok, .launch c ok ∈ m)
          ∧ .launch c false ∉ m := by
        intro hc
        refine ⟨.inl hc, fun hbad => ?_⟩
        obtain ⟨-, b', hb', rfl⟩ := honly c false hbad
        rw [hb] at hb'
        cases hb'
        exact hidle hc
      rcases ht.busy hc with hc | hc
      · rcases hout.busy hc with hc | ⟨rfl, hok, htx⟩
        · exact hold ⟨z, hz, ha.symm.busy hc⟩
        · have hi : .launch true ∈ l := by
            cases htr with
            | failed _ _ _ hraw' => cases ht.rawIs_eq hraw htx hraw'
            | thrown => cases hok
            | launched _ _ _ _ hacc => exact List.mem_append_right _ hacc
          refine ⟨.inr ⟨true, hmine hi⟩, fun hbad => ?_⟩
          cases (eq_of_one_launch hone (hmine hi) hbad).2
      · exact hold hc
    · intro x' b' hx' _ hb' hping
      cases hx'
      rw [hb] at hb'
      cases hb'
      have hitems : Server.Turn.items ⟨⟨w, x :: xs⟩, .schedule a,
          Server.iterate conf a o w x xs⟩ = l := Server.Turn.items_eq hl
      have hdealt : Server.Turn.dealt ⟨⟨w, x :: xs⟩, .schedule a,
          Server.iterate conf a o w x xs⟩ = m := Server.Turn.dealt_eq hm
      obtain ⟨hlau, hclean⟩ := hheard hping
      rw [hitems] at hclean ⊢
      rw [hdealt]
      by_cases hi : .launch true ∈ l
      · exact .inl (hmine hi)
      · exact .inr (htr.failedReturned (List.mem_of_find?_eq_some hb) hnodup
          hraw ht hout hlau hi (hclean hi))
  · have hskip : scheduleSjob conf x = pure () := by
      unfold scheduleSjob
      split
      · rfl
      · rename_i hlen
        split
        · rename_i b hb
          refine absurd ⟨?_, b, hb⟩ hfree
          exact List.eq_nil_of_length_eq_zero (by omega)
        · rfl
    refine ⟨?_, fun _ x' b hx' hflows hb _ => ?_⟩
    · rw [Server.iterate_world, hskip]
      exact hw
    · cases hx'
      exact absurd ⟨hflows, b, hb⟩ hfree

end turns

-- ============================================= a report without launcher

section ledger

variable {h : HandlerId} {sid rid : Oid}

/-- An update of sjobs outside the routes. -/
theorem Ledger.doc {p : Sjob → Bool} {f : Sjob → Sjob}
    (hf : ∀ x, (f x).id = x.id ∧ (f x).flows = x.flows) :
    Ledger h (Prog.modify (World.updateSjob p f)) fun _ l => l = [] :=
  Ledger.modify (fun _ => rfl) (World.routes_updateSjob fun x =>
    ⟨(hf x).1, by rw [(hf x).2]⟩) fun _ => rfl

/-- An update of other documents. -/
theorem Ledger.other {f : World → World} (hlog : ∀ w, (f w).log = w.log)
    (hs : ∀ w, (f w).sjobs = w.sjobs)
    (hl : ∀ w, (f w).hasLauncher = w.hasLauncher) :
    Ledger h (Prog.modify f) fun _ l => l = [] :=
  Ledger.modify hlog (fun w => by rw [World.routes, World.routes, hs]) hl

open Ledger (stage stageIf state flow blockState doc other)

theorem jobFail_ledger (err : String) :
    Ledger h (jobFail err sid rid) fun _ l => l = [] :=
  .skip stage fun _ => .skip state fun _ =>
    .skip (other (fun _ => rfl) (fun _ => rfl) fun _ => rfl) fun _ =>
      .skip (doc fun _ => ⟨rfl, rfl⟩) fun _ =>
        other (fun _ => rfl) (fun _ => rfl) fun _ => rfl

theorem countFinished_ledger (x : Sjob) (f : Flow) :
    Ledger h (countFinished x f) fun _ l => l = [] := by
  unfold countFinished
  split
  · exact .pure rfl
  · refine Ledger.call fun _ => ?_
    exact .skip (doc fun _ => ⟨rfl, rfl⟩) fun _ =>
      .skip (flow fun _ => rfl) fun _ =>
        .skip (doc fun _ => ⟨rfl, rfl⟩) fun _ =>
          .skip (other (fun _ => rfl) (fun _ => rfl) fun _ => rfl) fun _ =>
            .skip (other (fun _ => rfl) (fun _ => rfl) fun _ => rfl)
              fun _ => other (fun _ => rfl) (fun _ => rfl) fun _ => rfl

theorem retrogress_ledger (x : Sjob) (f : Flow) :
    Ledger h (retrogress x f) fun _ l => l = [] := by
  unfold retrogress
  split
  · exact .pure rfl
  · exact .skip (doc fun _ => ⟨rfl, rfl⟩) fun _ =>
      .skip (flow fun _ => rfl) fun _ =>
        .skip (doc fun _ => ⟨rfl, rfl⟩) fun _ =>
          other (fun _ => rfl) (fun _ => rfl) fun _ => rfl

theorem verifyChecksums_ledger (conf : Conf) (x : Sjob) (f : Flow)
    (files : BlockFiles) :
    Ledger h (verifyChecksums conf x f files) fun _ l => l = [] := by
  unfold verifyChecksums
  split
  · exact .pure rfl
  · split
    · exact .pure rfl
    · refine .skip state fun _ => .skip stage fun _ => .skip .read
        fun site => Ledger.call fun r => ?_
      split
      · exact .skip stage fun _ => .pure rfl
      · exact .skip stage fun _ => .pure rfl

theorem teardown_ledger (f : Flow) : Ledger h (teardown sid f)
    fun _ l => Cleaned f.srcDtn f.dstDtn l :=
  .skip stage fun _ => teardownPaths_ledger sid f.srcDtn f.dstDtn

theorem allFinished_ledger :
    Ledger h (allFinished rid) fun _ l => l = [] := by
  have hread : ∀ ids, Ledger h (readSjobs ids) fun _ l => l = [] := by
    intro ids
    induction ids with
    | nil => exact .pure rfl
    | cons i is ih => exact .skip .read fun _ => .skip ih fun _ => .pure rfl
  exact .skip (.skip .read fun ids => hread ids) fun _ => .pure rfl

/-- The path is given back, and nothing after that shows. -/
theorem teardown_then {f : Flow} {k : Unit → Handler Unit}
    (hk : Ledger h (k ()) fun _ l => l = []) :
    Ledger h (teardown sid f >>= k)
      fun _ l => Cleaned f.srcDtn f.dstDtn l := by
  refine (teardown_ledger f).bind fun _ l hl => hk.mono fun _ l' hl' => ?_
  rw [hl', List.append_nil]
  exact hl

theorem flowDone_ledger (conf : Conf) (x : Sjob) (f : Flow) (fin : Bool) :
    Ledger h (flowDone conf x f fin)
      fun _ l => Cleaned f.srcDtn f.dstDtn l := by
  refine .skip (flow fun _ => rfl) fun _ => .skip stageIf fun _ =>
    teardown_then ?_
  split
  · refine .skip state fun _ => .skip allFinished_ledger fun b => ?_
    split
    · exact other (fun _ => rfl) (fun _ => rfl) fun _ => rfl
    · exact .pure rfl
  · split
    · exact doc fun _ => ⟨rfl, rfl⟩
    · exact .pure rfl

variable {conf : Conf} {w₀ w : World} {x : Sjob} {f : Flow}

/-- The handler gives the path of the flow back. -/
abbrev World.GivesBack (w₀ : World) (f : Flow) (w' : World) : Prop :=
  ∃ l, w'.ledger = w₀.ledger ++ l ∧ Cleaned f.srcDtn f.dstDtn l

theorem Since.givesBack {p : Handler Unit} (hw : SinceThen w₀ [] w)
    (hp : Ledger h p fun _ l => Cleaned f.srcDtn f.dstDtn l) :
    Prog.wp (Answers.any.env h) (fun _ w' => w₀.GivesBack f w') p w := by
  refine Prog.wp_mono ?_ (hp.wp w)
  intro r w' hw'
  obtain ⟨-, _, l, -, hl, hc⟩ := hw'
  refine ⟨l, ?_, hc⟩
  rw [hl, hw.record, List.append_nil]

theorem relaunch_givesBack (hw : SinceThen w₀ [] w)
    (hno : w₀.hasLauncher = false) (b : Oid) (files : BlockFiles)
    (new : Bool) :
    Prog.wp (Answers.any.env h) (fun _ w' => w₀.GivesBack f w')
      (relaunch conf x f b files new) w := by
  refine hw.skip stage fun _ w₁ h₁ => h₁.skip stage fun _ w₂ h₂ =>
    h₂.skip stageIf fun _ w₃ h₃ => Prog.wp_read_bind.mpr ?_
  have hlau : w₃.hasLauncher = false :=
    (congrArg Prod.snd h₃.frame).trans hno
  rw [hlau]
  exact Since.givesBack h₃ (.skip stage fun _ =>
    teardown_then (jobFail_ledger _))

/-- A completed transfer always gives the path back when there is no
launcher. -/
theorem statusFinished_givesBack (hno : w.hasLauncher = false) :
    Prog.wp (Answers.any.env h) (fun _ w' => w.GivesBack f w')
      (statusFinished conf x f) w := by
  refine (Since.start w).skip stage fun _ w₁ h₁ => h₁.skip stage
    fun _ w₂ h₂ => h₂.skip (flow fun _ => rfl) fun _ w₃ h₃ =>
      h₃.skip (countFinished_ledger x f) fun _ w₄ h₄ => h₄.skip .read
        fun files w₅ h₅ => h₅.skip (verifyChecksums_ledger conf x f files)
          fun ok w₆ h₆ => ?_
  split
  · refine h₆.skip blockState fun _ w₇ h₇ => h₇.skip (Ledger.ask .epochMs)
      fun (now : Int) w₈ h₈ => h₈.skip (doc fun _ => ⟨rfl, rfl⟩)
        fun _ w₉ h₉ => ?_
    split
    · refine h₉.skip .read fun files w₁₀ h₁₀ => ?_
      exact relaunch_givesBack h₁₀ hno _ files true
    · exact Since.givesBack h₉ (flowDone_ledger ..)
  · refine h₆.skip (retrogress_ledger x f) fun _ w₇ h₇ =>
      h₇.skip (doc fun _ => ⟨rfl, rfl⟩) fun _ w₈ h₈ => ?_
    split
    · exact Since.givesBack h₈ (teardown_then (jobFail_ledger _))
    · exact relaunch_givesBack h₈ hno _ files false

/-- The report that makes the path be given back. -/
theorem mldStatus_givesBack (conf : Conf) {t : Guid} {params : StatusParams}
    (hfd : w.Found t x f) (hp : params.state = 3)
    (hno : w.hasLauncher = false) :
    Prog.wp (Answers.any.env h) (fun _ w' => w.GivesBack f w')
      (mldStatus conf t params) w := by
  unfold mldStatus getSjobFromTaskId
  refine Prog.wp_read_bind.mpr ?_
  simp only [hfd.sjob, hfd.error, hfd.flow, handleReport, hp]
  exact statusFinished_givesBack hno

/-- Requests that are accepted in the end take everything down. -/
theorem Cleaned.tornDown {l : List Item} (hc : Cleaned f.srcDtn f.dstDtn l)
    (hr : ∀ u, .wanRelease u false ∈ l → .wanRelease u true ∈ l)
    (ht : ∀ u, .wanTerminate u false ∈ l → .wanTerminate u true ∈ l) :
    f.TornDown l := by
  obtain ⟨lw, rfl, hlw⟩ := hc
  -- the WAN requests are in the last part
  have hpart : ∀ i : Item, (∀ url dtn p, i ≠ .release url dtn p) →
      i ∈ releaseItems f.srcDtn ++ releaseItems f.dstDtn ++ lw → i ∈ lw := by
    intro i hne hi
    rcases List.mem_append.mp hi with hi | hi
    · rcases List.mem_append.mp hi with hi | hi
      · obtain ⟨_, _, _, rfl⟩ := releaseItems_only hi
        exact absurd rfl (hne _ _ _)
      · obtain ⟨_, _, _, rfl⟩ := releaseItems_only hi
        exact absurd rfl (hne _ _ _)
    · exact hi
  refine ⟨fun hsrc => ?_, fun hdst => ?_, fun hwan => ?_⟩
  · exact List.mem_append_left _ (List.mem_append_left _
      (mem_releaseItems.mpr ⟨hsrc, rfl, rfl, rfl⟩))
  · exact List.mem_append_left _ (List.mem_append_right _
      (mem_releaseItems.mpr ⟨hdst, rfl, rfl, rfl⟩))
  · rcases hlw with ⟨hnone, -⟩ | ⟨-, hdown⟩
    · exact absurd hnone hwan
    · obtain ⟨ok, hok⟩ := hdown.deleted.mpr
        ⟨fun hi => hpart _ (by simp) (hr _ (List.mem_append_right _ hi)),
          fun hi => hpart _ (by simp) (ht _ (List.mem_append_right _ hi))⟩
      exact ⟨ok, List.mem_append_right _ hok⟩

end ledger

-- =============================================================== the runs

section runs

variable {conf : Conf} {w w' : World} {x : Sjob} {f : Flow} {t : Guid}
  {params : StatusParams} {a : Answers} {pending : List Sjob}

/-- A launch that is due is settled. -/
theorem World.Served.settled {b : Oid} {l : List Dealing} {li : List Item}
    (h : w.Served x b l w') (hok : ∀ c, .launch c false ∉ l)
    (hdown : w.hasLauncher = false → f.TornDown li) :
    .launch b true ∈ l ∨ w'.JobFailed x ∧ f.TornDown li := by
  cases hl : w.hasLauncher with
  | true =>
      obtain ⟨ok, hmem⟩ := h.1 hl
      cases ok with
      | true => exact .inl hmem
      | false => exact absurd hmem (hok b)
  | false => exact .inr ⟨h.2 hl, hdown hl⟩

/-- A report whose launches are not refused keeps the invariant, and
settles the launch. -/
theorem status_acknowledged {n : Nat} {o : Oracle World Call Reply}
    (hwf : w.WF) (hw : w.Acknowledged)
    (ho : o.Admissible (a.env (.status n)))
    (hw' : ((mldStatus conf t params).run (a.env (.status n)) o w).2 = w')
    (hheard : Server.Turn.Heard
      ⟨⟨w, pending⟩, .status t params a, ⟨w', pending⟩⟩) :
    w'.Acknowledged ∧ Server.Turn.Settled
      ⟨⟨w, pending⟩, .status t params a, ⟨w', pending⟩⟩ := by
  obtain ⟨hok, hwan⟩ := hheard
  -- the path of the flow, when there is no launcher
  have hdown : ∀ x f, w.Found t x f → params.state = 3 →
      w.hasLauncher = false → f.TornDown (Server.Turn.items
        ⟨⟨w, pending⟩, .status t params a, ⟨w', pending⟩⟩) := by
    intro x f hfd hp hno
    have hadm : o.Admissible (Answers.any.env (.status n)) := by
      intro v e
      cases e <;> trivial
    have hback := Prog.wp_run hadm (mldStatus_givesBack (h := .status n)
      conf hfd hp hno)
    have henv : (mldStatus conf t params).run (Answers.any.env (.status n))
        o w = (mldStatus conf t params).run (a.env (.status n)) o w := by
      refine Prog.run_env ?_ o _ w
      rfl
    rw [henv, hw'] at hback
    obtain ⟨l, hl, hc⟩ := hback
    obtain ⟨hr, ht⟩ := hwan hno
    rw [Server.Turn.items_eq hl] at hr ht ⊢
    exact hc.tornDown hr ht
  have hrun := Prog.wp_run ho (mldStatus_handled conf t params hwf)
  rw [hw'] at hrun
  have hack : ∀ m, w.Led m w' → w'.Acknowledged := by
    intro m hm
    rw [Server.Turn.dealt_eq hm.dealings] at hok
    exact hw.step hm.dealings fun b hb => ⟨hm.busy b hb, hok b⟩
  rcases hrun with ⟨x, f, hfd, ⟨m, hm, hdue⟩ | ⟨hp, m, href⟩⟩ | ⟨hm, hnone⟩
  · refine ⟨hack m hm.led, fun x' f' b hfd' hb => ?_⟩
    obtain rfl := Option.some.inj (hfd.sjob.symm.trans hfd'.sjob)
    obtain rfl := Option.some.inj (hfd.flow.symm.trans hfd'.flow)
    have hp : params.state = 3 := by
      by_contra hne
      rw [Sjob.due, if_pos hne] at hb
      cases hb
    rw [Server.Turn.dealt_eq hm.led.dealings] at hok hb ⊢
    have hno : m.contains (.verdict false) = false := by
      simpa using hm.verdicts
    rw [hno] at hb
    exact (hdue b hb).settled hok (hdown x f hfd hp)
  · refine ⟨hack _ href.led, fun x' f' b hfd' hb => ?_⟩
    obtain rfl := Option.some.inj (hfd.sjob.symm.trans hfd'.sjob)
    obtain rfl := Option.some.inj (hfd.flow.symm.trans hfd'.flow)
    rw [Server.Turn.dealt_eq href.led.dealings] at hok hb ⊢
    have hyes : (Dealing.verdict false :: m).contains (.verdict false)
        = true := by simp
    rw [hyes, Sjob.due, if_neg (not_not.mpr hp)] at hb
    simp only [Bool.not_true, Bool.false_eq_true, if_false] at hb
    split at hb
    · cases hb
    · rename_i hlt
      cases hb
      have hserved := (href.served (not_le.mp hlt)).congr rfl
        fun d hd => List.mem_cons_of_mem (Dealing.verdict false) hd
      exact hserved.settled hok (hdown x f hfd hp)
  · refine ⟨hack _ hm.led, fun x' f' b hfd' _ => ?_⟩
    exact absurd hfd' (hnone x' f')

/-- Polling makes no block busy. -/
theorem SampleOutcome.busy {v : Option Int} {d : Delta} {c : Oid}
    (ho : SampleOutcome x f v d) (hc : d.doc.Busy c) : x.Busy c := by
  -- a failed flow and its block are not busy any more
  have hdown : ((x.onFlow f.task (Flow.setState .error)).onBlock f.block
      (Block.setState .waiting)).Busy c → x.Busy c := by
    intro hc
    have hflow := hc.of_onBlock (fun _ => rfl) fun k hk => by cases hk
    exact hflow.of_onFlow fun _ hst => by cases hst
  cases ho with
  | skipped => exact hc
  | unknown => exact hdown hc
  | counted => exact Sjob.Busy.of_onBlock hc (fun _ => rfl) fun _ hk => hk
  | inactive =>
      exact hdown (Sjob.Busy.of_onBlock hc (fun _ => rfl) fun _ hk => hk)

theorem PollStep.busy (hs : PollStep w w') {c : Oid} (hc : w'.Busy c) :
    w.Busy c := by
  cases hs with
  | sample hx hf hl ho ht =>
      rcases ht.busy hc with hc | hc
      · exact ⟨_, hx, ho.busy hc⟩
      · exact hc
  | idle hx ht hlog =>
      rcases ht.busy hc with hc | hc
      · exact ⟨_, hx, hc⟩
      · exact hc
  | totals ht =>
      unfold World.Busy at hc ⊢
      rwa [ht.sjobs] at hc

theorem PollRun.busy (hs : PollRun w w') {c : Oid} (hc : w'.Busy c) :
    w.Busy c := by
  induction hs with
  | refl => exact hc
  | tail _ hst ih => exact ih (hst.busy hc)

/-- A polling pass keeps the invariant. -/
theorem poll_acknowledged {o : Oracle World Call Reply} (hwf : w.WF)
    (hs : w.Sound) (hw : w.Acknowledged) :
    ((pollRate conf).run (Answers.any.env .pollRate) o w).2.Acknowledged := by
  have hadm : o.Admissible (Answers.any.env .pollRate) := by
    intro v e
    cases e <;> trivial
  obtain ⟨-, hrun⟩ := Prog.wp_run hadm (pollRate_wp conf hwf hs)
  obtain ⟨-, m, hm, hno⟩ := (PlainActs.pollRate conf fun _ => False).run
    .any .pollRate hadm w
  exact hw.step hm fun b hb => ⟨.inl (hrun.busy hb), hno b false⟩

/-- In a run whose launches of reports are not refused, in which the
launcher is there when an attempt has verified its path and in which what
has to be taken down can be, a block is in transfer or a flow set up for
it only while the last launch of the block was accepted; and a launch
that is due in a turn is accepted, or leaves the job failed and its path
taken down. -/
theorem launches_acknowledged {w₀ : World} {s : Server}
    {l : List Server.Turn} (hfresh : w₀.Fresh)
    (h : Server.Turns conf ⟨w₀, []⟩ l s) (hheard : ∀ t ∈ l, t.Heard) :
    s.world.Acknowledged ∧ ∀ t ∈ l, t.Settled := by
  have hall : s.Good ∧ s.world.Acknowledged ∧ ∀ t ∈ l, t.Settled := by
    induction h with
    | nil =>
        refine ⟨hfresh.good, fun b hb => ?_, by simp⟩
        -- nothing is busy before anything has been done
        obtain ⟨x, hx, ⟨k, hk, -, hst⟩ | ⟨f, hf, -⟩⟩ := hb
        · rw [((hfresh.sjobs x hx).blocks k hk).1] at hst
          cases hst
        · rw [(hfresh.sjobs x hx).flows] at hf
          cases hf
    | @snoc l e s s' hrun hst ih =>
        obtain ⟨hg, hack, hset⟩ := ih fun t ht =>
          hheard t (List.mem_append_left _ ht)
        have hturn := hheard ⟨s, e, s'⟩
          (List.mem_append_right _ (List.mem_singleton_self _))
        refine ⟨(hst.change hg).2, ?_⟩
        suffices hnew : s'.world.Acknowledged
            ∧ Server.Turn.Settled ⟨s, e, s'⟩ by
          refine ⟨hnew.1, fun t ht => ?_⟩
          rcases List.mem_append.mp ht with ht | ht
          · exact hset t ht
          · rw [List.mem_singleton.mp ht]
            exact hnew.2
        cases hst with
        | pass => exact ⟨hack, trivial⟩
        | schedule ho =>
            obtain ⟨hack', hset'⟩ := schedule_acknowledged hg hack ho
            exact ⟨hack', hset' hturn⟩
        | status ho => exact status_acknowledged hg.wf hack ho rfl hturn
        | poll => exact ⟨poll_acknowledged hg.wf hg.sound hack, trivial⟩
        | launcher => exact ⟨hack, trivial⟩
  exact hall.2

-- ======================================================== concrete runs

/-- The first of two blocks has been transferred, and the launch of the
second is answered so. -/
def relaunched (ok : Bool) : Server :=
  launchedOne.reported (plainConf false) true ok 0 3

/-- The turns of that run. -/
def relaunchTurns (ok : Bool) : List Server.Turn :=
  [⟨⟨twoBlocks, []⟩, .pass, Server.passed ⟨twoBlocks, []⟩⟩,
    ⟨Server.passed ⟨twoBlocks, []⟩, .schedule (.of true true), launchedOne⟩,
    ⟨launchedOne, .status 0 ⟨3, 0⟩ (.of true ok), relaunched ok⟩]

theorem relaunchTurns_run (ok : Bool) : Server.Turns (plainConf false)
    ⟨twoBlocks, []⟩ (relaunchTurns ok) (relaunched ok) := by
  have hpass : Server.Turns (plainConf false) ⟨twoBlocks, []⟩
      [⟨⟨twoBlocks, []⟩, .pass, Server.passed ⟨twoBlocks, []⟩⟩]
      (Server.passed ⟨twoBlocks, []⟩) := Server.Turns.nil.snoc .pass
  have hone : Server.Turns (plainConf false) ⟨twoBlocks, []⟩ [_, _]
      launchedOne :=
    hpass.snoc (.schedule (plainOracle_admissible true true _))
  exact Server.Turns.reported hone true ok 0 3

/-- The second launch is accepted. -/
theorem launches_acknowledged_next :
    (relaunched true).world.Busy 21
    ∧ (relaunched true).world.Acknowledged
    ∧ ∀ t ∈ relaunchTurns true, t.Settled := by
  refine ⟨by decide +kernel, launches_acknowledged twoBlocks_fresh
    (relaunchTurns_run true) fun t ht => ?_⟩
  simp only [relaunchTurns, List.mem_cons, List.not_mem_nil, or_false] at ht
  rcases ht with rfl | rfl | rfl
  · trivial
  · exact fun _ => ⟨rfl, fun hno => absurd (by decide +kernel) hno⟩
  · refine ⟨fun b => ?_, fun hno => ?_⟩
    · have hdealt : Server.Turn.dealt ⟨launchedOne,
          .status 0 ⟨3, 0⟩ (.of true true), relaunched true⟩
            = [.launch 21 true] := by decide +kernel
      rw [hdealt]
      simp
    · cases hno

/-- The second launch is refused: the block is in transfer and its flow
set up all the same, and the job goes on. -/
theorem refused_relaunch_transferring :
    twoBlocks.Fresh
    ∧ Server.Turns (plainConf false) ⟨twoBlocks, []⟩ (relaunchTurns false)
      (relaunched false)
    ∧ (relaunched false).world.Busy 21
    ∧ (relaunched false).world.lastLaunch 21 = some false
    ∧ ¬ (relaunched false).world.Acknowledged
    ∧ (relaunched false).world.sjobs.map (·.state) = [.launching]
    ∧ (relaunched false).world.rawjobs.map (·.state) = [.transferring] := by
  have hbusy : (relaunched false).world.Busy 21 := by decide +kernel
  have hlast : (relaunched false).world.lastLaunch 21 = some false := by
    decide +kernel
  refine ⟨twoBlocks_fresh, relaunchTurns_run false, hbusy, hlast,
    fun hack => ?_, by decide +kernel, by decide +kernel⟩
  have := hlast.symm.trans (hack 21 hbusy)
  cases this

end runs

end BigDataExpress
