/-
The two passes walk through their phases: `schedule()` and
`poll_rate()`.

What a pass has read stays in its phase: the sjobs without a flow that a
scheduling pass may still give one to, and the documents a polling pass
has still to go through. A polling pass relies on one flow per sjob, so
that a sample is never followed by another one of the same document.
-/
import BigDataExpress.Proofs.Phase

namespace BigDataExpress

open Interact Collection SiteStore

variable {ru : Rules} {h : HandlerId} {conf : Conf}

-- ==================================================== a scheduling pass

/-- The pass goes on with the sjobs `xs`. -/
abbrev Goes (xs : List Sjob) : Except String Unit → HandlerPhase → Prop :=
  fun r s => match r with
    | .ok _ => s = .scheduling xs
    | .error _ => s.Stops

/-- A launch moves from the drawn task on. -/
theorem launchFlow_walks {xs : List Sjob} {x : Sjob} {rid : Oid}
    {f : Flow} (hb : f.block ∈ x.blockIds) :
    Walks ru h (launchFlow rid x.id f.block f) (Goes xs)
      (.drawn xs x f.task) := by
  refine .modify _ (fun w _ => .insert hb) (.any fun files =>
    .op .sjobState (.op .stage (.op .stage (.launcherQueue ?_
      fun _ => trivial))))
  refine .ask fun w r _ _ => ⟨_, .launch f.launching_task, ?_⟩
  split
  · exact .op .stage (.op .stage (.stop (.scheduleCleanUp ..) fun _ => rfl))
  · exact .op (.blockState (by decide)) (.op .flowState (.call rfl fun _ =>
      .op .flowActive (.stop (.modify .rawState) fun _ => rfl)))

/-- What an attempt at the sjob `x` leaves: the pass goes on as before,
or without `x`. -/
abbrev Tries (xs : List Sjob) (x : Sjob) :
    Except String Unit → HandlerPhase → Prop :=
  fun r s => match r with
    | .ok _ => s = .scheduling xs
        ∨ s = .scheduling (xs.filter (·.id ≠ x.id))
    | .error _ => s.Stops

section attempt

variable {xs : List Sjob} {x : Sjob} {rjob : Option Rawjob} {block : Oid}
  (hx : x ∈ xs) (hb : block ∈ x.blockIds)

include hx hb

/-- With the path verified before it. -/
theorem verifyAndLaunch_walks {src dst : Dtn} {s s' : Option String} :
    Walks ru h (verifyAndLaunch conf rjob x.rawjob x.id block src dst s s')
      (Tries xs x) (.scheduling xs) := by
  refine .op .sjobState (.op .stage (.quiet
    (@NetActs.verifyPath x.id src dst).quiet fun r => ?_))
  split
  · exact .op .stage (.op .stage (.stop (.scheduleCleanUp ..)
      fun _ => .inl rfl))
  · refine .op .stage (.op .stage (.seq (P := fun fl s => fl.block = block
      ∧ s = .drawn (xs.filter (·.id ≠ x.id)) x fl.task) ?_ ?_))
    · intro w _
      exact ⟨_, .draw hx, .call rfl fun now => .pure ⟨_, rfl, rfl, rfl⟩⟩
    · rintro fl s ⟨rfl, rfl⟩
      refine (launchFlow_walks hb).mono ?_
      rintro (m | a) s hs
      · exact hs
      · exact .inr hs

/-- With the path set up before that. -/
theorem connectAndLaunch_walks {pair : DtnPair} :
    Walks ru h (connectAndLaunch conf rjob x.rawjob x.id block pair)
      (Tries xs x) (.scheduling xs) := by
  refine .op .stage ?_
  split
  · refine .op .stage (.quiet (NetActs.networkHandling ..).quiet
      fun res => ?_)
    split
    · exact .op .stage (.stop (.scheduleCleanUp ..) fun _ => .inl rfl)
    · exact verifyAndLaunch_walks hx hb
  · exact .op .stage (.op .stage (.op .stage
      (verifyAndLaunch_walks hx hb)))

/-- Scheduling a block tries that. -/
theorem scheduleBlock_walks :
    Walks ru h (scheduleBlock conf x block) (Tries xs x)
      (.scheduling xs) := by
  refine .any fun rjob => .any fun src => .any fun dst => .op .sjobState
    (.op .stage (.op .stage (.quiet (@NetActs.findBestEffortDtnPair
      x.id ..).quiet fun r => ?_)))
  split
  · exact .op .stage (.op .stage (.stop (.scheduleCleanUp ..)
      fun _ => .inl rfl))
  · exact .op .stage (.op .stage (connectAndLaunch_walks hx hb))

end attempt

/-- Scheduling an sjob tries one of its blocks. -/
theorem scheduleSjob_walks {xs : List Sjob} {x : Sjob}
    (hx : x.flows = [] → x ∈ xs) :
    Walks ru h (scheduleSjob conf x) (Tries xs x) (.scheduling xs) := by
  unfold scheduleSjob
  split
  · exact .pure (.inl rfl)
  · rename_i hlen
    have hempty : x.flows = [] := by
      cases hfl : x.flows with
      | nil => rfl
      | cons f fs => simp [hfl] at hlen
    split
    · rename_i b hb
      exact scheduleBlock_walks (hx hempty)
        (List.mem_map_of_mem (List.mem_of_find?_eq_some hb))
    · exact .pure (.inl rfl)

/-- The sjobs are tried in a row, each once. -/
theorem scheduleSjobs_walks {xs ys : List Sjob}
    (hys : ∀ y ∈ ys, y.flows = [] → y ∈ xs)
    (hnd : (ys.map (·.id)).Nodup) :
    Walks ru h (scheduleSjobs conf ys) (Ends Unit) (.scheduling xs) := by
  induction ys generalizing xs with
  | nil => exact .pure trivial
  | cons y ys ih =>
      rw [List.map_cons, List.nodup_cons] at hnd
      have hrest : ∀ z ∈ ys, z.flows = [] → z ∈ xs :=
        fun z hz => hys z (List.mem_cons_of_mem _ hz)
      refine .bind (scheduleSjob_walks (hys y (List.mem_cons_self ..)))
        ?_ fun _ _ hs => hs
      rintro ⟨⟩ s (rfl | rfl)
      · exact ih hrest hnd.2
      · -- the documents to come have other ids
        refine ih (fun z hz hzf => List.mem_filter.mpr
          ⟨hrest z hz hzf, ?_⟩) hnd.2
        have hne : z.id ≠ y.id :=
          fun hid => hnd.1 (hid ▸ List.mem_map_of_mem hz)
        exact decide_eq_true hne

/-- The active sjobs are sjobs of the store, each once. -/
theorem World.activeBestEffortSjobs_nodup {w : World} (hwf : w.WF) :
    (w.activeBestEffortSjobs.map (·.id)).Nodup := by
  have hperm : w.activeBestEffortSjobs.Perm
      (w.sjobs.filter World.isActive) := List.perm_insertionSort _ _
  refine (hperm.map _).nodup_iff.mpr ?_
  exact hwf.ids.sublist (List.filter_sublist.map _)

/-- The whole pass moves as said. -/
theorem schedule_walks (conf : Conf) :
    Walks ru h (schedule conf) (Ends Unit) .pass := by
  refine .read fun w hw => ⟨_, .pass, scheduleSjobs_walks ?_
    (World.activeBestEffortSjobs_nodup hw.wf)⟩
  intro y hy hempty
  exact List.mem_filter.mpr ⟨hy, by rw [hempty]; rfl⟩

-- ====================================================== a polling pass

/-- The sjobs of a rawjob have been gone through, or the pass is over. -/
abbrev Sums (rid : Oid) :
    Except String (Option Int) → HandlerPhase → Prop :=
  fun r s => match r with
    | .ok (some d) => s = .summing rid [] [] d
    | _ => s.Stops

/-- A sample is counted, and owed. -/
theorem countSample_walks {rid : Oid} {x : Sjob} {f : Flow} {n acc : Int}
    {xs : List Sjob} :
    Walks ru h (countSample conf rid x f n) (fun r s => ∃ d, r = .ok d
        ∧ s = .owing rid x d xs acc) (.rated rid x f n xs acc) := by
  refine .call rfl fun now => .quiet (.checkActivity ..) fun _ => ?_
  exact .modify _ (fun w _ => .sample) (.op .flowTx (.pure ⟨_, rfl, rfl⟩))

/-- The sampling of one flow: nothing, a sample, or the end of the
pass. -/
theorem pollFlow_walks {rid : Oid} {x : Sjob} {f : Flow} {acc : Int}
    {xs : List Sjob} (hf : f ∈ x.flows) :
    Walks ru h (pollFlow conf rid x f) (fun r s => match r with
      | .ok (some d) => d = 0 ∧ s = .summing rid [] (x :: xs) acc
          ∨ s = .owing rid x d xs acc
      | _ => s.Stops) (.summing rid [] (x :: xs) acc) := by
  unfold pollFlow
  split
  · refine .bind (M := fun r s => match r with
      | .ok _ => s = .summing rid [] (x :: xs) acc
      | .error _ => s.Stops) ?_ ?_ fun _ _ hs => hs
    · refine .read fun w _ => ?_
      cases hl : w.hasLauncher with
      | true => exact ⟨_, .quiet (.refl w), rfl⟩
      | false => exact ⟨.quiet, .gone hl, trivial⟩
    · rintro ⟨⟩ s rfl
      refine .ask fun w r _ hr => ?_
      have stay : Move ru.reply h (.summing rid [] (x :: xs) acc) w
          (.summing rid [] (x :: xs) acc)
          (w.record h (.mldRate f.task) r) := .quiet (.record rfl)
      by_cases hto : r.timedOut = true
      · rw [if_pos hto]
        exact ⟨_, stay, .pure (.inl ⟨rfl, rfl⟩)⟩
      · have hto' : r.timedOut = false := by simpa using hto
        rw [if_neg hto]
        by_cases h1 : r.code = 1
        · rw [if_pos h1]
          exact ⟨.quiet, .unknown hf hr hto' h1,
            .quiet (.unknownTask ..) fun _ => .pure trivial⟩
        · rw [if_neg h1]
          by_cases h0 : r.code = 0
          · rw [if_neg (not_not_intro h0)]
            refine ⟨_, .rate hf hr hto' h0, .seq countSample_walks ?_⟩
            rintro d s rfl
            exact .pure (.inr rfl)
          · rw [if_pos h0]
            exact ⟨_, stay, .pure (.inl ⟨rfl, rfl⟩)⟩
  · exact .pure (.inl ⟨rfl, rfl⟩)

/-- An sjob with at most one flow is polled. -/
theorem pollFlows_walks {rid : Oid} {x : Sjob} {acc : Int} {xs : List Sjob}
    (hx : x.flows.length ≤ 1) :
    Walks ru h (pollFlows conf rid x x.flows 0) (fun r s => match r with
      | .ok (some d) => d = 0 ∧ s = .summing rid [] (x :: xs) acc
          ∨ s = .owing rid x d xs acc
      | _ => s.Stops) (.summing rid [] (x :: xs) acc) := by
  cases hfl : x.flows with
  | nil => exact .pure (.inl ⟨rfl, rfl⟩)
  | cons f fs =>
      obtain rfl : fs = [] := by
        cases fs with
        | nil => rfl
        | cons g fs => simp [hfl] at hx
      have hf : f ∈ x.flows := by rw [hfl]; exact List.mem_singleton_self f
      refine .bind (pollFlow_walks hf) ?_ fun _ _ hs => hs
      rintro (_ | d) s hs
      · exact .pure hs
      · refine .pure ?_
        show 0 + d = 0 ∧ _ ∨ s = .owing rid x (0 + d) xs acc
        rw [Int.zero_add]
        exact hs

/-- The sjobs of a rawjob are polled in a row. -/
theorem pollSjobs_walks {rid : Oid} {xs : List Sjob} {acc : Int}
    (hxs : ∀ x ∈ xs, x.flows.length ≤ 1) :
    Walks ru h (pollSjobs conf rid xs acc) (Sums rid)
      (.summing rid [] xs acc) := by
  induction xs generalizing acc with
  | nil => exact .pure rfl
  | cons x xs ih =>
      have hrest := fun y hy => hxs y (List.mem_cons_of_mem _ hy)
      refine .bind (pollFlows_walks (hxs x (List.mem_cons_self ..))) ?_
        fun _ _ hs => hs
      rintro (_ | d) s hs
      · exact .pure hs
      · rcases hs with ⟨rfl, rfl⟩ | rfl
        · refine .modify _ (fun w _ => .skip) ?_
          rw [Int.add_zero]
          exact ih hrest
        · exact .modify _ (fun w _ => .tally) (ih hrest)

/-- The sjobs are read one after the other. -/
theorem readSjobs_walks {rid : Oid} {ids : List Oid} {xs : List Sjob}
    {α : Type} {k : List Sjob → Handler α}
    {Q : Except String α → HandlerPhase → Prop}
    (hxs : ∀ x ∈ xs, x.flows.length ≤ 1)
    (hk : ∀ ys : List Sjob, (∀ x ∈ ys, x.flows.length ≤ 1) →
      Walks ru h (k ys) Q (.summing rid [] (xs ++ ys) 0)) :
    Walks ru h (readSjobs ids >>= k) Q (.summing rid ids xs 0) := by
  induction ids generalizing xs k with
  | nil =>
      have := hk [] (fun _ hx => nomatch hx)
      rwa [List.append_nil] at this
  | cons i is ih =>
      intro w hw
      refine ⟨_, .cursor, ?_⟩
      have hone : ∀ x ∈ (w.sjob? i).toList, x.flows.length ≤ 1 := by
        intro x hx
        rw [Option.mem_toList] at hx
        exact hw.single x (List.mem_of_find?_eq_some hx)
      have hall : ∀ x ∈ xs ++ (w.sjob? i).toList, x.flows.length ≤ 1 := by
        intro x hx
        rcases List.mem_append.mp hx with hx | hx
        · exact hxs x hx
        · exact hone x hx
      have := ih (k := fun ys => k ((w.sjob? i).toList ++ ys)) hall
        fun ys hys => by
          rw [List.append_assoc]
          refine hk _ fun x hx => ?_
          rcases List.mem_append.mp hx with hx | hx
          · exact hone x hx
          · exact hys x hx
      show ((readSjobs is >>= fun ys =>
        pure ((w.sjob? i).toList ++ ys)).bind k).Follows _ _ _ Q _
      rw [Prog.bind_eq, Prog.bind_assoc]
      exact this

/-- A rawjob is polled, and its debts are paid. -/
theorem pollRawjob_walks {r : Rawjob} :
    Walks ru h (pollRawjob conf r) (fun a s => match a with
      | .ok true => s = .polling
      | _ => s.Stops) .polling := by
  show ((Prog.read fun w => (w.sjobs.filter (·.rawjob == r.id)).map (·.id))
    >>= readSjobs).bind _ |>.Follows _ _ _ _ _
  rw [Prog.bind_eq, Prog.bind_assoc]
  refine .read fun w _ => ⟨_, @Move.list _ _ r.id _, ?_⟩
  refine readSjobs_walks (fun _ hx => nomatch hx)
    fun ys hys => ?_
  rw [List.nil_append]
  refine .bind (pollSjobs_walks hys) ?_ ?_
  · rintro (_ | d) s hs
    · exact .pure hs
    · obtain rfl : s = .summing r.id [] [] d := hs
      exact .modify _ (fun w _ => .total) (.op .siteTx (.op .siteRx
        (.pure rfl)))
  · exact fun _ _ hs => hs

/-- The rawjobs are polled in a row. -/
theorem pollRawjobs_walks {rs : List Rawjob} :
    Walks ru h (pollRawjobs conf rs) (Ends Unit) .polling := by
  induction rs with
  | nil => exact .pure trivial
  | cons r rs ih =>
      refine .bind pollRawjob_walks ?_ fun _ _ hs => hs
      rintro (_ | _) s hs
      · exact .pure hs
      · obtain rfl : s = .polling := hs
        exact ih

/-- The whole poll moves as said. -/
theorem pollRate_walks (conf : Conf) :
    Walks ru h (pollRate conf) (Ends Unit) .poll := by
  refine .any fun rs => ?_
  split
  · exact .pure trivial
  · refine .read fun w _ => ?_
    cases hl : w.hasLauncher with
    | true => exact ⟨_, .check hl, pollRawjobs_walks⟩
    | false => exact ⟨.poll, .quiet (.refl w), .pure trivial⟩

end BigDataExpress
