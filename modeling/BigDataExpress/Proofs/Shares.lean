/-
The shares `query_path_dtns` gives to the DTNs of a storage.

Each share is at most what is free of the two edges of its path, and the
shares add up to the rate. They are positive as long as the rate does not
run out exactly at the end of a path: when the paths before a usable one
offer exactly the rate, the usable one gets 0 (`fill_pos_iff`). The jobs
that the loop suspends are the largest ones, in the order in which it finds
them, so whether that happens is decided by the site before the query
(`shares_feasible_iff`).
-/
import BigDataExpress.Proofs.Provision

namespace BigDataExpress

namespace Manager

-- ============================================================ the shares

/-- What usable paths offer. -/
def atLeast1000 (rates : List Rat) : List Rat :=
  rates.filter fun rate => decide (1000 ≤ rate)

/-- Rates of which some leading ones, but not all, add up to a rate. -/
def ExactFit (rates : List Rat) (rate : Rat) : Prop :=
  ∃ k < rates.length, (rates.take k).sum = rate

/-- The shares are positive if and only if the rate does not run out
before a usable path. -/
theorem fill_pos_iff (l : List (String × Rat)) {rate : Rat}
    (hrate : 0 ≤ rate) :
    (∀ d ∈ fill l rate, 0 < d.2)
      ↔ ¬ ExactFit (atLeast1000 (l.map Prod.snd)) rate := by
  induction l generalizing rate with
  | nil =>
      constructor
      · intro _ hfit
        obtain ⟨k, hk, _⟩ := hfit
        exact absurd hk (Nat.not_lt_zero k)
      · intro _ d hd
        cases hd
  | cons d l ih =>
      unfold fill
      by_cases h1 : d.2 < 1000
      · have hskip : atLeast1000 ((d :: l).map Prod.snd)
            = atLeast1000 (l.map Prod.snd) :=
          List.filter_cons_of_neg (by simpa using h1)
        rw [if_pos h1, hskip]
        exact ih hrate
      · have htake : atLeast1000 ((d :: l).map Prod.snd)
            = d.2 :: atLeast1000 (l.map Prod.snd) :=
          List.filter_cons_of_pos (by simpa using h1)
        have hd : 1000 ≤ d.2 := not_lt.mp h1
        have hrest : ∀ k, 0 ≤ ((atLeast1000 (l.map Prod.snd)).take k).sum := by
          intro k
          apply List.sum_nonneg
          intro x hx
          have hx := (List.mem_filter.mp (List.mem_of_mem_take hx)).2
          have hx : 1000 ≤ x := of_decide_eq_true hx
          linarith
        rw [if_neg h1, htake]
        by_cases h2 : d.2 > rate
        · -- this path takes the rest, which is 0 if the rate ran out
          rw [if_pos h2]
          constructor
          · intro hpos hfit
            obtain ⟨k, hk, hsum⟩ := hfit
            have hpos : 0 < rate := hpos _ (List.mem_singleton_self _)
            cases k with
            | zero => exact hpos.ne hsum
            | succ k =>
                rw [List.take_succ_cons, List.sum_cons] at hsum
                have := hrest k
                linarith
          · intro hfit e he
            rw [List.mem_singleton.mp he]
            obtain h0 | h0 := hrate.lt_or_eq
            · exact h0
            · exact absurd ⟨0, Nat.zero_lt_succ _, h0⟩ hfit
        · rw [if_neg h2]
          have hpos : 0 < d.2 := by linarith
          have hstep := ih (show 0 ≤ rate - d.2 by linarith)
          constructor
          · intro hall hfit
            obtain ⟨k, hk, hsum⟩ := hfit
            cases k with
            | zero =>
                have : (0 : Rat) = rate := hsum
                linarith
            | succ k =>
                rw [List.take_succ_cons, List.sum_cons] at hsum
                refine hstep.mp (fun e he => hall e (List.mem_cons_of_mem d he))
                  ⟨k, Nat.lt_of_succ_lt_succ hk, by linarith⟩
          · intro hfit e he
            obtain heq | he := List.mem_cons.mp he
            · exact heq ▸ hpos
            · refine hstep.mpr (fun hrest => hfit ?_) e he
              obtain ⟨k, hk, hsum⟩ := hrest
              refine ⟨k + 1, Nat.succ_lt_succ hk, ?_⟩
              rw [List.take_succ_cons, List.sum_cons]
              linarith

/-- A share goes to a DTN, and is at most what its path offers. -/
theorem mem_fill {l : List (String × Rat)} {rate : Rat} {d : String × Rat}
    (h : d ∈ fill l rate) : ∃ e ∈ l, e.1 = d.1 ∧ d.2 ≤ e.2 := by
  induction l generalizing rate with
  | nil => cases h
  | cons e l ih =>
      unfold fill at h
      split at h
      · obtain ⟨f, hf, hfd⟩ := ih h
        exact ⟨f, List.mem_cons_of_mem e hf, hfd⟩
      · split at h
        · next hlt =>
          rw [List.mem_singleton.mp h]
          exact ⟨e, List.mem_cons_self .., rfl, hlt.le⟩
        · obtain heq | h := List.mem_cons.mp h
          · exact ⟨e, List.mem_cons_self .., heq ▸ rfl, heq ▸ le_refl _⟩
          · obtain ⟨f, hf, hfd⟩ := ih h
            exact ⟨f, List.mem_cons_of_mem e hf, hfd⟩

/-- The DTNs are taken in their order. -/
theorem fill_sublist (l : List (String × Rat)) (rate : Rat) :
    ((fill l rate).map Prod.fst).Sublist (l.map Prod.fst) := by
  induction l generalizing rate with
  | nil => exact .slnil
  | cons d l ih =>
      unfold fill
      split
      · exact .cons _ (ih rate)
      · split
        · exact .cons_cons _ (List.nil_sublist _)
        · exact .cons_cons _ (ih _)

-- ============================================================ the DTNs

/-- A graph in which no two edges join the same nodes, and a DTN is keyed
by its id. -/
structure Shaped (g : RGraph) : Prop extends Uplinked g where
  simple : g.edges.Pairwise fun e f => ¬(e.src = f.src ∧ e.dst = f.dst)
  rid : ∀ n ∈ g.nodes, n.data.kind = .dtn → n.data.rid = n.data.key

variable {g : RGraph} {n : PtrGraph.Node RNode} {hops : List Hop}

/-- Paths over different edges of a storage go over different DTNs. -/
theorem Shaped.rid_ne (hg : Shaped g) (hn : n ∈ g.nodes) {i j : Nat}
    (hi : i ∈ n.outs) (hj : j ∈ n.outs) (hij : i ≠ j) {p q : Hop}
    (hp : p.On g i) (hq : q.On g j) : p.dtn.data.rid ≠ q.dtn.data.rid := by
  have hsound := hg.named.sound
  obtain ⟨e, he, hei, hes⟩ := hsound.out_edge n hn i hi
  obtain ⟨f, hf, hfj, hfs⟩ := hsound.out_edge n hn j hj
  have hpe : p.sd = e := by
    have h := hsound.edge?_eq he
    rw [hei, hp.sd] at h
    injection h
  have hqf : q.sd = f := by
    have h := hsound.edge?_eq hf
    rw [hfj, hq.sd] at h
    injection h
  obtain ⟨hpmem, hpaddr⟩ := PtrGraph.node?_some hp.dtn
  obtain ⟨hqmem, hqaddr⟩ := PtrGraph.node?_some hq.dtn
  intro heq
  rw [hg.rid _ hpmem hp.kind, hg.rid _ hqmem hq.kind] at heq
  -- the same DTN, so the two edges join the same nodes
  have hsame : p.dtn = q.dtn := by
    apply hg.named.unique hpmem hqmem
    exact Prod.ext (hp.kind.trans hq.kind.symm) heq
  have hdst : e.dst = f.dst := by
    rw [← hpe, ← hqf, ← hpaddr, ← hqaddr, hsame]
  have hef : e ≠ f := by
    intro h
    exact hij (hei.symm.trans (h ▸ hfj))
  have : Std.Symm fun e f : PtrGraph.Edge Rat =>
      ¬(e.src = f.src ∧ e.dst = f.dst) :=
    ⟨fun _ _ hxy hyx => hxy ⟨hyx.1.symm, hyx.2.symm⟩⟩
  exact hg.simple.forall he hf hef ⟨hes.trans hfs.symm, hdst⟩

/-- A path begins with one of the edges. -/
theorem hop_of_mem {outs : List Nat}
    (h : List.Forall₂ (fun i p => Hop.On g i p) outs hops) {q : Hop}
    (hq : q ∈ hops) : ∃ j ∈ outs, q.On g j := by
  induction h with
  | nil => cases hq
  | @cons j p _ _ hp _ ih =>
      obtain rfl | hq := List.mem_cons.mp hq
      · exact ⟨j, List.mem_cons_self .., hp⟩
      · obtain ⟨k, hk, hqk⟩ := ih hq
        exact ⟨k, List.mem_cons_of_mem j hk, hqk⟩

theorem Shaped.rids_nodup (hg : Shaped g) (hn : n ∈ g.nodes) {outs : List Nat}
    (hsub : ∀ i ∈ outs, i ∈ n.outs) (hnd : outs.Nodup)
    (h : List.Forall₂ (fun i p => Hop.On g i p) outs hops) :
    (hops.map fun p => p.dtn.data.rid).Nodup := by
  induction h with
  | nil => exact List.nodup_nil
  | @cons i p outs hops hp hrest ih =>
      obtain ⟨hi, hnd⟩ := List.nodup_cons.mp hnd
      rw [List.map_cons, List.nodup_cons]
      refine ⟨?_, ih (fun j hj => hsub j (List.mem_cons_of_mem i hj)) hnd⟩
      intro hmem
      obtain ⟨q, hq, heq⟩ := List.mem_map.mp hmem
      obtain ⟨j, hj, hqj⟩ := hop_of_mem hrest hq
      have hne : i ≠ j := fun h => hi (h ▸ hj)
      exact hg.rid_ne hn (hsub i (List.mem_cons_self ..))
        (hsub j (List.mem_cons_of_mem i hj)) hne hp hqj heq.symm

-- ====================================================== the suspensions

/-- The site after the largest running extra job of a storage, if any, was
suspended. -/
def suspendLargest (n : PtrGraph.Node RNode) (s : Manager) : Manager :=
  match findLargestReJob (s.jobsAt n.addr) with
  | .ok job => s.mark job
  | .error _ => s

/-- There is room after `k` suspensions, and not before. -/
def RoomAfter (s : Manager) (storage : String) (n : PtrGraph.Node RNode)
    (rate : Rat) (k : Nat) : Prop :=
  ((suspendLargest n)^[k] s).probePathRate storage rate = .ok 1
    ∧ ∀ j < k,
      ((suspendLargest n)^[j] s).probePathRate storage rate ≠ .ok 1

variable {s s' : Manager} {storage : String} {rate : Rat}
  {l : List BaseJob} {o : Except String LoopEnd}

theorem suspendLargest_ok {job : BaseJob}
    (h : findLargestReJob (s.jobsAt n.addr) = .ok job) :
    suspendLargest n s = s.mark job := by
  unfold suspendLargest
  rw [h]

theorem suspendLargest_spent (hr : NonNeg s) (h : s.extras n = []) :
    suspendLargest n s = s := by
  unfold suspendLargest
  cases hj : findLargestReJob (s.jobsAt n.addr) with
  | error e => rfl
  | ok job =>
      have hmem := (largest_extra hr hj).1
      rw [h] at hmem
      cases hmem

theorem Suspends.iterate (h : Suspends storage rate n s l o s') (k : Nat)
    (hk : k ≤ l.length) : s.markAll (l.take k) = (suspendLargest n)^[k] s := by
  induction h generalizing k with
  | failed | enough | noJobs | noExtra =>
      obtain rfl := Nat.le_zero.mp hk
      rfl
  | @mark s s' c job l o _ _ _ hj _ ih =>
      cases k with
      | zero => rfl
      | succ k =>
          rw [Function.iterate_succ_apply, suspendLargest_ok hj]
          exact ih k (Nat.le_of_succ_le_succ hk)

/-- The loop stops after the suspensions that make room. -/
theorem Suspends.roomAfter_iff (h : Suspends storage rate n s l o s')
    (hr : NonNeg s) (hp : Probed s storage n hops) (k : Nat) :
    RoomAfter s storage n rate k ↔ o = .ok .enough ∧ k = l.length := by
  have hspec := h.spec hr
  have hfinal : s' = (suspendLargest n)^[l.length] s := by
    rw [hspec.final, ← h.iterate l.length (le_refl _), List.take_length]
  have hbefore : ∀ j < l.length,
      ((suspendLargest n)^[j] s).probePathRate storage rate ≠ .ok 1 := by
    intro j hj
    rw [← h.iterate j hj.le]
    exact hspec.before j hj
  constructor
  · intro ⟨hroom, hmin⟩
    obtain hlt | heq | hlt := Nat.lt_trichotomy k l.length
    · exact absurd hroom (hbefore k hlt)
    · refine ⟨hspec.ended.mpr ?_, heq⟩
      rw [hfinal, ← heq]
      exact hroom
    · -- nothing was left to suspend, so the site stayed as it was
      have hnot : s'.probePathRate storage rate ≠ .ok 1 := by
        rw [hfinal]
        exact hmin _ hlt
      obtain hspent | ⟨e, he⟩ :=
        hspec.spent fun hend => hnot (hspec.ended.mp hend)
      · have hr' : NonNeg s' := hspec.final ▸ NonNeg.markAll hr l
        have hstay : ∀ d, (suspendLargest n)^[d] s' = s' := fun d =>
          Function.iterate_fixed (suspendLargest_spent hr' hspent) d
        obtain ⟨d, rfl⟩ := Nat.exists_eq_add_of_lt hlt
        rw [show l.length + d + 1 = (d + 1) + l.length by omega,
          Function.iterate_add_apply, ← hfinal, hstay] at hroom
        exact absurd hroom hnot
      · have hp' : Probed s' storage n hops := hspec.final ▸ hp.markAll l
        rw [hp'.probe] at he
        cases he
  · intro ⟨hend, hk⟩
    subst hk
    exact ⟨hfinal ▸ hspec.ended.mp hend, hbefore⟩

-- ============================================================ the result

/-- What the usable paths of a storage offer, in the order of its edges. -/
def usable (s : Manager) (n : PtrGraph.Node RNode) : List Rat :=
  atLeast1000 (n.outs.filterMap fun i =>
    (s.pathRates i).toOption.map Prod.fst)

theorem usable_hops (h : List.Forall₂ (fun i p => Hop.On s.graph i p) n.outs
    hops) : usable s n = atLeast1000 ((hops.map s.offer).map Prod.snd) := by
  unfold usable
  generalize n.outs = outs at h
  induction h with
  | nil => rfl
  | @cons i p outs hops hp _ ih =>
      rw [List.filterMap_cons, pathRates_hop hp]
      show atLeast1000 (s.hopRate p :: _) = atLeast1000 ((s.offer p).2 :: _)
      unfold atLeast1000 at ih ⊢
      unfold hopRate
      by_cases hcut : (s.offer p).2 < 1000
      · have hzero : cutOff (s.offer p).2 = 0 := if_pos hcut
        have hoff : min (s.linkRate p.sd) (s.linkRate p.dg)
            = (s.offer p).2 := rfl
        rw [hoff, hzero, List.filter_cons_of_neg (by simp),
          List.filter_cons_of_neg (by simpa using hcut)]
        exact ih
      · have hkeep : cutOff (s.offer p).2 = (s.offer p).2 := if_neg hcut
        have hoff : min (s.linkRate p.sd) (s.linkRate p.dg)
            = (s.offer p).2 := rfl
        rw [hoff, hkeep, List.filter_cons_of_pos (by simpa using hcut),
          List.filter_cons_of_pos (by simpa using hcut)]
        exact congrArg _ ih

/-- Shares for different DTNs of the storage, each positive and at most
what is free of its two edges, that add up to the rate. -/
def Feasible (s : Manager) (n : PtrGraph.Node RNode) (rate : Rat)
    (dtns : List (String × Rat)) : Prop :=
  (dtns.map Prod.fst).Nodup
    ∧ (∀ d ∈ dtns, 0 < d.2 ∧ ∃ i ∈ n.outs, ∃ p : Hop, p.On s.graph i
      ∧ p.dtn.data.rid = d.1
      ∧ d.2 ≤ availableRate p.sd.data (s.jobsOn p.sd.rid)
      ∧ d.2 ≤ availableRate p.dg.data (s.jobsOn p.dg.rid))
    ∧ (dtns.map Prod.snd).sum = rate

/-- A query that returns shares returns feasible ones. -/
def SharesFeasible (s : Manager) (storage : String)
    (n : PtrGraph.Node RNode) (rate : Rat) : Prop :=
  ∀ turns, (s.extras n).length < turns → ∀ dtns s',
    queryPathDtns turns storage rate s = .ok (some dtns) s' →
      dtns ≠ [] → Feasible s' n rate dtns

/-- The shares a site gives out. -/
theorem fill_feasible (hg : Shaped s.graph)
    (hp : Probed s storage n hops) (hrate : 0 < rate)
    (hone : s.probePathRate storage rate = .ok 1)
    (hfit : ¬ ExactFit (usable s n) rate) :
    Feasible s n rate (fill (hops.map s.offer) rate) := by
  have hn := (PtrGraph.find_some hp.node).1
  refine ⟨?_, ?_, sum_fill hrate.le (hp.rate_lt hone)⟩
  · have hnd := hg.rids_nodup hn (fun _ h => h)
      (hg.named.sound.outs_nodup n hn) hp.hops
    refine hnd.sublist ((fill_sublist _ _).trans ?_)
    rw [List.map_map]
    exact List.Sublist.refl _
  · intro d hd
    rw [usable_hops hp.hops] at hfit
    refine ⟨(fill_pos_iff _ hrate.le).mpr hfit d hd, ?_⟩
    obtain ⟨e, he, hname, hle⟩ := mem_fill hd
    obtain ⟨p, hmem, rfl⟩ := List.mem_map.mp he
    obtain ⟨i, hi, hon⟩ := hop_of_mem hp.hops hmem
    exact ⟨i, hi, p, hon, hname, hle.trans (min_le_left _ _),
      hle.trans (min_le_right _ _)⟩

/-- The shares are feasible if and only if, in the site after the
suspensions that make room, no leading usable paths offer exactly the rate
with a further one after them. -/
theorem shares_feasible_iff (s : Manager) (hg : Shaped s.graph)
    (hr : NonNeg s) (storage : String) (n : PtrGraph.Node RNode)
    (hn : RGraph.find s.graph (.storage, storage) = some n) (rate : Rat)
    (hrate : 0 < rate) :
    SharesFeasible s storage n rate
      ↔ ∀ k, RoomAfter s storage n rate k →
          ¬ ExactFit (usable ((suspendLargest n)^[k] s) n) rate := by
  obtain ⟨hops, hp⟩ := hg.toUplinked.probed hn
  obtain ⟨l, o, s', hrun, hlen⟩ := suspends_exists storage rate n s hr
  have hspec := hrun.spec hr
  have hp' : Probed s' storage n hops := hspec.final ▸ hp.markAll l
  have hg' : Shaped s'.graph := by
    rw [hspec.final, (markAll_frame l).1]
    exact hg
  have hfinal : (suspendLargest n)^[l.length] s = s' := by
    rw [hspec.final, ← hrun.iterate l.length (le_refl _), List.take_length]
  have hquery : ∀ turns, (s.extras n).length < turns →
      queryPathDtns turns storage rate s
        = queryResult o s' (fill (hops.map s'.offer) rate) :=
    fun turns ht => hrun.query hp' hn turns (lt_of_le_of_lt hlen ht)
  constructor
  · intro hshares k hroom hfit
    obtain ⟨hend, rfl⟩ := (hrun.roomAfter_iff hr hp k).mp hroom
    rw [hfinal, usable_hops hp'.hops] at hfit
    have hres := hquery _ (Nat.lt_succ_self _)
    rw [hend] at hres
    have hsum := sum_fill hrate.le (hp'.rate_lt (hspec.ended.mp hend))
    have hne : fill (hops.map s'.offer) rate ≠ [] := by
      intro hnil
      rw [hnil] at hsum
      exact hrate.ne hsum
    obtain ⟨-, hall, -⟩ := hshares _ (Nat.lt_succ_self _) _ s' hres hne
    exact (fill_pos_iff _ hrate.le).mp (fun d hd => (hall d hd).1) hfit
  · intro hcond turns ht dtns t hres hne
    rw [hquery turns ht] at hres
    cases o with
    | error e => cases hres
    | ok r =>
        cases r with
        | noSpace =>
            injection hres with hres
            injection hres with hres
            exact absurd hres.symm hne
        | enough =>
            injection hres with hdtns hstate
            injection hdtns with hdtns
            subst hdtns hstate
            have hroom := (hrun.roomAfter_iff hr hp l.length).mpr ⟨rfl, rfl⟩
            have hfit := hcond _ hroom
            rw [hfinal] at hfit
            exact fill_feasible hg' hp' hrate (hspec.ended.mp rfl) hfit

theorem twoDtns_shaped : Shaped twoDtns where
  toUplinked := twoDtns_uplinked
  simple := by decide
  rid := by decide

theorem idle_nonNeg (g : RGraph) : NonNeg { graph := g } :=
  fun _ hjob => absurd hjob List.not_mem_nil

/-- The first of the two DTNs has exactly the rate, and the second gets
0. -/
theorem shares_not_positive :
    ¬ ∀ s : Manager, Shaped s.graph → NonNeg s →
      ∀ storage n, RGraph.find s.graph (.storage, storage) = some n →
        ∀ rate, 0 < rate → SharesFeasible s storage n rate := by
  intro h
  have hvalue : EStateM.run' (queryPathDtns 1 "disk" 2000) { graph := twoDtns }
      = some (some [("d1", 2000), ("d2", 0)]) := by decide +kernel
  obtain ⟨t, hres⟩ : ∃ t, queryPathDtns 1 "disk" 2000 { graph := twoDtns }
      = .ok (some [("d1", 2000), ("d2", 0)]) t := by
    unfold EStateM.run' EStateM.run at hvalue
    cases hres : queryPathDtns 1 "disk" 2000 { graph := twoDtns } with
    | error e t =>
        rw [hres] at hvalue
        cases hvalue
    | ok dtns t =>
        rw [hres] at hvalue
        injection hvalue with hvalue
        exact ⟨t, hvalue ▸ rfl⟩
  have hshares := h { graph := twoDtns } twoDtns_shaped (idle_nonNeg _)
    "disk" diskNode rfl 2000 (by decide) 1 (by decide) _ t hres (by decide)
  have hpos := (hshares.2.1 ("d2", 0) (by decide)).1
  exact lt_irrefl _ hpos

/-- Without jobs there is none to suspend. -/
theorem idle_iterate (k : Nat) :
    (suspendLargest diskNode)^[k] { graph := twoDtns } = { graph := twoDtns } :=
  Function.iterate_fixed rfl k

/-- A rate of 3000 needs both DTNs, and runs out in the second; one of 2000
runs out in the first. -/
theorem shares_feasible_idle :
    SharesFeasible { graph := twoDtns } "disk" diskNode 3000
      ∧ ¬ SharesFeasible { graph := twoDtns } "disk" diskNode 2000 := by
  have husable : usable { graph := twoDtns } diskNode = [2000, 2000] := by
    decide +kernel
  constructor
  · refine (shares_feasible_iff { graph := twoDtns } twoDtns_shaped
      (idle_nonNeg _) "disk" diskNode rfl 3000 (by decide)).mpr
      fun k _ hfit => ?_
    rw [idle_iterate, husable] at hfit
    obtain ⟨j, hj, hsum⟩ := hfit
    revert j
    decide +kernel
  · intro hshares
    have hroom : Manager.probePathRate { graph := twoDtns } "disk" 2000
        = .ok 1 := Stateful.toOption_eq_some (by decide +kernel)
    refine (shares_feasible_iff { graph := twoDtns } twoDtns_shaped
      (idle_nonNeg _) "disk" diskNode rfl 2000 (by decide)).mp hshares 0
      ⟨hroom, fun j hj => absurd hj (Nat.not_lt_zero j)⟩ ?_
    show ExactFit (usable { graph := twoDtns } diskNode) 2000
    rw [husable]
    exact ⟨1, by decide, by decide +kernel⟩

end Manager

end BigDataExpress
