/-
What `probe_path_rate` depends on, and that it is monotone.

# The two tests

The code is the greater of two, that of the storage and that of the
paths: the early returns make no difference (`Probed.probe`). The first
depends on the capacity of the storage and on what is free of it with and
without the extra jobs, the second on what the paths over the DTNs have to
offer with and without them. Neither increases when one of these numbers
does, so each way in which a site may change for the better is a matter of
comparing sums.

# The paths

`Hop` is a path as the loop over the edges finds it: the edge to a DTN,
the DTN, and its one edge to the gateway. `Probed` names the node and the
paths a probe looks at.
-/
import BigDataExpress.Proofs.Shape
import BigDataExpress.Server.Admission
import Mathlib.Algebra.Order.BigOperators.Group.List
import Mathlib.Algebra.Order.Field.Rat
import Mathlib.Tactic.Linarith

namespace BigDataExpress

-- ========================================================= sums of rates

/-- The sum of a loop is that of the rates of the running jobs in the
group. -/
theorem sumRates_eq (group : JobGroup) (jobs : List BaseJob) :
    sumRates group jobs
      = ((jobs.filter (BaseJob.runs group)).map BaseJob.rate).sum := by
  have hfold : ∀ (l : List BaseJob) (a : Rat),
      l.foldl (fun sum job => if job.runs group then sum + job.rate else sum) a
        = a + ((l.filter (BaseJob.runs group)).map BaseJob.rate).sum := by
    intro l
    induction l with
    | nil =>
        intro a
        exact (add_zero a).symm
    | cons job l ih =>
        intro a
        rw [List.foldl_cons, ih]
        by_cases h : job.runs group = true
        · rw [if_pos h, List.filter_cons_of_pos h, List.map_cons,
            List.sum_cons, add_assoc]
        · rw [if_neg h, List.filter_cons_of_neg h]
  unfold sumRates
  rw [hfold, zero_add]

/-- The first job counts if it runs in the group. -/
theorem sumRates_cons (group : JobGroup) (job : BaseJob)
    (jobs : List BaseJob) :
    sumRates group (job :: jobs)
      = (if job.runs group then job.rate else 0) + sumRates group jobs := by
  rw [sumRates_eq, sumRates_eq]
  by_cases h : job.runs group = true
  · rw [if_pos h, List.filter_cons_of_pos h, List.map_cons, List.sum_cons]
  · rw [if_neg h, List.filter_cons_of_neg h, zero_add]

/-- A job in another state. -/
def BaseJob.into (id : String) (state : JobState) (job : BaseJob) : BaseJob :=
  if job.id = id then { job with state := state } else job

/-- A job that is stopped runs no more, and the others as before. -/
theorem BaseJob.into_runs {id : String} {state : JobState}
    (h : state ≠ .running) (group : JobGroup) (job : BaseJob) :
    (job.into id state).runs group
      = (job.runs group && decide (job.id ≠ id)) := by
  unfold BaseJob.into
  by_cases hid : job.id = id
  · rw [if_pos hid]
    simp [BaseJob.runs, hid, h]
  · rw [if_neg hid]
    simp [hid]

/-- Jobs that stop running leave room. -/
theorem sumRates_into {id : String} {state : JobState}
    (h : state ≠ .running) (group : JobGroup) {jobs : List BaseJob}
    (hpos : ∀ job ∈ jobs, 0 ≤ job.rate) :
    sumRates group (jobs.map (BaseJob.into id state))
      ≤ sumRates group jobs := by
  induction jobs with
  | nil => exact le_refl _
  | cons job jobs ih =>
      have hjob := hpos job (List.mem_cons_self ..)
      have hrest := ih fun j hj => hpos j (List.mem_cons_of_mem job hj)
      have hrate : (job.into id state).rate = job.rate := by
        unfold BaseJob.into
        split <;> rfl
      rw [List.map_cons, sumRates_cons, sumRates_cons, hrate,
        BaseJob.into_runs h]
      by_cases hr : job.runs group = true
      · rw [if_pos hr]
        by_cases hid : job.id = id
        · simp only [hr, hid, ne_eq, not_true, decide_false, Bool.and_false,
            Bool.false_eq_true, if_false]
          linarith
        · simp only [hr, hid, ne_eq, not_false_iff, decide_true, Bool.and_self,
            if_true]
          linarith
      · simp only [hr, Bool.false_and, Bool.false_eq_true, if_false]
        linarith

-- ============================================================= the tests

namespace Manager

/-- A storage that offers more refuses no more. -/
theorem probeStorage_mono {cap sre srb rate cap' sre' srb' rate' : Rat}
    (hcap : cap ≤ cap') (hfree : cap - srb - sre ≤ cap' - srb' - sre')
    (hextra : cap - srb ≤ cap' - srb') (hrate : rate' ≤ rate) :
    probeStorage cap' sre' srb' rate' ≤ probeStorage cap sre srb rate := by
  unfold probeStorage
  by_cases h4 : cap < rate
  · rw [if_pos h4]
    split_ifs <;> omega
  · rw [if_neg h4, if_neg (by linarith : ¬ cap' < rate')]
    by_cases h1 : cap - srb - sre > rate
    · rw [if_pos h1, if_pos (by linarith : cap' - srb' - sre' > rate')]
    · rw [if_neg h1]
      by_cases h2 : cap - srb > rate
      · rw [if_pos h2, if_pos (by linarith : cap' - srb' > rate')]
        split_ifs <;> omega
      · rw [if_neg h2]
        split_ifs <;> omega

/-- Links that offer more refuse no more. -/
theorem probeEdges_mono {avail extra rate avail' extra' rate' : Rat}
    (havail : avail ≤ avail') (hextra : extra ≤ extra')
    (hrate : rate' ≤ rate) :
    probeEdges avail' extra' rate' ≤ probeEdges avail extra rate := by
  unfold probeEdges
  by_cases h1 : avail > rate
  · rw [if_pos h1, if_pos (by linarith : avail' > rate')]
  · rw [if_neg h1]
    by_cases h2 : extra > rate
    · rw [if_pos h2, if_pos (by linarith : extra' > rate')]
      split_ifs <;> omega
    · rw [if_neg h2]
      split_ifs <;> omega

/-- The code of a storage is one of four. -/
theorem probeStorage_range (cap sre srb rate : Rat) :
    1 ≤ probeStorage cap sre srb rate
      ∧ probeStorage cap sre srb rate ≤ 4 := by
  unfold probeStorage
  split_ifs <;> omega

/-- The code of the links is one of three. -/
theorem probeEdges_range (avail extra rate : Rat) :
    1 ≤ probeEdges avail extra rate ∧ probeEdges avail extra rate ≤ 3 := by
  unfold probeEdges
  split_ifs <;> omega

/-- Cutting off below 0 keeps the order. -/
theorem cutOff_mono {x y : Rat} (h : x ≤ y) : cutOff x ≤ cutOff y := by
  unfold cutOff
  by_cases hy : y < 1000
  · rw [if_pos hy, if_pos (h.trans_lt hy)]
  · rw [if_neg hy]
    split_ifs <;> linarith

/-- Nothing below 0 is left. -/
theorem cutOff_nonneg (x : Rat) : 0 ≤ cutOff x := by
  unfold cutOff
  split_ifs with h
  · exact le_refl 0
  · linarith

-- ============================================================== the paths

/-- A path from a storage over a DTN to the gateway. -/
structure Hop where
  sd : PtrGraph.Edge Rat
  dtn : PtrGraph.Node RNode
  dg : PtrGraph.Edge Rat

/-- The path that begins with an edge. -/
structure Hop.On (g : RGraph) (i : Nat) (h : Hop) : Prop where
  sd : g.edge? i = some h.sd
  dtn : g.node? h.sd.dst = some h.dtn
  kind : h.dtn.data.kind = .dtn
  dg : ∃ j, h.dtn.outs = [j] ∧ g.edge? j = some h.dg

variable (s : Manager)

/-- What is free of an edge. -/
def linkRate (e : PtrGraph.Edge Rat) : Rat :=
  e.data - sumRe (s.jobsOn e.rid) - sumRb (s.jobsOn e.rid)

/-- What is free of it without the extra jobs. -/
def linkRateExtra (e : PtrGraph.Edge Rat) : Rat :=
  e.data - sumRb (s.jobsOn e.rid)

/-- What a path has to offer. -/
def hopRate (h : Hop) : Rat :=
  cutOff (min (s.linkRate h.sd) (s.linkRate h.dg))

/-- What a hop has beyond its reserved rates: the less of its links. -/
def hopRateExtra (h : Hop) : Rat :=
  cutOff (min (s.linkRateExtra h.sd) (s.linkRateExtra h.dg))

variable {s}

/-- The lesser is the minimum. -/
theorem lower_eq_min (x y : Rat) : (if x < y then x else y) = min x y := by
  by_cases h : x < y
  · rw [if_pos h, min_eq_left h.le]
  · rw [if_neg h, min_eq_right (not_lt.mp h)]

/-- The rates of a path are those of its hop. -/
theorem pathRates_hop {i : Nat} {h : Hop} (hop : h.On s.graph i) :
    s.pathRates i = .ok (s.hopRate h, s.hopRateExtra h) := by
  obtain ⟨j, houts, hdg⟩ := hop.dg
  have hsd : s.edgeAt i = .ok h.sd := by
    unfold edgeAt
    rw [hop.sd]
  have hdtn : s.dstNode h.sd = .ok h.dtn := by
    unfold dstNode
    rw [hop.dtn]
  have hdg' : s.edgeAt j = .ok h.dg := by
    unfold edgeAt
    rw [hdg]
  unfold pathRates
  simp only [hsd, hdtn, houts, hdg', bind, Except.bind, pure, Except.pure,
    lower_eq_min]
  rfl

/-- The rates of the paths add up. -/
theorem edgeRates_hops {l : List Nat} {hops : List Hop}
    (h : List.Forall₂ (fun i h => Hop.On s.graph i h) l hops) :
    s.edgeRates l
      = .ok ((hops.map s.hopRate).sum, (hops.map s.hopRateExtra).sum) := by
  induction h with
  | nil => rfl
  | cons hop _ ih =>
      unfold edgeRates
      rw [pathRates_hop hop]
      simp only [bind, Except.bind, ih, pure, Except.pure, List.map_cons,
        List.sum_cons]

/-- What a probe of a storage looks at. -/
structure Probed (s : Manager) (storage : String)
    (n : PtrGraph.Node RNode) (hops : List Hop) : Prop where
  node : RGraph.find s.graph (.storage, storage) = some n
  hops : List.Forall₂ (fun i h => Hop.On s.graph i h) n.outs hops

/-- A lookup that succeeds hands over its result. -/
theorem read_bind_ok {α β : Type} {f : Manager → Except String α} {a : α}
    {k : α → Manage β} (h : f s = .ok a) :
    (Manage.read f >>= k) s = k a s := by
  show EStateM.bind (Manage.read f) k s = _
  unfold EStateM.bind Manage.read
  rw [h]

/-- A lookup that fails ends the command. -/
theorem read_bind_error {α β : Type} {f : Manager → Except String α}
    {e : String} {k : α → Manage β} (h : f s = .error e) :
    (Manage.read f >>= k) s = .error e s := by
  show EStateM.bind (Manage.read f) k s = _
  unfold EStateM.bind Manage.read
  rw [h]

/-- A storage that is there is found. -/
theorem look_getStorageNode {storage : String} {n : PtrGraph.Node RNode}
    (h : RGraph.find s.graph (.storage, storage) = some n) :
    s.look (RGraph.getStorageNode storage) = .ok n := by
  unfold look
  rw [RGraph.getStorageNode, Stateful.get_bind_run, h]
  rfl

variable {storage : String} {n : PtrGraph.Node RNode} {hops : List Hop}

/-- The code of a probe is the greater of the two tests. -/
theorem Probed.probe (h : Probed s storage n hops) (rate : Rat) :
    s.probePathRate storage rate
      = .ok (max (probeStorage n.data.cap (sumRe (s.jobsAt n.addr))
            (sumRb (s.jobsAt n.addr)) rate)
          (probeEdges (hops.map s.hopRate).sum (hops.map s.hopRateExtra).sum
            rate)) := by
  unfold probePathRate
  simp only [look_getStorageNode h.node, edgeRates_hops h.hops, bind,
    Except.bind, pure, Except.pure]
  have hx := probeStorage_range n.data.cap (sumRe (s.jobsAt n.addr))
    (sumRb (s.jobsAt n.addr)) rate
  have hy := probeEdges_range (hops.map s.hopRate).sum
    (hops.map s.hopRateExtra).sum rate
  generalize probeStorage _ _ _ _ = x at hx ⊢
  generalize probeEdges _ _ _ = y at hy ⊢
  split_ifs <;> congr 1 <;> omega

/-- The first probe is done and gives no greater code. -/
def NoWorse (x y : Except String Nat) : Prop :=
  ∃ a b, x = .ok a ∧ y = .ok b ∧ a ≤ b

/-- Offers of some paths, and better ones of paths that include theirs. -/
theorem sum_offers {R : Hop → Hop → Prop} {f g : Hop → Rat}
    (hR : ∀ p q, R p q → f p ≤ g q) (hg : ∀ q, 0 ≤ g q)
    {hops hops' : List Hop} (h : List.SublistForall₂ R hops hops') :
    (hops.map f).sum ≤ (hops'.map g).sum := by
  induction h with
  | nil =>
      apply List.sum_nonneg
      intro x hx
      obtain ⟨q, -, rfl⟩ := List.mem_map.mp hx
      exact hg q
  | cons hpq _ ih =>
      rw [List.map_cons, List.map_cons, List.sum_cons, List.sum_cons]
      exact add_le_add (hR _ _ hpq) ih
  | @cons_right q _ _ _ ih =>
      rw [List.map_cons, List.sum_cons]
      have := hg q
      linarith

/-- A path is as good as another one before a change. -/
def Offers (s s' : Manager) (p q : Hop) : Prop :=
  s.hopRate p ≤ s'.hopRate q ∧ s.hopRateExtra p ≤ s'.hopRateExtra q

/-- A site that has changed for the better. -/
theorem Probed.noWorse {s' : Manager} {n' : PtrGraph.Node RNode}
    {hops' : List Hop} (h : Probed s storage n hops)
    (h' : Probed s' storage n' hops') (hcap : n.data.cap ≤ n'.data.cap)
    (hre : sumRe (s'.jobsAt n'.addr) ≤ sumRe (s.jobsAt n.addr))
    (hrb : sumRb (s'.jobsAt n'.addr) ≤ sumRb (s.jobsAt n.addr))
    (hhops : List.SublistForall₂ (Offers s s') hops hops') (rate : Rat) :
    NoWorse (s'.probePathRate storage rate)
      (s.probePathRate storage rate) := by
  refine ⟨_, _, h'.probe rate, h.probe rate, max_le_max ?_ ?_⟩
  · exact probeStorage_mono hcap (by linarith) (by linarith) (le_refl rate)
  · refine probeEdges_mono ?_ ?_ (le_refl rate)
    · exact sum_offers (fun _ _ hpq => hpq.1) (fun _ => cutOff_nonneg _) hhops
    · exact sum_offers (fun _ _ hpq => hpq.2) (fun _ => cutOff_nonneg _) hhops

/-- A lower rate is answered no worse. -/
theorem Probed.noWorse_rate (h : Probed s storage n hops) {rate rate' : Rat}
    (hle : rate ≤ rate') :
    NoWorse (s.probePathRate storage rate)
      (s.probePathRate storage rate') := by
  refine ⟨_, _, h.probe rate, h.probe rate', max_le_max ?_ ?_⟩
  · exact probeStorage_mono (le_refl _) (le_refl _) (le_refl _) hle
  · exact probeEdges_mono (le_refl _) (le_refl _) hle

-- ========================================================== the graph

/-- A graph in which every DTN has one edge out, and every edge of a
storage leads to a DTN. -/
structure Uplinked (g : RGraph) : Prop where
  named : RGraph.Named g
  dtn : ∀ n ∈ g.nodes, n.data.kind = .dtn → ∃ i, n.outs = [i]
  storage : ∀ n ∈ g.nodes, n.data.kind = .storage → ∀ e ∈ g.edges,
    e.src = n.addr → ∃ d ∈ g.nodes, d.addr = e.dst ∧ d.data.kind = .dtn

variable {g g' : RGraph}

/-- From a storage there is a hop to the gateway. -/
theorem Uplinked.hop (h : Uplinked g) (hn : n ∈ g.nodes)
    (hk : n.data.kind = .storage) {i : Nat} (hi : i ∈ n.outs) :
    ∃ p : Hop, p.On g i := by
  have hsound := h.named.sound
  obtain ⟨sd, hsd, rfl, hsrc⟩ := hsound.out_edge n hn i hi
  obtain ⟨d, hd, hdst, hkind⟩ := h.storage n hn hk sd hsd hsrc
  obtain ⟨j, hj⟩ := h.dtn d hd hkind
  obtain ⟨dg, hdg, hrid, -⟩ := hsound.out_edge d hd j (by simp [hj])
  refine ⟨⟨sd, d, dg⟩, hsound.edge?_eq hsd, ?_, hkind, j, hj, ?_⟩
  · rw [← hdst]
    exact hsound.node?_eq hd
  · rw [← hrid]
    exact hsound.edge?_eq hdg

/-- In such a graph every storage can be probed. -/
theorem Uplinked.probed (h : Uplinked s.graph)
    (hn : RGraph.find s.graph (.storage, storage) = some n) :
    ∃ hops, Probed s storage n hops := by
  obtain ⟨hmem, hname⟩ := PtrGraph.find_some hn
  have hkind : n.data.kind = .storage := congrArg Prod.fst hname
  have hall : ∀ i ∈ n.outs, ∃ p : Hop, p.On s.graph i :=
    fun i hi => h.hop hmem hkind hi
  have hlist : ∀ l : List Nat, (∀ i ∈ l, ∃ p : Hop, p.On s.graph i) →
      ∃ hops, List.Forall₂ (fun i p => Hop.On s.graph i p) l hops := by
    intro l
    induction l with
    | nil => exact fun _ => ⟨[], .nil⟩
    | cons i l ih =>
        intro hl
        obtain ⟨p, hp⟩ := hl i (List.mem_cons_self ..)
        obtain ⟨hops, hhops⟩ := ih fun j hj => hl j (List.mem_cons_of_mem i hj)
        exact ⟨p :: hops, .cons hp hhops⟩
  obtain ⟨hops, hhops⟩ := hlist n.outs hall
  exact ⟨hops, hn, hhops⟩

/-- The paths of one graph, found in another. -/
theorem hops_carried {R : Hop → Hop → Prop}
    (hR : ∀ i p, Hop.On g i p → ∃ q, Hop.On g' i q ∧ R p q) {l : List Nat}
    (h : List.Forall₂ (fun i p => Hop.On g i p) l hops) :
    ∃ hops', List.Forall₂ (fun i p => Hop.On g' i p) l hops'
      ∧ List.Forall₂ R hops hops' := by
  induction h with
  | nil => exact ⟨[], .nil, .nil⟩
  | cons hp _ ih =>
      obtain ⟨q, hq, hpq⟩ := hR _ _ hp
      obtain ⟨hops', hon, hall⟩ := ih
      exact ⟨q :: hops', .cons hq hon, .cons hpq hall⟩

/-- Hops that offer more, and more hops. -/
theorem sublist_of_forall₂ {R : Hop → Hop → Prop} {hops' : List Hop}
    (h : List.Forall₂ R hops hops') (more : List Hop) :
    List.SublistForall₂ R hops (hops' ++ more) := by
  induction h with
  | nil => exact .nil
  | cons hpq _ ih => exact .cons hpq ih

-- ======================================================== suspended jobs

/-- Only the one job changes its state. -/
theorem find_setState (jm : JobManager) (id : String) (state : JobState)
    (x : String) :
    (jm.setState id state).find x
      = (jm.find x).map (BaseJob.into id state) := by
  unfold JobManager.find JobManager.setState
  rw [List.find?_map]
  congr 2
  funext job
  simp only [Function.comp_apply]
  split <;> rfl

/-- The site with a job in another state. -/
def suspend (id : String) (state : JobState) (s : Manager) : Manager :=
  { s with jm := s.jm.setState id state }

/-- The jobs of a table are those that were there, the one stopped. -/
theorem jobs_suspend (id : String) (state : JobState) (table : List String) :
    (s.suspend id state).jobs table
      = (s.jobs table).map (BaseJob.into id state) := by
  unfold jobs
  rw [List.map_filterMap]
  apply List.filterMap_congr
  intro x _
  exact find_setState s.jm id state x

/-- Every rate is non-negative. -/
def NonNeg (s : Manager) : Prop := ∀ job ∈ s.jm.basicJobs, 0 ≤ job.rate

/-- No job of a table has a negative rate. -/
theorem NonNeg.jobs (h : NonNeg s) (table : List String) :
    ∀ job ∈ s.jobs table, 0 ≤ job.rate := by
  intro job hjob
  obtain ⟨x, -, hx⟩ := List.mem_filterMap.mp hjob
  exact h job (List.mem_of_find?_eq_some hx)

variable {id : String} {state : JobState}

/-- Without the job the extra rates are no more. -/
theorem sumRe_suspend (hr : NonNeg s) (hst : state ≠ .running)
    (table : List String) :
    sumRe ((s.suspend id state).jobs table) ≤ sumRe (s.jobs table) := by
  rw [jobs_suspend]
  exact sumRates_into hst .extra (hr.jobs table)

/-- Without the job the base rates are no more. -/
theorem sumRb_suspend (hr : NonNeg s) (hst : state ≠ .running)
    (table : List String) :
    sumRb ((s.suspend id state).jobs table) ≤ sumRb (s.jobs table) := by
  rw [jobs_suspend]
  exact sumRates_into hst .base (hr.jobs table)

/-- A hop whose links offer more offers more. -/
theorem hopRate_mono {s s' : Manager} {p q : Hop}
    (hsd : s.linkRate p.sd ≤ s'.linkRate q.sd)
    (hdg : s.linkRate p.dg ≤ s'.linkRate q.dg) :
    s.hopRate p ≤ s'.hopRate q :=
  cutOff_mono (min_le_min hsd hdg)

/-- So it does beyond the reserved rates. -/
theorem hopRateExtra_mono {s s' : Manager} {p q : Hop}
    (hsd : s.linkRateExtra p.sd ≤ s'.linkRateExtra q.sd)
    (hdg : s.linkRateExtra p.dg ≤ s'.linkRateExtra q.dg) :
    s.hopRateExtra p ≤ s'.hopRateExtra q :=
  cutOff_mono (min_le_min hsd hdg)

/-- Every hop offers no less when a job is suspended. -/
theorem offers_suspend (hr : NonNeg s) (hst : state ≠ .running) (p : Hop) :
    Offers s (s.suspend id state) p p := by
  have hrate : ∀ e, s.linkRate e ≤ (s.suspend id state).linkRate e := by
    intro e
    have hre : sumRe ((s.suspend id state).jobsOn e.rid)
        ≤ sumRe (s.jobsOn e.rid) := sumRe_suspend hr hst _
    have hrb : sumRb ((s.suspend id state).jobsOn e.rid)
        ≤ sumRb (s.jobsOn e.rid) := sumRb_suspend hr hst _
    unfold linkRate
    linarith
  have hextra : ∀ e,
      s.linkRateExtra e ≤ (s.suspend id state).linkRateExtra e := by
    intro e
    have hrb : sumRb ((s.suspend id state).jobsOn e.rid)
        ≤ sumRb (s.jobsOn e.rid) := sumRb_suspend hr hst _
    unfold linkRateExtra
    linarith
  exact ⟨hopRate_mono (hrate _) (hrate _),
    hopRateExtra_mono (hextra _) (hextra _)⟩

/-- The way of the probe is the same. -/
theorem Probed.suspend (h : Probed s storage n hops) (id : String)
    (state : JobState) : Probed (s.suspend id state) storage n hops :=
  ⟨h.node, h.hops⟩

/-- A job that stops running makes no probe worse. -/
theorem Probed.noWorse_suspend (h : Probed s storage n hops)
    (hr : NonNeg s) (hst : state ≠ .running) (rate : Rat) :
    NoWorse ((s.suspend id state).probePathRate storage rate)
      (s.probePathRate storage rate) := by
  refine h.noWorse (h.suspend id state) (le_refl _) (sumRe_suspend hr hst _)
    (sumRb_suspend hr hst _) ?_ rate
  have hall : List.Forall₂ (Offers s (s.suspend id state)) hops hops :=
    List.forall₂_same.mpr fun p _ => offers_suspend hr hst p
  have hsub := sublist_of_forall₂ hall []
  rwa [List.append_nil] at hsub

-- ==================================================== greater capacities

/-- The graph with a greater capacity of an edge. -/
def raiseEdge (i : Nat) (c : Rat) (g : RGraph) : RGraph :=
  { g with edges := g.edges.map fun e =>
      if e.rid = i then { e with data := e.data + c } else e }

/-- A node with more capacity. -/
def raised (c : Rat) (d : RNode) : RNode := { d with cap := d.cap + c }

/-- The graph with a greater capacity of a node. -/
def raiseNode (a : Nat) (c : Rat) (g : RGraph) : RGraph :=
  g.modify a (raised c)

/-- A site with another graph: the jobs stay. -/
def withGraph (s : Manager) (g : RGraph) : Manager := { s with graph := g }

/-- Edges with the same jobs, the second of no smaller capacity. -/
def Wider (e f : PtrGraph.Edge Rat) : Prop :=
  f.rid = e.rid ∧ e.data ≤ f.data

/-- A hop with wider links offers no less. -/
theorem Wider.offers {p q : Hop} (hsd : Wider p.sd q.sd)
    (hdg : Wider p.dg q.dg) : Offers s (s.withGraph g) p q := by
  have hrate : ∀ {e f}, Wider e f →
      s.linkRate e ≤ (s.withGraph g).linkRate f := by
    intro e f ⟨hrid, hcap⟩
    show s.linkRate e ≤ f.data - sumRe (s.jobsOn f.rid) - sumRb (s.jobsOn f.rid)
    unfold linkRate
    rw [hrid]
    linarith
  have hextra : ∀ {e f}, Wider e f →
      s.linkRateExtra e ≤ (s.withGraph g).linkRateExtra f := by
    intro e f ⟨hrid, hcap⟩
    show s.linkRateExtra e ≤ f.data - sumRb (s.jobsOn f.rid)
    unfold linkRateExtra
    rw [hrid]
    linarith
  exact ⟨hopRate_mono (hrate hsd) (hrate hdg),
    hopRateExtra_mono (hextra hsd) (hextra hdg)⟩

/-- A graph with the same storage, of no smaller capacity, and with paths
that include its paths. -/
theorem Probed.noWorse_graph {n' : PtrGraph.Node RNode}
    (h : Probed s storage n hops) (more : List Nat) (extra : List Hop)
    (hn : RGraph.find g' (.storage, storage) = some n')
    (hcap : n.data.cap ≤ n'.data.cap) (haddr : n'.addr = n.addr)
    (houts : n'.outs = n.outs ++ more)
    (hmore : List.Forall₂ (fun i p => Hop.On g' i p) more extra)
    (hcarry : ∀ i p, Hop.On s.graph i p →
      ∃ q, Hop.On g' i q ∧ Wider p.sd q.sd ∧ Wider p.dg q.dg) (rate : Rat) :
    NoWorse ((s.withGraph g').probePathRate storage rate)
      (s.probePathRate storage rate) := by
  obtain ⟨hops', hon, hall⟩ := hops_carried hcarry h.hops
  have h' : Probed (s.withGraph g') storage n' (hops' ++ extra) := by
    refine ⟨hn, ?_⟩
    rw [houts]
    exact List.rel_append hon hmore
  refine h.noWorse h' hcap ?_ ?_ ?_ rate
  · rw [haddr]
    exact le_refl _
  · rw [haddr]
    exact le_refl _
  · apply sublist_of_forall₂
    exact hall.imp fun p q hpq => hpq.1.offers hpq.2

/-- A link is as wide as it is. -/
theorem Wider.refl (e : PtrGraph.Edge Rat) : Wider e e := ⟨rfl, le_refl _⟩

/-- With more capacity on a link a probe is answered no worse. -/
theorem Probed.noWorse_raiseEdge (h : Probed s storage n hops) (i : Nat)
    {c : Rat} (hc : 0 ≤ c) (rate : Rat) :
    NoWorse
      ((s.withGraph (raiseEdge i c s.graph)).probePathRate storage rate)
      (s.probePathRate storage rate) := by
  have hfind : RGraph.find (raiseEdge i c s.graph) (.storage, storage)
      = some n := h.node
  refine h.noWorse_graph [] [] hfind (le_refl _) rfl
    (List.append_nil _).symm .nil ?_ rate
  have hedge : ∀ {k e}, s.graph.edge? k = some e →
      ∃ f, (raiseEdge i c s.graph).edge? k = some f ∧ Wider e f
        ∧ f.dst = e.dst := by
    intro k e he
    refine ⟨if e.rid = i then { e with data := e.data + c } else e, ?_, ?_⟩
    · simp only [PtrGraph.edge?] at he
      have hkeep : ((fun f : PtrGraph.Edge Rat => f.rid == k) ∘ fun e =>
          if e.rid = i then { e with data := e.data + c } else e)
          = fun e => e.rid == k := by
        funext f
        simp only [Function.comp_apply]
        split <;> rfl
      simp only [PtrGraph.edge?, raiseEdge, List.find?_map, hkeep, he,
        Option.map_some]
    · split
      · exact ⟨⟨rfl, by show e.data ≤ e.data + c; linarith⟩, rfl⟩
      · exact ⟨Wider.refl e, rfl⟩
  intro k p hp
  obtain ⟨sd, hsd, hwsd, hdst⟩ := hedge hp.sd
  obtain ⟨j, houts, hdg⟩ := hp.dg
  obtain ⟨dg, hdg', hwdg, -⟩ := hedge hdg
  exact ⟨⟨sd, p.dtn, dg⟩, ⟨hsd, by rw [hdst]; exact hp.dtn, hp.kind, j, houts,
    hdg'⟩, hwsd, hwdg⟩

/-- With more capacity at a node a probe is answered no worse. -/
theorem Probed.noWorse_raiseNode (h : Probed s storage n hops) (a : Nat)
    {c : Rat} (hc : 0 ≤ c) (rate : Rat) :
    NoWorse
      ((s.withGraph (raiseNode a c s.graph)).probePathRate storage rate)
      (s.probePathRate storage rate) := by
  have hfind : RGraph.find (raiseNode a c s.graph) (.storage, storage)
      = some (if n.addr = a then { n with data := raised c n.data }
          else n) := by
    have hnode := h.node
    unfold RGraph.find at hnode ⊢
    unfold raiseNode
    rw [PtrGraph.find_modify (f := raised c) (fun _ => rfl), hnode,
      Option.map_some]
  refine h.noWorse_graph [] [] hfind ?_ ?_ ?_ .nil ?_ rate
  · split
    · show n.data.cap ≤ n.data.cap + c
      linarith
    · exact le_refl _
  · split <;> rfl
  · rw [List.append_nil]
    split <;> rfl
  · intro k p hp
    obtain ⟨j, houts, hdg⟩ := hp.dg
    refine ⟨⟨p.sd, if p.dtn.addr = a then
      { p.dtn with data := raised c p.dtn.data } else p.dtn, p.dg⟩,
      ⟨hp.sd, ?_, ?_, j, ?_, hdg⟩, Wider.refl _, Wider.refl _⟩
    · unfold raiseNode
      rw [PtrGraph.node?_modify, hp.dtn, Option.map_some]
    · have hkind := hp.kind
      show (if p.dtn.addr = a then _ else p.dtn).data.kind = _
      split <;> exact hkind
    · show (if p.dtn.addr = a then _ else p.dtn).outs = _
      split <;> exact houts

-- ======================================================== further DTNs

/-- An edge from a storage to a DTN of the graph. -/
theorem Probed.noWorse_connect (h : Probed s storage n hops)
    (hg : Uplinked s.graph) {d : PtrGraph.Node RNode}
    (hd : d ∈ s.graph.nodes) (hkind : d.data.kind = .dtn) (cap rate : Rat) :
    NoWorse ((s.withGraph (s.graph.connect n.addr d.addr cap)).probePathRate
        storage rate) (s.probePathRate storage rate) := by
  have hsound := hg.named.sound
  obtain ⟨hmem, hname⟩ := PtrGraph.find_some h.node
  have hstorage : n.data.kind = .storage := congrArg Prod.fst hname
  -- the lists of a DTN grow at its end of the edge only
  have hnode : ∀ {a m}, s.graph.node? a = some m → m.data.kind = .dtn →
      ∃ m', (s.graph.connect n.addr d.addr cap).node? a = some m'
        ∧ m'.data.kind = .dtn ∧ m'.outs = m.outs := by
    intro a m hm hk
    refine ⟨m.joined s.graph.next n.addr d.addr, ?_, hk, ?_⟩
    · rw [PtrGraph.node?_connect, hm, Option.map_some]
    · have hne : m.addr ≠ n.addr := by
        intro ha
        have heq := hsound.node_unique (PtrGraph.node?_some hm).1 hmem ha
        rw [heq, hstorage] at hk
        cases hk
      exact if_neg hne
  have hcarry : ∀ i p, Hop.On s.graph i p →
      ∃ q, Hop.On (s.graph.connect n.addr d.addr cap) i q
        ∧ Wider p.sd q.sd ∧ Wider p.dg q.dg := by
    intro i p hp
    obtain ⟨j, houts, hdg⟩ := hp.dg
    obtain ⟨m', hm', hk', houts'⟩ := hnode hp.dtn hp.kind
    exact ⟨⟨p.sd, m', p.dg⟩, ⟨PtrGraph.edge?_connect hp.sd _ _ _, hm', hk',
      j, houts'.trans houts, PtrGraph.edge?_connect hdg _ _ _⟩,
      Wider.refl _, Wider.refl _⟩
  -- the new path
  obtain ⟨j, hj⟩ := hg.dtn d hd hkind
  obtain ⟨dg, hdg, hrid, -⟩ := hsound.out_edge d hd j (by simp [hj])
  obtain ⟨d', hd', hkind', houts'⟩ := hnode (hsound.node?_eq hd) hkind
  have hnew : Hop.On (s.graph.connect n.addr d.addr cap) s.graph.next
      ⟨⟨s.graph.next, n.addr, d.addr, cap⟩, d', dg⟩ := by
    refine ⟨hsound.edge?_connect_self _ _ _, hd', hkind', j,
      houts'.trans hj, ?_⟩
    rw [← hrid]
    exact PtrGraph.edge?_connect (hsound.edge?_eq hdg) _ _ _
  have hfind : RGraph.find (s.graph.connect n.addr d.addr cap)
      (.storage, storage)
      = some (n.joined s.graph.next n.addr d.addr) := by
    have hfound := h.node
    unfold RGraph.find at hfound ⊢
    rw [PtrGraph.find_connect, hfound, Option.map_some]
  refine h.noWorse_graph [s.graph.next] [_] hfind (le_refl _) rfl ?_
    (.cons hnew .nil) hcarry rate
  exact if_pos rfl

/-- A graph with a new DTN, and its edge to a node. -/
def addUplinked (g : RGraph) (d : RNode) (w : Nat) (cap : Rat) : RGraph :=
  (g.insert d).connect g.next w cap

/-- The new DTN. -/
def newDtn (g : RGraph) (d : RNode) (w : Nat) : PtrGraph.Node RNode :=
  PtrGraph.Node.joined (g.next + 1) g.next w { addr := g.next, data := d }

/-- The new DTN is there. -/
theorem newDtn_mem (g : RGraph) (d : RNode) (w : Nat) (cap : Rat) :
    newDtn g d w ∈ (addUplinked g d w cap).nodes := by
  unfold addUplinked newDtn
  rw [PtrGraph.connect_nodes]
  exact List.mem_map_of_mem (List.mem_append_right _ (List.mem_singleton_self _))

/-- The lists of the nodes that were there keep their edges out. -/
theorem outs_addUplinked (hg : Uplinked g) {w : Nat}
    {m : PtrGraph.Node RNode} (hm : m ∈ g.nodes) :
    (m.joined (g.next + 1) g.next w).outs = m.outs := by
  have hne : m.addr ≠ g.next := (hg.named.sound.addr_lt m hm).ne
  exact if_neg hne

/-- The graph stays uplinked. -/
theorem Uplinked.addUplinked (hg : Uplinked g) {d : RNode}
    (hkind : d.kind = .dtn) (hfree : RGraph.find g d.nodeName = none)
    {w : PtrGraph.Node RNode} (hw : w ∈ g.nodes) (cap : Rat) :
    Uplinked (addUplinked g d w.addr cap) where
  named := by
    have hins := hg.named.insert (PtrGraph.find_none hfree)
    have hnew : ({ addr := g.next, data := d } : PtrGraph.Node RNode)
        ∈ (g.insert d).nodes :=
      List.mem_append_right _ (List.mem_singleton_self _)
    exact hins.connect hnew (List.mem_append_left _ hw) cap
  dtn := by
    intro m hm hk
    unfold Manager.addUplinked at hm
    rw [PtrGraph.connect_nodes] at hm
    obtain ⟨u, hu, rfl⟩ := List.mem_map.mp hm
    obtain hu | hu := List.mem_append.mp hu
    · obtain ⟨i, hi⟩ := hg.dtn u hu hk
      exact ⟨i, (outs_addUplinked hg hu).trans hi⟩
    · obtain rfl := List.mem_singleton.mp hu
      exact ⟨g.next + 1, if_pos rfl⟩
  storage := by
    intro m hm hk e he hsrc
    have hkeep : ∀ k ∈ g.nodes,
        k.joined (g.next + 1) g.next w.addr
          ∈ (Manager.addUplinked g d w.addr cap).nodes := by
      intro k hk
      unfold Manager.addUplinked
      rw [PtrGraph.connect_nodes]
      exact List.mem_map_of_mem (List.mem_append_left _ hk)
    unfold Manager.addUplinked at hm
    rw [PtrGraph.connect_nodes] at hm
    obtain ⟨u, hu, rfl⟩ := List.mem_map.mp hm
    obtain hu | hu := List.mem_append.mp hu
    · obtain he | he := List.mem_append.mp he
      · obtain ⟨k, hmem, hdst, hkk⟩ := hg.storage u hu hk e he hsrc
        exact ⟨_, hkeep k hmem, hdst, hkk⟩
      · obtain rfl := List.mem_singleton.mp he
        exact absurd hsrc.symm (hg.named.sound.addr_lt u hu).ne
    · obtain rfl := List.mem_singleton.mp hu
      exact absurd (hkind.symm.trans hk) (by decide)

/-- A DTN on its own changes nothing. -/
theorem Probed.noWorse_addUplinked (h : Probed s storage n hops)
    (hg : Uplinked s.graph) {d : RNode} (hkind : d.kind = .dtn)
    (hfree : RGraph.find s.graph d.nodeName = none) (w : Nat)
    (cap rate : Rat) :
    NoWorse ((s.withGraph (addUplinked s.graph d w cap)).probePathRate
        storage rate) (s.probePathRate storage rate)
      ∧ RGraph.find (addUplinked s.graph d w cap) (.storage, storage)
        = some (n.joined (s.graph.next + 1) s.graph.next w) := by
  obtain ⟨hmem, -⟩ := PtrGraph.find_some h.node
  have hfind : RGraph.find (addUplinked s.graph d w cap) (.storage, storage)
      = some (n.joined (s.graph.next + 1) s.graph.next w) := by
    have hne : ((.storage, storage) : NodeName) ≠ d.nodeName := by
      intro heq
      have hk : NodeKind.storage = d.kind := congrArg Prod.fst heq
      rw [hkind] at hk
      cases hk
    have hfound := h.node
    unfold RGraph.find at hfound hfree ⊢
    unfold addUplinked
    rw [PtrGraph.find_connect, PtrGraph.find_insert hfree, if_neg hne, hfound,
      Option.map_some]
    rfl
  refine ⟨?_, hfind⟩
  refine h.noWorse_graph [] [] hfind (le_refl _) rfl ?_ .nil ?_ rate
  · rw [List.append_nil]
    exact outs_addUplinked hg hmem
  · have hedge : ∀ {k e}, s.graph.edge? k = some e →
        (addUplinked s.graph d w cap).edge? k = some e := by
      intro k e he
      have hins : (s.graph.insert d).edge? k = some e := he
      exact PtrGraph.edge?_connect hins _ _ _
    intro i p hp
    obtain ⟨j, houts, hdg⟩ := hp.dg
    have hdtn := (PtrGraph.node?_some hp.dtn).1
    refine ⟨⟨p.sd, p.dtn.joined (s.graph.next + 1) s.graph.next w, p.dg⟩,
      ⟨hedge hp.sd, ?_, hp.kind, j, ?_, hedge hdg⟩, Wider.refl _,
      Wider.refl _⟩
    · unfold addUplinked
      rw [PtrGraph.node?_connect, PtrGraph.node?_insert hp.dtn,
        Option.map_some]
      rfl
    · exact (outs_addUplinked hg hdtn).trans houts

/-- Answers that are no worse, in a row. -/
theorem NoWorse.trans {x y z : Except String Nat} (h : NoWorse x y)
    (h' : NoWorse y z) : NoWorse x z := by
  obtain ⟨a, b, hx, hy, hab⟩ := h
  obtain ⟨b', c, hy', hz, hbc⟩ := h'
  rw [hy] at hy'
  injection hy' with heq
  exact ⟨a, c, hx, hz, hab.trans (heq ▸ hbc)⟩

/-- A storage linked to a DTN. -/
theorem Uplinked.connect (hg : Uplinked g) {n d : PtrGraph.Node RNode}
    (hn : n ∈ g.nodes) (hk : n.data.kind = .storage) (hd : d ∈ g.nodes)
    (hkind : d.data.kind = .dtn) (cap : Rat) :
    Uplinked (g.connect n.addr d.addr cap) where
  named := hg.named.connect hn hd cap
  dtn := by
    intro m hm hkm
    rw [PtrGraph.connect_nodes] at hm
    obtain ⟨u, hu, rfl⟩ := List.mem_map.mp hm
    obtain ⟨i, hi⟩ := hg.dtn u hu hkm
    have hne : u.addr ≠ n.addr := by
      intro ha
      have heq := hg.named.sound.node_unique hu hn ha
      have hku : u.data.kind = .dtn := hkm
      rw [heq, hk] at hku
      cases hku
    exact ⟨i, (if_neg hne).trans hi⟩
  storage := by
    intro m hm hkm e he hsrc
    have hkeep : ∀ k ∈ g.nodes, k.joined g.next n.addr d.addr
        ∈ (g.connect n.addr d.addr cap).nodes := by
      intro k hk
      rw [PtrGraph.connect_nodes]
      exact List.mem_map_of_mem hk
    rw [PtrGraph.connect_nodes] at hm
    obtain ⟨u, hu, rfl⟩ := List.mem_map.mp hm
    obtain he | he := List.mem_append.mp he
    · obtain ⟨k, hmem, hdst, hkk⟩ := hg.storage u hu hkm e he hsrc
      exact ⟨_, hkeep k hmem, hdst, hkk⟩
    · obtain rfl := List.mem_singleton.mp he
      exact ⟨_, hkeep d hd, rfl, hkind⟩

-- ============================================================ the result

/-- The code of a probe does not decrease with the rate, and it does not
increase when a job is suspended, when the capacity of an edge or of a
node is raised, or when the storage is linked to a further DTN, one of the
graph or a new one. -/
theorem probe_monotone (s : Manager) (hg : Uplinked s.graph)
    (hr : NonNeg s) (storage : String) (n : PtrGraph.Node RNode)
    (hn : RGraph.find s.graph (.storage, storage) = some n) :
    (∀ rate rate', rate ≤ rate' → NoWorse (s.probePathRate storage rate)
      (s.probePathRate storage rate'))
    ∧ (∀ id state rate, state ≠ .running →
      NoWorse ((s.suspend id state).probePathRate storage rate)
        (s.probePathRate storage rate))
    ∧ (∀ i c rate, 0 ≤ c →
      NoWorse ((s.withGraph (raiseEdge i c s.graph)).probePathRate storage
        rate) (s.probePathRate storage rate))
    ∧ (∀ a c rate, 0 ≤ c →
      NoWorse ((s.withGraph (raiseNode a c s.graph)).probePathRate storage
        rate) (s.probePathRate storage rate))
    ∧ (∀ d ∈ s.graph.nodes, d.data.kind = .dtn → ∀ cap rate,
      NoWorse ((s.withGraph (s.graph.connect n.addr d.addr cap)).probePathRate
        storage rate) (s.probePathRate storage rate))
    ∧ ∀ d : RNode, d.kind = .dtn → RGraph.find s.graph d.nodeName = none →
      ∀ w ∈ s.graph.nodes, ∀ dgCap sdCap rate,
      NoWorse ((s.withGraph ((addUplinked s.graph d w.addr dgCap).connect
          n.addr s.graph.next sdCap)).probePathRate storage rate)
        (s.probePathRate storage rate) := by
  obtain ⟨hops, h⟩ := hg.probed hn
  refine ⟨?_, ?_, ?_, ?_, ?_, ?_⟩
  · intro rate rate' hle
    exact h.noWorse_rate hle
  · intro id state rate hst
    exact h.noWorse_suspend hr hst rate
  · intro i c rate hc
    exact h.noWorse_raiseEdge i hc rate
  · intro a c rate hc
    exact h.noWorse_raiseNode a hc rate
  · intro d hd hkind cap rate
    exact h.noWorse_connect hg hd hkind cap rate
  · intro d hkind hfree w hw dgCap sdCap rate
    obtain ⟨halone, hn'⟩ :=
      h.noWorse_addUplinked hg hkind hfree w.addr dgCap rate
    have hg' := hg.addUplinked hkind hfree hw dgCap
    obtain ⟨hops', h'⟩ := Uplinked.probed
      (s := s.withGraph (addUplinked s.graph d w.addr dgCap)) hg' hn'
    have hlinked := h'.noWorse_connect hg'
      (newDtn_mem s.graph d w.addr dgCap) hkind sdCap rate
    exact hlinked.trans halone

/-- A storage, linked to both DTNs. -/
def diskNode : PtrGraph.Node RNode where
  addr := 1
  outs := [5, 7]
  data := { kind := .storage, key := "disk", rid := "disk", name := "disk",
            cap := 10000 }

/-- A disk with two DTNs; the edges have capacity 2000. -/
def twoDtns : RGraph where
  nodes :=
    [{ addr := 0, data := RGraph.gatewayNode, ins := [4, 6] },
     diskNode,
     { addr := 2, ins := [5], outs := [4],
       data := { kind := .dtn, key := "d1", rid := "d1", name := "d1" } },
     { addr := 3, ins := [7], outs := [6],
       data := { kind := .dtn, key := "d2", rid := "d2", name := "d2" } }]
  edges := [⟨4, 2, 0, 2000⟩, ⟨5, 1, 2, 2000⟩, ⟨6, 3, 0, 2000⟩, ⟨7, 1, 3, 2000⟩]
  next := 8

/-- The sample site is uplinked. -/
theorem twoDtns_uplinked : Uplinked twoDtns where
  named := ⟨by constructor <;> decide, by decide⟩
  dtn := by
    have hlen : ∀ n ∈ twoDtns.nodes, n.data.kind = .dtn →
        n.outs.length = 1 := by decide
    intro n hn hk
    exact List.length_eq_one_iff.mp (hlen n hn hk)
  storage := by decide

/-- An extra job from the disk over the first DTN, and a base job from
elsewhere over the second. -/
def busyDtns : Manager where
  graph := twoDtns
  jm :=
    { basicJobs := [⟨"extra", .extra, .running, 1500⟩,
        ⟨"base", .base, .running, 1000⟩]
      distinct := by decide }
  nodeJobs a := if a ≤ 2 then ["extra"] else ["base"]
  edgeJobs i := if i ≤ 5 then ["extra"] else if i = 6 then ["base"] else []

/-- Its jobs have no negative rates. -/
theorem busyDtns_nonNeg : NonNeg busyDtns := by
  intro job hjob
  rcases List.mem_cons.mp hjob with rfl | hjob
  · decide
  · rw [List.mem_singleton.mp hjob]
    decide

/-- There is room for 1500 if the extra job is suspended, or if the second
DTN gets 1000 more. -/
theorem probe_monotone_two_dtns :
    busyDtns.probePathRate "disk" 1500 = .ok 2
      ∧ NoWorse (busyDtns.probePathRate "disk" 1500)
        (busyDtns.probePathRate "disk" 5000)
      ∧ NoWorse ((busyDtns.suspend "extra" .markedForPrealloc).probePathRate
          "disk" 1500) (busyDtns.probePathRate "disk" 1500)
      ∧ (busyDtns.suspend "extra" .markedForPrealloc).probePathRate "disk" 1500
        = .ok 1
      ∧ NoWorse ((busyDtns.withGraph
          (raiseEdge 6 1000 twoDtns)).probePathRate "disk" 1500)
        (busyDtns.probePathRate "disk" 1500)
      ∧ (busyDtns.withGraph (raiseEdge 6 1000 twoDtns)).probePathRate
          "disk" 1500 = .ok 1 := by
  obtain ⟨hrate, hsuspend, hedge, -⟩ := probe_monotone busyDtns
    twoDtns_uplinked busyDtns_nonNeg "disk" _ rfl
  refine ⟨?_, hrate 1500 5000 (by decide), hsuspend _ _ _ (by decide), ?_,
    hedge 6 1000 1500 (by decide), ?_⟩
  · exact Stateful.toOption_eq_some (by decide +kernel)
  · exact Stateful.toOption_eq_some (by decide +kernel)
  · exact Stateful.toOption_eq_some (by decide +kernel)

end Manager

end BigDataExpress
