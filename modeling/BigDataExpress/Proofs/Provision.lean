/-
How `query_path_dtns` makes room for a rate and divides it.

# The suspension loop

Its condition assigns the outcome of a comparison, so the test for code 3
inside never succeeds: the loop probes, and as long as the code is not 1
it suspends the largest running extra job of the storage, until there is
none. `Suspends` is a run of it. A job that was marked does not run any
more, so every turn takes one job from the running extra jobs of the
storage and the loop ends (`suspension_loop`).

# Where provisioning and probe differ

Only jobs of the storage itself are suspended, while code 2 supposes that
all extra jobs on its edges could be; and for the codes 3 and 4 jobs are
suspended too (`admission_agrees_iff`).

# The division

The edges are taken in their order, each up to what is free of it. When
the rest of the rate is exactly what a path offers, and another usable
path comes after it, a share of 0 is given out (`provision_feasible_iff`).
-/
import BigDataExpress.Proofs.Probe

namespace BigDataExpress

-- ======================================================== the largest job

/-- Where the loop of `find_largest_re_job` ends. -/
theorem foldl_largerRe (l : List BaseJob) (acc : Rat × Option BaseJob) :
    (l.foldl largerRe acc = acc
      ∧ ∀ k ∈ l, k.runs .extra = true → k.rate ≤ acc.1)
    ∨ ∃ job ∈ l, job.runs .extra = true
      ∧ l.foldl largerRe acc = (job.rate, some job) ∧ acc.1 < job.rate
      ∧ ∀ k ∈ l, k.runs .extra = true → k.rate ≤ job.rate := by
  induction l generalizing acc with
  | nil => exact .inl ⟨rfl, fun k hk => absurd hk List.not_mem_nil⟩
  | cons job l ih =>
      rw [List.foldl_cons]
      by_cases htake : job.group = .extra ∧ job.state = .running
          ∧ job.rate > acc.1
      · have hruns : job.runs .extra = true := by
          simp [BaseJob.runs, htake.1, htake.2.1]
        have hacc : largerRe acc job = (job.rate, some job) := if_pos htake
        rw [hacc]
        right
        obtain ⟨hsame, hmax⟩ | ⟨j, hj, hjruns, hres, hlt, hmax⟩ :=
          ih (job.rate, some job)
        · refine ⟨job, List.mem_cons_self .., hruns, hsame, htake.2.2, ?_⟩
          intro k hk hkr
          obtain heq | hk := List.mem_cons.mp hk
          · rw [heq]
          · exact hmax k hk hkr
        · refine ⟨j, List.mem_cons_of_mem job hj, hjruns, hres,
            lt_trans htake.2.2 hlt, ?_⟩
          intro k hk hkr
          obtain heq | hk := List.mem_cons.mp hk
          · rw [heq]
            exact hlt.le
          · exact hmax k hk hkr
      · have hacc : largerRe acc job = acc := if_neg htake
        have hle : job.runs .extra = true → job.rate ≤ acc.1 := by
          intro hr
          have hr := of_decide_eq_true hr
          by_contra hgt
          exact htake ⟨hr.2, hr.1, not_le.mp hgt⟩
        rw [hacc]
        obtain ⟨hsame, hmax⟩ | ⟨j, hj, hjruns, hres, hlt, hmax⟩ := ih acc
        · refine .inl ⟨hsame, ?_⟩
          intro k hk hkr
          obtain heq | hk := List.mem_cons.mp hk
          · exact heq ▸ hle (heq ▸ hkr)
          · exact hmax k hk hkr
        · refine .inr ⟨j, List.mem_cons_of_mem job hj, hjruns, hres, hlt, ?_⟩
          intro k hk hkr
          obtain heq | hk := List.mem_cons.mp hk
          · exact heq ▸ (hle (heq ▸ hkr)).trans hlt.le
          · exact hmax k hk hkr

/-- The largest running extra job is found, if there is one. -/
theorem findLargestReJob_cases {jobs : List BaseJob}
    (hpos : ∀ job ∈ jobs, 0 ≤ job.rate) :
    (∃ job ∈ jobs, findLargestReJob jobs = .ok job ∧ job.runs .extra = true
      ∧ ∀ k ∈ jobs, k.runs .extra = true → k.rate ≤ job.rate)
    ∨ (∃ e, findLargestReJob jobs = .error e)
      ∧ ∀ k ∈ jobs, k.runs .extra = false := by
  unfold findLargestReJob
  by_cases hlen : jobs.length = 0
  · rw [if_pos hlen, List.length_eq_zero_iff.mp hlen]
    exact .inr ⟨⟨_, rfl⟩, fun k hk => absurd hk List.not_mem_nil⟩
  · rw [if_neg hlen]
    obtain ⟨hsame, hmax⟩ | ⟨job, hjob, hruns, hres, -, hmax⟩ :=
      foldl_largerRe jobs (-1, none)
    · rw [hsame]
      refine .inr ⟨⟨_, rfl⟩, ?_⟩
      intro k hk
      by_contra hr
      have hle := hmax k hk (Bool.not_eq_false _ ▸ hr)
      have hnonneg := hpos k hk
      have : k.rate ≤ -1 := hle
      linarith
    · rw [hres]
      exact .inl ⟨job, hjob, rfl, hruns, hmax⟩

namespace Manager

-- ============================================================== the loop

/-- The running extra jobs on a node. -/
def extras (s : Manager) (n : PtrGraph.Node RNode) : List BaseJob :=
  (s.jobsAt n.addr).filter (BaseJob.runs .extra)

/-- Jobs suspended one after the other. -/
def markAll (l : List BaseJob) (s : Manager) : Manager :=
  l.foldl (fun s job => s.mark job) s

/-- A run of the suspension loop: the jobs it marks, how it ends, and the
site it leaves. -/
inductive Suspends (storage : String) (rate : Rat)
    (n : PtrGraph.Node RNode) :
    Manager → List BaseJob → Except String LoopEnd → Manager → Prop
  | failed {s : Manager} {e : String}
      (hp : s.probePathRate storage rate = .error e) :
      Suspends storage rate n s [] (.error e) s
  | enough {s : Manager} (hp : s.probePathRate storage rate = .ok 1) :
      Suspends storage rate n s [] (.ok .enough) s
  | noJobs {s : Manager} {c : Nat}
      (hp : s.probePathRate storage rate = .ok c) (hc : c ≠ 1)
      (ht : s.nodeJobs n.addr = []) :
      Suspends storage rate n s [] (.ok .noSpace) s
  | noExtra {s : Manager} {c : Nat} {e : String}
      (hp : s.probePathRate storage rate = .ok c) (hc : c ≠ 1)
      (ht : s.nodeJobs n.addr ≠ [])
      (hj : findLargestReJob (s.jobsAt n.addr) = .error e) :
      Suspends storage rate n s [] (.error e) s
  | mark {s s' : Manager} {c : Nat} {job : BaseJob} {l : List BaseJob}
      {o : Except String LoopEnd}
      (hp : s.probePathRate storage rate = .ok c) (hc : c ≠ 1)
      (ht : s.nodeJobs n.addr ≠ [])
      (hj : findLargestReJob (s.jobsAt n.addr) = .ok job)
      (h : Suspends storage rate n (s.mark job) l o s') :
      Suspends storage rate n s (job :: l) o s'

/-- What a run with enough turns returns. -/
def loopResult (o : Except String LoopEnd) (s : Manager) :
    EStateM.Result String Manager (Option LoopEnd) :=
  match o with
  | .ok r => .ok (some r) s
  | .error e => .error e s

section Loop

variable {storage : String} {rate : Rat} {n : PtrGraph.Node RNode}
  {s s' : Manager} {l : List BaseJob} {o : Except String LoopEnd}

theorem Suspends.run (h : Suspends storage rate n s l o s') (turns : Nat)
    (ht : l.length < turns) :
    suspendJobs storage n rate turns s = loopResult o s' := by
  induction h generalizing turns with
  | failed hp =>
      obtain ⟨t, rfl⟩ := Nat.exists_eq_succ_of_ne_zero (Nat.ne_zero_of_lt ht)
      rw [suspendJobs, read_bind_error hp]
      rfl
  | enough hp =>
      obtain ⟨t, rfl⟩ := Nat.exists_eq_succ_of_ne_zero (Nat.ne_zero_of_lt ht)
      rw [suspendJobs, read_bind_ok hp]
      rfl
  | noJobs hp hc hn =>
      obtain ⟨t, rfl⟩ := Nat.exists_eq_succ_of_ne_zero (Nat.ne_zero_of_lt ht)
      rw [suspendJobs, read_bind_ok hp, if_pos hc, if_neg Nat.one_ne_zero,
        if_neg (by decide), Stateful.get_bind_run, hn]
      rfl
  | noExtra hp hc hn hj =>
      obtain ⟨t, rfl⟩ := Nat.exists_eq_succ_of_ne_zero (Nat.ne_zero_of_lt ht)
      rw [suspendJobs, read_bind_ok hp, if_pos hc, if_neg Nat.one_ne_zero,
        if_neg (by decide), Stateful.get_bind_run,
        if_neg (by simpa using hn), read_bind_error hj]
      rfl
  | mark hp hc hn hj _ ih =>
      obtain ⟨t, rfl⟩ := Nat.exists_eq_succ_of_ne_zero (Nat.ne_zero_of_lt ht)
      rw [suspendJobs, read_bind_ok hp, if_pos hc, if_neg Nat.one_ne_zero,
        if_neg (by decide), Stateful.get_bind_run,
        if_neg (by simpa using hn), read_bind_ok hj]
      exact ih t (Nat.lt_of_succ_lt_succ ht)

-- ======================================================= what it marks

theorem mark_jobs (job : BaseJob) (table : List String) :
    (s.mark job).jobs table
      = (s.jobs table).map (BaseJob.into job.id .markedForPrealloc) :=
  jobs_suspend job.id .markedForPrealloc table

/-- A marked job does not run any more, and nothing else changes. -/
theorem extras_mark (job : BaseJob) :
    (s.mark job).extras n
      = (s.extras n).filter fun k => decide (k.id ≠ job.id) := by
  have hjobs : (s.mark job).jobsAt n.addr
      = (s.jobsAt n.addr).map (BaseJob.into job.id .markedForPrealloc) :=
    mark_jobs job _
  have hruns : BaseJob.runs .extra
        ∘ BaseJob.into job.id .markedForPrealloc
      = fun k => k.runs .extra && decide (k.id ≠ job.id) := by
    funext k
    exact BaseJob.into_runs (by decide) .extra k
  unfold extras
  rw [hjobs, List.filter_map, hruns, List.filter_filter]
  have hcomm : (fun k : BaseJob => k.runs .extra && decide (k.id ≠ job.id))
      = fun k => decide (k.id ≠ job.id) && k.runs .extra := by
    funext k
    exact Bool.and_comm _ _
  rw [hcomm]
  refine (List.map_congr_left ?_).trans (List.map_id _)
  intro k hk
  have hid := (Bool.and_eq_true_iff.mp (List.mem_filter.mp hk).2).1
  exact if_neg (of_decide_eq_true hid)

theorem mem_extras_mark {job k : BaseJob} (h : k ∈ (s.mark job).extras n) :
    k ∈ s.extras n ∧ k.id ≠ job.id := by
  rw [extras_mark] at h
  obtain ⟨hmem, hid⟩ := List.mem_filter.mp h
  exact ⟨hmem, of_decide_eq_true hid⟩

theorem length_extras_mark {job : BaseJob} (h : job ∈ s.extras n) :
    ((s.mark job).extras n).length < (s.extras n).length := by
  rw [extras_mark]
  apply List.length_filter_lt_length_iff_exists.mpr
  exact ⟨job, h, by simp⟩

theorem NonNeg.mark (h : NonNeg s) (job : BaseJob) : NonNeg (s.mark job) := by
  intro k hk
  obtain ⟨k', hk', rfl⟩ := List.mem_map.mp hk
  have hrate := h k' hk'
  split <;> exact hrate

theorem NonNeg.markAll (h : NonNeg s) (l : List BaseJob) :
    NonNeg (s.markAll l) := by
  induction l generalizing s with
  | nil => exact h
  | cons job l ih => exact ih (h.mark job)

/-- The job found is one of the running extra jobs, and none of them has a
greater rate. -/
theorem largest_extra (hr : NonNeg s) {job : BaseJob}
    (hj : findLargestReJob (s.jobsAt n.addr) = .ok job) :
    job ∈ s.extras n ∧ ∀ k ∈ s.extras n, k.rate ≤ job.rate := by
  obtain ⟨j, hmem, hfound, hruns, hmax⟩ | ⟨⟨e, he⟩, -⟩ :=
    findLargestReJob_cases (hr.jobs (s.nodeJobs n.addr))
  · have heq : j = job := by
      have h : Except.ok j = Except.ok job := hfound.symm.trans hj
      injection h
    subst heq
    refine ⟨List.mem_filter.mpr ⟨hmem, hruns⟩, ?_⟩
    intro k hk
    obtain ⟨hk, hkr⟩ := List.mem_filter.mp hk
    exact hmax k hk hkr
  · have h : Except.error e = Except.ok job := he.symm.trans hj
    cases h

/-- If none is found, there is none. -/
theorem no_extra (hr : NonNeg s) {e : String}
    (hj : findLargestReJob (s.jobsAt n.addr) = .error e) :
    s.extras n = [] := by
  obtain ⟨j, -, hfound, -⟩ | ⟨-, hnone⟩ :=
    findLargestReJob_cases (hr.jobs (s.nodeJobs n.addr))
  · have h : Except.ok j = Except.error e := hfound.symm.trans hj
    cases h
  · apply List.filter_eq_nil_iff.mpr
    intro k hk
    rw [hnone k hk]
    exact Bool.false_ne_true

/-- The loop always ends. -/
theorem suspends_exists (storage : String) (rate : Rat)
    (n : PtrGraph.Node RNode) (s : Manager) (hr : NonNeg s) :
    ∃ l o s', Suspends storage rate n s l o s'
      ∧ l.length ≤ (s.extras n).length := by
  induction hk : (s.extras n).length using Nat.strong_induction_on
    generalizing s with
  | _ k ih =>
      cases hp : s.probePathRate storage rate with
      | error e => exact ⟨[], _, s, .failed hp, Nat.zero_le _⟩
      | ok c =>
          by_cases hc : c = 1
          · subst hc
            exact ⟨[], _, s, .enough hp, Nat.zero_le _⟩
          · by_cases ht : s.nodeJobs n.addr = []
            · exact ⟨[], _, s, .noJobs hp hc ht, Nat.zero_le _⟩
            · cases hj : findLargestReJob (s.jobsAt n.addr) with
              | error e => exact ⟨[], _, s, .noExtra hp hc ht hj, Nat.zero_le _⟩
              | ok job =>
                  have hlt := length_extras_mark (largest_extra hr hj).1
                  obtain ⟨l, o, s', hrun, hlen⟩ :=
                    ih _ (hk ▸ hlt) (s.mark job) (hr.mark job) rfl
                  refine ⟨job :: l, o, s', .mark hp hc ht hj hrun, ?_⟩
                  rw [List.length_cons]
                  omega

/-- What is known of a run. -/
structure Suspended (storage : String) (rate : Rat)
    (n : PtrGraph.Node RNode) (s : Manager) (l : List BaseJob)
    (o : Except String LoopEnd) (s' : Manager) : Prop where
  final : s' = s.markAll l
  extra : ∀ job ∈ l, job ∈ s.extras n
  sorted : l.Pairwise fun a b => b.rate ≤ a.rate
  before : ∀ k < l.length,
    (s.markAll (l.take k)).probePathRate storage rate ≠ .ok 1
  ended : o = .ok .enough ↔ s'.probePathRate storage rate = .ok 1
  /-- without room no running extra job is left, or the probe failed -/
  spent : o ≠ .ok .enough → s'.extras n = []
    ∨ ∃ e, s'.probePathRate storage rate = .error e

theorem Suspends.spec (h : Suspends storage rate n s l o s')
    (hr : NonNeg s) : Suspended storage rate n s l o s' := by
  have hnil : ∀ {s : Manager}, ∀ k < ([] : List BaseJob).length,
      (s.markAll (([] : List BaseJob).take k)).probePathRate storage rate
        ≠ .ok 1 := fun k hk => absurd hk (Nat.not_lt_zero k)
  induction h with
  | failed hp =>
      refine ⟨rfl, fun _ h => absurd h List.not_mem_nil, .nil, hnil, ?_,
        fun _ => .inr ⟨_, hp⟩⟩
      rw [hp]
      exact ⟨fun h => (by cases h), fun h => (by cases h)⟩
  | enough hp =>
      exact ⟨rfl, fun _ h => absurd h List.not_mem_nil, .nil, hnil,
        ⟨fun _ => hp, fun _ => rfl⟩, fun h => absurd rfl h⟩
  | @noJobs s c hp hc ht =>
      refine ⟨rfl, fun _ h => absurd h List.not_mem_nil, .nil, hnil, ?_, ?_⟩
      · rw [hp]
        refine ⟨fun h => (by cases h), fun h => ?_⟩
        injection h with h
        exact absurd h hc
      · intro _
        left
        unfold extras jobsAt
        rw [ht]
        rfl
  | noExtra hp hc ht hj =>
      refine ⟨rfl, fun _ h => absurd h List.not_mem_nil, .nil, hnil, ?_,
        fun _ => .inl (no_extra hr hj)⟩
      rw [hp]
      refine ⟨fun h => (by cases h), fun h => ?_⟩
      injection h with h
      exact absurd h hc
  | @mark s s' c job l o hp hc ht hj _ ih =>
      obtain ⟨hfinal, hextra, hsorted, hbefore, hended, hspent⟩ :=
        ih (hr.mark job)
      obtain ⟨hmem, hmax⟩ := largest_extra hr hj
      refine ⟨hfinal, ?_, ?_, ?_, hended, hspent⟩
      · intro k hk
        obtain heq | hk := List.mem_cons.mp hk
        · exact heq ▸ hmem
        · exact (mem_extras_mark (hextra k hk)).1
      · refine .cons ?_ hsorted
        intro k hk
        exact hmax k (mem_extras_mark (hextra k hk)).1
      · intro k hk
        cases k with
        | zero =>
            show s.probePathRate storage rate ≠ .ok 1
            rw [hp]
            intro h
            injection h with h
            exact hc h
        | succ k => exact hbefore k (Nat.lt_of_succ_lt_succ hk)

-- ================================================= in memory and in store

/-- A job after those with some ids were marked. -/
def marked (ids : List String) (job : BaseJob) : BaseJob :=
  if job.id ∈ ids then { job with state := .markedForPrealloc } else job

/-- A stream after those jobs were marked. -/
def markedStream (ids : List String) (d : Stream) : Stream :=
  if d.guid ∈ ids then { d with state := .markedForPrealloc } else d

/-- The document of a job. -/
def streamOf (s : Manager) (id : String) : Option Stream :=
  s.streams.find? fun d => d.guid == id

/-- The job manager after jobs were marked. -/
def markIds (ids : List String) (jm : JobManager) : JobManager :=
  ids.foldl (fun jm id => jm.setState id .markedForPrealloc) jm

theorem markIds_basicJobs (ids : List String) (jm : JobManager) :
    (markIds ids jm).basicJobs = jm.basicJobs.map (marked ids) := by
  induction ids generalizing jm with
  | nil => exact (List.map_id _).symm
  | cons id ids ih =>
      show (markIds ids (jm.setState id .markedForPrealloc)).basicJobs = _
      rw [ih]
      show (jm.basicJobs.map (BaseJob.into id .markedForPrealloc)).map _ = _
      rw [List.map_map]
      apply List.map_congr_left
      intro job _
      simp only [Function.comp_apply, marked, BaseJob.into, List.mem_cons]
      by_cases hid : job.id = id
      · simp [hid]
      · simp [hid]

theorem markAll_jm (l : List BaseJob) :
    (s.markAll l).jm = markIds (l.map BaseJob.id) s.jm := by
  induction l generalizing s with
  | nil => rfl
  | cons job l ih => exact ih (s := s.mark job)

theorem markAll_find (l : List BaseJob) (x : String) :
    (s.markAll l).jm.find x
      = (s.jm.find x).map (marked (l.map BaseJob.id)) := by
  unfold JobManager.find
  rw [markAll_jm, markIds_basicJobs, List.find?_map]
  congr 2
  funext job
  simp only [Function.comp_apply, marked]
  split <;> rfl

theorem streamOf_mark (job : BaseJob) (x : String) :
    (s.mark job).streamOf x
      = (s.streamOf x).map (markedStream [job.id]) := by
  unfold streamOf Manager.mark updateStreamState
  by_cases hx : x = job.id
  · subst hx
    refine (Collection.find?_updateOne ?_ _).trans ?_
    · exact fun _ => rfl
    cases hd : s.streams.find? fun d => d.guid == job.id with
    | none => rfl
    | some d =>
        have hguid : d.guid = job.id := by simpa using List.find?_some hd
        simp [markedStream, hguid]
  · rw [Collection.find?_updateOne_other]
    · cases hd : s.streams.find? fun d => d.guid == x with
      | none => rfl
      | some d =>
          have hguid : d.guid = x := by simpa using List.find?_some hd
          simp [markedStream, hguid, hx]
    · intro d hd
      have hd : d.guid = job.id := by simpa using hd
      simpa [hd] using fun h => hx h.symm
    · intro d hd
      have hd : d.guid = job.id := by simpa using hd
      simpa [hd] using fun h => hx h.symm

theorem markAll_streamOf (l : List BaseJob) (x : String) :
    (s.markAll l).streamOf x
      = (s.streamOf x).map (markedStream (l.map BaseJob.id)) := by
  induction l generalizing s with
  | nil =>
      show s.streamOf x = _
      cases s.streamOf x <;> rfl
  | cons job l ih =>
      show ((s.mark job).markAll l).streamOf x = _
      rw [ih, streamOf_mark, Option.map_map]
      congr 1
      funext d
      unfold markedStream
      simp only [Function.comp_apply, List.map_cons, List.mem_cons,
        List.not_mem_nil, or_false]
      by_cases hd : d.guid = job.id
      · simp [hd]
      · simp [hd]

/-- The graph and the tables stay. -/
theorem markAll_frame (l : List BaseJob) :
    (s.markAll l).graph = s.graph ∧ (s.markAll l).nodeJobs = s.nodeJobs
      ∧ (s.markAll l).edgeJobs = s.edgeJobs := by
  induction l generalizing s with
  | nil => exact ⟨rfl, rfl, rfl⟩
  | cons job l ih => exact ih (s := s.mark job)

/-- A job that is no running extra job of the storage is not marked. -/
theorem not_marked (hextra : ∀ job ∈ l, job ∈ s.extras n) {job : BaseJob}
    (hjob : job ∈ s.jm.basicJobs)
    (hother : job.group = .base ∨ job ∉ s.jobsAt n.addr) :
    (s.markAll l).jm.find job.id = some job := by
  have hfind : s.jm.find job.id = some job :=
    Collection.find?_key BaseJob.id s.jm.distinct hjob
  have hid : job.id ∉ l.map BaseJob.id := by
    intro hmem
    obtain ⟨k, hk, hkid⟩ := List.mem_map.mp hmem
    obtain ⟨hk, hruns⟩ := List.mem_filter.mp (hextra k hk)
    -- ids are an identity: the marked job would be this one
    have heq : k = job := by
      obtain ⟨x, -, hx⟩ := List.mem_filterMap.mp hk
      have hkmem := List.mem_of_find?_eq_some hx
      exact List.inj_on_of_nodup_map s.jm.distinct hkmem hjob hkid
    subst heq
    obtain hbase | hnot := hother
    · have hextra := (of_decide_eq_true hruns).2
      rw [hbase] at hextra
      cases hextra
    · exact hnot hk
  rw [markAll_find, hfind]
  exact congrArg some (if_neg hid)

/-- The suspension loop ends after at most one turn more than the storage
has running extra jobs. It marks running extra jobs of the storage only,
the largest first, in memory and in the store, as long as the probe does
not return 1, and leaves everything else as it is. -/
theorem suspension_loop (s : Manager) (hr : NonNeg s) (storage : String)
    (n : PtrGraph.Node RNode) (rate : Rat) :
    ∃ (l : List BaseJob) (o : Except String LoopEnd),
      l.length ≤ (s.extras n).length
      ∧ (∀ turns, l.length < turns →
        suspendJobs storage n rate turns s = loopResult o (s.markAll l))
      ∧ (∀ job ∈ l, job ∈ s.extras n)
      ∧ l.Pairwise (fun a b => b.rate ≤ a.rate)
      ∧ (∀ x, (s.markAll l).jm.find x
        = (s.jm.find x).map (marked (l.map BaseJob.id)))
      ∧ (∀ x, (s.markAll l).streamOf x
        = (s.streamOf x).map (markedStream (l.map BaseJob.id)))
      ∧ (∀ job ∈ s.jm.basicJobs,
        job.group = .base ∨ job ∉ s.jobsAt n.addr →
          (s.markAll l).jm.find job.id = some job)
      ∧ (s.markAll l).graph = s.graph
      ∧ (∀ k < l.length,
        (s.markAll (l.take k)).probePathRate storage rate ≠ .ok 1)
      ∧ (o = .ok .enough
        ↔ (s.markAll l).probePathRate storage rate = .ok 1) := by
  obtain ⟨l, o, s', hrun, hlen⟩ := suspends_exists storage rate n s hr
  have hspec := hrun.spec hr
  obtain rfl := hspec.final
  exact ⟨l, o, hlen, hrun.run, hspec.extra, hspec.sorted, markAll_find l,
    markAll_streamOf l, fun job hjob => not_marked hspec.extra hjob,
    (markAll_frame l).1, hspec.before, hspec.ended⟩

/-- A disk with an extra job that takes most of it. -/
def busyDisk : Manager where
  graph := twoDtns
  jm := { basicJobs := [⟨"x", .extra, .running, 9000⟩]
          distinct := List.nodup_singleton _ }
  nodeJobs a := if a = 1 then ["x"] else []

theorem busyDisk_nonNeg : NonNeg busyDisk := by
  unfold NonNeg
  decide

/-- The job is suspended for a rate of 3000. -/
theorem suspension_loop_busy :
    ∃ (l : List BaseJob) (o : Except String LoopEnd),
      l.length ≤ (busyDisk.extras diskNode).length
      ∧ ∀ turns, l.length < turns →
        suspendJobs "disk" diskNode 3000 turns busyDisk
          = loopResult o (busyDisk.markAll l) := by
  obtain ⟨l, o, hlen, hrun, -⟩ :=
    suspension_loop busyDisk busyDisk_nonNeg "disk" diskNode 3000
  exact ⟨l, o, hlen, hrun⟩

-- =========================================================== the division

/-- What the fill loop gives out, from the DTNs and what their paths
offer. -/
def fill : List (String × Rat) → Rat → List (String × Rat)
  | [], _ => []
  | d :: l, remaining =>
      if d.2 < 1000 then fill l remaining
      else if d.2 > remaining then [(d.1, remaining)]
      else d :: fill l (remaining - d.2)

/-- The DTN of a path, and what is free of its two edges. -/
def offer (s : Manager) (p : Hop) : String × Rat :=
  (p.dtn.data.rid, min (s.linkRate p.sd) (s.linkRate p.dg))

theorem fillDtns_hops {outs : List Nat} {hops : List Hop}
    (h : List.Forall₂ (fun i p => Hop.On s.graph i p) outs hops)
    (remaining : Rat) :
    fillDtns s outs remaining = .ok (fill (hops.map s.offer) remaining) := by
  induction h generalizing remaining with
  | nil => rfl
  | @cons i p outs hops hp _ ih =>
      obtain ⟨j, houts, hdg⟩ := hp.dg
      have hsd : s.edgeAt i = .ok p.sd := by
        unfold edgeAt
        rw [hp.sd]
      have hdtn : s.dstNode p.sd = .ok p.dtn := by
        unfold dstNode
        rw [hp.dtn]
      have hdg' : s.edgeAt j = .ok p.dg := by
        unfold edgeAt
        rw [hdg]
      unfold fillDtns
      simp only [hsd, hdtn, houts, hdg', bind, Except.bind, ih, pure,
        Except.pure, List.map_cons, fill]
      have hoffer : (s.offer p).2 = min (availableRate p.sd.data
          (s.jobsOn p.sd.rid)) (availableRate p.dg.data (s.jobsOn p.dg.rid)) :=
        rfl
      rw [hoffer]
      split_ifs <;> rfl

/-- The shares add up to the rate, if the paths offer more than that. -/
theorem sum_fill {l : List (String × Rat)} {remaining : Rat}
    (hpos : 0 ≤ remaining)
    (h : remaining < (l.map fun d => cutOff d.2).sum) :
    ((fill l remaining).map Prod.snd).sum = remaining := by
  induction l generalizing remaining with
  | nil => exact absurd hpos (not_le.mpr h)
  | cons d l ih =>
      rw [List.map_cons, List.sum_cons] at h
      unfold fill
      by_cases h1 : d.2 < 1000
      · have hcut : cutOff d.2 = 0 := if_pos h1
        rw [if_pos h1]
        rw [hcut, zero_add] at h
        exact ih hpos h
      · have hcut : cutOff d.2 = d.2 := if_neg h1
        rw [if_neg h1]
        rw [hcut] at h
        by_cases h2 : d.2 > remaining
        · rw [if_pos h2]
          exact add_zero remaining
        · rw [if_neg h2, List.map_cons, List.sum_cons,
            ih (by linarith) (by linarith)]
          linarith

-- ============================================================= the query

variable {hops : List Hop}

/-- What a query returns, by the end of its first loop. -/
def queryResult (o : Except String LoopEnd) (s : Manager)
    (dtns : List (String × Rat)) :
    EStateM.Result String Manager (Option (List (String × Rat))) :=
  match o with
  | .error e => .error e s
  | .ok .noSpace => .ok (some []) s
  | .ok .enough => .ok (some dtns) s

theorem Suspends.query (h : Suspends storage rate n s l o s')
    (hp : Probed s' storage n hops)
    (hn : RGraph.find s.graph (.storage, storage) = some n) (turns : Nat)
    (ht : l.length < turns) :
    queryPathDtns turns storage rate s
      = queryResult o s' (fill (hops.map s'.offer) rate) := by
  have hrun := h.run turns ht
  unfold queryPathDtns
  rw [read_bind_ok (look_getStorageNode hn)]
  show EStateM.bind (suspendJobs storage n rate turns) _ s = _
  unfold EStateM.bind
  rw [hrun]
  cases o with
  | error e => rfl
  | ok r =>
      cases r with
      | noSpace => rfl
      | enough =>
          show (Manage.read (fun s => fillDtns s n.outs rate) >>= _) s' = _
          rw [read_bind_ok (fillDtns_hops hp.hops rate)]
          rfl

-- ============================================ without the extra jobs

/-- The site with jobs marked in memory. -/
def suspendAll (ids : List String) (s : Manager) : Manager :=
  { s with jm := markIds ids s.jm }

/-- The jobs of a manager decide what it is. -/
theorem jm_ext {jm jm' : JobManager} (h : jm.basicJobs = jm'.basicJobs) :
    jm = jm' := by
  cases jm
  cases jm'
  cases h
  rfl

/-- Marking a part of the jobs first makes no difference. -/
theorem markIds_markIds {ids ids' : List String} (h : ids ⊆ ids')
    (jm : JobManager) : markIds ids' (markIds ids jm) = markIds ids' jm := by
  apply jm_ext
  rw [markIds_basicJobs, markIds_basicJobs, markIds_basicJobs, List.map_map]
  apply List.map_congr_left
  intro job _
  simp only [Function.comp_apply, marked]
  by_cases hid : job.id ∈ ids
  · simp [hid, h hid]
  · simp [hid]

/-- A probe reads the graph, the tables and the jobs. -/
theorem Probed.congr {t : Manager} (h : Probed s storage n hops)
    (hg : t.graph = s.graph) (hj : t.jm = s.jm)
    (hn : t.nodeJobs = s.nodeJobs) (he : t.edgeJobs = s.edgeJobs)
    (rate : Rat) :
    t.probePathRate storage rate = s.probePathRate storage rate := by
  have ht : Probed t storage n hops := by
    constructor
    · rw [hg]
      exact h.node
    · rw [hg]
      exact h.hops
  have hat : ∀ a, t.jobsAt a = s.jobsAt a := by
    intro a
    unfold jobsAt jobs
    rw [hn, hj]
  have hon : ∀ i, t.jobsOn i = s.jobsOn i := by
    intro i
    unfold jobsOn jobs
    rw [he, hj]
  have hrate : t.hopRate = s.hopRate := by
    funext p
    unfold hopRate linkRate
    rw [hon, hon]
  have hextra : t.hopRateExtra = s.hopRateExtra := by
    funext p
    unfold hopRateExtra linkRateExtra
    rw [hon, hon]
  rw [ht.probe, h.probe, hrate, hextra, hat]

theorem Probed.markAll (h : Probed s storage n hops) (l : List BaseJob) :
    Probed (s.markAll l) storage n hops := by
  obtain ⟨hnode, hhops⟩ := h
  constructor
  · rw [(markAll_frame l).1]
    exact hnode
  · rw [(markAll_frame l).1]
    exact hhops

theorem noWorse_suspendAll (h : Probed s storage n hops) (hr : NonNeg s)
    (ids : List String) :
    NoWorse ((s.suspendAll ids).probePathRate storage rate)
      (s.probePathRate storage rate) := by
  induction ids generalizing s with
  | nil => exact h.noWorse_rate (le_refl rate)
  | cons id ids ih =>
      have hr' : NonNeg (s.suspend id .markedForPrealloc) :=
        hr.mark ⟨id, .extra, .running, 0⟩
      have hrest := ih (h.suspend id .markedForPrealloc) hr'
      exact hrest.trans (h.noWorse_suspend hr (by decide) rate)

theorem extras_markAll (l : List BaseJob) :
    (s.markAll l).extras n
      = (s.extras n).filter fun k => decide (k.id ∉ l.map BaseJob.id) := by
  induction l generalizing s with
  | nil =>
      symm
      apply List.filter_eq_self.mpr
      intro k _
      simp
  | cons job l ih =>
      show ((s.mark job).markAll l).extras n = _
      rw [ih, extras_mark, List.filter_filter]
      apply List.filter_congr
      intro k _
      simp [not_or, Bool.and_comm]

/-- The probe without all running extra jobs of the storage, when the loop
has left none. -/
theorem probe_spent (h : Probed s storage n hops)
    (hextra : ∀ job ∈ l, job ∈ s.extras n)
    (hspent : (s.markAll l).extras n = []) (rate : Rat) :
    (s.suspendAll ((s.extras n).map BaseJob.id)).probePathRate storage rate
      = (s.markAll l).probePathRate storage rate := by
  obtain ⟨hg, hn, he⟩ := markAll_frame (s := s) l
  have hsus : Probed (s.suspendAll ((s.extras n).map BaseJob.id)) storage n
      hops := ⟨h.node, h.hops⟩
  refine (hsus.congr hg ?_ hn he rate).symm
  have hsub : l.map BaseJob.id ⊆ (s.extras n).map BaseJob.id :=
    List.map_subset _ hextra
  have hall : (s.extras n).map BaseJob.id ⊆ l.map BaseJob.id := by
    intro x hx
    obtain ⟨k, hk, rfl⟩ := List.mem_map.mp hx
    by_contra hnot
    have hmem : k ∈ (s.markAll l).extras n := by
      rw [extras_markAll]
      exact List.mem_filter.mpr ⟨hk, decide_eq_true hnot⟩
    rw [hspent] at hmem
    cases hmem
  show (s.markAll l).jm = markIds ((s.extras n).map BaseJob.id) s.jm
  apply jm_ext
  rw [markAll_jm, markIds_basicJobs, markIds_basicJobs]
  apply List.map_congr_left
  intro job _
  unfold marked
  by_cases hid : job.id ∈ l.map BaseJob.id
  · rw [if_pos hid, if_pos (hsub hid)]
  · rw [if_neg hid, if_neg fun h => hid (hall h)]

-- ========================================================== the admission

/-- A code is 1 at least. -/
theorem Probed.one_le (h : Probed s storage n hops) {c : Nat}
    (hc : s.probePathRate storage rate = .ok c) : 1 ≤ c := by
  rw [h.probe] at hc
  injection hc with hc
  have hrange := probeStorage_range n.data.cap (sumRe (s.jobsAt n.addr))
    (sumRb (s.jobsAt n.addr)) rate
  rw [← hc]
  exact hrange.1.trans (le_max_left _ _)

/-- With code 1 the paths offer more than the rate. -/
theorem Probed.rate_lt (h : Probed s storage n hops)
    (hc : s.probePathRate storage rate = .ok 1) :
    rate < ((hops.map s.offer).map fun d => cutOff d.2).sum := by
  rw [h.probe] at hc
  injection hc with hc
  have hle := le_max_right (probeStorage n.data.cap
    (sumRe (s.jobsAt n.addr)) (sumRb (s.jobsAt n.addr)) rate)
    (probeEdges (hops.map s.hopRate).sum (hops.map s.hopRateExtra).sum rate)
  rw [hc] at hle
  rw [List.map_map]
  show rate < (hops.map s.hopRate).sum
  by_contra hnot
  unfold probeEdges at hle
  rw [if_neg hnot] at hle
  split_ifs at hle <;> omega

/-- The loop makes room if and only if there is room without all running
extra jobs of the storage. -/
theorem Suspended.enough_iff (h : Suspended storage rate n s l o s')
    (hp : Probed s storage n hops) (hr : NonNeg s) :
    o = .ok .enough
      ↔ (s.suspendAll ((s.extras n).map BaseJob.id)).probePathRate storage
          rate = .ok 1 := by
  obtain rfl := h.final
  have hp' := hp.markAll l
  rw [h.ended]
  constructor
  · intro hone
    -- suspending the others as well does not spoil it
    obtain ⟨a, b, ha, hb, hab⟩ : NoWorse (((s.markAll l).suspendAll
        ((s.extras n).map BaseJob.id)).probePathRate storage rate)
        ((s.markAll l).probePathRate storage rate) :=
      noWorse_suspendAll hp' (NonNeg.markAll hr l) _
    have hsub : l.map BaseJob.id ⊆ (s.extras n).map BaseJob.id :=
      List.map_subset _ h.extra
    have hsus : Probed (s.suspendAll ((s.extras n).map BaseJob.id)) storage n
        hops := ⟨hp.node, hp.hops⟩
    obtain ⟨hg, hn, he⟩ := markAll_frame (s := s) l
    have hjm : ((s.markAll l).suspendAll ((s.extras n).map BaseJob.id)).jm
        = (s.suspendAll ((s.extras n).map BaseJob.id)).jm := by
      show markIds _ (s.markAll l).jm = markIds _ s.jm
      rw [markAll_jm, markIds_markIds hsub]
    have hsame := hsus.congr (t := (s.markAll l).suspendAll _) hg hjm hn he
      rate
    rw [hone] at hb
    injection hb with hb
    rw [hsame] at ha
    have hle := hsus.one_le ha
    have heq : a = 1 := by omega
    rw [ha, heq]
  · intro hone
    by_contra hnot
    obtain hspent | ⟨e, he⟩ := h.spent fun hend => hnot (h.ended.mp hend)
    · rw [probe_spent hp h.extra hspent] at hone
      exact hnot hone
    · rw [hp'.probe] at he
      cases he

/-- Provisioning does what the probe announced: with code 1 or 2 it
returns shares that add up to the rate, with code 3 or 4 it returns none
and changes nothing. The bound on the turns is one the loop does not
reach. -/
def Agrees (s : Manager) (storage : String) (n : PtrGraph.Node RNode)
    (rate : Rat) : Prop :=
  ∀ turns, (s.extras n).length < turns →
    (s.probePathRate storage rate = .ok 1
        ∨ s.probePathRate storage rate = .ok 2 →
      ∃ dtns s', queryPathDtns turns storage rate s = .ok (some dtns) s'
        ∧ (dtns.map Prod.snd).sum = rate)
    ∧ (s.probePathRate storage rate = .ok 3
        ∨ s.probePathRate storage rate = .ok 4 →
      queryPathDtns turns storage rate s = .ok (some []) s)

/-- Shares that add up to a rate are given out after the loop has made
room only. -/
theorem queryResult_enough {dtns dtns' : List (String × Rat)}
    (hrate : 0 < rate)
    (h : queryResult o s dtns = .ok (some dtns') s')
    (hsum : (dtns'.map Prod.snd).sum = rate) : o = .ok .enough := by
  cases o with
  | error e => cases h
  | ok r =>
      cases r with
      | enough => rfl
      | noSpace =>
          injection h with h
          injection h with h
          rw [← h] at hsum
          exact absurd hsum hrate.ne

/-- When the rate is refused and nothing is changed, there was no job. -/
theorem Suspends.no_jobs (h : Suspends storage rate n s l o s')
    (hr : NonNeg s) (hp : Probed s storage n hops)
    (hcode : s.probePathRate storage rate ≠ .ok 1)
    {dtns : List (String × Rat)}
    (hres : queryResult o s' dtns = .ok (some []) s) :
    s.nodeJobs n.addr = [] := by
  have hfinal := (h.spec hr).final
  cases h with
  | failed herr =>
      rw [hp.probe] at herr
      cases herr
  | enough hone => exact absurd hone hcode
  | noJobs _ _ ht => exact ht
  | noExtra => cases hres
  | @mark _ _ _ job l _ _ _ _ hj _ =>
      have hsame : s' = s := by
        cases o with
        | error e => cases hres
        | ok r => cases r <;> (injection hres)
      -- the marked job would still be running
      have hmem := (largest_extra hr hj).1
      rw [← hsame, hfinal, extras_markAll] at hmem
      have hnot := of_decide_eq_true (List.mem_filter.mp hmem).2
      exact absurd (List.mem_cons_self ..) hnot

/-- Probe and provisioning agree if and only if, for a code of 1 or 2, the
code is 1 once all running extra jobs of the storage are suspended, and,
for a code of 3 or 4, there is no job on the storage. -/
theorem admission_agrees_iff (s : Manager) (hg : Uplinked s.graph)
    (hr : NonNeg s) (storage : String) (n : PtrGraph.Node RNode)
    (hn : RGraph.find s.graph (.storage, storage) = some n) (rate : Rat)
    (hrate : 0 < rate) :
    Agrees s storage n rate
      ↔ (s.probePathRate storage rate = .ok 1
            ∨ s.probePathRate storage rate = .ok 2 →
          (s.suspendAll ((s.extras n).map BaseJob.id)).probePathRate storage
            rate = .ok 1)
        ∧ (s.probePathRate storage rate = .ok 3
            ∨ s.probePathRate storage rate = .ok 4 →
          s.nodeJobs n.addr = []) := by
  obtain ⟨hops, hp⟩ := hg.probed hn
  obtain ⟨l, o, s', hrun, hlen⟩ := suspends_exists storage rate n s hr
  have hspec := hrun.spec hr
  have hp' : Probed s' storage n hops := hspec.final ▸ hp.markAll l
  have hquery : ∀ turns, (s.extras n).length < turns →
      queryPathDtns turns storage rate s
        = queryResult o s' (fill (hops.map s'.offer) rate) :=
    fun turns ht => hrun.query hp' hn turns (lt_of_le_of_lt hlen ht)
  constructor
  · intro hagrees
    obtain ⟨hroom, hreject⟩ := hagrees _ (Nat.lt_succ_self _)
    rw [hquery _ (Nat.lt_succ_self _)] at hroom hreject
    constructor
    · intro hcode
      obtain ⟨dtns, t, hres, hsum⟩ := hroom hcode
      exact (hspec.enough_iff hp hr).mp (queryResult_enough hrate hres hsum)
    · intro hcode
      have hnot : s.probePathRate storage rate ≠ .ok 1 := by
        intro hone
        rw [hone] at hcode
        obtain h | h := hcode <;> (injection h with h; omega)
      exact hrun.no_jobs hr hp hnot (hreject hcode)
  · intro ⟨hroom, hreject⟩ turns ht
    constructor
    · intro hcode
      have hend := (hspec.enough_iff hp hr).mpr (hroom hcode)
      refine ⟨_, s', ?_, sum_fill hrate.le (hp'.rate_lt (hspec.ended.mp hend))⟩
      rw [hquery turns ht, hend]
      rfl
    · intro hcode
      have hempty := hreject hcode
      obtain ⟨c, hc, hne⟩ : ∃ c, s.probePathRate storage rate = .ok c
          ∧ c ≠ 1 := by
        obtain h | h := hcode
        · exact ⟨3, h, by decide⟩
        · exact ⟨4, h, by decide⟩
      exact (Suspends.noJobs hc hne hempty).query hp hn turns
        (Nat.zero_lt_of_lt ht)

/-- A disk with a base job that takes most of it. -/
def fullDisk : Manager where
  graph := twoDtns
  jm := { basicJobs := [⟨"b", .base, .running, 9000⟩]
          distinct := List.nodup_singleton _ }
  nodeJobs a := if a = 1 then ["b"] else []

/-- A rate of 5000 has code 3, and the query throws. -/
theorem admission_disagrees :
    ¬ ∀ s : Manager, Uplinked s.graph → NonNeg s →
      ∀ storage n, RGraph.find s.graph (.storage, storage) = some n →
        ∀ rate, 0 < rate → Agrees s storage n rate := by
  intro h
  have hagrees := h fullDisk twoDtns_uplinked (by unfold NonNeg; decide)
    "disk" diskNode rfl 5000 (by decide) 1 (by decide)
  have hres := hagrees.2 (.inl (by decide +kernel))
  have hthrows : EStateM.run' (queryPathDtns 1 "disk" 5000) fullDisk = none :=
    by decide +kernel
  unfold EStateM.run' EStateM.run at hthrows
  rw [hres] at hthrows
  cases hthrows

/-- The extra job on the busy disk can make room. -/
theorem admission_agrees_busy :
    Agrees busyDisk "disk" diskNode 3000
      ↔ (busyDisk.probePathRate "disk" 3000 = .ok 1
            ∨ busyDisk.probePathRate "disk" 3000 = .ok 2 →
          (busyDisk.suspendAll ((busyDisk.extras diskNode).map
            BaseJob.id)).probePathRate "disk" 3000 = .ok 1)
        ∧ (busyDisk.probePathRate "disk" 3000 = .ok 3
            ∨ busyDisk.probePathRate "disk" 3000 = .ok 4 →
          busyDisk.nodeJobs diskNode.addr = []) :=
  admission_agrees_iff busyDisk twoDtns_uplinked busyDisk_nonNeg "disk"
    diskNode rfl 3000 (by decide)

end Loop

end Manager

end BigDataExpress
