/-
The balance of the task counter.

A directory's checksum raises the counter by one for each task it starts
and lowers it when it has collected the task's result. Between the two
stand the remainders and the results of other tasks, and each of these
may throw. So a digest that fails leaves the counter raised as soon as a
task was started, and a call is balanced exactly when no task is started
or no digest fails (`Harmless`). The digest of a file of a group is the
case of one task.

Whether tasks are started depends on what other threads have running, so
`Harmless` speaks of the counter the call finds. A sequence of calls is
balanced exactly when every call of it is harmless where it stands.
-/
import BigDataExpress.Proofs.Groups

namespace BigDataExpress

open Stateful

namespace Hashing

variable (h : Hashing) (md : Digest)

-- ============================================================ the tasks

/-- At every look that is taken, the tasks are as many as allowed. -/
def AtLimit (maxThreads : Nat) (gs : List PathGroup) (t : TaskCounter) :
    Prop :=
  ∀ i < (gs.filter fun g => g.count ≠ 0).length,
    maxThreads ≤ t.own + h.others (t.reads + i)

/-- The files of all these groups can be digested. -/
def Digestible (gs : List PathGroup) : Prop :=
  ∀ g ∈ gs, ∃ sums, h.checksumGroup md g.paths = .ok sums

theorem atLimit_skip {n : Nat} {g : PathGroup} {gs : List PathGroup}
    {t : TaskCounter} (hg : g.count = 0) :
    h.AtLimit n (g :: gs) t ↔ h.AtLimit n gs t := by
  unfold AtLimit
  rw [List.filter_cons_of_neg (by simpa using hg)]

/-- One look, and the looks at the other groups. -/
theorem atLimit_cons {n : Nat} {g : PathGroup} {gs : List PathGroup}
    {t : TaskCounter} (hg : g.count ≠ 0) :
    h.AtLimit n (g :: gs) t ↔ n ≤ t.own + h.others t.reads
      ∧ h.AtLimit n gs { t with reads := t.reads + 1 } := by
  unfold AtLimit
  rw [List.filter_cons_of_pos (by simpa using hg), List.length_cons]
  constructor
  · intro hall
    refine ⟨hall 0 (by omega), ?_⟩
    intro i hi
    have hnext := hall (i + 1) (by omega)
    rw [show t.reads + (i + 1) = t.reads + 1 + i by omega] at hnext
    exact hnext
  · intro hall i hi
    obtain ⟨hfirst, hrest⟩ := hall
    cases i with
    | zero => exact hfirst
    | succ i =>
        rw [show t.reads + (i + 1) = t.reads + 1 + i by omega]
        exact hrest i (by omega)

/-- The counter is raised by the tasks that are started, and none is
exactly at the limit. -/
theorem launchGroups_own (n : Nat) (gs : List PathGroup)
    (t : TaskCounter) :
    wp (h.launchGroups n gs)
      (fun r t' => t'.own = t.own + r.1.length
        ∧ (r.1 = [] ↔ h.AtLimit n gs t)
        ∧ (h.Digestible md gs ↔ h.Digestible md (r.1 ++ r.2)))
      (fun _ => False) t := by
  induction gs generalizing t with
  | nil =>
      refine ⟨rfl, ⟨fun _ i hi => ?_, fun _ => rfl⟩, Iff.rfl⟩
      exact absurd hi (Nat.not_lt_zero i)
  | cons g gs ih =>
      unfold launchGroups
      split
      · rename_i hg
        have hnil : g.paths = [] := List.length_eq_zero_iff.1 hg
        refine (ih t).mono ?_ fun _ hf => hf
        intro r t' hr
        obtain ⟨hown, hlim, hdig⟩ := hr
        refine ⟨hown, ?_, ?_⟩
        · rw [h.atLimit_skip hg]
          exact hlim
        · rw [← hdig]
          unfold Digestible
          rw [List.forall_mem_cons]
          refine ⟨fun hall => hall.2, fun hall => ⟨⟨[], ?_⟩, hall⟩⟩
          rw [hnil]
          rfl
      · rename_i hg
        simp only [running, wp_bind, wp_get, wp_set, wp_pure]
        split
        · rename_i hlt
          simp only [TaskCounter.increment, wp_bind, wp_modify, wp_pure]
          refine (ih _).mono ?_ fun _ hf => hf
          intro r t' hr
          obtain ⟨hown, _, hdig⟩ := hr
          refine ⟨?_, ?_, ?_⟩
          · have hraised : t'.own = t.own + 1 + r.1.length := hown
            rw [hraised, List.length_cons]
            omega
          · rw [h.atLimit_cons hg]
            refine ⟨fun hnil => absurd hnil (List.cons_ne_nil _ _), ?_⟩
            intro hlim
            exact absurd hlt (Nat.not_lt.2 hlim.1)
          · unfold Digestible at hdig ⊢
            rw [List.forall_mem_cons, List.cons_append,
              List.forall_mem_cons, hdig]
        · rename_i hge
          simp only [wp_bind, wp_pure]
          refine (ih _).mono ?_ fun _ hf => hf
          intro r t' hr
          obtain ⟨hown, hlim, hdig⟩ := hr
          refine ⟨hown, ?_, ?_⟩
          · rw [h.atLimit_cons hg, hlim]
            exact ⟨fun hl => ⟨Nat.not_lt.1 hge, hl⟩, fun hl => hl.2⟩
          · unfold Digestible at hdig ⊢
            rw [List.forall_mem_cons, hdig]
            simp only [List.mem_append, List.mem_cons]
            constructor
            · intro hall x hx
              rcases hx with hx | rfl | hx
              · exact hall.2 x (.inl hx)
              · exact hall.1
              · exact hall.2 x (.inr hx)
            · intro hall
              exact ⟨hall g (.inr (.inl rfl)), fun x hx =>
                hall x (hx.imp_right .inr)⟩

/-- The remainders do not touch the counter. -/
theorem checksumRemainders_own (gs : List PathGroup) (t : TaskCounter) :
    wp (h.checksumRemainders md gs)
      (fun _ t' => t' = t ∧ h.Digestible md gs)
      (fun t' => t' = t ∧ ¬ h.Digestible md gs) t := by
  induction gs with
  | nil => exact ⟨rfl, fun g hg => absurd hg List.not_mem_nil⟩
  | cons g gs ih =>
      unfold checksumRemainders
      rw [wp_bind]
      cases hg : h.checksumGroup md g.paths with
      | error e =>
          refine ⟨rfl, ?_⟩
          intro hdig
          obtain ⟨sums, hsums⟩ := hdig g (List.mem_cons_self ..)
          rw [hg] at hsums
          cases hsums
      | ok sums =>
          show wp (h.checksumRemainders md gs >>= _) _ _ t
          rw [wp_bind]
          refine ih.mono ?_ ?_
          · intro rest t' hr
            exact ⟨hr.1, List.forall_mem_cons.2 ⟨⟨sums, hg⟩, hr.2⟩⟩
          · intro t' hr
            exact ⟨hr.1, fun hall => hr.2 (List.forall_mem_cons.1 hall).2⟩

/-- Collecting all tasks lowers the counter by as many; a task that threw
leaves it raised. -/
theorem collectTasks_own (gs : List PathGroup) {base : Nat}
    {t : TaskCounter} (ht : t.own = base + gs.length) :
    wp (h.collectTasks md gs)
      (fun _ t' => t'.own = base ∧ h.Digestible md gs)
      (fun t' => base < t'.own ∧ ¬ h.Digestible md gs) t := by
  induction gs generalizing t with
  | nil => exact ⟨ht, fun g hg => absurd hg List.not_mem_nil⟩
  | cons g gs ih =>
      rw [List.length_cons] at ht
      unfold collectTasks
      rw [wp_bind]
      cases hg : h.checksumGroup md g.paths with
      | error e =>
          refine ⟨?_, ?_⟩
          · show base < t.own
            omega
          · intro hdig
            obtain ⟨sums, hsums⟩ := hdig g (List.mem_cons_self ..)
            rw [hg] at hsums
            cases hsums
      | ok sums =>
          show wp (TaskCounter.decrement >>= fun _ =>
            h.collectTasks md gs >>= _) _ _ t
          simp only [TaskCounter.decrement, wp_bind, wp_modify]
          refine (ih ?_).mono ?_ ?_
          · show t.own - 1 = base + gs.length
            omega
          · intro rest t' hr
            exact ⟨hr.1, List.forall_mem_cons.2 ⟨⟨sums, hg⟩, hr.2⟩⟩
          · intro t' hr
            exact ⟨hr.1, fun hall => hr.2 (List.forall_mem_cons.1 hall).2⟩

/-- A directory's checksum is harmless if its files can be digested, or
if no task is started for it. -/
def Harmless (p : Path) (maxThreads : Nat) (t : TaskCounter) : Prop :=
  ∀ groups, partition h.sortBySize (walk p) maxThreads = .ok groups →
    h.AtLimit maxThreads groups t ∨ h.Digestible md groups

theorem parallel_own (p : Path) (n : Nat) (t : TaskCounter) :
    (after (h.parallelDirectoryChecksum p md n) t).own = t.own
      ↔ h.Harmless md p n t := by
  -- whichever way it ends, the counter tells
  suffices hwp : wp (h.parallelDirectoryChecksum p md n)
      (fun _ t' => t'.own = t.own ↔ h.Harmless md p n t)
      (fun t' => t'.own = t.own ↔ h.Harmless md p n t) t from hwp.after
  unfold parallelDirectoryChecksum
  dsimp only
  rw [wp_bind]
  cases hgroups : partition h.sortBySize (walk p) n with
  | error e =>
      refine ⟨fun _ groups hok => ?_, fun _ => rfl⟩
      rw [hgroups] at hok
      cases hok
  | ok groups =>
      have hharm : h.Harmless md p n t
          ↔ h.AtLimit n groups t ∨ h.Digestible md groups := by
        unfold Harmless
        rw [hgroups]
        refine ⟨fun hall => hall groups rfl, fun hor gs hgs => ?_⟩
        injection hgs with hgs
        exact hgs ▸ hor
      show wp (h.launchGroups n groups >>= _) _ _ t
      rw [wp_bind]
      refine (h.launchGroups_own md n groups t).mono ?_ fun _ hf => hf.elim
      intro r t₁ hr
      obtain ⟨tasks, rest⟩ := r
      obtain ⟨hown, hlim, hdig⟩ := hr
      dsimp only at hown hlim hdig
      have hsplit : h.Digestible md (tasks ++ rest)
          ↔ h.Digestible md tasks ∧ h.Digestible md rest := by
        unfold Digestible
        exact List.forall_mem_append
      have hzero : tasks.length = 0 ↔ h.AtLimit n groups t := by
        rw [← hlim]
        exact List.length_eq_zero_iff
      rw [hharm, hdig, hsplit, ← hzero]
      dsimp only
      rw [wp_bind]
      refine (h.checksumRemainders_own md rest t₁).mono ?_ ?_
      · intro sums t₂ hr
        obtain ⟨rfl, hrest⟩ := hr
        rw [wp_bind]
        refine (h.collectTasks_own md tasks hown).mono ?_ ?_
        · intro more t₃ hr
          have hbal : t₃.own = t.own ↔ tasks.length = 0
              ∨ (h.Digestible md tasks ∧ h.Digestible md rest) :=
            ⟨fun _ => .inr ⟨hr.2, hrest⟩, fun _ => hr.1⟩
          split
          · exact hbal
          · exact hbal
        · intro t₃ hr
          constructor
          · intro heq
            omega
          · intro hor
            rcases hor with hnil | hall
            · rw [List.length_eq_zero_iff.1 hnil] at hr
              exact absurd (fun g hg => absurd hg List.not_mem_nil) hr.2
            · exact absurd hall.1 hr.2
      · intro t₂ hr
        obtain ⟨rfl, hrest⟩ := hr
        rw [hown]
        constructor
        · intro heq
          exact .inl (by omega)
        · intro hor
          rcases hor with hnil | hall
          · omega
          · exact absurd hall.2 hrest

end Hashing

-- ============================================================= the calls

namespace DTNAgent

variable (a : DTNAgent)

/-- A call that may start tasks: the checksum of a directory, or the
digest of a file of a group. -/
inductive DigestCall where
  | directory (p : Path) (md : Digest) (maxThreads : Nat)
  | file (ps : V2Params) (g : PathGroup) (p : Path) (src realDst : PathName)

/-- The state a call leaves, returning or throwing. -/
def DigestCall.state (c : DigestCall) (s : AgentState) : AgentState :=
  match c with
  | .directory p md n =>
      after (Command.tasked (a.parallelDirectoryChecksum p md n)) s
  | .file ps g p src realDst =>
      after (a.addFileChecksum ps g p src realDst) s

/-- A call that does no harm to the counter it finds: the digests do not
fail, or there are no tasks. -/
def DigestCall.Harmless (c : DigestCall) (t : TaskCounter) : Prop :=
  match c with
  | .directory p md n => a.toHashing.Harmless md p n t
  | .file ps g p src _ =>
      2 < g.size ∧ a.checksumFileSizeThreshold < p.size →
        t.own + a.others t.reads < a.checksumThreads →
          ∃ sum, a.checksum src ps.md = .ok sum

theorem after_tasked {α : Type} (x : Tasked α) (s : AgentState) :
    (after (Command.tasked x) s).tasks = after x s.tasks := by
  unfold after Command.tasked
  cases x s.tasks <;> rfl

theorem addFileChecksum_own (ps : V2Params) (g : PathGroup) (p : Path)
    (src realDst : PathName) (s : AgentState) :
    (after (a.addFileChecksum ps g p src realDst) s).tasks.own
        = s.tasks.own
      ↔ DigestCall.Harmless a (.file ps g p src realDst) s.tasks := by
  suffices hwp : wp (a.addFileChecksum ps g p src realDst)
      (fun _ s' => s'.tasks.own = s.tasks.own
        ↔ DigestCall.Harmless a (.file ps g p src realDst) s.tasks)
      (fun s' => s'.tasks.own = s.tasks.own
        ↔ DigestCall.Harmless a (.file ps g p src realDst) s.tasks) s
    from hwp.after
  unfold addFileChecksum useTask DigestCall.Harmless
  rw [wp_bind]
  by_cases hlarge : 2 < g.size ∧ a.checksumFileSizeThreshold < p.size
  · rw [if_pos hlarge]
    show wp (if decide (s.tasks.own + a.others s.tasks.reads
      < a.checksumThreads) = true then _ else _) _ _
      { s with tasks := { s.tasks with reads := s.tasks.reads + 1 } }
    by_cases hlt : s.tasks.own + a.others s.tasks.reads < a.checksumThreads
    · rw [if_pos (decide_eq_true hlt)]
      cases hsum : a.checksum src ps.md with
      | error e =>
          -- the task threw, and stays on the counter
          show s.tasks.own + 1 = s.tasks.own ↔ _
          refine ⟨fun heq => absurd heq (by omega), fun hh => ?_⟩
          obtain ⟨sum, hs⟩ := hh hlarge hlt
          rw [hsum] at hs
          cases hs
      | ok sum =>
          show s.tasks.own + 1 - 1 = s.tasks.own ↔ _
          exact ⟨fun _ _ _ => ⟨sum, hsum⟩, fun _ => by omega⟩
    · rw [if_neg (by simpa using hlt)]
      cases hsum : a.checksum src ps.md with
      | error e => exact ⟨fun _ _ h => absurd h hlt, fun _ => rfl⟩
      | ok sum => exact ⟨fun _ _ h => absurd h hlt, fun _ => rfl⟩
  · rw [if_neg hlarge]
    cases hsum : a.checksum src ps.md with
    | error e => exact ⟨fun _ h => absurd h hlarge, fun _ => rfl⟩
    | ok sum => exact ⟨fun _ h => absurd h hlarge, fun _ => rfl⟩

/-- One call leaves the counter as it was exactly when it is harmless. -/
theorem DigestCall.own_iff (c : DigestCall) (s : AgentState) :
    (c.state a s).tasks.own = s.tasks.own ↔ c.Harmless a s.tasks := by
  cases c with
  | directory p md n =>
      show (after (Command.tasked _) s).tasks.own = _ ↔ _
      rw [after_tasked]
      exact a.toHashing.parallel_own md p n s.tasks
  | file ps g p src realDst =>
      exact a.addFileChecksum_own ps g p src realDst s

/-- Calls one after the other, each with the machine as it finds it: a
file that can be read for one call need not be there for the next. -/
abbrev Calls := List (DTNAgent × DigestCall)

/-- The state before the call with this number. -/
def Calls.stateBefore (calls : Calls) (s : AgentState) (i : Nat) :
    AgentState :=
  (calls.take i).foldl (fun s c => c.2.state c.1 s) s

theorem Calls.stateBefore_succ {calls : Calls} {i : Nat}
    (hi : i < calls.length) (s : AgentState) :
    calls.stateBefore s (i + 1)
      = calls[i].2.state calls[i].1 (calls.stateBefore s i) := by
  unfold stateBefore
  rw [List.take_succ_eq_append_getElem hi, List.foldl_append]
  rfl

/-- In a sequence of calls every one leaves the counter as it found it,
exactly when every one is harmless where it stands. -/
theorem task_counter_balanced_iff (calls : Calls) (s : AgentState) :
    (∀ i < calls.length, (calls.stateBefore s (i + 1)).tasks.own
        = (calls.stateBefore s i).tasks.own)
      ↔ ∀ i, ∀ hi : i < calls.length,
          calls[i].2.Harmless calls[i].1 (calls.stateBefore s i).tasks := by
  constructor
  · intro hall i hi
    have h := hall i hi
    rw [calls.stateBefore_succ hi] at h
    exact (DigestCall.own_iff _ _ _).1 h
  · intro hall i hi
    rw [calls.stateBefore_succ hi]
    exact (DigestCall.own_iff _ _ _).2 (hall i hi)

-- ================================================ a file without rights

/-- A machine whose files cannot be opened. -/
def sealed : FileSystem where
  lstat _ := .missing
  realpath _ := .error "Permission denied"
  nftw _ := .ok []
  read _ := .error .opening

/-- The directory `/d` with one file of three bytes. -/
def guarded : Path where
  name := ['/', 'd']
  real := .ok [letter 'd']
  node := .dir (.file (letter 'f') 3 .done)
  source := ['/', 'd']
  below := []

/-- The task started for the only file throws, and the counter stays at
one; another such checksum leaves it at two. -/
theorem unreadable_file_raises_counter :
    let call : DTNAgent × DigestCall :=
      (plain sealed [], .directory guarded (fun _ => "") 2)
    let calls : Calls := [call, call]
    (calls.stateBefore {} 0).tasks.own = 0
      ∧ (calls.stateBefore {} 1).tasks.own = 1
      ∧ (calls.stateBefore {} 2).tasks.own = 2 := by
  decide +kernel

end DTNAgent

end BigDataExpress
