/-
What the two loops over iozone's answers add up to.

If every answer has a number in it, a loop over threads is a fold over
pairs of samples (`probes_eq`). The write bandwidth is then a running
maximum that starts from what it was before. The read bandwidth is not a
maximum at all: a sample replaces it if it is greater than the write
bandwidth, so what stays is the last such sample (`read_eq_iff`), and
nothing of the reads if no read is faster than every write before it.

The scanner does not start again for the next OST. The write bandwidth it
adds for an OST is the maximum over that OST and all before it, which is
the maximum of the OST exactly if no OST before was faster; and since none
is too small, the sums agree only if all of them do. What it adds for the
reads may be too much for an OST (a read sample of one before it) or too
little, so their sum may also agree because the two make up for each other
(`Offset`).
-/
import BigDataExpress.Agent.Bandwidth
import Mathlib.Algebra.BigOperators.Group.Finset.Basic
import Mathlib.Algebra.Order.BigOperators.Group.Finset
import Mathlib.Tactic.Linarith

namespace BigDataExpress

namespace Bandwidth

open Text

-- ================================================================ maxima

/-- The greatest number of a list. -/
def peak : List ℚ → ℚ
  | [] => 0
  | x :: l => l.foldl max x

/-- A running maximum is bounded if its start and all samples are. -/
theorem foldl_max_le_iff (l : List ℚ) (a c : ℚ) :
    l.foldl max a ≤ c ↔ a ≤ c ∧ ∀ x ∈ l, x ≤ c := by
  induction l generalizing a with
  | nil => simp
  | cons x l ih =>
      rw [List.foldl_cons, ih, max_le_iff, List.forall_mem_cons, and_assoc]

/-- The peak is bounded if all samples are. -/
theorem peak_le_iff {l : List ℚ} (h : l ≠ []) (c : ℚ) :
    peak l ≤ c ↔ ∀ x ∈ l, x ≤ c := by
  cases l with
  | nil => exact absurd rfl h
  | cons x l =>
      unfold peak
      rw [foldl_max_le_iff, List.forall_mem_cons]

/-- No sample is above the peak. -/
theorem le_peak {l : List ℚ} {x : ℚ} (h : x ∈ l) : x ≤ peak l :=
  (peak_le_iff (List.ne_nil_of_mem h) (peak l)).mp le_rfl x h

/-- A running maximum is its start or a sample. -/
theorem foldl_max_mem (l : List ℚ) (a : ℚ) :
    l.foldl max a = a ∨ l.foldl max a ∈ l := by
  induction l generalizing a with
  | nil => exact .inl rfl
  | cons x l ih =>
      rw [List.foldl_cons]
      rcases ih (max a x) with h | h
      · rw [h]
        rcases max_choice a x with hmax | hmax
        · exact .inl hmax
        · rw [hmax]
          exact .inr (List.mem_cons_self ..)
      · exact .inr (List.mem_cons_of_mem x h)

/-- It is one of them, and no other is greater. -/
theorem peak_isGreatest {l : List ℚ} (h : l ≠ []) :
    IsGreatest {x | x ∈ l} (peak l) := by
  refine ⟨?_, fun x hx => le_peak hx⟩
  cases l with
  | nil => exact absurd rfl h
  | cons x l =>
      show l.foldl max x ∈ x :: l
      rcases foldl_max_mem l x with heq | hmem
      · rw [heq]
        exact List.mem_cons_self ..
      · exact List.mem_cons_of_mem x hmem

-- =============================================================== samples

/-- A write sample and a read sample. -/
abbrev Sample : Type := ℚ × ℚ

/-- A turn of the loop on two numbers. -/
def take (b : Bandwidth) (p : Sample) : Bandwidth :=
  (b.raiseWrite (some p.1)).raiseRead (some p.2)

/-- The samples of a number of threads. -/
def samples (s : Nat → Test → ℚ) (threads : Nat) : List Sample :=
  (List.range threads).map fun i => (s i .write, s i .read)

/-- There is a sample if there is a thread count. -/
theorem samples_ne_nil (s : Nat → Test → ℚ) {threads : Nat}
    (h : 0 < threads) : samples s threads ≠ [] := by
  unfold samples
  rw [Ne, List.map_eq_nil_iff, List.range_eq_nil]
  omega

/-- The answers have these numbers in them. -/
def Parse (stod : Chars → Option ℚ) (unit : ℚ) (answer : Nat → Test → Chars)
    (threads : Nat) (s : Nat → Test → ℚ) : Prop :=
  ∀ i < threads, ∀ t, reading stod unit (answer i t) = some (some (s i t))

/-- Samples that parse are taken one after the other. -/
theorem probes_eq {stod : Chars → Option ℚ} {unit : ℚ}
    {answer : Nat → Test → Chars} {threads : Nat} {s : Nat → Test → ℚ}
    (h : Parse stod unit answer threads s) (b : Bandwidth) :
    probes stod unit answer threads b
      = some ((samples s threads).foldl take b) := by
  unfold probes samples
  induction threads with
  | zero => rfl
  | succ n ih =>
      rw [List.range_succ, List.foldlM_append,
        ih fun i hi => h i (Nat.lt_succ_of_lt hi), List.map_append,
        List.foldl_append]
      show (probe stod unit (answer n) _ >>= pure) = _
      unfold probe
      rw [h n (Nat.lt_succ_self n) .write, h n (Nat.lt_succ_self n) .read]
      rfl

-- ============================================================ what is kept

/-- A write sample raises the write rate to itself. -/
theorem raiseWrite_some (b : Bandwidth) (bw : ℚ) :
    (b.raiseWrite (some bw)).write = max b.write bw
      ∧ (b.raiseWrite (some bw)).read = b.read := by
  have heq : b.raiseWrite (some bw)
      = if b.write < bw then { b with write := bw } else b := rfl
  rw [heq]
  by_cases h : b.write < bw
  · rw [if_pos h, max_eq_right h.le]
    exact ⟨rfl, rfl⟩
  · rw [if_neg h, max_eq_left (not_lt.mp h)]
    exact ⟨rfl, rfl⟩

/-- A read sample becomes the read rate if it is above the write rate. -/
theorem raiseRead_some (b : Bandwidth) (bw : ℚ) :
    (b.raiseRead (some bw)).write = b.write
      ∧ (b.raiseRead (some bw)).read = if b.write < bw then bw else b.read := by
  have heq : b.raiseRead (some bw)
      = if b.write < bw then { b with read := bw } else b := rfl
  rw [heq]
  by_cases h : b.write < bw
  · rw [if_pos h, if_pos h]
    exact ⟨rfl, rfl⟩
  · rw [if_neg h, if_neg h]
    exact ⟨rfl, rfl⟩

/-- Taking a sample raises the write rate. -/
theorem take_write (b : Bandwidth) (p : Sample) :
    (b.take p).write = max b.write p.1 := by
  unfold take
  rw [(raiseRead_some _ p.2).1, (raiseWrite_some b p.1).1]

/-- It sets the read rate if the sample is above the raised write rate. -/
theorem take_read (b : Bandwidth) (p : Sample) :
    (b.take p).read = if max b.write p.1 < p.2 then p.2 else b.read := by
  unfold take
  rw [(raiseRead_some _ p.2).2, (raiseWrite_some b p.1).1,
    (raiseWrite_some b p.1).2]

/-- The write rate is the maximum of where it began and the samples. -/
theorem write_eq (l : List Sample) (b : Bandwidth) :
    (l.foldl take b).write = (l.map Prod.fst).foldl max b.write := by
  induction l generalizing b with
  | nil => rfl
  | cons p l ih =>
      rw [List.foldl_cons, ih, take_write]
      rfl

/-- A read sample that is greater than 0 and than all writes up to it. -/
def Prevails (before : List Sample) (p : Sample) : Prop :=
  0 < p.2 ∧ p.1 < p.2 ∧ ∀ q ∈ before, q.1 < p.2

instance (before : List Sample) (p : Sample) :
    Decidable (Prevails before p) :=
  inferInstanceAs (Decidable (_ ∧ _ ∧ _))

/-- The last read sample that prevails, or 0 if none does. -/
def LastPrevailing (l : List Sample) (r : ℚ) : Prop :=
  (∃ before w after, l = before ++ (w, r) :: after ∧ Prevails before (w, r)
      ∧ ∀ b p a, after = b ++ p :: a → ¬ Prevails (before ++ (w, r) :: b) p)
    ∨ (r = 0 ∧ ∀ b p a, l = b ++ p :: a → ¬ Prevails b p)

/-- A sample prevails if it would be taken as the read rate. -/
theorem prevails_iff (l : List Sample) (p : Sample) :
    Prevails l p ↔ max (l.foldl take {}).write p.1 < p.2 := by
  have hle : ∀ c, (l.foldl take {}).write < c ↔ 0 < c ∧ ∀ q ∈ l, q.1 < c := by
    intro c
    rw [write_eq]
    induction l using List.reverseRecOn with
    | nil => simp
    | append_singleton l q ih =>
        rw [List.map_append, List.foldl_append]
        show max _ q.1 < c ↔ _
        rw [max_lt_iff, ih, List.forall_mem_append, and_assoc]
        simp
  unfold Prevails
  rw [max_lt_iff, hle]
  tauto

/-- Where an element stands in a list with one more at the end. -/
theorem snoc_eq_append_cons {α : Type} {x b a : List α} {p q : α}
    (h : x ++ [p] = b ++ q :: a) :
    (a = [] ∧ b = x ∧ q = p) ∨ ∃ a', a = a' ++ [p] ∧ x = b ++ q :: a' := by
  rcases List.eq_nil_or_concat a with rfl | ⟨a', c, rfl⟩
  · obtain ⟨hb, hq⟩ := List.append_inj' h rfl
    injection hq with hq
    exact .inl ⟨rfl, hb.symm, hq.symm⟩
  · rw [List.concat_eq_append, ← List.cons_append, ← List.append_assoc] at h
    obtain ⟨hx, hc⟩ := List.append_inj' h rfl
    injection hc with hc
    exact .inr ⟨a', by rw [List.concat_eq_append, hc], hx⟩

/-- A further sample is the last that prevails if it does. -/
theorem lastPrevailing_snoc (l : List Sample) (p : Sample) (r : ℚ) :
    LastPrevailing (l ++ [p]) r
      ↔ if Prevails l p then r = p.2 else LastPrevailing l r := by
  constructor
  · rintro (⟨before, w, after, hl, hprev, hlast⟩ | ⟨rfl, hnone⟩)
    · rcases snoc_eq_append_cons hl with ⟨rfl, rfl, rfl⟩ | ⟨after', rfl, rfl⟩
      · rw [if_pos hprev]
      · rw [if_neg (hlast after' p [] rfl)]
        refine .inl ⟨before, w, after', rfl, hprev, ?_⟩
        rintro b q a rfl
        exact hlast b q (a ++ [p]) (by simp)
    · rw [if_neg (hnone l p [] rfl)]
      refine .inr ⟨rfl, ?_⟩
      rintro b q a rfl
      exact hnone b q (a ++ [p]) (by simp)
  · intro h
    by_cases hp : Prevails l p
    · rw [if_pos hp] at h
      subst h
      exact .inl ⟨l, p.1, [], rfl, hp, fun b q a hnil => by simp at hnil⟩
    · rw [if_neg hp] at h
      rcases h with ⟨before, w, after, rfl, hprev, hlast⟩ | ⟨rfl, hnone⟩
      · refine .inl ⟨before, w, after ++ [p], by simp, hprev, ?_⟩
        intro b q a hsplit
        rcases snoc_eq_append_cons hsplit with ⟨_, rfl, rfl⟩ | ⟨a', _, rfl⟩
        · exact hp
        · exact hlast b q a' rfl
      · refine .inr ⟨rfl, ?_⟩
        intro b q a hsplit
        rcases snoc_eq_append_cons hsplit with ⟨_, rfl, rfl⟩ | ⟨a', _, rfl⟩
        · exact hp
        · exact hnone b q a' rfl

/-- The read bandwidth is the last read sample that prevails. -/
theorem read_eq_iff (l : List Sample) (r : ℚ) :
    (l.foldl take {}).read = r ↔ LastPrevailing l r := by
  induction l using List.reverseRecOn generalizing r with
  | nil =>
      constructor
      · rintro rfl
        exact .inr ⟨rfl, fun b p a h => by simp at h⟩
      · rintro (⟨before, w, after, h, _⟩ | ⟨rfl, _⟩)
        · simp at h
        · rfl
  | append_singleton l p ih =>
      rw [List.foldl_append, lastPrevailing_snoc, ← ih]
      show (take _ p).read = r ↔ _
      rw [take_read]
      by_cases hp : Prevails l p
      · rw [if_pos hp, if_pos ((prevails_iff l p).mp hp)]
        exact eq_comm
      · rw [if_neg hp, if_neg (mt (prevails_iff l p).mpr hp)]

-- ========================================================== a local agent

/-- What is stored are the maxima of the samples. -/
def Measured (l : List Sample) (b : Bandwidth) : Prop :=
  b.write = peak (l.map Prod.fst) ∧ b.read = peak (l.map Prod.snd)

/-- The write rate is the peak if the peak is not below 0. -/
theorem write_peak_iff {l : List Sample} (h : l ≠ []) :
    (l.foldl take {}).write = peak (l.map Prod.fst)
      ↔ 0 ≤ peak (l.map Prod.fst) := by
  have hne : l.map Prod.fst ≠ [] := by simpa using h
  have hge : peak (l.map Prod.fst) ≤ (l.foldl take {}).write := by
    rw [write_eq, peak_le_iff hne]
    exact ((foldl_max_le_iff _ _ _).mp le_rfl).2
  constructor
  · intro heq
    rw [← heq, write_eq]
    exact ((foldl_max_le_iff _ _ _).mp le_rfl).1
  · intro hpos
    apply le_antisymm _ hge
    rw [write_eq, foldl_max_le_iff]
    exact ⟨hpos, fun x hx => le_peak hx⟩

/-- Both rates are the peaks if the greatest write is not below 0 and the
greatest read is the last that prevails. -/
theorem measured_iff {l : List Sample} (h : l ≠ []) :
    Measured l (l.foldl take {}) ↔ 0 ≤ peak (l.map Prod.fst)
      ∧ LastPrevailing l (peak (l.map Prod.snd)) := by
  unfold Measured
  rw [write_peak_iff h, read_eq_iff]

-- ============================================================ a scanner

section Scan

variable {stod : Chars → Option ℚ} {answer : Int → Nat → Test → Chars}
  {s : Int → Nat → Test → ℚ} {low high : Int}

/-- The samples taken on the `k`-th OST of the range. -/
def onOst (s : Int → Nat → Test → ℚ) (low : Int) (k : Nat) : List Sample :=
  samples (s (low + k)) Scanner.iozoneMaxThreads

/-- All samples taken on the first OSTs. -/
def upTo (s : Int → Nat → Test → ℚ) (low : Int) (m : Nat) : List Sample :=
  (List.range m).flatMap (onOst s low)

/-- The greatest write sample of an OST, and the greatest read sample. -/
def peaks (s : Int → Nat → Test → ℚ) (low : Int) (k : Nat) : Bandwidth where
  write := peak ((onOst s low k).map Prod.fst)
  read := peak ((onOst s low k).map Prod.snd)

/-- `writebw` and `readbw` after the first OSTs. -/
def carried (s : Int → Nat → Test → ℚ) (low : Int) (m : Nat) : Bandwidth :=
  (upTo s low m).foldl take {}

/-- What is carried over the next OST. -/
theorem carried_succ (s : Int → Nat → Test → ℚ) (low : Int) (m : Nat) :
    carried s low (m + 1) = (onOst s low m).foldl take (carried s low m) := by
  unfold carried upTo
  rw [List.range_succ, List.flatMap_append, List.foldl_append,
    List.flatMap_singleton]

/-- One turn of the scanner, with samples that parse. -/
theorem scanOst_eq {ost : Int} {b b' total : Bandwidth}
    (h : probes stod 1024 (answer ost) Scanner.iozoneMaxThreads b = some b') :
    Scanner.scanOst stod answer (b, total) ost
      = .ok (b', total.plus b') := by
  unfold Scanner.scanOst
  simp only [h]
  rfl

/-- The scanner adds up what it carries from OST to OST. -/
theorem scan_eq {n : Nat}
    (h : ∀ k < n, Parse stod 1024 (answer (low + k)) Scanner.iozoneMaxThreads
      (s (low + k))) :
    ((List.range n).map fun k : Nat => low + (k : Int)).foldlM
        (Scanner.scanOst stod answer) ({}, {})
      = .ok (carried s low n,
        ⟨∑ k ∈ Finset.range n, (carried s low (k + 1)).write,
          ∑ k ∈ Finset.range n, (carried s low (k + 1)).read⟩) := by
  induction n with
  | zero => rfl
  | succ n ih =>
      have hstep := ih fun k hk => h k (Nat.lt_succ_of_lt hk)
      rw [List.range_succ, List.map_append, List.foldlM_append, hstep,
        Finset.sum_range_succ, Finset.sum_range_succ, carried_succ]
      show (Scanner.scanOst stod answer _ (low + n) >>= pure) = _
      rw [scanOst_eq (probes_eq (h n (Nat.lt_succ_self n)) _)]
      rfl

/-- Every OST has a sample. -/
theorem onOst_ne_nil (k : Nat) : onOst s low k ≠ [] :=
  samples_ne_nil _ (by decide)

/-- The carried write rate is bounded if the peaks so far are. -/
theorem carried_write_le_iff (m : Nat) (c : ℚ) :
    (carried s low m).write ≤ c
      ↔ 0 ≤ c ∧ ∀ j < m, (peaks s low j).write ≤ c := by
  have hpeak : ∀ j, (peaks s low j).write ≤ c
      ↔ ∀ p ∈ onOst s low j, p.1 ≤ c := by
    intro j
    unfold peaks
    rw [peak_le_iff (by simpa using onOst_ne_nil j)]
    simp
  unfold carried upTo
  rw [write_eq, foldl_max_le_iff]
  refine and_congr_right fun _ => ?_
  simp only [hpeak, List.forall_mem_map, List.mem_flatMap, List.mem_range]
  exact ⟨fun h j hj p hp => h p ⟨j, hj, hp⟩,
    fun h p ⟨j, hj, hp⟩ => h j hj p hp⟩

/-- What is added for an OST is its own maximum if no OST before it was
faster. -/
theorem carried_write_iff (k : Nat) :
    (peaks s low k).write = (carried s low (k + 1)).write
      ↔ 0 ≤ (peaks s low k).write
        ∧ ∀ j < k, (peaks s low j).write ≤ (peaks s low k).write := by
  have hle : (peaks s low k).write ≤ (carried s low (k + 1)).write :=
    ((carried_write_le_iff (k + 1) _).mp le_rfl).2 k (Nat.lt_succ_self k)
  rw [le_antisymm_iff, and_iff_right hle, carried_write_le_iff]
  refine and_congr_right fun _ => ?_
  constructor
  · intro h j hj
    exact h j (Nat.lt_succ_of_lt hj)
  · intro h j hj
    rcases Nat.lt_succ_iff_lt_or_eq.mp hj with hlt | rfl
    · exact h j hlt
    · exact le_rfl

/-- The members are the sums of the maxima over the OSTs. -/
def Summed (s : Int → Nat → Test → ℚ) (low high : Int) (total : Bandwidth) :
    Prop :=
  total.write = ∑ k ∈ Finset.range (high + 1 - low).toNat, (peaks s low k).write
    ∧ total.read
      = ∑ k ∈ Finset.range (high + 1 - low).toNat, (peaks s low k).read

variable (s low high) in
/-- No OST is slower to write than one before it. -/
def Rising : Prop :=
  ∀ k < (high + 1 - low).toNat, 0 ≤ (peaks s low k).write
    ∧ ∀ j < k, (peaks s low j).write ≤ (peaks s low k).write

variable (s low high) in
/-- On each OST the last read sample so far that prevails is its
greatest. -/
structure Faster : Prop where
  write : Rising s low high
  read : ∀ k < (high + 1 - low).toNat,
    LastPrevailing (upTo s low (k + 1)) (peaks s low k).read

variable (s low high) in
/-- The last read samples that prevail, `r`, are on some OSTs greater than
the greatest of the OST, and on others as much less. -/
structure Offset (r : Nat → ℚ) : Prop where
  write : Rising s low high
  last : ∀ k < (high + 1 - low).toNat,
    LastPrevailing (upTo s low (k + 1)) (r k)
  above : ∃ k < (high + 1 - low).toNat, (peaks s low k).read < r k
  below : ∃ k < (high + 1 - low).toNat, r k < (peaks s low k).read
  balance : ∑ k ∈ Finset.range (high + 1 - low).toNat,
        max (r k - (peaks s low k).read) 0
      = ∑ k ∈ Finset.range (high + 1 - low).toNat,
        max ((peaks s low k).read - r k) 0

/-- Two sums are equal if what the terms of one exceed those of the other
by is what they fall short of them by. -/
theorem sum_eq_iff_balance (n : Nat) (f g : Nat → ℚ) :
    ∑ k ∈ Finset.range n, f k = ∑ k ∈ Finset.range n, g k
      ↔ ∑ k ∈ Finset.range n, max (f k - g k) 0
        = ∑ k ∈ Finset.range n, max (g k - f k) 0 := by
  have hterm : ∀ k, max (f k - g k) 0 - max (g k - f k) 0 = f k - g k := by
    intro k
    rcases le_total (f k) (g k) with h | h
    · rw [max_eq_right (by linarith), max_eq_left (by linarith)]
      linarith
    · rw [max_eq_left (by linarith), max_eq_right (by linarith)]
      linarith
  rw [← sub_eq_zero, ← Finset.sum_sub_distrib, ← sub_eq_zero (b := ∑ k ∈ _, _),
    ← Finset.sum_sub_distrib, Finset.sum_congr rfl fun k _ => hterm k]

/-- Numbers with the sum of others are equal to them, or some are greater
and some less. -/
theorem eq_or_offset {n : Nat} {f g : Nat → ℚ}
    (h : ∑ k ∈ Finset.range n, f k = ∑ k ∈ Finset.range n, g k) :
    (∀ k < n, f k = g k)
      ∨ (∃ k < n, g k < f k) ∧ ∃ k < n, f k < g k := by
  by_cases hle : ∀ k < n, f k ≤ g k
  · have heq := (Finset.sum_eq_sum_iff_of_le fun k hk =>
      hle k (Finset.mem_range.mp hk)).mp h
    exact .inl fun k hk => heq k (Finset.mem_range.mpr hk)
  by_cases hge : ∀ k < n, g k ≤ f k
  · have heq := (Finset.sum_eq_sum_iff_of_le fun k hk =>
      hge k (Finset.mem_range.mp hk)).mp h.symm
    exact .inl fun k hk => (heq k (Finset.mem_range.mpr hk)).symm
  push Not at hle hge
  exact .inr ⟨hle, hge⟩

/-- What is added for the writes is the sum of the maxima if none is
carried over. -/
theorem summed_write_iff (n : Nat) :
    ∑ k ∈ Finset.range n, (carried s low (k + 1)).write
        = ∑ k ∈ Finset.range n, (peaks s low k).write
      ↔ ∀ k < n, 0 ≤ (peaks s low k).write
        ∧ ∀ j < k, (peaks s low j).write ≤ (peaks s low k).write := by
  rw [eq_comm, Finset.sum_eq_sum_iff_of_le]
  · simp only [Finset.mem_range, carried_write_iff]
  · intro k _
    exact ((carried_write_le_iff (k + 1) _).mp le_rfl).2 k (Nat.lt_succ_self k)

/-- What the scanner has added up after the last OST. -/
def scanned (s : Int → Nat → Test → ℚ) (low high : Int) : Bandwidth where
  write := ∑ k ∈ Finset.range (high + 1 - low).toNat,
    (carried s low (k + 1)).write
  read := ∑ k ∈ Finset.range (high + 1 - low).toNat,
    (carried s low (k + 1)).read

/-- The carried read rate is the last that prevails so far. -/
theorem carried_last (k : Nat) :
    LastPrevailing (upTo s low (k + 1)) (carried s low (k + 1)).read :=
  (read_eq_iff _ _).mp rfl

/-- What is added for the reads, OST by OST, is what prevails. -/
theorem scanned_read {r : Nat → ℚ} (h : ∀ k < (high + 1 - low).toNat,
    LastPrevailing (upTo s low (k + 1)) (r k)) :
    (scanned s low high).read
      = ∑ k ∈ Finset.range (high + 1 - low).toNat, r k := by
  show ∑ k ∈ Finset.range _, (carried s low (k + 1)).read = _
  apply Finset.sum_congr rfl
  intro k hk
  exact (read_eq_iff _ _).mpr (h k (Finset.mem_range.mp hk))

/-- The sums are those of the peaks if the rates are, OST by OST, or if they
miss them by amounts that cancel. -/
theorem summed_iff : Summed s low high (scanned s low high)
    ↔ Faster s low high ∨ ∃ r, Offset s low high r := by
  constructor
  · rintro ⟨hwrite, hread⟩
    have hrising := (summed_write_iff _).mp hwrite
    rcases eq_or_offset hread with heq | ⟨habove, hbelow⟩
    · refine .inl ⟨hrising, ?_⟩
      intro k hk
      rw [← heq k hk]
      exact carried_last k
    · exact .inr ⟨_, hrising, fun k _ => carried_last k, habove, hbelow,
        (sum_eq_iff_balance _ _ _).mp hread⟩
  · rintro (h | ⟨r, h⟩)
    · exact ⟨(summed_write_iff _).mpr h.write, scanned_read h.read⟩
    · refine ⟨(summed_write_iff _).mpr h.write, ?_⟩
      rw [scanned_read h.last]
      exact (sum_eq_iff_balance _ _ _).mpr h.balance

/-- Every answer of the scanner has a number in it. -/
def ParseAll (stod : Chars → Option ℚ) (answer : Int → Nat → Test → Chars)
    (low high : Int) (s : Int → Nat → Test → ℚ) : Prop :=
  ∀ o, low ≤ o → o ≤ high →
    Parse stod 1024 (answer o) Scanner.iozoneMaxThreads (s o)

/-- The scanner answers with the sums of what it carried. -/
theorem scanner_eq (h : ParseAll stod answer low high s) :
    Scanner.getPotentialBandwidth stod answer low high
      = (0, scanned s low high) := by
  unfold Scanner.getPotentialBandwidth Scanner.osts
  rw [scan_eq fun k hk => h _ (by omega) (by omega)]
  rfl

/-- If the scanner returns 0, its members are the sums. -/
def ScannerSums (stod : Chars → Option ℚ) (answer : Int → Nat → Test → Chars)
    (low high : Int) (s : Int → Nat → Test → ℚ) : Prop :=
  ∀ total, Scanner.getPotentialBandwidth stod answer low high = (0, total) →
    Summed s low high total

/-- So it answers with the sums of the peaks on that condition. -/
theorem scanner_iff (h : ParseAll stod answer low high s) :
    ScannerSums stod answer low high s
      ↔ Faster s low high ∨ ∃ r, Offset s low high r := by
  unfold ScannerSums
  rw [scanner_eq h, ← summed_iff]
  constructor
  · intro hall
    exact hall _ rfl
  · intro hsum total heq
    injection heq with _ heq
    rw [← heq]
    exact hsum

end Scan

/-- The samples of a local agent. -/
def onDevice (s : Nat → Test → ℚ) : List Sample :=
  samples s LocalStorageAgent.iozoneMaxThreads

/-- If a local agent returns 0, the maxima are stored. -/
def LocalMaxima (stod : Chars → Option ℚ) (answer : Nat → Test → Chars)
    (stored : Option Bandwidth) (s : Nat → Test → ℚ) : Prop :=
  ∀ after, LocalStorageAgent.getPotentialBandwidth stod answer stored
      = (0, after) →
    ∃ b, after = some b ∧ Measured (onDevice s) b

/-- No write sample is below 0, and the last prevailing read sample is the
greatest. -/
def LastGreatest (l : List Sample) : Prop :=
  0 ≤ peak (l.map Prod.fst) ∧ LastPrevailing l (peak (l.map Prod.snd))

/-- The local agent, likewise, with one disk. -/
theorem local_iff {stod : Chars → Option ℚ} {answer : Nat → Test → Chars}
    {s : Nat → Test → ℚ}
    (h : Parse stod 1000 answer LocalStorageAgent.iozoneMaxThreads s)
    (stored : Option Bandwidth) :
    LocalMaxima stod answer stored s ↔ LastGreatest (onDevice s) := by
  have hne : onDevice s ≠ [] := samples_ne_nil s (by decide)
  have heq : LocalStorageAgent.getPotentialBandwidth stod answer stored
      = (0, some ((onDevice s).foldl take {})) := by
    unfold LocalStorageAgent.getPotentialBandwidth
    rw [probes_eq h]
    rfl
  unfold LocalMaxima LastGreatest
  rw [heq, ← measured_iff hne]
  generalize (onDevice s).foldl take {} = b
  constructor
  · intro hall
    obtain ⟨b', hb, hmeasured⟩ := hall (some b) rfl
    rw [Option.some.inj hb]
    exact hmeasured
  · intro hmeasured after hafter
    exact ⟨b, (Prod.mk.inj hafter).2.symm, hmeasured⟩

/-- The bandwidths of a local agent are the maxima exactly if the last read
sample that is faster than all writes up to it is the greatest. Those of a
scanner are the sums exactly if no OST is slower to write than one before
it, and the last such read sample is, at the end of each OST, the greatest
of the OST, but for OSTs that make up for each other. -/
theorem bandwidth_exact_iff {stod : Chars → Option ℚ}
    {answer : Nat → Test → Chars} {s : Nat → Test → ℚ}
    {answers : Int → Nat → Test → Chars} {t : Int → Nat → Test → ℚ}
    {low high : Int} (stored : Option Bandwidth)
    (hlocal : Parse stod 1000 answer LocalStorageAgent.iozoneMaxThreads s)
    (hscan : ParseAll stod answers low high t) :
    (LocalMaxima stod answer stored s ↔ LastGreatest (onDevice s))
      ∧ (ScannerSums stod answers low high t
        ↔ Faster t low high ∨ ∃ r, Offset t low high r) :=
  ⟨local_iff hlocal stored, scanner_iff hscan⟩

/-- `stod` of a word of digits. -/
def digits (word : Chars) : Option ℚ :=
  if word ≠ [] ∧ word.all Char.isDigit = true then
    some (Nat.ofDigitChars 10 word 0)
  else none

/-- A line that iozone prints. -/
def printed (throughput : String) : Chars :=
  ("Children see throughput for 1 rewriters = " ++ throughput
    ++ " kB/sec").toList

/-- A device that reads fastest with one thread. -/
def fastAlone : Nat → Test → Chars
  | 0, .read => printed "3000"
  | _, .read => printed "2000"
  | _, .write => printed "1000"

/-- One thread reads fastest. -/
def fastAloneSample : Nat → Test → ℚ
  | 0, .read => 3
  | _, .read => 2
  | _, .write => 1

/-- Two OSTs of which the first is the faster to write. -/
def slowerOst (o : Int) : Nat → Test → Chars
  | _, .read => printed "1024"
  | _, .write => if o = 0 then printed "2048" else printed "1024"

/-- The second OST writes slower than the first. -/
def slowerOstSample (o : Int) : Nat → Test → ℚ
  | _, .read => 1
  | _, .write => if o = 0 then 2 else 1

/-- The answers parse as these samples. -/
theorem fastAlone_parse :
    Parse digits 1000 fastAlone LocalStorageAgent.iozoneMaxThreads
      fastAloneSample := by
  have h : reading digits 1000 (printed "3000") = some (some 3)
      ∧ reading digits 1000 (printed "2000") = some (some 2)
      ∧ reading digits 1000 (printed "1000") = some (some 1) := by
    decide +kernel
  intro i _ t
  cases t with
  | write => cases i <;> exact h.2.2
  | read =>
      cases i with
      | zero => exact h.1
      | succ i => exact h.2.1

/-- So do those of the scanner. -/
theorem slowerOst_parse : ParseAll digits slowerOst 0 1 slowerOstSample := by
  have h : reading digits 1024 (printed "2048") = some (some 2)
      ∧ reading digits 1024 (printed "1024") = some (some 1) := by
    decide +kernel
  intro o _ _ i _ t
  cases t with
  | write =>
      show reading digits 1024 (if o = 0 then _ else _) = some (some (ite _ _ _))
      by_cases ho : o = 0
      · rw [if_pos ho, if_pos ho]
        exact h.1
      · rw [if_neg ho, if_neg ho]
        exact h.2
  | read => exact h.2

/-- A storage that is twice as fast to read as to write. -/
def twiceAsFast (kilo : String) (twoKilo : String) : Nat → Test → Chars
  | _, .read => printed twoKilo
  | _, .write => printed kilo

/-- Reading is twice as fast as writing, whatever the threads. -/
def twiceAsFastSample : Nat → Test → ℚ
  | _, .read => 2
  | _, .write => 1

/-- Both agents get answers that parse as these samples. -/
theorem twiceAsFast_parse :
    Parse digits 1000 (twiceAsFast "1000" "2000")
        LocalStorageAgent.iozoneMaxThreads twiceAsFastSample
      ∧ ParseAll digits (fun _ => twiceAsFast "1024" "2048") 0 1
        fun _ => twiceAsFastSample := by
  have h : reading digits 1000 (printed "1000") = some (some 1)
      ∧ reading digits 1000 (printed "2000") = some (some 2)
      ∧ reading digits 1024 (printed "1024") = some (some 1)
      ∧ reading digits 1024 (printed "2048") = some (some 2) := by
    decide +kernel
  constructor
  · intro i _ t
    cases t with
    | write => exact h.1
    | read => exact h.2.1
  · intro o _ _ i _ t
    cases t with
    | write => exact h.2.2.1
    | read => exact h.2.2.2

/-- Both agents are right about storages of which all samples are alike,
and wrong about the two above. -/
theorem bandwidth_exact_example :
    (LocalMaxima digits (twiceAsFast "1000" "2000") none twiceAsFastSample
        ∧ ScannerSums digits (fun _ => twiceAsFast "1024" "2048") 0 1
          fun _ => twiceAsFastSample)
      ∧ ¬ LocalMaxima digits fastAlone none fastAloneSample
      ∧ ¬ ScannerSums digits slowerOst 0 1 slowerOstSample := by
  have halike := bandwidth_exact_iff none twiceAsFast_parse.1 twiceAsFast_parse.2
  have hwrong := bandwidth_exact_iff none fastAlone_parse slowerOst_parse
  refine ⟨⟨halike.1.mpr ⟨?_, ?_⟩, halike.2.mpr (.inl ⟨?_, ?_⟩)⟩,
    hwrong.1.not.mpr ?_, hwrong.2.not.mpr ?_⟩
  · decide +kernel
  · rw [← read_eq_iff]
    decide +kernel
  · unfold Rising
    decide +kernel
  · intro k hk
    rw [← read_eq_iff]
    revert k
    decide +kernel
  · intro h
    have hlast := (read_eq_iff _ _).mpr h.2
    revert hlast
    decide +kernel
  · have hfalls : ¬ (peaks slowerOstSample 0 0).write
        ≤ (peaks slowerOstSample 0 1).write := by decide +kernel
    rintro (h | ⟨r, h⟩)
    · exact hfalls ((h.write 1 (by decide)).2 0 (by decide))
    · exact hfalls ((h.write 1 (by decide)).2 0 (by decide))

/-- A later read that is slower than the first replaces it, and a fast OST
counts for the slower one after it. -/
theorem bandwidth_distorted :
    (¬ ∀ (stod : Chars → Option ℚ) (answer : Nat → Test → Chars)
        (s : Nat → Test → ℚ) (stored : Option Bandwidth),
        Parse stod 1000 answer LocalStorageAgent.iozoneMaxThreads s →
        LocalMaxima stod answer stored s)
      ∧ ¬ ∀ (stod : Chars → Option ℚ) (answers : Int → Nat → Test → Chars)
        (low high : Int) (t : Int → Nat → Test → ℚ),
        ParseAll stod answers low high t →
        ScannerSums stod answers low high t := by
  refine ⟨?_, ?_⟩
  · intro h
    have hstored : LocalStorageAgent.getPotentialBandwidth digits fastAlone none
        = (0, some ⟨1, 2⟩) := by decide +kernel
    obtain ⟨b, hb, _, hread⟩ := h digits fastAlone fastAloneSample none
      fastAlone_parse _ hstored
    have hpeak : peak ((onDevice fastAloneSample).map Prod.snd) = 3 := by
      decide +kernel
    rw [← Option.some.inj hb, hpeak] at hread
    exact absurd hread (by decide)
  · intro h
    have htotal : Scanner.getPotentialBandwidth digits slowerOst 0 1
        = (0, ⟨4, 0⟩) := by decide +kernel
    obtain ⟨hwrite, _⟩ := h digits slowerOst 0 1 slowerOstSample slowerOst_parse
      _ htotal
    have hsum : ∑ k ∈ Finset.range ((1 : Int) + 1 - 0).toNat,
        (peaks slowerOstSample 0 k).write = 3 := by decide +kernel
    rw [hsum] at hwrite
    exact absurd hwrite (by decide)

end Bandwidth

end BigDataExpress
