/-
When `match_path_dtns` pairs the DTNs of two sites.

# The residues

At any moment what is left to match is a suffix of each list, with the
rates from which nothing was subtracted yet but for the first. A turn
takes the smaller of the two first rates from both. The suffixes keep
equal totals, so neither runs out before the other.

# Where it goes wrong

The block for equal rates falls through into the `else` of the next test,
which advances in the list of sources once more. With nothing left on
either side that does not matter. Otherwise a source is passed over: no
pair is made for it, whatever happens later. The two first rates come to
be equal exactly where a sum of leading rates is the same in both lists,
so the pairs are right if and only if no such sums coincide before the
end of the lists (`match_exact_iff`).
-/
import BigDataExpress.Server.Admission
import Mathlib.Algebra.Order.BigOperators.Group.List
import Mathlib.Algebra.Order.Field.Rat
import Mathlib.Tactic.Linarith

namespace BigDataExpress

-- ================================================== sums of leading rates

/-- Sums of leading rates are equal somewhere before the end of both
lists. -/
def Coincide (ss ds : List Rat) : Prop :=
  ∃ i j, 0 < i ∧ i < ss.length ∧ 0 < j ∧ j < ds.length ∧
    (ss.take i).sum = (ds.take j).sum

theorem coincide_comm {ss ds : List Rat} :
    Coincide ss ds ↔ Coincide ds ss := by
  constructor
  · intro ⟨i, j, hi, hi', hj, hj', h⟩
    exact ⟨j, i, hj, hj', hi, hi', h.symm⟩
  · intro ⟨i, j, hi, hi', hj, hj', h⟩
    exact ⟨j, i, hj, hj', hi, hi', h.symm⟩

/-- If the first rates are not equal, no sums coincide at the smaller
one. -/
theorem coincide_cons {a b : Rat} {ss ds : List Rat} (hba : b < a)
    (hs : ∀ x ∈ ss, 0 < x) :
    Coincide (a :: ss) (b :: ds) ↔ Coincide ((a - b) :: ss) ds := by
  constructor
  · intro ⟨i, j, hi, hi', hj, hj', h⟩
    obtain ⟨i, rfl⟩ := Nat.exists_eq_succ_of_ne_zero hi.ne'
    obtain ⟨j, rfl⟩ := Nat.exists_eq_succ_of_ne_zero hj.ne'
    rw [List.take_succ_cons, List.take_succ_cons, List.sum_cons,
      List.sum_cons] at h
    have hpos : 0 ≤ (ss.take i).sum :=
      List.sum_nonneg fun x hx => (hs x (List.mem_of_mem_take hx)).le
    have hj0 : j ≠ 0 := by
      intro h0
      rw [h0, List.take_zero, List.sum_nil] at h
      linarith
    refine ⟨i + 1, j, hi, hi', Nat.pos_of_ne_zero hj0,
      Nat.lt_of_succ_lt_succ hj', ?_⟩
    rw [List.take_succ_cons, List.sum_cons]
    linarith
  · intro ⟨i, j, hi, hi', hj, hj', h⟩
    obtain ⟨i, rfl⟩ := Nat.exists_eq_succ_of_ne_zero hi.ne'
    refine ⟨i + 1, j + 1, hi, hi', Nat.succ_pos j, Nat.succ_lt_succ hj', ?_⟩
    rw [List.take_succ_cons, List.sum_cons] at h
    rw [List.take_succ_cons, List.take_succ_cons, List.sum_cons,
      List.sum_cons]
    linarith

/-- Equal first rates coincide, if something is left after both. -/
theorem coincide_head {a : Rat} {ss ds : List Rat} (hs : ss ≠ [])
    (hd : ds ≠ []) : Coincide (a :: ss) (a :: ds) :=
  ⟨1, 1, Nat.one_pos, Nat.succ_lt_succ (List.length_pos_of_ne_nil hs),
    Nat.one_pos, Nat.succ_lt_succ (List.length_pos_of_ne_nil hd), by simp⟩

/-- Positive rates with a sum of 0 are none. -/
theorem eq_nil_of_sum {l : List Rat} (h : ∀ x ∈ l, 0 < x)
    (hsum : l.sum = 0) : l = [] := by
  cases l with
  | nil => rfl
  | cons x l =>
      have hx := h x (List.mem_cons_self ..)
      have hl := List.sum_nonneg fun y hy =>
        (h y (List.mem_cons_of_mem x hy)).le
      rw [List.sum_cons] at hsum
      linarith

-- =========================================================== the residues

/-- What is left to match. -/
structure Left (m : Matching) (ss ds : List Rat) : Prop where
  src : (m.src.drop m.isrc).map Prod.snd = ss
  dst : (m.dst.drop m.idst).map Prod.snd = ds

/-- Rates that can be matched. -/
structure Matchable (ss ds : List Rat) : Prop where
  src : ∀ x ∈ ss, 0 < x
  dst : ∀ x ∈ ds, 0 < x
  total : ss.sum = ds.sum

theorem drop_lowerRate (l : List (String × Rat)) (i : Nat) (x a : Rat)
    {rest : List Rat} (h : (l.drop i).map Prod.snd = a :: rest) :
    ((lowerRate l i x).drop i).map Prod.snd = (a - x) :: rest
      ∧ ((lowerRate l i x).drop (i + 1)).map Prod.snd = rest := by
  unfold lowerRate
  rw [List.drop_modify_of_lt _ _ _ _ (Nat.lt_succ_self i),
    List.drop_modify_of_ge _ _ _ _ (le_refl i), Nat.sub_self]
  cases hl : l.drop i with
  | nil =>
      rw [hl] at h
      cases h
  | cons p l' =>
      rw [hl] at h
      injection h with ha hrest
      have hnext : l.drop (i + 1) = l' := by
        rw [← List.drop_drop, hl]
        rfl
      rw [hnext]
      exact ⟨by rw [List.modify_zero_cons, List.map_cons, ha, hrest], hrest⟩

/-- The entry at an index, from what is left after it. -/
theorem entry_of_drop {l : List (String × Rat)} {i : Nat} {a : Rat}
    {rest : List Rat} (h : (l.drop i).map Prod.snd = a :: rest) :
    ∃ p, l[i]? = some p ∧ p.2 = a := by
  cases hl : l.drop i with
  | nil =>
      rw [hl] at h
      cases h
  | cons p l' =>
      rw [hl] at h
      injection h with ha _
      refine ⟨p, ?_, ha⟩
      have hhead := congrArg List.head? hl
      rwa [List.head?_drop] at hhead

theorem length_le_iff {l : List (String × Rat)} {i : Nat} {rest : List Rat}
    (h : (l.drop i).map Prod.snd = rest) : l.length ≤ i ↔ rest = [] := by
  rw [← h, List.map_eq_nil_iff, List.drop_eq_nil_iff]

variable {m : Matching} {a b : Rat} {ss ds : List Rat}

/-- A turn with the greater rate at the source. -/
theorem Left.turn_src (h : Left m (a :: ss) (b :: ds)) {s d : String × Rat}
    (hs : s.2 = a) (hd : d.2 = b) (hlt : b < a) :
    Left (m.turn s d) ((a - b) :: ss) ds
      ∧ (m.turn s d).isrc = m.isrc ∧ (m.turn s d).idst = m.idst + 1
      ∧ (m.turn s d).dtnPairs
        = m.dtnPairs ++ [⟨m.isrc, m.idst, s.1, d.1, b⟩] := by
  unfold Matching.turn
  rw [hs, hd, if_neg hlt.ne', if_pos hlt]
  exact ⟨⟨(drop_lowerRate _ _ _ _ h.src).1, (drop_lowerRate _ _ _ _ h.dst).2⟩,
    rfl, rfl, rfl⟩

/-- A turn with the greater rate at the destination. -/
theorem Left.turn_dst (h : Left m (a :: ss) (b :: ds)) {s d : String × Rat}
    (hs : s.2 = a) (hd : d.2 = b) (hlt : a < b) :
    Left (m.turn s d) ss ((b - a) :: ds)
      ∧ (m.turn s d).isrc = m.isrc + 1 ∧ (m.turn s d).idst = m.idst
      ∧ (m.turn s d).dtnPairs
        = m.dtnPairs ++ [⟨m.isrc, m.idst, s.1, d.1, a⟩] := by
  unfold Matching.turn
  rw [hs, hd, if_neg hlt.ne, if_neg (not_lt_of_gt hlt)]
  exact ⟨⟨(drop_lowerRate _ _ _ _ h.src).2, (drop_lowerRate _ _ _ _ h.dst).1⟩,
    rfl, rfl, rfl⟩

/-- A turn with equal rates advances twice at the source. -/
theorem Left.turn_both (h : Left m (a :: ss) (a :: ds)) {s d : String × Rat}
    (hs : s.2 = a) (hd : d.2 = a) :
    Left (m.turn s d) ss.tail ds
      ∧ (m.turn s d).isrc = m.isrc + 2 ∧ (m.turn s d).idst = m.idst + 1
      ∧ (m.turn s d).dtnPairs
        = m.dtnPairs ++ [⟨m.isrc, m.idst, s.1, d.1, a⟩] := by
  unfold Matching.turn
  rw [hs, hd, if_pos rfl, if_neg (lt_irrefl a)]
  have hsrc := (drop_lowerRate _ _ a _ (drop_lowerRate _ _ a _ h.src).1).2
  have hdst := (drop_lowerRate _ _ a _ (drop_lowerRate _ _ a _ h.dst).1).2
  refine ⟨⟨?_, hdst⟩, rfl, rfl, rfl⟩
  show (List.drop (m.isrc + 1 + 1) _).map _ = _
  rw [← List.drop_drop, List.map_drop, List.map_drop]
  rw [List.map_drop] at hsrc
  show List.drop 1 (List.drop (m.isrc + 1) (List.map Prod.snd
    (lowerRate (lowerRate m.src m.isrc a) m.isrc a))) = _
  rw [hsrc, List.drop_one]

/-- One turn of the loop, by what it leaves. -/
theorem matchLoop_succ (h : Left m (a :: ss) (b :: ds)) :
    ∃ s d, s.2 = a ∧ d.2 = b ∧ ∀ ss' ds', Left (m.turn s d) ss' ds' → ∀ n,
      matchLoop (n + 1) m
        = if ss' = [] ∧ ds' = [] then some (.pairs (m.turn s d).dtnPairs)
          else if ss' = [] ∨ ds' = [] then
            some (.thrown "something wrong in dtn matching")
          else matchLoop n (m.turn s d) := by
  obtain ⟨s, hsrc, hs⟩ := entry_of_drop h.src
  obtain ⟨d, hdst, hd⟩ := entry_of_drop h.dst
  refine ⟨s, d, hs, hd, ?_⟩
  intro ss' ds' hleft n
  rw [matchLoop, hsrc, hdst]
  dsimp only
  simp only [length_le_iff hleft.src, length_le_iff hleft.dst]

-- ============================================================== the pairs

/-- The rates of the pairs made for a position. -/
def rateFor (pos : MatchedPair → Nat) (i : Nat) (l : List MatchedPair) :
    Rat :=
  ((l.filter fun p => pos p = i).map MatchedPair.rate).sum

theorem rateFor_cons_eq {pos : MatchedPair → Nat} {i : Nat}
    {p : MatchedPair} (h : pos p = i) (l : List MatchedPair) :
    rateFor pos i (p :: l) = p.rate + rateFor pos i l := by
  unfold rateFor
  rw [List.filter_cons_of_pos (by simpa using h), List.map_cons,
    List.sum_cons]

theorem rateFor_cons_ne {pos : MatchedPair → Nat} {i : Nat}
    {p : MatchedPair} (h : pos p ≠ i) (l : List MatchedPair) :
    rateFor pos i (p :: l) = rateFor pos i l := by
  unfold rateFor
  rw [List.filter_cons_of_neg (by simpa using h)]

theorem rateFor_none {pos : MatchedPair → Nat} {i : Nat}
    {l : List MatchedPair} (h : ∀ p ∈ l, pos p ≠ i) :
    rateFor pos i l = 0 := by
  unfold rateFor
  have hnil : (l.filter fun p => decide (pos p = i)) = [] := by
    apply List.filter_eq_nil_iff.mpr
    intro p hp
    simpa using h p hp
  rw [hnil]
  rfl

/-- The pairs made for the positions of one list from `i` on have its
rates. -/
structure Covers (pos : MatchedPair → Nat) (i : Nat) (rates : List Rat)
    (l : List MatchedPair) : Prop where
  ahead : ∀ p ∈ l, i ≤ pos p
  sums : ∀ t x, rates[t]? = some x → rateFor pos (i + t) l = x

variable {pos : MatchedPair → Nat} {i : Nat} {l : List MatchedPair}
  {p : MatchedPair}

/-- A pair that takes a part of the first rate. -/
theorem Covers.part {x : Rat} {rest : List Rat} (hp : pos p = i)
    (h : Covers pos i ((x - p.rate) :: rest) l) :
    Covers pos i (x :: rest) (p :: l) where
  ahead := by
    intro q hq
    obtain heq | hq := List.mem_cons.mp hq
    · rw [heq, hp]
    · exact h.ahead q hq
  sums := by
    intro t y hy
    cases t with
    | zero =>
        have hfirst := h.sums 0 _ rfl
        injection hy with hy
        rw [Nat.add_zero] at hfirst ⊢
        rw [rateFor_cons_eq hp, hfirst, ← hy]
        linarith
    | succ t =>
        have hne : pos p ≠ i + (t + 1) := by omega
        rw [rateFor_cons_ne hne]
        exact h.sums (t + 1) y hy

/-- A pair that takes all of the first rate. -/
theorem Covers.whole {x : Rat} {rest : List Rat} (hp : pos p = i)
    (hx : p.rate = x) (h : Covers pos (i + 1) rest l) :
    Covers pos i (x :: rest) (p :: l) where
  ahead := by
    intro q hq
    obtain heq | hq := List.mem_cons.mp hq
    · rw [heq, hp]
    · exact Nat.le_of_succ_le (h.ahead q hq)
  sums := by
    intro t y hy
    cases t with
    | zero =>
        injection hy with hy
        rw [Nat.add_zero, rateFor_cons_eq hp, rateFor_none, ← hy, hx, add_zero]
        intro q hq
        exact (Nat.lt_of_succ_le (h.ahead q hq)).ne'
    | succ t =>
        have hne : pos p ≠ i + (t + 1) := by omega
        rw [rateFor_cons_ne hne]
        have hrest := h.sums t y hy
        rwa [Nat.add_assoc, Nat.add_comm 1 t] at hrest

theorem Covers.nil (pos : MatchedPair → Nat) (i : Nat) :
    Covers pos i [] [] where
  ahead p hp := absurd hp List.not_mem_nil
  sums t x hx := by cases hx

/-- Pairs of positive rates that match what is left. -/
structure Exact (i j : Nat) (ss ds : List Rat) (l : List MatchedPair) :
    Prop where
  positive : ∀ p ∈ l, 0 < p.rate
  src : Covers MatchedPair.isrc i ss l
  dst : Covers MatchedPair.idst j ds l

theorem Matchable.src_rest (h : Matchable (a :: ss) (b :: ds)) (hlt : b < a) :
    Matchable ((a - b) :: ss) ds where
  src := by
    intro x hx
    obtain heq | hx := List.mem_cons.mp hx
    · rw [heq]
      linarith
    · exact h.src x (List.mem_cons_of_mem a hx)
  dst := fun x hx => h.dst x (List.mem_cons_of_mem b hx)
  total := by
    have htotal := h.total
    rw [List.sum_cons, List.sum_cons] at htotal
    rw [List.sum_cons]
    linarith

theorem Matchable.symm (h : Matchable ss ds) : Matchable ds ss :=
  ⟨h.dst, h.src, h.total.symm⟩

/-- The side with the smaller rate is not at its end. -/
theorem Matchable.dst_rest (h : Matchable (a :: ss) (b :: ds))
    (hlt : b < a) : ds ≠ [] := by
  intro hnil
  have hrest := (h.src_rest hlt).total
  have ha := (h.src_rest hlt).src
  rw [hnil, List.sum_nil] at hrest
  exact absurd (eq_nil_of_sum ha hrest) (List.cons_ne_nil _ _)

/-- After equal rates both sides are at their ends, or neither is. -/
theorem Matchable.both_rest (h : Matchable (a :: ss) (a :: ds)) :
    ss = [] ↔ ds = [] := by
  have htotal := h.total
  rw [List.sum_cons, List.sum_cons] at htotal
  have heq : ss.sum = ds.sum := by linarith
  constructor
  · intro hnil
    rw [hnil, List.sum_nil] at heq
    exact eq_nil_of_sum
      (fun x hx => h.dst x (List.mem_cons_of_mem a hx)) heq.symm
  · intro hnil
    rw [hnil, List.sum_nil] at heq
    exact eq_nil_of_sum (fun x hx => h.src x (List.mem_cons_of_mem a hx)) heq

/-- Without sums that coincide the loop ends with pairs that match
everything. -/
theorem matchLoop_exact (n : Nat) (hn : ss.length + ds.length ≤ n)
    (hleft : Left m ss ds) (hm : Matchable ss ds) (hs : ss ≠ [])
    (hd : ds ≠ []) (hc : ¬ Coincide ss ds) :
    ∃ l, matchLoop n m = some (.pairs (m.dtnPairs ++ l))
      ∧ Exact m.isrc m.idst ss ds l := by
  induction n generalizing m ss ds with
  | zero =>
      have hpos := List.length_pos_of_ne_nil hs
      omega
  | succ n ih =>
      obtain ⟨a, ss, rfl⟩ := List.exists_cons_of_ne_nil hs
      obtain ⟨b, ds, rfl⟩ := List.exists_cons_of_ne_nil hd
      rw [List.length_cons, List.length_cons] at hn
      obtain ⟨s, d, hsa, hdb, hloop⟩ := matchLoop_succ hleft
      have ha := hm.src a (List.mem_cons_self ..)
      have hb := hm.dst b (List.mem_cons_self ..)
      obtain hlt | heq | hlt := lt_trichotomy a b
      · obtain ⟨hnext, hi, hj, hpairs⟩ := hleft.turn_dst hsa hdb hlt
        have hrest := hm.symm.dst_rest hlt
        obtain ⟨l, hrun, hl⟩ := ih (by rw [List.length_cons]; omega) hnext
          (hm.symm.src_rest hlt).symm hrest (List.cons_ne_nil _ _)
          (by
            rw [coincide_comm, ← coincide_cons hlt fun x hx =>
              hm.dst x (List.mem_cons_of_mem b hx), coincide_comm]
            exact hc)
        refine ⟨⟨m.isrc, m.idst, s.1, d.1, a⟩ :: l, ?_, ?_, ?_, ?_⟩
        · rw [hloop _ _ hnext, if_neg fun h => hrest h.1,
            if_neg (by simp [hrest]), hrun, hpairs, List.append_assoc]
          rfl
        · exact List.forall_mem_cons.mpr ⟨ha, hl.positive⟩
        · exact Covers.whole rfl rfl (hi ▸ hl.src)
        · exact Covers.part rfl (hj ▸ hl.dst)
      · -- the two sides end together
        subst heq
        have hnil : ss = [] := by
          by_contra hne
          exact hc (coincide_head hne fun h => hne (hm.both_rest.mpr h))
        have hnil' := hm.both_rest.mp hnil
        subst hnil hnil'
        obtain ⟨hnext, hi, hj, hpairs⟩ := hleft.turn_both hsa hdb
        refine ⟨[⟨m.isrc, m.idst, s.1, d.1, a⟩], ?_, ?_, ?_, ?_⟩
        · rw [hloop _ _ hnext, if_pos ⟨rfl, rfl⟩, hpairs]
        · exact List.forall_mem_cons.mpr
            ⟨ha, fun p hp => absurd hp List.not_mem_nil⟩
        · exact Covers.whole rfl rfl (.nil _ _)
        · exact Covers.whole rfl rfl (.nil _ _)
      · obtain ⟨hnext, hi, hj, hpairs⟩ := hleft.turn_src hsa hdb hlt
        have hrest := hm.dst_rest hlt
        obtain ⟨l, hrun, hl⟩ := ih (by rw [List.length_cons]; omega) hnext
          (hm.src_rest hlt) (List.cons_ne_nil _ _) hrest
          (by
            rw [← coincide_cons hlt fun x hx =>
              hm.src x (List.mem_cons_of_mem a hx)]
            exact hc)
        refine ⟨⟨m.isrc, m.idst, s.1, d.1, b⟩ :: l, ?_, ?_, ?_, ?_⟩
        · rw [hloop _ _ hnext, if_neg fun h => hrest h.2,
            if_neg (by simp [hrest]), hrun, hpairs, List.append_assoc]
          rfl
        · exact List.forall_mem_cons.mpr ⟨hb, hl.positive⟩
        · exact Covers.part rfl (hi ▸ hl.src)
        · exact Covers.whole rfl rfl (hj ▸ hl.dst)

-- ======================================================== what is missed

/-- The pairs made later are at or after the indices. -/
theorem turn_isrc (m : Matching) (s d : String × Rat) :
    m.isrc ≤ (m.turn s d).isrc ∧ ∃ p, (m.turn s d).dtnPairs
      = m.dtnPairs ++ [p] ∧ p.isrc = m.isrc := by
  unfold Matching.turn
  by_cases heq : s.2 = d.2
  · rw [if_pos heq]
    have hlt : ¬ s.2 > d.2 := fun h => h.ne heq.symm
    rw [if_neg hlt]
    refine ⟨?_, _, rfl, rfl⟩
    show m.isrc ≤ m.isrc + 1 + 1
    omega
  · rw [if_neg heq]
    split
    · exact ⟨le_refl _, _, rfl, rfl⟩
    · exact ⟨Nat.le_succ _, _, rfl, rfl⟩

theorem matchLoop_ahead (n : Nat) {r : List MatchedPair}
    (h : matchLoop n m = some (.pairs r)) :
    ∃ l, r = m.dtnPairs ++ l ∧ ∀ p ∈ l, m.isrc ≤ p.isrc := by
  induction n generalizing m with
  | zero => cases h
  | succ n ih =>
      rw [matchLoop] at h
      split at h
      · next s d _ _ =>
        obtain ⟨hle, p, hpairs, hp⟩ := turn_isrc m s d
        dsimp only at h
        split at h
        · injection h with h
          injection h with h
          refine ⟨[p], h.symm.trans hpairs, ?_⟩
          intro q hq
          rw [List.mem_singleton.mp hq, hp]
        · split at h
          · cases h
          · obtain ⟨l, hr, hl⟩ := ih h
            refine ⟨p :: l, ?_, ?_⟩
            · rw [hr, hpairs, List.append_assoc]
              rfl
            · intro q hq
              obtain heq | hq := List.mem_cons.mp hq
              · rw [heq, hp]
              · exact hle.trans (hl q hq)
      · cases h

/-- Where sums coincide, a source is passed over. -/
theorem matchLoop_misses (n : Nat) (hleft : Left m ss ds)
    (hm : Matchable ss ds) (hc : Coincide ss ds) {r : List MatchedPair}
    (h : matchLoop n m = some (.pairs r)) :
    ∃ l, r = m.dtnPairs ++ l ∧ ∃ q, m.isrc < q ∧ q < m.isrc + ss.length
      ∧ ∀ p ∈ l, p.isrc ≠ q := by
  induction n generalizing m ss ds with
  | zero => cases h
  | succ n ih =>
      obtain ⟨i₀, j₀, hi₀, hi₀', hj₀, hj₀', hsum⟩ := hc
      have hc : Coincide ss ds := ⟨i₀, j₀, hi₀, hi₀', hj₀, hj₀', hsum⟩
      obtain ⟨a, ss, rfl⟩ := List.exists_cons_of_length_pos
        (hi₀.trans hi₀')
      obtain ⟨b, ds, rfl⟩ := List.exists_cons_of_length_pos
        (hj₀.trans hj₀')
      have hss : ss ≠ [] := by
        intro hnil
        rw [hnil, List.length_singleton] at hi₀'
        omega
      have hds : ds ≠ [] := by
        intro hnil
        rw [hnil, List.length_singleton] at hj₀'
        omega
      obtain ⟨s, d, hsa, hdb, hloop⟩ := matchLoop_succ hleft
      -- the pair of this turn is at the index, before what is missed
      have hstep : ∀ {t : Nat} {l : List MatchedPair} {x : Rat}, m.isrc < t →
          (∀ p ∈ l, p.isrc ≠ t) →
          ∀ p ∈ (⟨m.isrc, m.idst, s.1, d.1, x⟩ : MatchedPair) :: l,
            p.isrc ≠ t := by
        intro t l x ht hl p hp
        obtain heq | hp := List.mem_cons.mp hp
        · rw [heq]
          exact ht.ne
        · exact hl p hp
      obtain hlt | heq | hlt := lt_trichotomy a b
      · obtain ⟨hnext, hi, hj, hpairs⟩ := hleft.turn_dst hsa hdb hlt
        rw [hloop _ _ hnext, if_neg fun h => hss h.1,
          if_neg (by simp [hss])] at h
        obtain ⟨l, hr, q, hq, hq', hl⟩ := ih hnext
          (hm.symm.src_rest hlt).symm
          (by
            rw [coincide_comm, ← coincide_cons hlt fun x hx =>
              hm.dst x (List.mem_cons_of_mem b hx), coincide_comm]
            exact hc) h
        rw [hi] at hq hq'
        refine ⟨_ :: l, by rw [hr, hpairs, List.append_assoc]; rfl, q,
          by omega, by rw [List.length_cons]; omega,
          hstep (by omega) hl⟩
      · subst heq
        obtain ⟨hnext, hi, hj, hpairs⟩ := hleft.turn_both hsa hdb
        have hnil : ss.tail ≠ [] ∨ matchLoop (n + 1) m ≠ some (.pairs r) := by
          by_cases ht : ss.tail = []
          · right
            rw [hloop _ _ hnext, if_neg fun h => hds h.2, if_pos (.inl ht)]
            intro h
            cases h
          · exact .inl ht
        have ht := hnil.resolve_right fun hne => hne h
        rw [hloop _ _ hnext, if_neg fun h => hds h.2,
          if_neg (by simp [ht, hds])] at h
        obtain ⟨l, hr, hl⟩ := matchLoop_ahead n h
        have hlen := List.length_pos_of_ne_nil hss
        refine ⟨_ :: l, by rw [hr, hpairs, List.append_assoc]; rfl,
          m.isrc + 1, Nat.lt_succ_self _, by rw [List.length_cons]; omega,
          hstep (Nat.lt_succ_self _) ?_⟩
        intro p hp
        have := hl p hp
        omega
      · obtain ⟨hnext, hi, hj, hpairs⟩ := hleft.turn_src hsa hdb hlt
        rw [hloop _ _ hnext, if_neg fun h => hds h.2,
          if_neg (by simp [hds])] at h
        obtain ⟨l, hr, q, hq, hq', hl⟩ := ih hnext (hm.src_rest hlt)
          (by
            rw [← coincide_cons hlt fun x hx =>
              hm.src x (List.mem_cons_of_mem a hx)]
            exact hc) h
        rw [hi] at hq hq'
        exact ⟨_ :: l, by rw [hr, hpairs, List.append_assoc]; rfl, q, hq,
          hq', hstep hq hl⟩

-- ============================================================ the result

/-- The loop ends with pairs of positive rates, and those made for a
position of either list have its rate. -/
def MatchedExactly (src dst : List (String × Rat)) : Prop :=
  ∃ turns l, matchPathDtns turns src dst = some (.pairs l)
    ∧ (∀ p ∈ l, 0 < p.rate)
    ∧ (∀ i s, src[i]? = some s → rateFor MatchedPair.isrc i l = s.2)
    ∧ ∀ j d, dst[j]? = some d → rateFor MatchedPair.idst j l = d.2

/-- For lists of positive rates with equal totals the pairs are right if
and only if no sums of leading rates coincide before the ends. -/
theorem match_exact_iff (src dst : List (String × Rat)) (hs : src ≠ [])
    (hd : dst ≠ []) (hspos : ∀ s ∈ src, 0 < s.2) (hdpos : ∀ d ∈ dst, 0 < d.2)
    (htotal : (src.map Prod.snd).sum = (dst.map Prod.snd).sum) :
    MatchedExactly src dst
      ↔ ¬ Coincide (src.map Prod.snd) (dst.map Prod.snd) := by
  have hleft : Left { src := src, dst := dst } (src.map Prod.snd)
      (dst.map Prod.snd) := ⟨rfl, rfl⟩
  have hm : Matchable (src.map Prod.snd) (dst.map Prod.snd) :=
    ⟨List.forall_mem_map.mpr hspos, List.forall_mem_map.mpr hdpos, htotal⟩
  constructor
  · intro hexact hc
    obtain ⟨turns, l, hrun, -, hsrc, -⟩ := hexact
    obtain ⟨l', hl', q, -, hq, hmiss⟩ := matchLoop_misses turns hleft hm hc hrun
    rw [List.length_map, Nat.zero_add] at hq
    have hget := List.getElem?_eq_getElem hq
    have hrate := hsrc q _ hget
    rw [show l = l' from hl', rateFor_none hmiss] at hrate
    exact (hspos _ (List.getElem_mem hq)).ne hrate
  · intro hc
    obtain ⟨l, hrun, hl⟩ := matchLoop_exact _ (le_refl _) hleft hm
      (by simpa using hs) (by simpa using hd) hc
    refine ⟨_, l, hrun, hl.positive, ?_, ?_⟩
    · intro i s hi
      have h := hl.src.sums i s.2 (by rw [List.getElem?_map, hi]; rfl)
      rwa [show (0 : Nat) + i = i from Nat.zero_add i] at h
    · intro j d hj
      have h := hl.dst.sums j d.2 (by rw [List.getElem?_map, hj]; rfl)
      rwa [show (0 : Nat) + j = j from Nat.zero_add j] at h

/-- Two DTNs with rate 1 at either site. -/
theorem equal_rates_not_matched :
    ¬ ∀ src dst : List (String × Rat), src ≠ [] → dst ≠ [] →
      (∀ s ∈ src, 0 < s.2) → (∀ d ∈ dst, 0 < d.2) →
      (src.map Prod.snd).sum = (dst.map Prod.snd).sum →
        MatchedExactly src dst := by
  intro h
  obtain ⟨turns, l, hrun, -⟩ := h [("a", 1), ("b", 1)] [("c", 1), ("d", 1)]
    (List.cons_ne_nil _ _) (List.cons_ne_nil _ _) (by decide) (by decide) rfl
  cases turns with
  | zero => cases hrun
  | succ n =>
      have hthrown : matchPathDtns (n + 1) [("a", 1), ("b", 1)]
          [("c", 1), ("d", 1)]
            = some (.thrown "something wrong in dtn matching") := rfl
      rw [hthrown] at hrun
      cases hrun

/-- Rates 1 and 2 against 2 and 1. -/
theorem match_exact_crossed :
    MatchedExactly [("a", 1), ("b", 2)] [("c", 2), ("d", 1)]
      ↔ ¬ Coincide [1, 2] [2, 1] :=
  match_exact_iff [("a", 1), ("b", 2)] [("c", 2), ("d", 1)]
    (List.cons_ne_nil _ _) (List.cons_ne_nil _ _) (by decide) (by decide)
    (by decide +kernel)

end BigDataExpress
