/-
The groups of `utils::partition`.

A file goes into the first group that has not reached the limit. When all
have, the limit is raised by the file's size, and the search goes on with
the second group. So a file finds no group if there is only one, and the
search does not end if the file is empty (`Jammed`); otherwise it does,
and the file is placed (`place_iff`).

The limit is such that the groups are all full only when the files before
have all the bytes, divide into equal parts, and each part ends at a file
(`Even`): then an empty file comes too late. The files below a directory
without bytes do not come at all, as the division takes such a directory
whole.
-/
import BigDataExpress.Proofs.Limits

namespace BigDataExpress

namespace DirectoryTree

variable {n : Nat} {p : Path} {st st' : Filling}

-- ============================================================= one search

/-- The group has room for a file. -/
def Open (st : Filling) (i : Nat) : Prop :=
  (st.groups.getD i {}).size < st.maxSize

instance (st : Filling) (i : Nat) : Decidable (Open st i) :=
  inferInstanceAs (Decidable (_ < _))

/-- The file goes into this group. -/
def put (p : Path) (i : Nat) (st : Filling) : Filling :=
  { st with
    groups := st.groups.set i ((st.groups.getD i {}).add p p.size) }

/-- The limit, raised by the file's size. -/
def raise (size : UInt64) (st : Filling) : Filling :=
  { st with maxSize := st.maxSize + size }

/-- The limit, raised again and again. -/
def raised (size : UInt64) : Nat → Filling → Filling
  | 0, st => st
  | k + 1, st => raised size k (raise size st)

/-- A file comes when no group has room, and there is one group only, or
no number of times the limit is raised by its size makes room in a group
after the first. -/
def Jammed (n : Nat) (st : Filling) (size : UInt64) : Prop :=
  (∀ i < n, ¬ Open st i)
    ∧ (n = 1 ∨ ∀ k i, 1 ≤ i → i < n → ¬ Open (raised size (k + 1) st) i)

theorem place_open {fuel gi : Nat} (hgi : gi < n) (h : Open st gi) :
    place n p (fuel + 1) gi st = some (put p gi st) := by
  unfold place
  rw [if_pos hgi]
  exact if_pos h

theorem place_last {fuel gi : Nat} (hgi : gi + 1 = n) (h : ¬ Open st gi) :
    place n p (fuel + 1) gi st = place n p fuel 1 (raise p.size st) := by
  conv_lhs => unfold place
  rw [if_pos (by omega)]
  exact (if_neg h).trans (if_pos hgi)

theorem place_next {fuel gi : Nat} (hgi : gi + 1 < n) (h : ¬ Open st gi) :
    place n p (fuel + 1) gi st = place n p fuel (gi + 1) st := by
  conv_lhs => unfold place
  rw [if_pos (by omega)]
  exact (if_neg h).trans (if_neg (by omega))

theorem place_end {fuel gi : Nat} (hgi : n ≤ gi) :
    place n p (fuel + 1) gi st = some st := by
  unfold place
  exact if_neg (Nat.not_lt.2 hgi)

/-- A search that ended ends with more fuel. -/
theorem place_mono {fuel gi : Nat} (h : place n p fuel gi st = some st')
    (k : Nat) : place n p (fuel + k) gi st = some st' := by
  induction fuel generalizing gi st with
  | zero => cases h
  | succ fuel ih =>
      rw [Nat.add_right_comm]
      by_cases hgi : gi < n
      · by_cases hroom : Open st gi
        · rw [place_open hgi hroom] at h ⊢
          exact h
        · rcases Nat.lt_or_eq_of_le (Nat.succ_le_of_lt hgi) with hnext | hlast
          · rw [place_next hnext hroom] at h ⊢
            exact ih h
          · rw [place_last hlast hroom] at h ⊢
            exact ih h
      · rw [place_end (Nat.not_lt.1 hgi)] at h ⊢
        exact h

/-- A search has one outcome. -/
theorem place_unique {fuel fuel' gi : Nat} {st₁ st₂ : Filling}
    (h₁ : place n p fuel gi st = some st₁)
    (h₂ : place n p fuel' gi st = some st₂) : st₁ = st₂ := by
  have h := place_mono h₁ fuel'
  rw [Nat.add_comm, place_mono h₂ fuel] at h
  exact Option.some.inj h.symm

/-- From a group on: the file is placed in the first that has room, or
none has and the search goes round. -/
theorem place_cases (p : Path) {gi : Nat} (hgi : gi < n) (st : Filling) :
    (∃ fuel i, (gi ≤ i ∧ i < n ∧ Open st i
          ∧ ∀ j, gi ≤ j → j < i → ¬ Open st j)
        ∧ place n p fuel gi st = some (put p i st))
      ∨ ((∀ i, gi ≤ i → i < n → ¬ Open st i)
        ∧ ∃ k, ∀ fuel, place n p (fuel + k) gi st
          = place n p fuel 1 (raise p.size st)) := by
  obtain ⟨d, hd⟩ := Nat.exists_eq_add_of_lt hgi
  induction d generalizing gi with
  | zero =>
      by_cases hroom : Open st gi
      · refine .inl ⟨1, gi, ⟨Nat.le_refl _, hgi, hroom, ?_⟩,
          place_open hgi hroom⟩
        intro j hle hlt
        omega
      · refine .inr ⟨fun i hle hlt => ?_, 1, fun fuel => ?_⟩
        · rwa [show i = gi by omega]
        · exact place_last (by omega) hroom
  | succ d ih =>
      by_cases hroom : Open st gi
      · refine .inl ⟨1, gi, ⟨Nat.le_refl _, hgi, hroom, ?_⟩,
          place_open hgi hroom⟩
        intro j hle hlt
        omega
      · have hnext : gi + 1 < n := by omega
        rcases ih hnext (by omega) with
          ⟨fuel, i, ⟨hle, hlt, hopen, hfirst⟩, hrun⟩ | ⟨hfull, k, hrun⟩
        · refine .inl ⟨fuel + 1, i, ⟨by omega, hlt, hopen, ?_⟩, ?_⟩
          · intro j hj hji
            rcases Nat.lt_or_eq_of_le hj with h | rfl
            · exact hfirst j h hji
            · exact hroom
          · rw [place_next hnext hroom]
            exact hrun
        · refine .inr ⟨fun i hle hlt => ?_, k + 1, fun fuel => ?_⟩
          · rcases Nat.lt_or_eq_of_le hle with h | rfl
            · exact hfull i h hlt
            · exact hroom
          · rw [← Nat.add_assoc, place_next hnext hroom]
            exact hrun fuel

/-- Raising the limit often enough makes room. -/
theorem place_raised (hn : 1 < n) (k : Nat) {gi : Nat} (hgi : gi < n)
    (h : ∃ i, 1 ≤ i ∧ i < n ∧ Open (raised p.size (k + 1) st) i) :
    ∃ fuel i m, i < n
      ∧ place n p fuel gi st = some { put p i st with maxSize := m } := by
  induction k generalizing gi st with
  | zero =>
      rcases place_cases p hgi st with ⟨fuel, i, ⟨_, hlt, _⟩, hrun⟩ |
        ⟨_, k, hround⟩
      · exact ⟨fuel, i, st.maxSize, hlt, hrun⟩
      · obtain ⟨i, hle, hlt, hopen⟩ := h
        rcases place_cases p hn (raise p.size st) with
          ⟨fuel, j, ⟨_, hj, _⟩, hrun⟩ | ⟨hfull, _⟩
        · refine ⟨fuel + k, j, (raise p.size st).maxSize, hj, ?_⟩
          rw [hround]
          exact hrun
        · exact absurd hopen (hfull i hle hlt)
  | succ k ih =>
      rcases place_cases p hgi st with ⟨fuel, i, ⟨_, hlt, _⟩, hrun⟩ |
        ⟨_, d, hround⟩
      · exact ⟨fuel, i, st.maxSize, hlt, hrun⟩
      · obtain ⟨fuel, i, m, hlt, hrun⟩ := ih hn h
        refine ⟨fuel + d, i, m, hlt, ?_⟩
        rw [hround]
        exact hrun

/-- Without room, however often the limit is raised, there is no end. -/
theorem place_none (hn : 1 < n) (fuel : Nat) {gi : Nat} (hgi : gi < n)
    (hfull : ∀ i, gi ≤ i → i < n → ¬ Open st i)
    (hraised : ∀ k i, 1 ≤ i → i < n → ¬ Open (raised p.size (k + 1) st) i) :
    place n p fuel gi st = none := by
  induction fuel generalizing gi st with
  | zero => rfl
  | succ fuel ih =>
      have hroom := hfull gi (Nat.le_refl _) hgi
      rcases Nat.lt_or_eq_of_le (Nat.succ_le_of_lt hgi) with hnext | hlast
      · rw [place_next hnext hroom]
        exact ih hnext (fun i hle => hfull i (by omega)) hraised
      · rw [place_last hlast hroom]
        exact ih hn (hraised 0) fun k => hraised (k + 1)

/-- If there is no jam, the search ends with the file in a group. -/
theorem place_of_not_jammed (hn : 0 < n) (h : ¬ Jammed n st p.size) :
    ∃ fuel i m, i < n
      ∧ place n p fuel 0 st = some { put p i st with maxSize := m } := by
  rcases place_cases p hn st with ⟨fuel, i, ⟨_, hlt, _⟩, hrun⟩ | ⟨hfull, _⟩
  · exact ⟨fuel, i, st.maxSize, hlt, hrun⟩
  · -- no group has room, but raising the limit makes some
    have hraise : n ≠ 1 ∧ ∃ k i, 1 ≤ i ∧ i < n
        ∧ Open (raised p.size (k + 1) st) i := by
      by_contra hno
      apply h
      refine ⟨fun i hi => hfull i (Nat.zero_le _) hi, ?_⟩
      by_cases hone : n = 1
      · exact .inl hone
      · refine .inr fun k i hle hlt hopen => hno ⟨hone, k, i, hle, hlt, hopen⟩
    obtain ⟨hone, k, hopen⟩ := hraise
    exact place_raised (by omega) k hn hopen

/-- In a jam a search that ends leaves the file out. -/
theorem Jammed.left_out {fuel : Nat} (hn : 0 < n)
    (h : Jammed n st p.size) (hrun : place n p fuel 0 st = some st') :
    st'.groups = st.groups := by
  obtain ⟨hfull, hor⟩ := h
  by_cases hone : n = 1
  · -- the search goes round to the second group, and there is none
    subst hone
    cases fuel with
    | zero => cases hrun
    | succ fuel =>
        rw [place_last rfl (hfull 0 hn)] at hrun
        cases fuel with
        | zero => cases hrun
        | succ fuel =>
            rw [place_end (Nat.le_refl _)] at hrun
            injection hrun with hrun
            rw [← hrun]
            rfl
  · have hraised := hor.resolve_left hone
    rw [place_none (by omega) fuel hn (fun i _ => hfull i) hraised] at hrun
    cases hrun

-- ============================================================== all files

/-- The paths in the groups. -/
def Filling.entries (st : Filling) : List Path :=
  st.groups.flatMap PathGroup.paths

theorem put_entries {i : Nat} (hi : i < st.groups.length)
    (hnew : ∀ f ∈ st.entries, p.name ≠ f.name) :
    (put p i st).entries.Perm (p :: st.entries) := by
  have hget : st.groups.getD i {} = st.groups[i] := by
    rw [List.getD_eq_getElem?_getD, List.getElem?_eq_getElem hi]
    rfl
  have hsplit : st.groups
      = st.groups.take i ++ st.groups[i] :: st.groups.drop (i + 1) := by
    rw [List.cons_getElem_drop_succ, List.take_append_drop]
  have hins : (insertPath p st.groups[i].paths).Perm
      (p :: st.groups[i].paths) := by
    apply insertBy_perm
    intro f hf
    exact hnew f (List.mem_flatMap.2 ⟨_, List.getElem_mem hi, hf⟩)
  unfold Filling.entries put
  dsimp only
  rw [hget, List.set_eq_take_append_cons_drop, if_pos hi]
  conv_rhs => rw [hsplit]
  rw [List.flatMap_append, List.flatMap_append, List.flatMap_cons,
    List.flatMap_cons]
  refine List.Perm.trans ?_ List.perm_middle
  exact (hins.append_right _).append_left _

/-- No file comes to a jam. -/
def Goes (n : Nat) : List Path → Filling → Prop
  | [], _ => True
  | p :: ps, st => ¬ Jammed n st p.size
      ∧ ∀ fuel st', place n p fuel 0 st = some st' → Goes n ps st'

/-- A file with a new name is placed if and only if there is no jam. -/
theorem place_iff (hn : 0 < n) (hlen : st.groups.length = n)
    (hnew : ∀ f ∈ st.entries, p.name ≠ f.name) :
    (¬ Jammed n st p.size → ∃ fuel st', place n p fuel 0 st = some st')
      ∧ ∀ fuel st', place n p fuel 0 st = some st' →
        st'.groups.length = n
          ∧ (¬ Jammed n st p.size → st'.entries.Perm (p :: st.entries))
          ∧ (Jammed n st p.size → st'.groups = st.groups) := by
  constructor
  · intro h
    obtain ⟨fuel, i, m, _, hrun⟩ := place_of_not_jammed hn h
    exact ⟨fuel, _, hrun⟩
  · intro fuel st' hrun
    by_cases h : Jammed n st p.size
    · have hout := h.left_out hn hrun
      exact ⟨by rw [hout, hlen], fun hno => absurd h hno, fun _ => hout⟩
    · obtain ⟨fuel', i, m, hi, hrun'⟩ := place_of_not_jammed hn h
      have hst := place_unique hrun hrun'
      refine ⟨?_, fun _ => ?_, fun hj => absurd hj h⟩
      · rw [hst]
        show (st.groups.set i _).length = n
        rw [List.length_set, hlen]
      · rw [hst]
        exact put_entries (by omega) hnew

/-- What is placed is no longer to come. -/
theorem new_of_perm {ps : List Path} (hnew : New st.groups (p :: ps))
    (h : st'.entries.Perm (p :: st.entries)) : New st'.groups ps := by
  obtain ⟨hpair, hfresh⟩ := hnew
  obtain ⟨hp, hpair⟩ := List.pairwise_cons.1 hpair
  refine ⟨hpair, fun q hq f hf => ?_⟩
  rcases List.mem_cons.1 (h.mem_iff.1 hf) with rfl | hf
  · exact (hp q hq).symm
  · exact hfresh q (List.mem_cons_of_mem p hq) f hf

theorem new_of_same {ps : List Path} (hnew : New st.groups (p :: ps))
    (h : st'.groups = st.groups) : New st'.groups ps := by
  rw [h]
  exact ⟨(List.pairwise_cons.1 hnew.1).2,
    fun q hq => hnew.2 q (List.mem_cons_of_mem p hq)⟩

theorem placeAll_mono {fuel : Nat} {ps : List Path}
    (h : placeAll n fuel ps st = some st') (k : Nat) :
    placeAll n (fuel + k) ps st = some st' := by
  induction ps generalizing st with
  | nil => exact h
  | cons p ps ih =>
      obtain ⟨st₁, h₁, h₂⟩ := Option.bind_eq_some_iff.1 h
      exact Option.bind_eq_some_iff.2 ⟨st₁, place_mono h₁ k, ih h₂⟩

/-- Files add one path each to the groups, or none. -/
theorem placeAll_length {fuel : Nat} {ps : List Path} (hn : 0 < n)
    (hlen : st.groups.length = n) (hnew : New st.groups ps)
    (h : placeAll n fuel ps st = some st') :
    st'.entries.length ≤ st.entries.length + ps.length := by
  induction ps generalizing st with
  | nil =>
      injection h with h
      rw [h]
      exact Nat.le_add_right _ _
  | cons p ps ih =>
      obtain ⟨st₁, h₁, h₂⟩ := Option.bind_eq_some_iff.1 h
      obtain ⟨hlen₁, hput, hout⟩ :=
        (place_iff hn hlen (hnew.2 p (List.mem_cons_self ..))).2 _ _ h₁
      rw [List.length_cons]
      by_cases hj : Jammed n st p.size
      · have hsame : st₁.entries = st.entries := by
          unfold Filling.entries
          rw [hout hj]
        have hle := ih hlen₁ (new_of_same hnew (hout hj)) h₂
        rw [hsame] at hle
        omega
      · have hperm := hput hj
        have hle := ih hlen₁ (new_of_perm hnew hperm) h₂
        rw [hperm.length_eq, List.length_cons] at hle
        omega

/-- All files are placed if and only if none comes to a jam. -/
theorem placeAll_iff {ps : List Path} (hn : 0 < n)
    (hlen : st.groups.length = n) (hnew : New st.groups ps) :
    (∃ fuel st', placeAll n fuel ps st = some st'
        ∧ st'.groups.length = n ∧ st'.entries.Perm (ps ++ st.entries))
      ↔ Goes n ps st := by
  induction ps generalizing st with
  | nil => exact ⟨fun _ => trivial, fun _ => ⟨0, st, rfl, hlen, .refl _⟩⟩
  | cons p ps ih =>
      have hplace := place_iff hn hlen (hnew.2 p (List.mem_cons_self ..))
      constructor
      · intro h
        obtain ⟨fuel, st', hrun, hlen', hperm⟩ := h
        obtain ⟨st₁, h₁, h₂⟩ := Option.bind_eq_some_iff.1 hrun
        obtain ⟨hlen₁, hput, hout⟩ := hplace.2 _ _ h₁
        -- a jam would cost a file
        have hj : ¬ Jammed n st p.size := by
          intro hj
          have hsame : st₁.entries = st.entries := by
            unfold Filling.entries
            rw [hout hj]
          have hle := placeAll_length hn hlen₁
            (new_of_same hnew (hout hj)) h₂
          rw [hperm.length_eq, hsame, List.length_append,
            List.length_cons] at hle
          omega
        refine ⟨hj, fun fuel' st₁' h₁' => ?_⟩
        rw [← place_unique h₁ h₁']
        refine (ih hlen₁ (new_of_perm hnew (hput hj))).1
          ⟨fuel, st', h₂, hlen', hperm.trans ?_⟩
        refine List.perm_middle.symm.trans ?_
        exact (hput hj).symm.append_left ps
      · intro h
        obtain ⟨hj, hrest⟩ := h
        obtain ⟨fuel₁, st₁, h₁⟩ := hplace.1 hj
        obtain ⟨hlen₁, hput, _⟩ := hplace.2 _ _ h₁
        obtain ⟨fuel₂, st', h₂, hlen', hperm⟩ :=
          (ih hlen₁ (new_of_perm hnew (hput hj))).2 (hrest _ _ h₁)
        refine ⟨fuel₁ + fuel₂, st', ?_, hlen', hperm.trans ?_⟩
        · refine Option.bind_eq_some_iff.2 ⟨st₁, place_mono h₁ fuel₂, ?_⟩
          rw [Nat.add_comm]
          exact placeAll_mono h₂ fuel₁
        · refine ((hput hj).append_left ps).trans ?_
          exact List.perm_middle

-- ======================================================= without overflow

variable {m : UInt64} {rs : List (List UInt64)} {done : List UInt64}

/-- Putting a file into the first group that has room. -/
theorem set_eq_placeFile {gs : List PathGroup} {i : Nat}
    (hi : i < gs.length) (hopen : (gs.getD i {}).size < m)
    (hfirst : ∀ j < i, ¬ (gs.getD j {}).size < m) :
    gs.set i ((gs.getD i {}).add p p.size) = placeFile m p gs := by
  induction gs generalizing i with
  | nil => cases hi
  | cons g gs ih =>
      unfold placeFile
      cases i with
      | zero =>
          have hroom : g.size < m := hopen
          rw [if_pos hroom]
          rfl
      | succ i =>
          have hfull : ¬ g.size < m := hfirst 0 (Nat.zero_lt_succ i)
          rw [if_neg hfull]
          have hrest := ih (Nat.lt_of_succ_lt_succ hi) hopen
            fun j hj => hfirst (j + 1) (Nat.succ_lt_succ hj)
          exact congrArg (g :: ·) hrest

/-- Some group has room, said of what the groups hold. -/
theorem room_iff_open (h : Holds st.groups rs) :
    Room st.maxSize rs ↔ ∃ i < st.groups.length, Open st i := by
  have hmem : Room st.maxSize rs
      ↔ ∃ g ∈ st.groups, g.size < st.maxSize := by
    constructor
    · intro hroom
      obtain ⟨r, hr, hlt⟩ := hroom
      have hsum := List.mem_map_of_mem (f := sumSizes) hr
      rw [← h] at hsum
      obtain ⟨g, hg, hsize⟩ := List.mem_map.1 hsum
      exact ⟨g, hg, hsize ▸ hlt⟩
    · intro hex
      obtain ⟨g, hg, hlt⟩ := hex
      have hsize := List.mem_map_of_mem (f := PathGroup.size) hg
      rw [h] at hsize
      obtain ⟨r, hr, hsum⟩ := List.mem_map.1 hsize
      exact ⟨r, hr, hsum ▸ hlt⟩
  rw [hmem]
  unfold Open
  constructor
  · intro hex
    obtain ⟨g, hg, hlt⟩ := hex
    obtain ⟨i, hi, rfl⟩ := List.getElem_of_mem hg
    refine ⟨i, hi, ?_⟩
    rw [List.getD_eq_getElem?_getD, List.getElem?_eq_getElem hi]
    exact hlt
  · intro hex
    obtain ⟨i, hi, hlt⟩ := hex
    refine ⟨_, List.getElem_mem hi, ?_⟩
    rw [List.getD_eq_getElem?_getD, List.getElem?_eq_getElem hi] at hlt
    exact hlt

/-- With room a file goes where `placeFile` puts it. -/
theorem place_room (p : Path) (hlen : st.groups.length = n)
    (h : ∃ i < st.groups.length, Open st i) :
    ∃ fuel, place n p fuel 0 st
      = some { st with groups := placeFile st.maxSize p st.groups } := by
  obtain ⟨i, hi, hopen⟩ := h
  have hn : 0 < n := by omega
  rcases place_cases p hn st with
    ⟨fuel, j, ⟨_, hj, hroom, hfirst⟩, hrun⟩ | ⟨hfull, _⟩
  · refine ⟨fuel, ?_⟩
    rw [hrun]
    unfold put
    rw [set_eq_placeFile (by omega) hroom
      fun k hk => hfirst k (Nat.zero_le _) hk]
  · exact absurd hopen (hfull i (Nat.zero_le _) (by omega))

/-- If all groups are full and the limit shares out all bytes, what is
still to come is empty. -/
theorem eq_zero_of_full {rest : List UInt64} (hroom : ¬ Room m rs)
    (hfill : BigDataExpress.Filling m rs done)
    (htotal : ((done ++ rest).map UInt64.toNat).sum < 2 ^ 64)
    (hm : ((done ++ rest).map UInt64.toNat).sum ≤ rs.length * m.toNat) :
    ∀ x ∈ rest, x = 0 := by
  obtain ⟨hall, hflat⟩ := hfill.runs hroom
  -- every group has its share
  have hshare : rs.length * m.toNat ≤ (done.map UInt64.toNat).sum := by
    have hdone : (done.map UInt64.toNat).sum < 2 ^ 64 := by
      rw [List.map_append, List.sum_append] at htotal
      omega
    clear hfill htotal hm hroom
    subst hflat
    induction rs with
    | nil => simp
    | cons r rs ih =>
        rw [List.flatten_cons, List.map_append, List.sum_append] at hdone ⊢
        have hr := UInt64.le_iff_toNat_le.1
          (hall r (List.mem_cons_self ..)).1
        rw [toNat_sumSizes (by omega)] at hr
        have hrest := ih (fun r hr => hall r (List.mem_cons_of_mem _ hr))
          (by omega)
        rw [List.length_cons, Nat.succ_mul]
        omega
  rw [List.map_append, List.sum_append] at hm
  have hzero : (rest.map UInt64.toNat).sum = 0 := by omega
  intro x hx
  have hx0 := List.sum_eq_zero_iff_forall_eq_nat.1 hzero x.toNat
    (List.mem_map_of_mem hx)
  exact UInt64.toNat_inj.1 hx0

theorem raised_zero (k : Nat) (st : Filling) : raised 0 k st = st := by
  induction k generalizing st with
  | zero => rfl
  | succ k ih =>
      show raised 0 k (raise 0 st) = st
      rw [show raise 0 st = st from by
        unfold raise
        rw [UInt64.add_zero]]
      exact ih st

/-- If the sizes do not overflow, a file comes to a jam exactly when the
sizes before it are as many runs as there are groups. -/
theorem goes_iff_runs {ps : List Path} (hlen : rs.length = n)
    (hmax : st.maxSize = m) (hholds : Holds st.groups rs)
    (hfill : BigDataExpress.Filling m rs done)
    (htotal : ((done ++ ps.map Path.size).map UInt64.toNat).sum < 2 ^ 64)
    (hm : ((done ++ ps.map Path.size).map UInt64.toNat).sum
      ≤ n * m.toNat) :
    Goes n ps st ↔ ∀ j < ps.length,
      ¬ Runs m n (done ++ (ps.map Path.size).take j) := by
  induction ps generalizing st rs done with
  | nil =>
      exact ⟨fun _ j hj => absurd hj (Nat.not_lt_zero j), fun _ => trivial⟩
  | cons p ps ih =>
      have hgroups : st.groups.length = n := by
        rw [hholds.length, hlen]
      have hzero : Runs m n (done ++ ((p :: ps).map Path.size).take 0)
          ↔ ¬ Room m rs := by
        rw [List.take_zero, List.append_nil, hfill.room_iff, hlen, not_not]
      by_cases hroom : Room m rs
      · have hopen : ∃ i < st.groups.length, Open st i :=
          (room_iff_open hholds).1 (hmax ▸ hroom)
        have hj : ¬ Jammed n st p.size := by
          intro hj
          obtain ⟨i, hi, hopen⟩ := hopen
          exact hj.1 i (by omega) hopen
        obtain ⟨fuel, hrun⟩ := place_room p hgroups hopen
        have hnext : Goes n (p :: ps) st ↔ Goes n ps
            { st with groups := placeFile st.maxSize p st.groups } := by
          constructor
          · exact fun h => h.2 fuel _ hrun
          · intro h
            refine ⟨hj, fun fuel' st' hrun' => ?_⟩
            rw [← place_unique hrun hrun']
            exact h
        have happ : done ++ (p :: ps).map Path.size
            = done ++ [p.size] ++ ps.map Path.size := by simp
        rw [happ] at htotal hm
        have hplaced : Holds (placeFile st.maxSize p st.groups)
            (placeSize m p.size rs) := by
          rw [hmax]
          exact hholds.place m p
        have hmax' : ({ st with groups := placeFile st.maxSize p st.groups } :
            Filling).maxSize = m := hmax
        rw [hnext, ih (by rw [length_placeSize, hlen]) hmax' hplaced
          (hfill.place hroom p.size) htotal hm]
        constructor
        · intro h j hj
          cases j with
          | zero => exact fun hr => hzero.1 hr hroom
          | succ j =>
              have hrun := h j (Nat.lt_of_succ_lt_succ hj)
              rw [List.append_assoc] at hrun
              exact hrun
        · intro h j hj
          have hrun := h (j + 1) (Nat.succ_lt_succ hj)
          rw [List.append_assoc]
          exact hrun
      · -- all groups are full, and the file is empty
        have hsize : p.size = 0 := by
          refine eq_zero_of_full hroom hfill htotal (hlen ▸ hm) p.size ?_
          exact List.mem_cons_self ..
        have hfull : ∀ i < n, ¬ Open st i := by
          intro i hi hopen
          exact hroom (hmax ▸ (room_iff_open hholds).2
            ⟨i, by omega, hopen⟩)
        have hj : Jammed n st p.size := by
          refine ⟨hfull, .inr fun k i _ hi => ?_⟩
          rw [hsize, raised_zero]
          exact hfull i hi
        refine ⟨fun h => absurd hj h.1, fun h => ?_⟩
        exact absurd (hzero.2 hroom) (h 0 (Nat.zero_lt_succ _))

-- ====================================================== what is divided

variable {fs : FileSystem} {dir : Path} {l : Listing}

/-- The directories without bytes have no files. -/
def NoneHidden (dir : Path) : Prop :=
  ∀ d ∈ dir :: walk dir, ∀ m, d.node = .dir m →
    sumSizes m.sizes = 0 → m.sizes = []

/-- The same of what is below a directory. -/
def NoneHiddenIn (q : Path) (l : Listing) : Prop :=
  ∀ d ∈ walkEntries q l, ∀ m, d.node = .dir m →
    sumSizes m.sizes = 0 → m.sizes = []

/-- A walk has a regular file for each size. -/
theorem length_walk_files (hp : l.Plain) (q : Path) :
    ((walkEntries q l).filter Path.isRegularFile).map Path.size
      = l.sizes := by
  induction l generalizing q with
  | done => rfl
  | file n size rest ih =>
      show size :: ((walkEntries q rest).filter _).map _ = _
      rw [ih hp]
      rfl
  | dir n entries rest ih₁ ih₂ =>
      show ((q.child n (.dir entries)
        :: walkEntries (q.child n (.dir entries)) entries
          ++ walkEntries q rest).filter _).map _ = _
      rw [List.filter_append, List.map_append, ih₂ hp.2,
        List.filter_cons_of_neg (by exact Bool.false_ne_true), ih₁ hp.1]
      rfl
  | shut n why rest ih => exact hp.elim
  | other n size rest ih => exact hp.elim

/-- Below directories without files there are none. -/
theorem noneHiddenIn_of_nil (h : l.sizes = []) (q : Path) :
    NoneHiddenIn q l := by
  induction l generalizing q with
  | done => exact fun d hd => absurd hd List.not_mem_nil
  | file n size rest ih => cases h
  | dir n entries rest ih₁ ih₂ =>
      obtain ⟨he, hr⟩ := List.append_eq_nil_iff.1 h
      intro d hd m hm hz
      rcases List.mem_append.1 hd with hd | hd
      · rcases List.mem_cons.1 hd with rfl | hd
        · injection hm with hm
          rw [← hm]
          exact he
        · exact ih₁ he _ d hd m hm hz
      · exact ih₂ hr q d hd m hm hz
  | shut n why rest ih | other n size rest ih =>
      intro d hd m hm hz
      rcases List.mem_cons.1 hd with rfl | hd
      · cases hm
      · exact ih h q d hd m hm hz

/-- The files that are pieces are all files exactly when none is
hidden. -/
theorem pieces_files_iff (hp : l.Plain) {q : Path} (hs : Sized fs q l) :
    ((pieces fs 0 q l).filter Path.isRegularFile).length = l.sizes.length
      ↔ NoneHiddenIn q l := by
  have hle : ∀ (q : Path) (l : Listing), l.Plain →
      ((pieces fs 0 q l).filter Path.isRegularFile).length
        ≤ l.sizes.length := by
    intro q l hp
    have hsub := ((pieces_sublist fs 0 q l).filter
      Path.isRegularFile).length_le
    have hlen := congrArg List.length (length_walk_files hp q)
    rw [List.length_map] at hlen
    omega
  induction l generalizing q with
  | done => exact ⟨fun _ d hd => absurd hd List.not_mem_nil, fun _ => rfl⟩
  | file n size rest ih =>
      have hrest : ((pieces fs 0 q rest).filter
          Path.isRegularFile).length = rest.sizes.length
            ↔ NoneHiddenIn q rest := ih hp (hs.rest [_] rfl)
      have hfile : (pieces fs 0 q (.file n size rest)).filter
          Path.isRegularFile
          = q.child n (.file size)
            :: (pieces fs 0 q rest).filter Path.isRegularFile := rfl
      have hlist : NoneHiddenIn q (.file n size rest)
          ↔ NoneHiddenIn q rest := by
        constructor
        · exact fun h d hd => h d (List.mem_cons_of_mem _ hd)
        · intro h d hd m hm
          rcases List.mem_cons.1 hd with rfl | hd
          · cases hm
          · exact h d hd m hm
      rw [hlist, ← hrest, hfile, List.length_cons,
        show (Listing.file n size rest).sizes = size :: rest.sizes from rfl,
        List.length_cons]
      omega
  | dir n entries rest ih₁ ih₂ =>
      obtain ⟨hsize, hin⟩ := hs.inside
      have hentries : ((pieces fs 0 (q.child n (.dir entries))
          entries).filter Path.isRegularFile).length = entries.sizes.length
            ↔ NoneHiddenIn (q.child n (.dir entries)) entries :=
        ih₁ hp.1 hin
      have hrest : ((pieces fs 0 q rest).filter
          Path.isRegularFile).length = rest.sizes.length
            ↔ NoneHiddenIn q rest := ih₂ hp.2 (hs.rest _ rfl)
      have hlist : NoneHiddenIn q (.dir n entries rest)
          ↔ ((sumSizes entries.sizes = 0 → entries.sizes = [])
              ∧ NoneHiddenIn (q.child n (.dir entries)) entries)
            ∧ NoneHiddenIn q rest := by
        unfold NoneHiddenIn
        show (∀ d ∈ (_ :: _) ++ _, _) ↔ _
        rw [List.forall_mem_append, List.forall_mem_cons]
        refine and_congr_left' (and_congr_left' ?_)
        constructor
        · exact fun h => h entries rfl
        · intro h m hm
          injection hm with hm
          exact hm ▸ h
      have hlen : (Listing.dir n entries rest).sizes.length
          = entries.sizes.length + rest.sizes.length :=
        List.length_append
      have hleRest := hle q rest hp.2
      have hleIn := hle (q.child n (.dir entries)) entries hp.1
      rw [hlist, hlen]
      unfold pieces
      dsimp only
      rw [List.filter_append, List.length_append]
      by_cases hfits : fits fs 0 (q.child n (.dir entries)) = true
      · -- taken whole: no file of it is a piece
        have hz : sumSizes entries.sizes = 0 := by
          unfold fits at hfits
          rw [hsize] at hfits
          exact UInt64.le_zero_iff.1 (of_decide_eq_true hfits)
        rw [if_pos hfits, List.filter_cons_of_neg
          (by exact Bool.false_ne_true), List.filter_nil, List.length_nil,
          ← hrest]
        constructor
        · intro h
          have hnil : entries.sizes = [] :=
            List.length_eq_zero_iff.1 (by omega)
          exact ⟨⟨fun _ => hnil, noneHiddenIn_of_nil hnil _⟩, by omega⟩
        · intro h
          rw [h.1.1 hz, h.2, List.length_nil]
      · have hz : sumSizes entries.sizes ≠ 0 := by
          intro hz
          apply hfits
          unfold fits
          rw [hsize, hz]
          rfl
        rw [if_neg hfits, ← hrest, ← hentries]
        constructor
        · intro h
          exact ⟨⟨fun h => absurd h hz, by omega⟩, by omega⟩
        · intro h
          rw [h.1.2, h.2]
  | shut n why rest ih => exact hp.elim
  | other n size rest ih => exact hp.elim

/-- What `flatten` leaves of the division: regular files below the
directory, and all of them exactly when none is hidden. -/
theorem flatten_spec (hdir : dir.Regular fs) (hl : dir.node = .dir l) :
    ∃ r, divide fs dir 0 0 = .ok r
      ∧ r.flatten.Subperm dir.regularFiles
      ∧ (r.flatten.length = dir.regularFiles.length ↔ NoneHidden dir) := by
  obtain ⟨hplain, _⟩ := hdir.plain l hl
  obtain ⟨_, hsized⟩ := hdir.sized hl
  have hwalk : walk dir = walkEntries dir l := by
    unfold walk
    rw [hl]
  have hfiles := Path.regularFiles_of_dir hl
  have hcount : dir.regularFiles.length = l.sizes.length := by
    rw [hfiles, ← length_walk_files hplain dir, List.length_map]
  have hnone : NoneHidden dir
      ↔ (sumSizes l.sizes = 0 → l.sizes = []) ∧ NoneHiddenIn dir l := by
    unfold NoneHidden NoneHiddenIn
    rw [hwalk, List.forall_mem_cons]
    refine and_congr_left' ⟨fun h => h l hl, fun h m hm => ?_⟩
    rw [hl] at hm
    injection hm with hm
    exact hm ▸ h
  rw [hcount, hnone]
  rcases divide_cases hdir 0 0 with ⟨size, hnode, _⟩ |
    ⟨l', hl', hle, hdiv⟩ | ⟨l', hl', hlt, hdiv, hgroup⟩
  · rw [hl] at hnode
    cases hnode
  · rw [hl] at hl'
    injection hl' with hl'
    subst hl'
    -- the directory is taken whole, and is no file
    have hflat : (({} : PathSuperGroup).addDir dir |>.add
        (({} : PathGroup).add dir (sumSizes l.sizes))).flatten = [] := by
      show [dir].filter Path.isRegularFile ++ [] = []
      have hno : dir.isRegularFile = false := by
        unfold Path.isRegularFile
        rw [hl]
      rw [List.filter_cons_of_neg (by rw [hno]; exact Bool.false_ne_true)]
      rfl
    refine ⟨_, hdiv, ?_, ?_⟩
    · rw [show ((seeded dir).addWhole dir _).super.flatten = [] from hflat]
      exact List.nil_subperm
    · rw [show ((seeded dir).addWhole dir _).super.flatten = [] from hflat]
      have hz := UInt64.le_zero_iff.1 hle
      constructor
      · intro h
        have hnil : l.sizes = [] := List.length_eq_zero_iff.1 h.symm
        exact ⟨fun _ => hnil, noneHiddenIn_of_nil hnil dir⟩
      · intro h
        rw [h.1 hz]
        rfl
  · rw [hl] at hl'
    injection hl' with hl'
    subst hl'
    refine ⟨_, hdiv, ?_⟩
    have hperm := split_entries 0 0 hdir hl
    have hflat : (putAll 0 0 (deposits fs 0 dir l)
        ((seeded dir).addDir dir)).super.flatten.Perm
          ((pieces fs 0 dir l).filter Path.isRegularFile) := by
      have hno : dir.isRegularFile = false := by
        unfold Path.isRegularFile
        rw [hl]
      have hfilter := hperm.filter Path.isRegularFile
      rw [List.filter_cons_of_neg
        (by rw [hno]; exact Bool.false_ne_true)] at hfilter
      unfold Dividing.entries at hfilter
      rw [hgroup, List.append_nil, List.filter_flatMap] at hfilter
      exact hfilter
    refine ⟨?_, ?_⟩
    · refine hflat.subperm.trans ?_
      rw [hfiles]
      exact ((pieces_sublist fs 0 dir l).filter _).subperm
    · rw [hflat.length_eq, pieces_files_iff hplain hsized]
      refine ⟨fun h => ⟨fun hz => ?_, h⟩, fun h => h.2⟩
      rw [hz] at hlt
      exact absurd hlt (UInt64.not_lt.2 (UInt64.zero_le ..))

-- =========================================================== the function

/-- The function returns, however much fuel there is beyond what it
needs, and every regular file below the directory is in exactly one of
the groups. -/
def ReturnsAll (fs : FileSystem) (dir : Path) (n : Nat) : Prop :=
  ∃ groups, (∃ fuel₀, ∀ fuel ≥ fuel₀,
      partition fs dir n fuel = .ok (some groups))
    ∧ groups.length = n
    ∧ (groups.flatMap PathGroup.paths).Perm dir.regularFiles

/-- The first limit shares out all bytes. -/
theorem start_shares (hn : 0 < n) (size : UInt64) :
    size.toNat ≤ n * (start size n).maxSize.toNat := by
  have hdiv := Nat.div_add_mod size.toNat n
  have hlt := size.toNat_lt
  have hle : size.toNat / n ≤ n * (size.toNat / n) :=
    Nat.le_mul_of_pos_left _ hn
  have hmod : size.toNat % n ≤ n * (size.toNat % n) :=
    Nat.le_mul_of_pos_left _ hn
  show _ ≤ n * (UInt64.ofNat (size.toNat / n + size.toNat % n)).toNat
  rw [UInt64.toNat_ofNat', Nat.mod_eq_of_lt (by omega), Nat.mul_add]
  omega

theorem start_length (size : UInt64) : (start size n).groups.length = n :=
  List.length_replicate

theorem start_entries (size : UInt64) : (start size n).entries = [] := by
  unfold Filling.entries start
  exact List.flatMap_eq_nil_iff.2 fun g hg => by
    rw [List.eq_of_mem_replicate hg]

/-- `partition` returns and keeps all files exactly when none is hidden
in a directory without bytes and none comes to a jam. Unless the sizes
overflow, the latter happens when the files before one fill all groups,
each with its last file. -/
theorem partition_returns_all_iff (hdir : dir.Regular fs)
    (hl : dir.node = .dir l) (hn : 0 < n) :
    ∃ r, divide fs dir 0 0 = .ok r
      ∧ (ReturnsAll fs dir n ↔ NoneHidden dir
          ∧ Goes n r.flatten (start (sumSizes l.sizes) n))
      ∧ ((l.sizes.map UInt64.toNat).sum < 2 ^ 64 →
          (ReturnsAll fs dir n ↔ NoneHidden dir
            ∧ ∀ j < r.flatten.length,
              ¬ Runs (start (sumSizes l.sizes) n).maxSize n
                ((r.flatten.map Path.size).take j))) := by
  obtain ⟨r, hdiv, hsub, hcount⟩ := flatten_spec hdir hl
  have hfiles := Path.regularFiles_of_dir hl
  have hnew : New (start (sumSizes l.sizes) n).groups r.flatten := by
    have hwalk := walk_names (p := dir) fun m hm => (hdir.plain m hm).2
    rw [show walk dir = walkEntries dir l by unfold walk; rw [hl]] at hwalk
    have hnames := hwalk.sublist (List.filter_sublist
      (p := Path.isRegularFile))
    rw [← hfiles] at hnames
    obtain ⟨qs, hperm, hqs⟩ := hsub
    refine ⟨(hperm.pairwise_iff fun h => h.symm).1
      (hnames.sublist hqs), fun p _ f hf => ?_⟩
    have hnil : f ∈ (start (sumSizes l.sizes) n).entries := hf
    rw [start_entries] at hnil
    cases hnil
  have hrun : ∀ fuel, partition fs dir n fuel
      = .ok ((placeAll n fuel r.flatten (start (sumSizes l.sizes) n)).map
          Filling.groups) := by
    intro fuel
    unfold partition treeSize
    rw [if_neg (by omega), if_pos (Path.isDirectory_of hl),
      (hdir.sized hl).1, hdiv]
    rfl
  have hlen := start_length (n := n) (sumSizes l.sizes)
  have hall := placeAll_iff hn hlen hnew
  rw [start_entries, List.append_nil] at hall
  have hgen : ReturnsAll fs dir n ↔ NoneHidden dir
      ∧ Goes n r.flatten (start (sumSizes l.sizes) n) := by
    constructor
    · intro h
      obtain ⟨groups, ⟨fuel, hfuel⟩, hgroups, hperm⟩ := h
      have hret := hfuel fuel (Nat.le_refl _)
      rw [hrun] at hret
      injection hret with hret
      obtain ⟨st', hst', rfl⟩ := Option.map_eq_some_iff.1 hret
      -- no more files than are divided, and no fewer than there are
      have hle := placeAll_length hn hlen hnew hst'
      rw [start_entries, show st'.entries.length = _ from hperm.length_eq,
        List.length_nil] at hle
      have heq : r.flatten.length = dir.regularFiles.length :=
        Nat.le_antisymm hsub.length_le (by omega)
      have hsame := hsub.perm_of_length_le (by omega)
      exact ⟨hcount.1 heq,
        hall.1 ⟨fuel, st', hst', hgroups, hperm.trans hsame.symm⟩⟩
    · intro h
      obtain ⟨fuel, st', hst', hgroups, hperm⟩ := hall.2 h.2
      have hsame := hsub.perm_of_length_le (hcount.2 h.1).ge
      refine ⟨st'.groups, ⟨fuel, fun fuel' hge => ?_⟩, hgroups,
        hperm.trans hsame⟩
      obtain ⟨k, rfl⟩ := Nat.exists_eq_add_of_le hge
      rw [hrun, placeAll_mono hst' k]
      rfl
  refine ⟨r, hdiv, hgen, fun htotal => hgen.trans ?_⟩
  refine and_congr_right fun hnone => ?_
  -- with all files divided, the limit shares out their bytes
  have hsame := hsub.perm_of_length_le (hcount.2 hnone).ge
  have hsizes : (r.flatten.map Path.size).Perm l.sizes := by
    rw [← length_walk_files (hdir.plain l hl).1 dir, ← hfiles]
    exact hsame.map Path.size
  have hsum : ((r.flatten.map Path.size).map UInt64.toNat).sum
      = (sumSizes l.sizes).toNat := by
    rw [toNat_sumSizes htotal]
    exact (hsizes.map UInt64.toNat).sum_eq
  have hholds : Holds (start (sumSizes l.sizes) n).groups
      (List.replicate n []) := by
    unfold Holds start
    rw [List.map_replicate, List.map_replicate]
    rfl
  have hstart : BigDataExpress.Filling (start (sumSizes l.sizes) n).maxSize
      (List.replicate n []) [] := BigDataExpress.Filling.start n
  refine goes_iff_runs List.length_replicate rfl hholds hstart ?_ ?_
  · rw [List.nil_append, hsum]
    exact (sumSizes l.sizes).toNat_lt
  · rw [List.nil_append, hsum]
    exact start_shares hn _

/-- A run is not empty, so fewer sizes than groups are no runs. -/
theorem Runs.le_length {l : List UInt64} (hm : 0 < m) (h : Runs m n l) :
    n ≤ l.length := by
  obtain ⟨runs, rfl, hall, rfl⟩ := h
  induction runs with
  | nil => exact Nat.le_refl _
  | cons r runs ih =>
      have hr := (hall r (List.mem_cons_self ..)).1
      have hne : r ≠ [] := by
        intro hnil
        rw [hnil] at hr
        exact absurd (UInt64.lt_of_lt_of_le hm hr) (by decide)
      have hpos := List.length_pos_iff.2 hne
      have hrest := ih fun r hr => hall r (List.mem_cons_of_mem _ hr)
      rw [List.flatten_cons, List.length_append, List.length_cons]
      omega

/-- A directory with bytes is spread over two groups. -/
theorem partition_returns_all_two :
    ReturnsAll (reporting (Listing.ofFiles twoFiles).sizes)
      (Hashing.topOf (.ofFiles twoFiles)) 2 := by
  obtain ⟨r, hr, _, h⟩ := partition_returns_all_iff
    (topOf_regular (l := twoFiles) (by decide)) rfl (Nat.zero_lt_two)
  refine (h (by decide)).2 ⟨?_, ?_⟩
  · intro d hd m hm hz
    rcases List.mem_cons.1 hd with rfl | hd
    · injection hm with hm
      subst hm
      exact absurd hz (by decide)
    · rcases List.mem_cons.1 hd with rfl | hd
      · cases hm
      · rw [List.mem_singleton.1 hd] at hm
        cases hm
  · have hlen : r.flatten.length = 2 := by
      injection hr with hr
      subst hr
      decide +kernel
    intro j hj hruns
    have hle := Runs.le_length (by decide) hruns
    rw [List.length_take, List.length_map] at hle
    omega

-- ----------------------------------------------------- an empty file, last

/-- An empty file that comes when several groups are full ends nothing. -/
theorem placeAll_none {ps : List Path} {j k : Nat} (hn : 1 < n)
    (hj : placeAll n k (ps.take j) st = some st')
    (hfull : ∀ i < n, ¬ Open st' i) (hp : ps[j]? = some p)
    (hsize : p.size = 0) (fuel : Nat) : placeAll n fuel ps st = none := by
  induction ps generalizing st j with
  | nil => cases hp
  | cons q ps ih =>
      cases j with
      | zero =>
          injection hj with hj
          injection hp with hp
          subst hj hp
          have hnone : place n q fuel 0 st = none := by
            refine place_none hn fuel (by omega) (fun i _ => hfull i) ?_
            intro k i _ hi
            rw [hsize, raised_zero]
            exact hfull i hi
          show (place n q fuel 0 st).bind _ = none
          rw [hnone]
          rfl
      | succ j =>
          obtain ⟨st₁, h₁, h₂⟩ := Option.bind_eq_some_iff.1 hj
          show (place n q fuel 0 st).bind _ = none
          cases hq : place n q fuel 0 st with
          | none => rfl
          | some st₂ =>
              rw [place_unique hq h₁]
              exact ih h₂ hp

theorem partition_mono {k : Nat} {groups : List PathGroup}
    (h : partition fs dir n k = .ok (some groups)) (fuel : Nat) :
    partition fs dir n (k + fuel) = .ok (some groups) := by
  unfold partition at h ⊢
  split at h
  · cases h
  · rename_i hn
    rw [if_neg hn]
    obtain ⟨r, hr, h⟩ := Stateful.bind_eq_ok.1 h
    obtain ⟨size, hsize, h⟩ := Stateful.bind_eq_ok.1 h
    injection h with h
    obtain ⟨st', hst', rfl⟩ := Option.map_eq_some_iff.1 h
    rw [hr, hsize]
    show Except.ok ((placeAll n (k + fuel) r.flatten _).map _) = _
    rw [placeAll_mono hst']
    rfl

/-- Two files of one byte, and an empty one. -/
def lastEmpty : List (Name × UInt64) :=
  [(DTNAgent.letter 'x', 1), (DTNAgent.letter 'y', 1),
    (DTNAgent.letter 'z', 0)]

/-- When the empty file comes, the groups are full: of one group it is
left out, and with two the search does not end. -/
theorem empty_file_too_late :
    let fs := reporting (Listing.ofFiles lastEmpty).sizes
    let dir := Hashing.topOf (.ofFiles lastEmpty)
    dir.Regular fs ∧ ¬ ReturnsAll fs dir 1
      ∧ ∀ fuel, partition fs dir 2 fuel = .ok none := by
  intro fs dir
  have hdir : dir.Regular fs := topOf_regular (by decide)
  refine ⟨hdir, ?_, ?_⟩
  · intro h
    obtain ⟨groups, ⟨fuel, hfuel⟩, _, hperm⟩ := h
    have htwo : (partition fs dir 1 2).toOption.join.map
        (fun groups => (groups.flatMap PathGroup.paths).length) = some 2 := by
      decide +kernel
    have hthree : dir.regularFiles.length = 3 := by decide +kernel
    obtain ⟨groups', hsome, htwo⟩ := Option.map_eq_some_iff.1 htwo
    have hrun : partition fs dir 1 2 = .ok (some groups') := by
      cases h : partition fs dir 1 2 with
      | error e =>
          rw [h] at hsome
          cases hsome
      | ok r =>
          rw [h] at hsome
          exact congrArg Except.ok hsome
    have hmore := partition_mono hrun fuel
    rw [hfuel (2 + fuel) (Nat.le_add_left ..)] at hmore
    injection hmore with hmore
    injection hmore with hmore
    rw [← hmore, hperm.length_eq, hthree] at htwo
    cases htwo
  · intro fuel
    obtain ⟨r, hr, _⟩ := flatten_spec hdir rfl
    have hfull : (divide fs dir 0 0).toOption.any (fun r =>
        (placeAll 2 3 (r.flatten.take 2) (start 2 2)).any fun st =>
          decide (¬ Open st 0 ∧ ¬ Open st 1)) = true := by decide +kernel
    have hempty : ((divide fs dir 0 0).toOption.bind fun r =>
        r.flatten[2]?.map Path.size) = some 0 := by decide +kernel
    rw [hr] at hfull hempty
    obtain ⟨p, hp, hsize⟩ := Option.map_eq_some_iff.1 hempty
    rw [Except.toOption, Option.any_some] at hfull
    obtain ⟨st', hst', hall⟩ := (Option.any_eq_true _ _).1 hfull
    have hall := of_decide_eq_true hall
    have hnone : placeAll 2 fuel r.flatten (start 2 2) = none := by
      refine placeAll_none Nat.one_lt_two hst' ?_ hp hsize fuel
      intro i hi
      match i, hi with
      | 0, _ => exact hall.1
      | 1, _ => exact hall.2
    unfold partition
    rw [if_neg (by decide), hr]
    show Except.ok ((placeAll 2 fuel r.flatten (start 2 2)).map _) = _
    rw [hnone]
    rfl

end DirectoryTree

end BigDataExpress
