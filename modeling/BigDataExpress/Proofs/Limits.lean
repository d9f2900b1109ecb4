/-
The limits of a division.

`divide_helper` carries one open group through all the directories it
splits, and three tests close it. The invariant on that group is the
same as the one on the groups that are closed (`Within`): its size is
that of its entries, and the size is within the limit unless one file is
alone over it. A file that is put keeps it (`Within.put`): either the
group had no bytes, or the first test has made sure of the sum. The other
tests only close the group, and it does not matter when.

The number of entries is not kept so. The first test looks at it only if
the group has bytes, so a group of empty files takes any number of them.
What is exact is a condition on the sizes alone, in the order the
division comes to them (`Crowded`).
-/
import BigDataExpress.Proofs.Cover

namespace BigDataExpress

-- ============================================================== the bytes

/-- What a file has, and a directory with everything below it. -/
def Path.bytes (p : Path) : Nat :=
  match p.node with
  | .file size => size.toNat
  | .dir l => (l.sizes.map UInt64.toNat).sum
  | _ => 0

/-- What counts of an entry: the root of a split directory is in the
first group with nothing. -/
def weight (fs : FileSystem) (maxSize : UInt64) (root e : Path) : Nat :=
  if root.isDirectory = true ∧ fits fs maxSize root = false
      ∧ e.below = root.below then 0
  else e.bytes

/-- The size of a group is that of its entries, and is within the limit,
or one file is larger than that and the only entry that counts. -/
structure Within (w : Path → Nat) (maxSize : UInt64) (g : PathGroup) :
    Prop where
  size : g.size.toNat = (g.paths.map w).sum
  limit : g.size ≤ maxSize ∨ ∃ e, g.paths.filter (fun e => w e ≠ 0) = [e]
    ∧ e.isRegularFile = true ∧ maxSize < e.size

variable {fs : FileSystem} {maxSize maxFiles : UInt64} {w : Path → Nat}

/-- Sizes that do not wrap. -/
theorem toNat_sumSizes {l : List UInt64}
    (h : (l.map UInt64.toNat).sum < 2 ^ 64) :
    (sumSizes l).toNat = (l.map UInt64.toNat).sum := by
  induction l with
  | nil => rfl
  | cons x l ih =>
      rw [List.map_cons, List.sum_cons] at h ⊢
      rw [sumSizes_cons, UInt64.toNat_add, ih (by omega)]
      exact Nat.mod_eq_of_lt h

theorem Within.empty : Within w maxSize {} where
  size := rfl
  limit := .inl (UInt64.zero_le)

/-- The entries of a group without bytes have none. -/
theorem Within.no_bytes {g : PathGroup} (h : Within w maxSize g)
    (hg : g.size = 0) : g.paths.filter (fun e => w e ≠ 0) = [] := by
  have hsum : (g.paths.map w).sum = 0 := by
    rw [← h.size, hg]
    rfl
  refine List.filter_eq_nil_iff.mpr fun e he => ?_
  have hzero := List.sum_eq_zero_iff_forall_eq_nat.mp hsum (w e)
    (List.mem_map_of_mem he)
  simp [hzero]

/-- A file is put into a group without bytes, or with room for it. -/
theorem Within.put {g : PathGroup} {p : Path} (h : Within w maxSize g)
    (hp : p.isRegularFile = true) (hw : w p = p.size.toNat)
    (hnew : ∀ e ∈ g.paths, p.name ≠ e.name)
    (hsum : (g.paths.map w).sum + p.size.toNat < 2 ^ 64)
    (hroom : g.size = 0 ∨ g.size + p.size ≤ maxSize) :
    Within w maxSize (g.add p p.size) := by
  have hperm : (insertPath p g.paths).Perm (p :: g.paths) :=
    insertBy_perm hnew
  constructor
  · show (g.size + p.size).toNat = ((insertPath p g.paths).map w).sum
    rw [(hperm.map w).sum_eq, List.map_cons, List.sum_cons, hw,
      UInt64.toNat_add, h.size, Nat.add_comm, Nat.mod_eq_of_lt]
    omega
  · by_cases hzero : g.size = 0
    · show g.size + p.size ≤ maxSize ∨ _
      rw [hzero, UInt64.zero_add]
      by_cases hle : p.size ≤ maxSize
      · exact .inl hle
      · -- the file is alone over the limit
        have hlt := UInt64.not_le.mp hle
        refine .inr ⟨p, ?_, hp, hlt⟩
        apply List.perm_singleton.mp
        refine (hperm.filter _).trans ?_
        have hne : w p ≠ 0 := by
          rw [hw]
          exact Nat.ne_of_gt (Nat.lt_of_le_of_lt (Nat.zero_le _)
            (UInt64.lt_iff_toNat_lt.mp hlt))
        rw [List.filter_cons_of_pos (by simpa using hne), h.no_bytes hzero]
    · exact .inl (hroom.resolve_left hzero)

/-- One entry within the limit. -/
theorem Within.single {p : Path} {size : UInt64} (hw : w p = size.toNat)
    (hle : size ≤ maxSize) :
    Within w maxSize (({} : PathGroup).add p size) := by
  have hsize : (({} : PathGroup).add p size).size = size :=
    UInt64.zero_add size
  constructor
  · rw [hsize, ← hw]
    exact (Nat.add_zero _).symm
  · rw [hsize]
    exact .inl hle

-- ============================================================ the division

/-- The groups, and the open one. -/
def Dividing.all (st : Dividing) : List PathGroup :=
  st.group :: st.super.groups

/-- What holds of a group holds when it is closed. -/
theorem Dividing.flush_all {P : PathGroup → Prop} (st : Dividing)
    (hempty : P {}) : (∀ g ∈ st.flush.all, P g) ↔ ∀ g ∈ st.all, P g := by
  unfold flush all PathSuperGroup.add
  simp only [List.mem_cons, List.mem_append, List.not_mem_nil, or_false]
  constructor
  · intro h g hg
    exact h g (.inr hg.symm)
  · intro h g hg
    rcases hg with rfl | hg
    · exact hempty
    · exact h g hg.symm

theorem Dividing.finish_all {P : PathGroup → Prop} {st : Dividing}
    (hempty : P {}) : (∀ g ∈ st.finish.all, P g) ↔ ∀ g ∈ st.all, P g := by
  unfold finish
  split
  · exact flush_all _ hempty
  · exact Iff.rfl

/-- A file comes: the open group is closed or it has room, the file is
put, and the group may be closed once more. -/
theorem Dividing.addFile_all {P : PathGroup → Prop} {st : Dividing}
    (hempty : P {}) (p : Path) :
    (∀ g ∈ (st.addFile maxSize maxFiles p).all, P g)
      ↔ if st.full maxSize maxFiles p.size
        then (∀ g ∈ st.all, P g) ∧ P (({} : PathGroup).add p p.size)
        else (∀ g ∈ st.super.groups, P g) ∧ P (st.group.add p p.size) := by
  have hall : ∀ s : Dividing, (∀ g ∈ s.all, P g)
      ↔ (∀ g ∈ s.super.groups, P g) ∧ P s.group :=
    fun s => List.forall_mem_cons.trans and_comm
  -- the last test only closes the group
  have hlast : ∀ s : Dividing,
      (∀ g ∈ (if s.group.size + p.size = maxSize then s.flush else s).all,
        P g) ↔ (∀ g ∈ s.super.groups, P g) ∧ P s.group := by
    intro s
    split
    · exact (flush_all _ hempty).trans (hall s)
    · exact hall s
  unfold addFile
  dsimp only
  refine (hlast ⟨_, _⟩).trans ?_
  by_cases hfull : st.full maxSize maxFiles p.size = true
  · rw [if_pos hfull, if_pos hfull]
    have hflush := (flush_all st hempty).symm.trans (hall st.flush)
    show (∀ g ∈ st.flush.super.groups, P g) ∧ _ ↔ _
    rw [hflush]
    exact ⟨fun h => ⟨⟨h.1, hempty⟩, h.2⟩, fun h => ⟨h.1.1, h.2⟩⟩
  · rw [if_neg hfull, if_neg hfull]
    exact Iff.rfl

/-- What is known of a deposit. -/
def Deposit.Weighed (w : Path → Nat) (maxSize : UInt64) : Deposit → Prop
  | file p => p.isRegularFile = true ∧ w p = p.size.toNat
  | whole p size => w p = size.toNat ∧ size ≤ maxSize
  | _ => True

/-- One deposit. -/
theorem Deposit.put_within {d : Deposit} {st : Dividing}
    (h : ∀ g ∈ st.all, Within w maxSize g) (hd : d.Weighed w maxSize)
    (hnew : ∀ p, d.added = some p → ∀ e ∈ st.group.paths,
      p.name ≠ e.name)
    (hsum : (st.group.paths.map w).sum + (d.added.toList.map w).sum
      < 2 ^ 64) :
    ∀ g ∈ (d.put maxSize maxFiles st).all, Within w maxSize g := by
  cases d with
  | file p =>
      have hp : w p < 2 ^ 64 := by
        rw [hd.2]
        exact p.size.toNat_lt
      refine (Dividing.addFile_all Within.empty p).mpr ?_
      split
      · refine ⟨h, Within.empty.put hd.1 hd.2 ?_ ?_ (.inl rfl)⟩
        · exact fun e he => absurd he List.not_mem_nil
        · rw [← hd.2]
          simpa using hp
      · rename_i hfull
        have hopen := h st.group (List.mem_cons_self ..)
        refine ⟨fun g hg => h g (List.mem_cons_of_mem _ hg),
          hopen.put hd.1 hd.2 (hnew p rfl) ?_ ?_⟩
        · rw [← hd.2]
          simpa [added] using hsum
        · -- a group with bytes has entries, and the test was made
          by_cases hzero : st.group.size = 0
          · exact .inl hzero
          · right
            apply UInt64.not_lt.mp
            intro hlt
            apply hfull
            unfold Dividing.full
            have hpos : 0 < st.group.size := UInt64.pos_iff_ne_zero.mpr hzero
            refine decide_eq_true ⟨hpos, ?_, .inl hlt⟩
            apply List.length_pos_iff.mpr
            intro hnil
            have hs := hopen.size
            rw [hnil] at hs
            exact hzero (UInt64.toNat_inj.mp hs)
  | whole p size =>
      intro g hg
      rcases List.mem_cons.mp hg with rfl | hg
      · exact h _ (List.mem_cons_self ..)
      · rcases List.mem_append.mp hg with hg | hg
        · exact h g (List.mem_cons_of_mem _ hg)
        · rw [List.mem_singleton.mp hg]
          exact Within.single hd.1 hd.2
  | split p => exact h
  | stop => exact (Dividing.finish_all Within.empty).mpr h

/-- All deposits. -/
theorem putAll_within (ds : List Deposit) {st : Dividing}
    (h : ∀ g ∈ st.all, Within w maxSize g)
    (hds : ∀ d ∈ ds, d.Weighed w maxSize)
    (hnames : ((st.entries ++ ds.filterMap Deposit.added).map
      Path.name).Nodup)
    (hsum : ((st.entries ++ ds.filterMap Deposit.added).map w).sum
      < 2 ^ 64) :
    ∀ g ∈ (putAll maxSize maxFiles ds st).all, Within w maxSize g := by
  induction ds generalizing st with
  | nil => exact h
  | cons d ds ih =>
      have hput := Deposit.put_perm maxSize maxFiles hnames
      refine ih (d.put_within h (hds d (List.mem_cons_self ..))
          (fun p hp => Deposit.new_name hp hnames) ?_)
        (fun d' hd' => hds d' (List.mem_cons_of_mem _ hd'))
        ((hput.map _).nodup_iff.mpr hnames) ?_
      · have hcons : (d :: ds).filterMap Deposit.added
            = d.added.toList ++ ds.filterMap Deposit.added := by
          cases he : d.added with
          | none => rw [List.filterMap_cons_none he]; rfl
          | some p => rw [List.filterMap_cons_some he]; rfl
        rw [hcons] at hsum
        unfold Dividing.entries at hsum
        simp only [List.map_append, List.sum_append] at hsum ⊢
        omega
      · rw [(hput.map w).sum_eq]
        exact hsum

-- =============================================================== the sizes

theorem Path.bytes_of_dir {q : Path} {l : Listing} (h : q.node = .dir l) :
    q.bytes = (l.sizes.map UInt64.toNat).sum := by
  unfold Path.bytes
  rw [h]

/-- The pieces have all the bytes. -/
theorem pieces_bytes {l : Listing} (hp : l.Plain) (q : Path) :
    ((pieces fs maxSize q l).map Path.bytes).sum
      = (l.sizes.map UInt64.toNat).sum := by
  induction l generalizing q with
  | done => rfl
  | file n size rest ih =>
      exact congrArg (size.toNat + ·) (ih hp q)
  | dir n entries rest ih₁ ih₂ =>
      unfold pieces Listing.sizes
      dsimp only
      rw [List.map_append, List.map_append, List.sum_append,
        List.sum_append, ih₂ hp.2]
      congr 1
      split
      · exact Nat.add_zero _
      · exact ih₁ hp.1 _
  | shut n why rest ih => exact hp.elim
  | other n size rest ih => exact hp.elim

/-- What the division of a directory comes to. -/
theorem deposits_weighed {q : Path} {l : Listing} (hp : l.Plain)
    (hs : Sized fs q l) (hsum : (l.sizes.map UInt64.toNat).sum < 2 ^ 64) :
    ∀ d ∈ deposits fs maxSize q l, d.Weighed Path.bytes maxSize := by
  induction l generalizing q with
  | done =>
      intro d hd
      rw [List.mem_singleton.mp hd]
      trivial
  | file n size rest ih =>
      have hrest : (rest.sizes.map UInt64.toNat).sum < 2 ^ 64 := by
        have : size.toNat + (rest.sizes.map UInt64.toNat).sum < 2 ^ 64 :=
          hsum
        omega
      intro d hd
      rcases List.mem_cons.mp hd with rfl | hd
      · exact ⟨rfl, rfl⟩
      · exact ih hp (hs.rest [_] rfl) hrest d hd
  | dir n entries rest ih₁ ih₂ =>
      unfold Listing.sizes at hsum
      rw [List.map_append, List.sum_append] at hsum
      obtain ⟨hsize, hin⟩ := hs.inside
      have hentries : (entries.sizes.map UInt64.toNat).sum < 2 ^ 64 := by
        omega
      intro d hd
      rcases List.mem_append.mp hd with hd | hd
      · unfold depositDir at hd
        rw [hsize] at hd
        dsimp only at hd
        split at hd
        · rename_i hle
          rw [List.mem_singleton.mp hd]
          exact ⟨(toNat_sumSizes hentries).symm, hle⟩
        · rcases List.mem_cons.mp hd with rfl | hd
          · trivial
          · exact ih₁ hp.1 hin hentries d hd
      · exact ih₂ hp.2 (hs.rest _ rfl) (by omega) d hd
  | shut n why rest ih => exact hp.elim
  | other n size rest ih => exact hp.elim

theorem Deposit.Weighed.congr {w' : Path → Nat} {d : Deposit}
    (h : d.Weighed w maxSize) (hw : ∀ p, d.added = some p → w' p = w p) :
    d.Weighed w' maxSize := by
  cases d with
  | file p => exact ⟨h.1, (hw p rfl).trans h.2⟩
  | whole p size => exact ⟨(hw p rfl).trans h.1, h.2⟩
  | split p => trivial
  | stop => trivial

theorem weight_of_ne {p e : Path} (h : e.below ≠ p.below) :
    weight fs maxSize p e = e.bytes := by
  unfold weight
  rw [if_neg fun hc => h hc.2.2]

/-- A root that is not split counts. -/
theorem weight_of_whole {p : Path}
    (h : p.isDirectory = true → fits fs maxSize p = true) :
    weight fs maxSize p p = p.bytes := by
  unfold weight
  refine if_neg fun hc => ?_
  rw [h hc.1] at hc
  cases hc.2.1

/-- The groups of a directory that is split. -/
theorem split_within {p : Path} {l : Listing} (hp : p.Regular fs)
    (hl : p.node = .dir l) (hsum : p.bytes < 2 ^ 64)
    (hlt : maxSize < sumSizes l.sizes) :
    ∀ g ∈ (putAll maxSize maxFiles (deposits fs maxSize p l)
        ((seeded p).addDir p)).all,
      Within (weight fs maxSize p) maxSize g := by
  obtain ⟨hsize, hsized⟩ := hp.sized hl
  have hplain := (hp.plain l hl).1
  rw [Path.bytes_of_dir hl] at hsum
  have hroot : weight fs maxSize p p = 0 := by
    have hfits : fits fs maxSize p = false := by
      unfold fits
      rw [hsize]
      exact decide_eq_false (UInt64.not_le.mpr hlt)
    unfold weight
    rw [if_pos ⟨Path.isDirectory_of hl, hfits, rfl⟩]
  -- a piece is below the root, and counts
  have hpiece : ∀ e ∈ pieces fs maxSize p l,
      weight fs maxSize p e = e.bytes := by
    intro e he
    apply weight_of_ne
    obtain ⟨n, -, r, hr⟩ := walkEntries_names ((pieces_sublist _ _ p l).subset he)
    rw [hr]
    intro hc
    have hlen := congrArg List.length hc
    rw [List.length_append, List.length_cons] at hlen
    omega
  apply putAll_within
  · intro g hg
    rw [List.mem_singleton.mp hg]
    exact Within.single hroot UInt64.zero_le
  · intro d hd
    refine (deposits_weighed hplain hsized hsum d hd).congr fun e he => ?_
    apply hpiece
    rw [← deposits_entries hplain hsized]
    exact List.mem_filterMap.mpr ⟨d, hd, he⟩
  · rw [seeded_deposits hp hl]
    exact pieces_names hp hl
  · rw [seeded_deposits hp hl, List.map_cons, List.sum_cons, hroot,
      List.map_congr_left hpiece, pieces_bytes hplain, Nat.zero_add]
    exact hsum

/-- Every group of a division is within the limit. -/
theorem divide_within_size {p : Path} (hp : p.Regular fs)
    (hsum : p.bytes < 2 ^ 64) (maxSize maxFiles : UInt64) :
    ∃ r, divide fs p maxSize maxFiles = .ok r ∧
      ∀ g ∈ r.groups, Within (weight fs maxSize p) maxSize g := by
  rcases divide_cases hp maxSize maxFiles with
    ⟨size, hnode, hr⟩ | ⟨l, hl, hle, hr⟩ | ⟨l, hl, hlt, hr, -⟩
  · refine ⟨_, hr, fun g hg => ?_⟩
    rw [List.mem_singleton.mp hg]
    have hfile : p.isRegularFile = true ∧ p.isDirectory = false
        ∧ p.size = size ∧ p.bytes = size.toNat := by
      unfold Path.isRegularFile Path.isDirectory Path.size Path.bytes
      rw [hnode]
      exact ⟨rfl, rfl, rfl, rfl⟩
    obtain ⟨hreg, hdir, hsize, hbytes⟩ := hfile
    have hw : weight fs maxSize p p = p.size.toNat := by
      rw [weight_of_whole, hbytes, hsize]
      intro hc
      rw [hdir] at hc
      cases hc
    rw [← hsize]
    refine Within.empty.put hreg hw ?_ ?_ (.inl rfl)
    · exact fun e he => absurd he List.not_mem_nil
    · show 0 + _ < _
      rw [Nat.zero_add]
      exact p.size.toNat_lt
  · refine ⟨_, hr, fun g hg => ?_⟩
    rw [List.mem_singleton.mp hg]
    refine Within.single ?_ hle
    have hfits : fits fs maxSize p = true := by
      unfold fits
      rw [(hp.sized hl).1]
      exact decide_eq_true hle
    rw [Path.bytes_of_dir hl] at hsum
    rw [weight_of_whole fun _ => hfits, Path.bytes_of_dir hl,
      toNat_sumSizes hsum]
  · exact ⟨_, hr, fun g hg =>
      split_within hp hl hsum hlt g (List.mem_cons_of_mem _ hg)⟩

/-- Files of 2 and 3 bytes, groups of 2: one is over the limit alone. -/
theorem divide_within_size_two :
    ∃ r, divide (reporting (Listing.ofFiles twoFiles).sizes)
        (Hashing.topOf (.ofFiles twoFiles)) 2 0 = .ok r
      ∧ ∀ g ∈ r.groups, Within (weight
        (reporting (Listing.ofFiles twoFiles).sizes) 2
        (Hashing.topOf (.ofFiles twoFiles))) 2 g :=
  divide_within_size (topOf_regular (by decide)) (by decide) 2 0

-- =========================================================== the number

/-- The sizes of the files in a directory that is split and in those
below it that are, in order. Nothing stands for the end of one. -/
def arrivals (fs : FileSystem) (maxSize : UInt64) (q : Path) :
    Listing → List (Option UInt64)
  | .done => [none]
  | .file _ size rest => some size :: arrivals fs maxSize q rest
  | .dir n entries rest =>
      let d := q.child n (.dir entries)
      (if fits fs maxSize d then [] else arrivals fs maxSize d entries)
        ++ arrivals fs maxSize q rest
  | .shut _ _ rest => arrivals fs maxSize q rest
  | .other _ _ rest => arrivals fs maxSize q rest

/-- The sizes that stand together after one more has come. A directory's
end parts them, and so do the limits, of which that on their number is
looked at only where there are bytes. -/
def gather (maxSize maxFiles : UInt64) (sizes : List UInt64) :
    Option UInt64 → List UInt64
  | none => []
  | some size =>
      let kept := if 0 < sumSizes sizes ∧ (maxSize < sumSizes sizes + size
          ∨ (maxFiles ≠ 0 ∧ maxFiles.toNat < sizes.length + 1))
        then [] else sizes
      if sumSizes (kept ++ [size]) + size = maxSize then []
      else kept ++ [size]

/-- A file comes where as many as there may be stand together, without a
byte. -/
def CrowdedFrom (maxSize maxFiles : UInt64) (sizes : List UInt64)
    (l : List (Option UInt64)) : Prop :=
  ∃ before size after, l = before ++ some size :: after
    ∧ maxFiles.toNat
      ≤ (before.foldl (gather maxSize maxFiles) sizes).length
    ∧ sumSizes (before.foldl (gather maxSize maxFiles) sizes) = 0

/-- The root is there before the files, with nothing. -/
def Crowded (fs : FileSystem) (maxSize maxFiles : UInt64) (p : Path) :
    Prop :=
  ∃ l, p.node = .dir l
    ∧ CrowdedFrom maxSize maxFiles [0] (arrivals fs maxSize p l)

theorem not_crowdedFrom_nil {sizes : List UInt64} :
    ¬ CrowdedFrom maxSize maxFiles sizes [] := by
  intro h
  obtain ⟨before, size, after, heq, -⟩ := h
  exact absurd heq (List.append_ne_nil_of_right_ne_nil _
    (List.cons_ne_nil _ _)).symm

theorem crowdedFrom_cons {sizes : List UInt64} {a : Option UInt64}
    {l : List (Option UInt64)} :
    CrowdedFrom maxSize maxFiles sizes (a :: l)
      ↔ (a ≠ none ∧ maxFiles.toNat ≤ sizes.length ∧ sumSizes sizes = 0)
        ∨ CrowdedFrom maxSize maxFiles (gather maxSize maxFiles sizes a)
          l := by
  constructor
  · intro h
    obtain ⟨before, size, after, heq, hlen, hsum⟩ := h
    cases before with
    | nil =>
        obtain ⟨rfl, -⟩ := List.cons.inj heq
        exact .inl ⟨Option.some_ne_none _, hlen, hsum⟩
    | cons b before =>
        obtain ⟨rfl, rfl⟩ := List.cons.inj heq
        exact .inr ⟨before, size, after, rfl, hlen, hsum⟩
  · intro h
    rcases h with ⟨ha, hlen, hsum⟩ | ⟨before, size, after, heq, hlen, hsum⟩
    · obtain ⟨size, rfl⟩ := Option.ne_none_iff_exists'.mp ha
      exact ⟨[], size, l, rfl, hlen, hsum⟩
    · exact ⟨a :: before, size, after, by rw [heq]; rfl, hlen, hsum⟩

/-- The open group has entries of these sizes. -/
def Dividing.Stands (st : Dividing) (sizes : List UInt64) : Prop :=
  st.group.size = sumSizes sizes ∧ st.group.count = sizes.length

theorem Dividing.Stands.full_iff {st : Dividing} {sizes : List UInt64}
    (h : st.Stands sizes) (size : UInt64) :
    st.full maxSize maxFiles size = true
      ↔ 0 < sumSizes sizes ∧ (maxSize < sumSizes sizes + size
        ∨ (maxFiles ≠ 0 ∧ maxFiles.toNat < sizes.length + 1)) := by
  unfold full
  rw [decide_eq_true_eq, h.1, h.2]
  constructor
  · exact fun hf => ⟨hf.1, hf.2.2⟩
  · intro hf
    refine ⟨hf.1, ?_, hf.2⟩
    -- without sizes there are no bytes
    apply List.length_pos_iff.mpr
    intro hnil
    rw [hnil] at hf
    exact absurd hf.1 (by decide)

theorem Dividing.Stands.put {st : Dividing} {sizes : List UInt64}
    {p : Path} (h : st.Stands sizes)
    (hnew : ∀ e ∈ st.group.paths, p.name ≠ e.name) :
    ({ st with group := st.group.add p p.size } : Dividing).Stands
      (sizes ++ [p.size]) := by
  constructor
  · show st.group.size + p.size = _
    rw [sumSizes_snoc, h.1]
  · show (insertBy Path.name p st.group.paths).length = _
    rw [(insertBy_perm hnew).length_eq, List.length_cons,
      List.length_append, ← h.2]
    rfl

/-- A file comes. -/
theorem Dividing.Stands.addFile {st : Dividing} {sizes : List UInt64}
    {p : Path} (h : st.Stands sizes)
    (hnew : ∀ e ∈ st.group.paths, p.name ≠ e.name) :
    (st.addFile maxSize maxFiles p).Stands
      (gather maxSize maxFiles sizes (some p.size)) := by
  have hlast : ∀ {s : Dividing} {sizes : List UInt64}, s.Stands sizes →
      (if s.group.size + p.size = maxSize then s.flush else s).Stands
        (if sumSizes sizes + p.size = maxSize then [] else sizes) := by
    intro s sizes hs
    rw [hs.1]
    split
    · exact ⟨rfl, rfl⟩
    · exact hs
  unfold Dividing.addFile gather
  dsimp only
  simp only [← h.full_iff]
  refine hlast (s := ⟨_, _⟩) ?_
  by_cases hfull : st.full maxSize maxFiles p.size = true
  · rw [if_pos hfull, if_pos hfull]
    have hflush : st.flush.Stands [] := ⟨rfl, rfl⟩
    exact hflush.put fun e he => absurd he List.not_mem_nil
  · rw [if_neg hfull, if_neg hfull]
    exact h.put hnew

/-- All groups have at most `n` entries. -/
def Dividing.Small (n : Nat) (st : Dividing) : Prop :=
  ∀ g ∈ st.all, g.count ≤ n

/-- A file that comes leaves them so, unless there is no room and no
byte. -/
theorem Dividing.Stands.small_addFile {st : Dividing}
    {sizes : List UInt64} {p : Path} (h : st.Stands sizes)
    (hnew : ∀ e ∈ st.group.paths, p.name ≠ e.name)
    (hm : 1 ≤ maxFiles.toNat) :
    (st.addFile maxSize maxFiles p).Small maxFiles.toNat
      ↔ st.Small maxFiles.toNat
        ∧ ¬ (maxFiles.toNat ≤ sizes.length ∧ sumSizes sizes = 0) := by
  have hput : (st.group.add p p.size).count = sizes.length + 1 := by
    have := (h.put hnew).2
    rw [List.length_append] at this
    exact this
  refine (addFile_all (P := fun g => g.count ≤ maxFiles.toNat)
    (Nat.zero_le _) p).trans ?_
  split
  · rename_i hfull
    have hpos := ((h.full_iff _).mp hfull).1
    refine ⟨fun hs => ⟨hs.1, fun hc => ?_⟩, fun hs => ⟨hs.1, hm⟩⟩
    rw [hc.2] at hpos
    exact absurd hpos (by decide)
  · rename_i hfull
    rw [hput]
    have hall : st.Small maxFiles.toNat
        ↔ sizes.length ≤ maxFiles.toNat
          ∧ ∀ g ∈ st.super.groups, g.count ≤ maxFiles.toNat := by
      unfold Small all
      rw [List.forall_mem_cons, h.2]
    rw [hall]
    constructor
    · intro hs
      refine ⟨⟨by omega, hs.1⟩, fun hc => ?_⟩
      omega
    · intro hs
      refine ⟨hs.1.2, ?_⟩
      -- with bytes the test was made
      by_cases hzero : sumSizes sizes = 0
      · have hlt : ¬ maxFiles.toNat ≤ sizes.length :=
          fun hc => hs.2 ⟨hc, hzero⟩
        omega
      · apply Nat.not_lt.mp
        intro hlt
        refine hfull ((h.full_iff _).mpr
          ⟨UInt64.pos_iff_ne_zero.mpr hzero, .inr ⟨?_, hlt⟩⟩)
        intro hc
        rw [hc] at hm
        exact absurd hm (by decide)

/-- What a deposit is to the open group. -/
def Deposit.arrival? : Deposit → Option (Option UInt64)
  | file p => some (some p.size)
  | stop => some none
  | _ => none

/-- All deposits. -/
theorem putAll_small (maxSize : UInt64) (ds : List Deposit) {st : Dividing}
    {sizes : List UInt64} (h : st.Stands sizes)
    (hnames : ((st.entries ++ ds.filterMap Deposit.added).map
      Path.name).Nodup)
    (hm : 1 ≤ maxFiles.toNat) :
    (putAll maxSize maxFiles ds st).Small maxFiles.toNat
      ↔ st.Small maxFiles.toNat
        ∧ ¬ CrowdedFrom maxSize maxFiles sizes
          (ds.filterMap Deposit.arrival?) := by
  induction ds generalizing st sizes with
  | nil => exact ⟨fun hs => ⟨hs, not_crowdedFrom_nil⟩, And.left⟩
  | cons d ds ih =>
      have hput := Deposit.put_perm maxSize maxFiles hnames
      have hnext := (hput.map Path.name).nodup_iff.mpr hnames
      cases d with
      | file p =>
          have hnew := Deposit.new_name rfl hnames
          refine (ih (h.addFile hnew) hnext).trans ?_
          show (st.addFile maxSize maxFiles p).Small _ ∧ _ ↔ _
            ∧ ¬ CrowdedFrom _ _ _ (some p.size :: _)
          rw [h.small_addFile hnew hm, crowdedFrom_cons, not_or, and_assoc]
          simp
      | whole p size =>
          refine (@ih (st.addWhole p size) sizes h hnext).trans ?_
          refine and_congr_left fun _ => ?_
          constructor
          · intro hs g hg
            refine hs g ?_
            rcases List.mem_cons.mp hg with rfl | hg
            · exact List.mem_cons_self ..
            · exact List.mem_cons_of_mem _ (List.mem_append_left _ hg)
          · intro hs g hg
            rcases List.mem_cons.mp hg with rfl | hg
            · exact hs _ (List.mem_cons_self ..)
            · rcases List.mem_append.mp hg with hg | hg
              · exact hs g (List.mem_cons_of_mem _ hg)
              · rw [List.mem_singleton.mp hg]
                exact hm
      | split p => exact ih h hnext
      | stop =>
          have hfinish : st.finish.Stands [] := by
            unfold Dividing.finish
            split
            · exact ⟨rfl, rfl⟩
            · rename_i hcount
              have hlen : sizes = [] := by
                apply List.length_eq_zero_iff.mp
                have := h.2
                omega
              rw [hlen] at h
              exact h
          refine (ih hfinish hnext).trans ?_
          show st.finish.Small _ ∧ _ ↔ _
            ∧ ¬ CrowdedFrom _ _ _ (none :: _)
          have hsmall : st.finish.Small maxFiles.toNat
              ↔ st.Small maxFiles.toNat :=
            Dividing.finish_all (P := fun g => g.count ≤ maxFiles.toNat)
              (Nat.zero_le _)
          rw [hsmall, crowdedFrom_cons, not_or]
          exact and_congr_right fun _ => ⟨fun hc => ⟨fun hn => hn.1 rfl, hc⟩,
            And.right⟩

/-- The deposits come as the files do. -/
theorem deposits_arrivals {q : Path} {l : Listing} (hp : l.Plain)
    (hs : Sized fs q l) :
    (deposits fs maxSize q l).filterMap Deposit.arrival?
      = arrivals fs maxSize q l := by
  induction l generalizing q with
  | done => rfl
  | file n size rest ih =>
      exact congrArg (some size :: ·) (ih hp (hs.rest [_] rfl))
  | dir n entries rest ih₁ ih₂ =>
      obtain ⟨hsize, hin⟩ := hs.inside
      unfold deposits arrivals
      dsimp only
      rw [List.filterMap_append, ih₂ hp.2 (hs.rest _ rfl)]
      unfold depositDir fits
      rw [hsize]
      dsimp only
      by_cases hle : sumSizes entries.sizes ≤ maxSize
      · rw [if_pos hle, if_pos (decide_eq_true hle)]
        rfl
      · rw [if_neg hle, if_neg (by simpa using hle),
          ← ih₁ hp.1 hin]
        rfl
  | shut n why rest ih => exact hp.elim
  | other n size rest ih => exact hp.elim

/-- No group of a division has more entries than it may, exactly when the
root is not split or the files do not crowd. -/
theorem divide_within_count_iff {p : Path} (hp : p.Regular fs)
    (hm : 1 ≤ maxFiles) :
    ∃ r, divide fs p maxSize maxFiles = .ok r
      ∧ ((∀ g ∈ r.groups, g.count ≤ maxFiles.toNat)
        ↔ ¬ (Larger fs maxSize p ∧ Crowded fs maxSize maxFiles p)) := by
  have hm : 1 ≤ maxFiles.toNat := UInt64.le_iff_toNat_le.mp hm
  have hone : ∀ (e : Path) (size : UInt64),
      ∀ g ∈ [({} : PathGroup).add e size], g.count ≤ maxFiles.toNat := by
    intro e size g hg
    rw [List.mem_singleton.mp hg]
    exact hm
  rcases divide_cases hp maxSize maxFiles with
    ⟨size, hnode, hr⟩ | ⟨l, hl, hle, hr⟩ | ⟨l, hl, hlt, hr, hempty⟩
  · refine ⟨_, hr, fun _ hc => ?_, fun _ => hone p size⟩
    obtain ⟨-, l, hl, -⟩ := hc
    rw [hnode] at hl
    cases hl
  · refine ⟨_, hr, fun _ hc => ?_, fun _ => hone p _⟩
    obtain ⟨⟨size, hsize, hlt⟩, -⟩ := hc
    rw [(hp.sized hl).1] at hsize
    injection hsize with hsize
    rw [← hsize] at hlt
    exact UInt64.not_lt.mpr hle hlt
  · refine ⟨_, hr, ?_⟩
    have hseed : ((seeded p).addDir p).Stands [0] := ⟨rfl, rfl⟩
    have hnames : ((((seeded p).addDir p).entries
        ++ (deposits fs maxSize p l).filterMap Deposit.added).map
          Path.name).Nodup := by
      rw [seeded_deposits hp hl]
      exact pieces_names hp hl
    have hall := putAll_small maxSize _ hseed hnames hm
    rw [deposits_arrivals (hp.plain l hl).1 (hp.sized hl).2] at hall
    have hlarger : Larger fs maxSize p := ⟨_, (hp.sized hl).1, hlt⟩
    have hcrowded : Crowded fs maxSize maxFiles p
        ↔ CrowdedFrom maxSize maxFiles [0] (arrivals fs maxSize p l) := by
      constructor
      · intro hc
        obtain ⟨m, hm, hc⟩ := hc
        rw [hl] at hm
        injection hm with hm
        rw [hm]
        exact hc
      · exact fun hc => ⟨l, hl, hc⟩
    have hstart : ((seeded p).addDir p).Small maxFiles.toNat := by
      intro g hg
      rw [List.mem_singleton.mp hg]
      exact hm
    rw [hcrowded]
    constructor
    · intro hs hc
      refine (hall.mp fun g hg => ?_).2 hc.2
      rcases List.mem_cons.mp hg with rfl | hg
      · unfold PathGroup.count
        rw [hempty]
        exact Nat.zero_le _
      · exact hs g hg
    · intro hc g hg
      exact hall.mpr ⟨hstart, fun h => hc ⟨hlarger, h⟩⟩ g
        (List.mem_cons_of_mem _ hg)

/-- Two files of 2 and 3 bytes, groups of at most 4 bytes and 2
entries. -/
theorem divide_within_count_two :
    ∃ r, divide (reporting (Listing.ofFiles twoFiles).sizes)
        (Hashing.topOf (.ofFiles twoFiles)) 4 2 = .ok r
      ∧ ((∀ g ∈ r.groups, g.count ≤ (2 : UInt64).toNat)
        ↔ ¬ (Larger (reporting (Listing.ofFiles twoFiles).sizes) 4
            (Hashing.topOf (.ofFiles twoFiles))
          ∧ Crowded (reporting (Listing.ofFiles twoFiles).sizes) 4 2
            (Hashing.topOf (.ofFiles twoFiles)))) :=
  divide_within_count_iff (topOf_regular (by decide)) (by decide)

/-- Two empty files and one of 2 bytes. -/
def emptyFiles : List (Name × UInt64) :=
  [(DTNAgent.letter 'x', 0), (DTNAgent.letter 'y', 0),
    (DTNAgent.letter 'z', 2)]

/-- Groups of at most 2 entries: all files are in one group, with the
directory. -/
theorem empty_files_crowd :
    (Hashing.topOf (.ofFiles emptyFiles)).Regular
        (reporting (Listing.ofFiles emptyFiles).sizes)
      ∧ ∀ r, divide (reporting (Listing.ofFiles emptyFiles).sizes)
          (Hashing.topOf (.ofFiles emptyFiles)) 1 2 = .ok r →
        r.groups.map PathGroup.count = [4]
          ∧ ¬ ∀ g ∈ r.groups, g.count ≤ (2 : UInt64).toNat := by
  refine ⟨topOf_regular (by decide), fun r hr => ?_⟩
  injection hr with hr
  subst hr
  decide +kernel

end BigDataExpress
