/-
The groups of a flat list of paths.

`group_by_size` keeps one open group. Of every turn of its loop
`Grouping.step_cases` tells the four outcomes, and the two invariants are
read off it. `Kept` holds for any limits: the groups and the open one
together are the files and directories seen, and no group is empty, since
an open group without paths has size 0 and no path fails to fit it.
`Bounded` needs a size limit that leaves room for a sum: the open group
is within it, and below the limit on the number of paths, which is why a
group that was just begun may stay open. With a limit of one path no
group is ever begun that way, because none is open.

`group_into` then takes the last groups away and deals their paths to the
others. Dealing loses nothing, and it ends because at least one group is
there to deal to.
-/
import BigDataExpress.Utils.DirTree
import Mathlib.Algebra.Order.Group.Nat
import Mathlib.Algebra.Ring.Nat

namespace BigDataExpress

/-- What a grouping takes. -/
def grouped (p : Path) : Bool := p.isRegularFile || p.isDirectory

/-- The size of a group, exactly. -/
def groupBytes (g : List Path) : Nat := (g.map fun p => p.size.toNat).sum

theorem groupBytes_snoc (g : List Path) (p : Path) :
    groupBytes (g ++ [p]) = groupBytes g + p.size.toNat := by
  unfold groupBytes
  rw [List.map_append, List.sum_append]
  simp

-- ============================================================= one turn

namespace Grouping

variable {maxSize maxFiles : UInt64} {s : Grouping} {p : Path}

/-- The open group with a path more. -/
def join (s : Grouping) (p : Path) : Grouping :=
  { s with current := s.current ++ [p], size := s.size + p.size }

/-- The open group after which the loop closes it. -/
def Full (maxSize maxFiles : UInt64) (s : Grouping) : Prop :=
  maxSize ≤ s.size ∨ (0 < maxFiles ∧ maxFiles.toNat ≤ s.current.length)

/-- What a turn does: it passes over the path, makes it a group of its
own, adds it to the open group, or begins a new one with it. -/
theorem step_cases (maxSize maxFiles : UInt64) (s : Grouping) (p : Path) :
    (grouped p = false ∧ step maxSize maxFiles s p = s)
    ∨ (grouped p = true ∧ maxSize < p.size
        ∧ step maxSize maxFiles s p = { s with result := s.result ++ [[p]] })
    ∨ (grouped p = true ∧ p.size ≤ maxSize ∧ p.size + s.size ≤ maxSize
        ∧ ((Full maxSize maxFiles (s.join p)
            ∧ step maxSize maxFiles s p = (s.join p).close)
          ∨ (¬ Full maxSize maxFiles (s.join p)
            ∧ step maxSize maxFiles s p = s.join p)))
    ∨ (grouped p = true ∧ p.size ≤ maxSize ∧ maxSize < p.size + s.size
        ∧ step maxSize maxFiles s p
          = { s.close with current := [p], size := p.size }) := by
  unfold step
  by_cases hp : (p.isRegularFile || p.isDirectory) = true
  · rw [if_neg (by rw [hp]; decide)]
    by_cases hlarge : maxSize < p.size
    · rw [if_pos hlarge]
      exact .inr (.inl ⟨hp, hlarge, rfl⟩)
    · rw [if_neg hlarge]
      have hle := UInt64.not_lt.1 hlarge
      by_cases hfit : p.size + s.size ≤ maxSize
      · rw [if_pos hfit]
        refine .inr (.inr (.inl ⟨hp, hle, hfit, ?_⟩))
        by_cases hfull : Full maxSize maxFiles (s.join p)
        · exact .inl ⟨hfull, if_pos hfull⟩
        · exact .inr ⟨hfull, if_neg hfull⟩
      · rw [if_neg hfit]
        exact .inr (.inr (.inr ⟨hp, hle, UInt64.not_le.1 hfit, rfl⟩))
  · rw [if_pos (by simpa using hp)]
    exact .inl ⟨by simpa [grouped] using hp, rfl⟩

/-- An invariant of the loop, over the paths it has seen. -/
theorem foldl_step {I : List Path → Grouping → Prop} (h0 : I [] {})
    (hstep : ∀ seen s p, I seen s →
      I (seen ++ [p]) (step maxSize maxFiles s p)) (paths : List Path) :
    I paths (paths.foldl (step maxSize maxFiles) {}) := by
  have hgen : ∀ (rest seen : List Path) (s : Grouping), I seen s →
      I (seen ++ rest) (rest.foldl (step maxSize maxFiles) s) := by
    intro rest
    induction rest with
    | nil =>
        intro seen s h
        rw [List.append_nil]
        exact h
    | cons p rest ih =>
        intro seen s h
        have hnext := ih (seen ++ [p]) _ (hstep seen s p h)
        rw [List.append_assoc] at hnext
        exact hnext
  exact hgen paths [] {} h0

-- ========================================================= what is kept

/-- The groups hold what was seen, and none is empty. -/
structure Kept (seen : List Path) (s : Grouping) : Prop where
  perm : (s.result.flatten ++ s.current).Perm (seen.filter grouped)
  nonempty : ∀ g ∈ s.result, g ≠ []
  zero : s.current = [] → s.size = 0

theorem Kept.init : Kept [] {} := by
  refine ⟨.nil, ?_, fun _ => rfl⟩
  intro g hg
  cases hg

/-- One path more is seen. -/
theorem filter_snoc {seen : List Path} (hp : grouped p = true) :
    (seen ++ [p]).filter grouped = seen.filter grouped ++ [p] := by
  rw [List.filter_append, List.filter_cons_of_pos hp, List.filter_nil]

theorem Kept.join {seen : List Path} (h : Kept seen s)
    (hp : grouped p = true) : Kept (seen ++ [p]) (s.join p) := by
  refine ⟨?_, h.nonempty, ?_⟩
  · rw [filter_snoc hp]
    show (s.result.flatten ++ (s.current ++ [p])).Perm _
    rw [← List.append_assoc]
    exact h.perm.append_right [p]
  · intro hnil
    have := congrArg List.length hnil
    simp [Grouping.join] at this

theorem Kept.close {seen : List Path} (h : Kept seen s)
    (hne : s.current ≠ []) : Kept seen s.close := by
  refine ⟨?_, ?_, fun _ => rfl⟩
  · show ((s.result ++ [s.current]).flatten ++ []).Perm _
    rw [List.append_nil, List.flatten_append, List.flatten_singleton]
    exact h.perm
  · intro g hg
    rcases List.mem_append.1 hg with hg | hg
    · exact h.nonempty g hg
    · rw [List.mem_singleton.1 hg]
      exact hne

theorem join_ne_nil : (s.join p).current ≠ [] := by
  simp [join]

/-- A path that is small enough but does not fit has found a group that
is not empty. -/
theorem Kept.current_ne_nil {seen : List Path} (h : Kept seen s)
    (hle : p.size ≤ maxSize) (hlt : maxSize < p.size + s.size) :
    s.current ≠ [] := by
  intro hnil
  rw [h.zero hnil, UInt64.add_zero] at hlt
  exact UInt64.not_lt.2 hle hlt

theorem Kept.step {seen : List Path} (h : Kept seen s) :
    Kept (seen ++ [p]) (step maxSize maxFiles s p) := by
  rcases step_cases maxSize maxFiles s p with
    ⟨hp, heq⟩ | ⟨hp, _, heq⟩ | ⟨hp, _, _, ⟨_, heq⟩ | ⟨_, heq⟩⟩
      | ⟨hp, hle, hlt, heq⟩
  · rw [heq]
    refine ⟨?_, h.nonempty, h.zero⟩
    rw [List.filter_append, List.filter_cons_of_neg (by simp [hp]),
      List.filter_nil, List.append_nil]
    exact h.perm
  · rw [heq]
    refine ⟨?_, ?_, h.zero⟩
    · rw [filter_snoc hp]
      show ((s.result ++ [[p]]).flatten ++ s.current).Perm _
      rw [List.flatten_append, List.flatten_singleton, List.append_assoc]
      refine (List.Perm.append_left _ List.perm_append_comm).trans ?_
      rw [← List.append_assoc]
      exact h.perm.append_right [p]
    · intro g hg
      rcases List.mem_append.1 hg with hg | hg
      · exact h.nonempty g hg
      · rw [List.mem_singleton.1 hg]
        exact List.cons_ne_nil _ _
  · rw [heq]
    exact (h.join hp).close join_ne_nil
  · rw [heq]
    exact h.join hp
  · rw [heq]
    have hclose := h.close (h.current_ne_nil hle hlt)
    refine ⟨?_, hclose.nonempty, fun hnil => absurd hnil
      (List.cons_ne_nil _ _)⟩
    rw [filter_snoc hp]
    have hperm := hclose.perm.append_right [p]
    rw [show s.close.current = [] from rfl, List.append_nil] at hperm
    exact hperm

-- ======================================================== what is bound

/-- A group within the limits: its size is, or it is one file alone, and
it has not too many paths. -/
def Fitting (maxSize maxFiles : UInt64) (g : List Path) : Prop :=
  (groupBytes g ≤ maxSize.toNat
    ∨ ∃ p, g = [p] ∧ p.isRegularFile = true ∧ maxSize < p.size)
  ∧ (0 < maxFiles → g.length ≤ maxFiles.toNat)

/-- The closed groups are within the limits, and there is room for a path
in the open one. -/
structure Bounded (maxSize maxFiles : UInt64) (s : Grouping) : Prop where
  result : ∀ g ∈ s.result, Fitting maxSize maxFiles g
  size : s.size.toNat = groupBytes s.current
  within : groupBytes s.current ≤ maxSize.toNat
  room : 0 < maxFiles → s.current.length < maxFiles.toNat

theorem Bounded.init : Bounded maxSize maxFiles {} := by
  refine ⟨?_, rfl, Nat.zero_le _, UInt64.lt_iff_toNat_lt.1⟩
  intro g hg
  cases hg

theorem toNat_pos {n : UInt64} (h : 0 < n) : 1 ≤ n.toNat :=
  UInt64.lt_iff_toNat_lt.1 h

/-- A directory has size 0, so what is over a limit is a file. -/
theorem isRegularFile_of_large (hp : grouped p = true)
    (hlarge : maxSize < p.size) : p.isRegularFile = true := by
  have hpos : 0 < p.size.toNat :=
    Nat.lt_of_le_of_lt (Nat.zero_le _) (UInt64.lt_iff_toNat_lt.1 hlarge)
  unfold grouped Path.isRegularFile Path.isDirectory at hp
  unfold Path.size at hpos
  unfold Path.isRegularFile
  cases hnode : p.node with
  | file size => rfl
  | dir entries => simp [hnode] at hpos
  | shut why => simp [hnode] at hpos
  | other size => simp [hnode] at hp
  | missing => simp [hnode] at hp

/-- Two sizes within the limit have a sum that does not wrap. -/
theorem toNat_add_size (hmax : maxSize.toNat < 2 ^ 63)
    (h : Bounded maxSize maxFiles s) (hle : p.size ≤ maxSize) :
    (p.size + s.size).toNat = p.size.toNat + groupBytes s.current := by
  have hp := UInt64.le_iff_toNat_le.1 hle
  have hs := h.within
  rw [UInt64.toNat_add, h.size]
  exact Nat.mod_eq_of_lt (by omega)

theorem Bounded.join_within (hmax : maxSize.toNat < 2 ^ 63)
    (h : Bounded maxSize maxFiles s) (hle : p.size ≤ maxSize)
    (hfit : p.size + s.size ≤ maxSize) :
    groupBytes (s.current ++ [p]) ≤ maxSize.toNat := by
  have hsum := UInt64.le_iff_toNat_le.1 hfit
  rw [toNat_add_size hmax h hle] at hsum
  rw [groupBytes_snoc]
  omega

theorem Bounded.step (hmax : maxSize.toNat < 2 ^ 63)
    (h : Bounded maxSize maxFiles s) {seen : List Path}
    (hk : Kept seen s) :
    Bounded maxSize maxFiles (step maxSize maxFiles s p) := by
  rcases step_cases maxSize maxFiles s p with
    ⟨_, heq⟩ | ⟨hp, hlarge, heq⟩ | ⟨_, hle, hfit, ⟨_, heq⟩ | ⟨hfull, heq⟩⟩
      | ⟨_, hle, hlt, heq⟩
  · rw [heq]
    exact h
  · rw [heq]
    refine ⟨?_, h.size, h.within, h.room⟩
    intro g hg
    rcases List.mem_append.1 hg with hg | hg
    · exact h.result g hg
    · rw [List.mem_singleton.1 hg]
      exact ⟨.inr ⟨p, rfl, isRegularFile_of_large hp hlarge, hlarge⟩,
        toNat_pos⟩
  · -- the group is closed with the path in it
    rw [heq]
    refine ⟨?_, rfl, Nat.zero_le _, fun hm => toNat_pos hm⟩
    intro g hg
    rcases List.mem_append.1 hg with hg | hg
    · exact h.result g hg
    · rw [List.mem_singleton.1 hg]
      refine ⟨.inl (h.join_within hmax hle hfit), ?_⟩
      intro hm
      have hroom := h.room hm
      show (s.current ++ [p]).length ≤ _
      simp only [List.length_append, List.length_singleton]
      omega
  · rw [heq]
    refine ⟨h.result, ?_, h.join_within hmax hle hfit, ?_⟩
    · show (s.size + p.size).toNat = groupBytes (s.current ++ [p])
      rw [groupBytes_snoc, UInt64.add_comm, toNat_add_size hmax h hle,
        Nat.add_comm]
    · intro hm
      exact Nat.lt_of_not_le fun hge => hfull (.inr ⟨hm, hge⟩)
  · -- the open group had a path, so one more is allowed than that
    rw [heq]
    have hne := hk.current_ne_nil hle hlt
    refine ⟨?_, ?_, ?_, ?_⟩
    · intro g hg
      rcases List.mem_append.1 hg with hg | hg
      · exact h.result g hg
      · rw [List.mem_singleton.1 hg]
        exact ⟨.inl h.within, fun hm => Nat.le_of_lt (h.room hm)⟩
    · simp [groupBytes]
    · simpa [groupBytes] using UInt64.le_iff_toNat_le.1 hle
    · intro hm
      have hroom := h.room hm
      have hpos := List.length_pos_iff.2 hne
      show 1 < maxFiles.toNat
      omega

end Grouping

-- ======================================================== group_by_size

open Grouping (Kept Bounded Fitting)

variable {maxSize maxFiles : UInt64}

/-- The open group at the end is one of the result. -/
theorem groupBySize_kept (paths : List Path) (maxSize maxFiles : UInt64) :
    (groupBySize paths maxSize maxFiles).flatten.Perm (paths.filter grouped)
      ∧ ∀ g ∈ groupBySize paths maxSize maxFiles, g ≠ [] := by
  have h : Kept paths (paths.foldl (Grouping.step maxSize maxFiles) {}) :=
    Grouping.foldl_step .init (fun seen s p hs => hs.step) paths
  unfold groupBySize
  dsimp only
  split
  · rename_i hnil
    have hperm := h.perm
    rw [List.isEmpty_iff.1 hnil, List.append_nil] at hperm
    exact ⟨hperm, h.nonempty⟩
  · rename_i hne
    have hclose := h.close (by simpa using hne)
    have hperm := hclose.perm
    rw [show (Grouping.close _).current = [] from rfl, List.append_nil]
      at hperm
    exact ⟨hperm, hclose.nonempty⟩

theorem groupBySize_bounded (hmax : maxSize.toNat < 2 ^ 63)
    (paths : List Path) :
    ∀ g ∈ groupBySize paths maxSize maxFiles,
      Fitting maxSize maxFiles g := by
  have h : Kept paths (paths.foldl (Grouping.step maxSize maxFiles) {})
      ∧ Bounded maxSize maxFiles
        (paths.foldl (Grouping.step maxSize maxFiles) {}) :=
    Grouping.foldl_step
      (I := fun seen s => Kept seen s ∧ Bounded maxSize maxFiles s)
      ⟨.init, .init⟩ (fun seen s p hs => ⟨hs.1.step, hs.2.step hmax hs.1⟩)
      paths
  unfold groupBySize
  dsimp only
  split
  · exact h.2.result
  · intro g hg
    rcases List.mem_append.1 hg with hg | hg
    · exact h.2.result g hg
    · rw [List.mem_singleton.1 hg]
      exact ⟨.inl h.2.within, fun hm => Nat.le_of_lt (h.2.room hm)⟩

/-- `group_by_size` puts every regular file and every directory into
exactly one group, and no group is empty or over the limits, but for one
file that is. -/
theorem groupBySize_sound (paths : List Path)
    (hmax : maxSize.toNat < 2 ^ 63) :
    (groupBySize paths maxSize maxFiles).flatten.Perm
        (paths.filter fun p => p.isRegularFile || p.isDirectory)
      ∧ ∀ g ∈ groupBySize paths maxSize maxFiles, g ≠ []
        ∧ (groupBytes g ≤ maxSize.toNat
          ∨ ∃ p, g = [p] ∧ p.isRegularFile = true ∧ maxSize < p.size)
        ∧ (0 < maxFiles → g.length ≤ maxFiles.toNat) := by
  obtain ⟨hperm, hne⟩ := groupBySize_kept paths maxSize maxFiles
  refine ⟨hperm, ?_⟩
  intro g hg
  exact ⟨hne g hg, groupBySize_bounded hmax paths g hg⟩

/-- A file of so many bytes. -/
def sizedFile (name : PathName) (size : UInt64) : Path where
  name := name
  real := .ok []
  node := .file size
  source := name
  below := []

/-- Four files, the third of more bytes than the limit below. -/
def fourFiles : List Path :=
  [sizedFile ['a'] 5, sizedFile ['b'] 2, sizedFile ['c'] 9, sizedFile ['d'] 4]

/-- With limits of 8 bytes and of two paths there are three groups, and the
large file is one. -/
theorem groupBySize_sound_four :
    (groupBySize fourFiles 8 2).map (List.map Path.size) = [[5, 2], [9], [4]]
      ∧ (groupBySize fourFiles 8 2).flatten.Perm
        (fourFiles.filter fun p => p.isRegularFile || p.isDirectory)
      ∧ ∀ g ∈ groupBySize fourFiles 8 2, g ≠ []
        ∧ (groupBytes g ≤ 8
          ∨ ∃ q, g = [q] ∧ q.isRegularFile = true ∧ 8 < q.size)
        ∧ ((0 : UInt64) < 2 → g.length ≤ 2) :=
  ⟨by decide +kernel, groupBySize_sound fourFiles (by decide)⟩

-- =========================================================== group_into

theorem dealRound_spec (gs : List (List Path)) (last : List Path) :
    ((dealRound gs last).1.flatten ++ (dealRound gs last).2).Perm
        (gs.flatten ++ last)
      ∧ (dealRound gs last).1.length = gs.length
      ∧ ((∀ g ∈ gs, g ≠ []) → ∀ g ∈ (dealRound gs last).1, g ≠ []) := by
  induction gs generalizing last with
  | nil => exact ⟨.refl _, rfl, fun h => h⟩
  | cons g gs ih =>
      unfold dealRound
      cases hlast : last.getLast? with
      | none => exact ⟨.refl _, rfl, fun h => h⟩
      | some f =>
          obtain ⟨hperm, hlen, hne⟩ := ih last.dropLast
          have hsplit : last.dropLast ++ [f] = last :=
            List.dropLast_append_getLast? f hlast
          refine ⟨?_, ?_, ?_⟩
          · -- the path moves from the end of the list to its group
            show (((g ++ [f]) :: (dealRound gs last.dropLast).1).flatten
              ++ _).Perm _
            rw [List.flatten_cons, List.flatten_cons, List.append_assoc,
              List.append_assoc, List.append_assoc]
            refine List.Perm.append_left g ?_
            have hmove : ([f] ++ (gs.flatten ++ last.dropLast)).Perm
                (gs.flatten ++ last) := by
              refine List.perm_append_comm.trans ?_
              rw [List.append_assoc, hsplit]
            exact (hperm.append_left [f]).trans hmove
          · show (dealRound gs last.dropLast).1.length + 1 = gs.length + 1
            rw [hlen]
          · intro h x hx
            rcases List.mem_cons.1 hx with rfl | hx
            · simp
            · exact hne (fun y hy => h y (List.mem_cons_of_mem _ hy)) x hx

/-- Dealing to at least one group ends, and loses nothing. -/
theorem deal_spec {groups : List (List Path)} (last : List Path)
    (hgroups : groups ≠ []) (hne : ∀ g ∈ groups, g ≠ []) :
    ∃ dealt, deal groups last = some dealt
      ∧ dealt.flatten.Perm (groups.flatten ++ last)
      ∧ dealt.length = groups.length ∧ ∀ g ∈ dealt, g ≠ [] := by
  induction groups, last using deal.induct with
  | case1 groups =>
      refine ⟨groups, ?_, ?_, rfl, hne⟩
      · unfold deal
        rfl
      · rw [List.append_nil]
  | case2 f fs => exact absurd rfl hgroups
  | case3 f fs g gs r ih =>
      obtain ⟨hperm, hlen, hround⟩ := dealRound_spec (g :: gs) (f :: fs)
      have hr : r.1 ≠ [] := by
        intro hnil
        rw [show (dealRound (g :: gs) (f :: fs)).1 = [] from hnil] at hlen
        cases hlen
      obtain ⟨dealt, hdeal, hdealt, hlen', hne'⟩ := ih hr (hround hne)
      refine ⟨dealt, ?_, hdealt.trans hperm, hlen'.trans hlen, hne'⟩
      unfold deal
      exact hdeal

theorem redistribute_spec (n m : Nat) {groups : List (List Path)}
    (hm : 0 < m) (hlen : groups.length = n + m)
    (hne : ∀ g ∈ groups, g ≠ []) :
    ∃ result, redistribute n groups = some result
      ∧ result.flatten.Perm groups.flatten ∧ result.length = m
      ∧ ∀ g ∈ result, g ≠ [] := by
  induction n generalizing groups with
  | zero => exact ⟨groups, rfl, .refl _, by omega, hne⟩
  | succ n ih =>
      have hcons : groups ≠ [] := by
        intro hnil
        rw [hnil, List.length_nil] at hlen
        omega
      have hlast := List.getLast?_eq_getLast_of_ne_nil hcons
      have hsplit := List.dropLast_append_getLast? _ hlast
      have hdrop : groups.dropLast.length = n + m := by
        rw [List.length_dropLast, hlen]
        omega
      have hpos : groups.dropLast ≠ [] := by
        intro hnil
        rw [hnil, List.length_nil] at hdrop
        omega
      obtain ⟨dealt, hdeal, hperm, hdealt, hne'⟩ := deal_spec
        (groups.getLast hcons) hpos
        (fun g hg => hne g (List.dropLast_subset _ hg))
      obtain ⟨result, hresult, hperm', hres, hne''⟩ :=
        ih (hdealt.trans hdrop) hne'
      refine ⟨result, ?_, ?_, hres, hne''⟩
      · unfold redistribute
        rw [hlast]
        show (deal groups.dropLast _).bind _ = _
        rw [hdeal]
        exact hresult
      · refine hperm'.trans (hperm.trans ?_)
        conv_rhs => rw [← hsplit, List.flatten_append, List.flatten_singleton]

/-- `group_into` returns at most as many groups as it is asked for, none
of them empty, and they are made of all the files and directories. -/
theorem groupInto_sound (paths : List Path) {numGroups : UInt64}
    (hnum : 1 ≤ numGroups) :
    ∃ groups, groupInto paths numGroups = .ok (some groups)
      ∧ groups.length ≤ numGroups.toNat ∧ (∀ g ∈ groups, g ≠ [])
      ∧ groups.flatten.Perm
          (paths.filter fun p => p.isRegularFile || p.isDirectory) := by
  obtain ⟨hperm, hne⟩ :=
    groupBySize_kept paths (findTotalSize paths / numGroups) 0
  have hpos : 0 < numGroups.toNat := UInt64.le_iff_toNat_le.1 hnum
  unfold groupInto
  rw [if_neg fun h => by rw [h] at hpos; exact absurd hpos (by decide)]
  dsimp only
  generalize groupBySize paths (findTotalSize paths / numGroups) 0 = groups
    at hperm hne
  by_cases hle : groups.length ≤ numGroups.toNat
  · rw [Nat.sub_eq_zero_of_le hle]
    exact ⟨groups, rfl, hle, hne, hperm⟩
  · have hlen : groups.length
        = (groups.length - numGroups.toNat) + numGroups.toNat := by omega
    obtain ⟨result, hres, hperm', hlen', hne'⟩ :=
      redistribute_spec _ _ hpos hlen hne
    exact ⟨result, congrArg Except.ok hres, Nat.le_of_eq hlen', hne',
      hperm'.trans hperm⟩

/-- By their sizes the four files make three groups; the last of them is
dealt out to the other two. -/
theorem groupInto_sound_four :
    (groupBySize fourFiles (findTotalSize fourFiles / 2) 0).map
        (List.map Path.size) = [[5, 2], [9], [4]]
      ∧ ∃ groups, groupInto fourFiles 2 = .ok (some groups)
        ∧ groups.length ≤ 2 ∧ (∀ g ∈ groups, g ≠ [])
        ∧ groups.flatten.Perm
          (fourFiles.filter fun p => p.isRegularFile || p.isDirectory) :=
  ⟨by decide +kernel, groupInto_sound fourFiles (by decide)⟩

end BigDataExpress
