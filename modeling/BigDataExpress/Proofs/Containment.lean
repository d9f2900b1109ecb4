/-
The data folders as a gate.

`data_folder_contains` compares the spellings of two resolved paths, and
the spelling of one place begins with that of another in two cases: the
place is below it, or the last name of the folder is only the beginning
of a name on the way (`spell_prefix_iff`). The loop over the folders ends
at the first that cannot be resolved. So the answer is right for every
order of the folders in exactly the cases `Unmistakable` tells apart.
-/
import BigDataExpress.Proofs.Groups

namespace BigDataExpress

-- ============================================================ spellings

/-- A folder whose last name is the beginning of another name, at the
same place on the way to `p`. -/
def Lookalike (d p : Place) : Prop :=
  ∃ front n m rest, d = front ++ [n] ∧ p = front ++ m :: rest
    ∧ n.chars <+: m.chars ∧ n ≠ m

/-- A name begins a string of names that are led by slashes. -/
theorem name_prefix {a b y : PathName} (ha : '/' ∉ a)
    (hy : ∀ c ∈ y.head?, c = '/') : a <+: b ++ y ↔ a <+: b := by
  constructor
  · intro h
    rcases List.prefix_or_prefix_of_prefix h (List.prefix_append b y) with
      hab | ⟨c, rfl⟩
    · exact hab
    · have hc := (List.prefix_append_right_inj b).1 h
      cases c with
      | nil => simp
      | cons x c =>
          obtain ⟨z, hz⟩ := hc
          have hx : x = '/' := hy x (by rw [← hz]; rfl)
          exact absurd (hx ▸ List.mem_append_right b (List.mem_cons_self ..))
            ha
  · exact fun h => h.trans (List.prefix_append b y)

/-- Names before a slash are equal. -/
theorem name_slash_prefix {a b x y : PathName} (ha : '/' ∉ a)
    (hb : '/' ∉ b) (hy : ∀ c ∈ y.head?, c = '/') :
    a ++ '/' :: x <+: b ++ y ↔ a = b ∧ '/' :: x <+: y := by
  constructor
  · intro h
    have hpre : a <+: b ++ y := (List.prefix_append a _).trans h
    rcases List.prefix_or_prefix_of_prefix hpre (List.prefix_append b y) with
      ⟨c, rfl⟩ | ⟨c, rfl⟩
    · rw [List.append_assoc] at h
      have hc := (List.prefix_append_right_inj a).1 h
      cases c with
      | nil => exact ⟨(List.append_nil a).symm, hc⟩
      | cons z c =>
          have hz : '/' = z := (List.cons_prefix_cons.1 hc).1
          exact absurd
            (hz ▸ List.mem_append_right a (List.mem_cons_self ..)) hb
    · rw [List.append_assoc] at h
      have hc := (List.prefix_append_right_inj b).1 h
      cases c with
      | nil => exact ⟨List.append_nil b, hc⟩
      | cons z c =>
          obtain ⟨w, hw⟩ := hc
          have hz : z = '/' := hy z (by rw [← hw]; rfl)
          exact absurd
            (hz ▸ List.mem_append_right b (List.mem_cons_self ..)) ha
  · intro h
    obtain ⟨rfl, hx⟩ := h
    exact (List.prefix_append_right_inj a).2 hx

/-- The names of a place, each with a slash before it. -/
def slashed (l : Place) : PathName := l.flatMap fun n => '/' :: n.chars

theorem slashed_cons (n : Name) (l : Place) :
    slashed (n :: l) = '/' :: (n.chars ++ slashed l) := by
  unfold slashed
  rw [List.flatMap_cons, List.cons_append]

theorem head_slashed (l : Place) : ∀ c ∈ (slashed l).head?, c = '/' := by
  cases l with
  | nil =>
      intro c hc
      cases hc
  | cons n l =>
      intro c hc
      rw [slashed_cons] at hc
      exact (Option.some.inj hc).symm

theorem lookalike_cons {n m : Name} {d p : Place} (hd : d ≠ []) :
    Lookalike (n :: d) (m :: p) ↔ n = m ∧ Lookalike d p := by
  constructor
  · intro h
    obtain ⟨front, x, y, rest, hd', hp, hpre, hne⟩ := h
    cases front with
    | nil => exact absurd (List.cons.inj hd').2 hd
    | cons z front =>
        obtain ⟨hz, hd⟩ := List.cons.inj hd'
        obtain ⟨hz', hp⟩ := List.cons.inj hp
        exact ⟨hz.trans hz'.symm, front, x, y, rest, hd, hp, hpre, hne⟩
  · intro h
    obtain ⟨rfl, front, x, y, rest, rfl, rfl, hpre, hne⟩ := h
    exact ⟨n :: front, x, y, rest, rfl, rfl, hpre, hne⟩

theorem lookalike_singleton {n m : Name} {p : Place} :
    Lookalike [n] (m :: p) ↔ n.chars <+: m.chars ∧ n ≠ m := by
  constructor
  · intro h
    obtain ⟨front, x, y, rest, hd, hp, hpre, hne⟩ := h
    cases front with
    | nil =>
        cases hd
        cases hp
        exact ⟨hpre, hne⟩
    | cons z front =>
        have hlen := congrArg List.length hd
        simp at hlen
  · exact fun h => ⟨[], n, m, p, rfl, rfl, h⟩

theorem not_lookalike_nil {d : Place} : ¬ Lookalike d [] := by
  intro h
  obtain ⟨front, x, y, rest, _, hp, _⟩ := h
  have hlen := congrArg List.length hp
  simp at hlen

theorem slashed_prefix_iff (n : Name) (d p : Place) :
    slashed (n :: d) <+: slashed p
      ↔ n :: d <+: p ∨ Lookalike (n :: d) p := by
  induction d generalizing n p with
  | nil =>
      cases p with
      | nil => simp [slashed, not_lookalike_nil]
      | cons m p =>
          rw [slashed_cons, slashed_cons, List.cons_prefix_cons,
            lookalike_singleton]
          rw [show slashed [] = [] from rfl, List.append_nil,
            name_prefix n.no_slash (head_slashed p), List.cons_prefix_cons]
          constructor
          · intro h
            by_cases hnm : n = m
            · exact .inl ⟨hnm, List.nil_prefix⟩
            · exact .inr ⟨h.2, hnm⟩
          · intro h
            rcases h with ⟨rfl, _⟩ | ⟨h, _⟩
            · exact ⟨rfl, List.prefix_rfl⟩
            · exact ⟨rfl, h⟩
  | cons k d ih =>
      cases p with
      | nil => simp [slashed, not_lookalike_nil]
      | cons m p =>
          rw [slashed_cons n, slashed_cons m, List.cons_prefix_cons,
            slashed_cons k, name_slash_prefix n.no_slash m.no_slash
              (head_slashed p), ← slashed_cons k, ih,
            List.cons_prefix_cons, lookalike_cons (List.cons_ne_nil k d)]
          constructor
          · intro h
            obtain ⟨_, hnm, h⟩ := h
            exact h.imp (fun h => ⟨Name.ext hnm, h⟩)
              fun h => ⟨Name.ext hnm, h⟩
          · intro h
            rcases h with ⟨rfl, h⟩ | ⟨rfl, h⟩
            · exact ⟨rfl, rfl, .inl h⟩
            · exact ⟨rfl, rfl, .inr h⟩

/-- What the comparison of characters says of two places. -/
theorem spell_prefix_iff (d p : Place) :
    (spell d).isPrefixOf (spell p) = true ↔ d <+: p ∨ Lookalike d p := by
  rw [List.isPrefixOf_iff_prefix]
  cases d with
  | nil =>
      refine ⟨fun _ => .inl List.nil_prefix, fun _ => ?_⟩
      cases p with
      | nil => exact List.prefix_rfl
      | cons m p => exact ⟨m.chars ++ slashed p, rfl⟩
  | cons n d =>
      cases p with
      | nil =>
          -- no name is empty, so the spelling is longer than a slash
          refine ⟨fun h => ?_, fun h => ?_⟩
          · have hlen := h.length_le
            have hpos := List.length_pos_iff.2 n.ne_nil
            simp only [spell, List.flatMap_cons, List.length_append,
              List.length_cons, List.length_nil] at hlen
            omega
          · rcases h with h | h
            · exact absurd (List.prefix_nil.1 h) (List.cons_ne_nil n d)
            · exact absurd h not_lookalike_nil
      | cons m p => exact slashed_prefix_iff n d (m :: p)

-- ============================================================= the test

namespace DTNAgent

variable (a : DTNAgent) {path : PathName}

/-- What the test is for: the path is resolved, to a data folder that is
resolved or to a place below it. -/
def Contained (path : PathName) (folders : List PathName) : Prop :=
  ∃ p, a.fs.realpath path = .ok p
    ∧ ∃ df ∈ folders, ∃ d, a.fs.realpath df = .ok d ∧ d <+: p

/-- A folder is not resolved. -/
def Unresolved (df : PathName) : Prop :=
  ∀ d, a.fs.realpath df ≠ .ok d

/-- The cases in which no order of the folders leads astray: the path is
below one of them and all can be resolved, or below none and none looks
like one it is below. -/
def Unmistakable (path : PathName) (folders : List PathName) : Prop :=
  (a.Contained path folders → ∀ df ∈ folders, ¬ a.Unresolved df)
  ∧ (¬ a.Contained path folders → ∀ p, a.fs.realpath path = .ok p →
      ∀ df ∈ folders, ∀ d, a.fs.realpath df = .ok d → ¬ Lookalike d p)

theorem dataFolderContains_unresolved_path {e : String}
    (hp : a.fs.realpath path = .error e) (folders : List PathName) :
    a.dataFolderContains path folders = false := by
  cases folders with
  | nil => rfl
  | cons df dfs =>
      unfold dataFolderContains
      rw [hp]

/-- The answer for a path that is resolved: the first folder decides,
unless it is resolved and spelled otherwise. -/
theorem dataFolderContains_cons {p : Place}
    (hp : a.fs.realpath path = .ok p) (df : PathName)
    (dfs : List PathName) :
    a.dataFolderContains path (df :: dfs) = true
      ↔ ∃ d, a.fs.realpath df = .ok d
        ∧ (d <+: p ∨ Lookalike d p
          ∨ a.dataFolderContains path dfs = true) := by
  rw [dataFolderContains, hp]
  cases hd : a.fs.realpath df with
  | error e =>
      constructor
      · intro h
        cases h
      · intro h
        obtain ⟨d, hd, _⟩ := h
        cases hd
  | ok d =>
      have hspell := spell_prefix_iff d p
      dsimp only
      by_cases hpre : (spell d).isPrefixOf (spell p) = true
      · rw [if_pos hpre]
        refine ⟨fun _ => ⟨d, rfl, ?_⟩, fun _ => rfl⟩
        exact (hspell.1 hpre).imp_right .inl
      · rw [if_neg hpre]
        have hno := mt hspell.2 hpre
        constructor
        · exact fun h => ⟨d, rfl, .inr (.inr h)⟩
        · intro h
          obtain ⟨d', hd', h⟩ := h
          cases hd'
          rcases h with h | h | h
          · exact absurd (.inl h) hno
          · exact absurd (.inr h) hno
          · exact h

/-- A true answer names a folder. -/
theorem exists_of_contains {p : Place} (hp : a.fs.realpath path = .ok p)
    {folders : List PathName}
    (h : a.dataFolderContains path folders = true) :
    ∃ df ∈ folders, ∃ d, a.fs.realpath df = .ok d
      ∧ (d <+: p ∨ Lookalike d p) := by
  induction folders with
  | nil => cases h
  | cons df dfs ih =>
      obtain ⟨d, hd, hpre | hlook | hrest⟩ :=
        (a.dataFolderContains_cons hp df dfs).1 h
      · exact ⟨df, List.mem_cons_self .., d, hd, .inl hpre⟩
      · exact ⟨df, List.mem_cons_self .., d, hd, .inr hlook⟩
      · obtain ⟨df', hmem, h⟩ := ih hrest
        exact ⟨df', List.mem_cons_of_mem _ hmem, h⟩

/-- When all folders are resolved, each has its say. -/
theorem contains_of_resolved {p : Place} (hp : a.fs.realpath path = .ok p)
    {folders : List PathName} (hall : ∀ df ∈ folders, ¬ a.Unresolved df)
    (h : ∃ df ∈ folders, ∃ d, a.fs.realpath df = .ok d
      ∧ (d <+: p ∨ Lookalike d p)) :
    a.dataFolderContains path folders = true := by
  induction folders with
  | nil =>
      obtain ⟨df, hmem, _⟩ := h
      cases hmem
  | cons df dfs ih =>
      obtain ⟨df', hmem, d, hd, hsay⟩ := h
      refine (a.dataFolderContains_cons hp df dfs).2 ?_
      rcases List.mem_cons.1 hmem with rfl | hmem
      · exact ⟨d, hd, hsay.imp_right .inl⟩
      · have hdf := hall df (List.mem_cons_self ..)
        unfold Unresolved at hdf
        push Not at hdf
        obtain ⟨d', hd'⟩ := hdf
        refine ⟨d', hd', .inr (.inr (ih ?_ ⟨df', hmem, d, hd, hsay⟩))⟩
        exact fun df hmem => hall df (List.mem_cons_of_mem _ hmem)

/-- The folders in another order contain the same. -/
theorem Contained.perm {folders folders' : List PathName}
    (hperm : folders'.Perm folders) :
    a.Contained path folders' ↔ a.Contained path folders := by
  unfold Contained
  simp only [hperm.mem_iff]

/-- `data_folder_contains` answers whether the path is in a data folder,
for every order of the folders, exactly when these cannot mislead it. -/
theorem data_folders_contain_iff (path : PathName)
    (folders : List PathName) :
    (∀ folders', folders'.Perm folders →
        (a.dataFolderContains path folders' = true
          ↔ a.Contained path folders'))
      ↔ a.Unmistakable path folders := by
  cases hp : a.fs.realpath path with
  | error e =>
      have hnot : ∀ l, ¬ a.Contained path l := by
        intro l h
        obtain ⟨p, hp', _⟩ := h
        rw [hp] at hp'
        cases hp'
      constructor
      · intro _
        refine ⟨fun h => absurd h (hnot _), fun _ p hp' => ?_⟩
        rw [hp] at hp'
        cases hp'
      · intro _ l _
        rw [a.dataFolderContains_unresolved_path hp l]
        exact ⟨fun h => (by cases h), fun h => absurd h (hnot l)⟩
  | ok p =>
      constructor
      · intro h
        refine ⟨?_, ?_⟩
        · -- a folder that is not resolved, put first, ends the loop
          intro hin df hmem hun
          have hperm := (List.perm_cons_erase hmem).symm
          have hcode := (h _ hperm).2
            ((Contained.perm a hperm).2 hin)
          obtain ⟨d, hd, _⟩ := (a.dataFolderContains_cons hp _ _).1 hcode
          exact hun d hd
        · -- a folder that looks alike, put first, is taken for one
          intro hout p' hp' df hmem d hd hlook
          rw [hp] at hp'
          cases hp'
          have hperm := (List.perm_cons_erase hmem).symm
          have hcode := (a.dataFolderContains_cons hp df (folders.erase df)).2
            ⟨d, hd, .inr (.inl hlook)⟩
          exact hout ((Contained.perm a hperm).1 ((h _ hperm).1 hcode))
      · intro h l hperm
        rw [Contained.perm a hperm]
        constructor
        · intro hcode
          by_contra hout
          obtain ⟨df, hmem, d, hd, hpre | hlook⟩ := a.exists_of_contains hp hcode
          · exact hout ⟨p, hp, df, hperm.mem_iff.1 hmem, d, hd, hpre⟩
          · exact h.2 hout p hp df (hperm.mem_iff.1 hmem) d hd hlook
        · intro hin
          refine a.contains_of_resolved hp
            (fun df hmem => h.1 hin df (hperm.mem_iff.1 hmem)) ?_
          obtain ⟨p', hp', df, hmem, d, hd, hpre⟩ := hin
          rw [hp] at hp'
          cases hp'
          exact ⟨df, hperm.mem_iff.2 hmem, d, hd, .inl hpre⟩

-- ==================================================== two folders astray

/-- A name of two letters. -/
def twoLetters : Name where
  chars := ['a', 'b']
  ne_nil := by decide
  no_slash := by decide
  not_dot := by decide

/-- A file system with `/a` and `/ab`, and nothing else. -/
def twins : FileSystem where
  lstat _ := .missing
  realpath s :=
    if s = ['/', 'a'] then .ok [letter 'a']
    else if s = ['/', 'a', 'b'] then .ok [twoLetters]
    else .error "No such file or directory"
  nftw _ := .ok []
  read _ := .error .opening

/-- The folder `/ab` is taken to be below `/a`; and `/a` is not found in
itself when a folder that does not exist stands before it. -/
theorem data_folders_mislead :
    let a := plain twins []
    (a.dataFolderContains ['/', 'a', 'b'] [['/', 'a']] = true
        ∧ ¬ a.Contained ['/', 'a', 'b'] [['/', 'a']])
      ∧ (a.dataFolderContains ['/', 'a'] [['/', 'c'], ['/', 'a']] = false
        ∧ a.Contained ['/', 'a'] [['/', 'c'], ['/', 'a']]) := by
  refine ⟨⟨by decide, ?_⟩, by decide, ?_⟩
  · intro h
    obtain ⟨p, hp, df, hmem, d, hd, hpre⟩ := h
    rw [List.mem_singleton.1 hmem] at hd
    have hp' : (Except.ok [twoLetters] : Except String Place) = .ok p := hp
    have hd' : (Except.ok [letter 'a'] : Except String Place) = .ok d := hd
    cases hp'
    cases hd'
    exact absurd hpre (by decide)
  · exact ⟨[letter 'a'], rfl, ['/', 'a'], by decide, [letter 'a'], rfl,
      List.prefix_rfl⟩

end DTNAgent

end BigDataExpress
