/-
What the path functions do to the components of a name.

A name is read here as the list of its components, the strings between
slashes that are not empty: two names with the same components differ in
repeated slashes only. Joining appends components
(`components_joinPaths`), the base name is the last one
(`components_baseName`), and a place has the components it is spelled
with (`components_spell`).
-/
import BigDataExpress.Agent.Expand
import Mathlib.Data.List.TakeWhile

namespace BigDataExpress

@[simp] theorem components_nil : components [] = [] := by
  simp [components]

/-- A slash separates components. -/
theorem components_slash (a b : PathName) :
    components (a ++ '/' :: b) = components a ++ components b := by
  unfold components
  rw [List.splitOn_append_cons_self, List.filter_append]

theorem components_slash_cons (s : PathName) :
    components ('/' :: s) = components s := by
  have h := components_slash [] s
  rwa [components_nil, List.nil_append] at h

theorem components_append_slash (s : PathName) :
    components (s ++ ['/']) = components s := by
  rw [components_slash, components_nil, List.append_nil]

/-- A name without slashes is one component. -/
theorem components_single {s : PathName} (h : s ≠ []) (hs : '/' ∉ s) :
    components s = [s] := by
  unfold components
  rw [List.splitOn_eq_singleton hs]
  simp [h]

theorem components_name (n : Name) : components n.chars = [n.chars] :=
  components_single n.ne_nil n.no_slash

-- ============================================================= trimming

theorem components_slashes (s : PathName) (k : Nat) :
    components (s ++ List.replicate k '/') = components s := by
  induction k with
  | zero => simp
  | succ k ih =>
      rw [List.replicate_succ', ← List.append_assoc,
        components_append_slash, ih]

theorem components_trimFront (s : PathName) :
    components (trimFront s) = components s := by
  induction s with
  | nil => rfl
  | cons c s ih =>
      cases s with
      | nil => rfl
      | cons d s =>
          unfold trimFront
          split
          · rename_i h
            subst h
            rw [ih, components_slash_cons]
          · rfl

/-- What trimming leaves, and the slashes it drops. -/
theorem trimFront_spec (s : PathName) :
    ∃ k, s = List.replicate k '/' ++ trimFront s := by
  induction s with
  | nil => exact ⟨0, rfl⟩
  | cons c s ih =>
      cases s with
      | nil => exact ⟨0, rfl⟩
      | cons d s =>
          unfold trimFront
          split
          · rename_i h
            obtain ⟨k, hk⟩ := ih
            refine ⟨k + 1, ?_⟩
            rw [h, List.replicate_succ, List.cons_append, ← hk]
          · exact ⟨0, rfl⟩

theorem trimBack_spec (s : PathName) :
    ∃ k, s = trimBack s ++ List.replicate k '/' := by
  obtain ⟨k, hk⟩ := trimFront_spec s.reverse
  refine ⟨k, ?_⟩
  unfold trimBack
  have h := congrArg List.reverse hk
  rw [List.reverse_reverse, List.reverse_append,
    List.reverse_replicate] at h
  exact h

theorem components_trimBack (s : PathName) :
    components (trimBack s) = components s := by
  obtain ⟨k, hk⟩ := trimBack_spec s
  have h := components_slashes (trimBack s) k
  rw [← hk] at h
  exact h.symm

theorem trimFront_ne_nil {s : PathName} (h : s ≠ []) : trimFront s ≠ [] := by
  induction s with
  | nil => exact absurd rfl h
  | cons c s ih =>
      cases s with
      | nil => exact h
      | cons e s =>
          unfold trimFront
          split
          · exact ih (List.cons_ne_nil e s)
          · exact List.cons_ne_nil c _

theorem trimBack_ne_nil {s : PathName} (h : s ≠ []) : trimBack s ≠ [] := by
  unfold trimBack
  intro hnil
  rw [List.reverse_eq_nil_iff] at hnil
  refine trimFront_ne_nil ?_ hnil
  intro hrev
  exact h (List.reverse_eq_nil_iff.mp hrev)

theorem trimFront_of_ne {c : Char} {s : PathName} (h : c ≠ '/') :
    trimFront (c :: s) = c :: s := by
  cases s with
  | nil => rfl
  | cons d s =>
      unfold trimFront
      rw [if_neg h]

theorem trimFront_of_not_mem {s : PathName} (h : '/' ∉ s) :
    trimFront s = s := by
  cases s with
  | nil => rfl
  | cons c s =>
      apply trimFront_of_ne
      intro hc
      exact h (hc ▸ List.mem_cons_self ..)

/-- A name that does not end in a slash is not trimmed. -/
theorem trimBack_of_last {s : PathName} (h : s.getLast? ≠ some '/') :
    trimBack s = s := by
  unfold trimBack
  cases hr : s.reverse with
  | nil =>
      have hs : s = [] := List.reverse_eq_nil_iff.mp hr
      rw [hs]
      rfl
  | cons c r =>
      have hc : c ≠ '/' := by
        intro hc
        apply h
        rw [List.getLast?_eq_head?_reverse, hr, hc]
        rfl
      rw [trimFront_of_ne hc, ← hr, List.reverse_reverse]

/-- Joining appends the components. -/
theorem components_joinPaths (a b : PathName) :
    components (joinPaths a b) = components a ++ components b := by
  have hb : components (trimBack (trimFront b)) = components b := by
    rw [components_trimBack, components_trimFront]
  have hslash : components ['/'] = [] := by
    rw [components_slash_cons, components_nil]
  unfold joinPaths
  split
  · rename_i ha
    rw [ha, components_nil, List.nil_append]
  · split
    · rename_i h
      rw [h, components_nil, List.append_nil]
    · dsimp only
      split
      · rename_i h
        rw [components_trimBack, ← hb, h, hslash, List.append_nil]
      · split
        · rename_i h
          rw [h, List.cons_append, List.nil_append, components_slash_cons,
            hb, ← components_trimBack a, h, hslash, List.nil_append]
        · rw [components_slash, components_trimBack, hb]

-- ====================================================== ends and slashes

theorem components_withSlash (s b : PathName) :
    components (withSlash s ++ b) = components s ++ components b := by
  unfold withSlash
  split
  · rename_i h
    obtain ⟨t, rfl⟩ := List.getLast?_eq_some_iff.mp h
    rw [List.append_assoc, List.singleton_append, components_slash,
      components_append_slash]
  · rw [List.append_assoc, List.singleton_append, components_slash]

theorem stripSlashes_spec (s : PathName) :
    ∃ k, s = stripSlashes s ++ List.replicate k '/' := by
  have h := List.takeWhile_append_dropWhile (p := (· == '/')) (l := s.reverse)
  have hall : s.reverse.takeWhile (· == '/')
      = List.replicate (s.reverse.takeWhile (· == '/')).length '/' := by
    apply List.eq_replicate_of_mem
    intro c hc
    have h := List.mem_takeWhile_imp hc
    exact eq_of_beq h
  refine ⟨(s.reverse.takeWhile (· == '/')).length, ?_⟩
  unfold stripSlashes
  have h' := congrArg List.reverse h
  rw [List.reverse_append, List.reverse_reverse, hall,
    List.reverse_replicate] at h'
  exact h'.symm

theorem components_stripSlashes (s : PathName) :
    components (stripSlashes s) = components s := by
  obtain ⟨k, hk⟩ := stripSlashes_spec s
  have h := components_slashes (stripSlashes s) k
  rw [← hk] at h
  exact h.symm

/-- What is left does not end in a slash. -/
theorem stripSlashes_last (s : PathName) :
    (stripSlashes s).getLast? ≠ some '/' := by
  unfold stripSlashes
  rw [List.getLast?_reverse]
  intro h
  have hd := List.head?_dropWhile_not (· == '/') s.reverse
  rw [h] at hd
  cases hd

-- ============================================================ base names

/-- The part of a string after its last slash. -/
theorem takeWhile_slash (r : PathName) :
    '/' ∉ r.takeWhile (· != '/') ∧
      (r.reverse = (r.takeWhile (· != '/')).reverse ∨
        ∃ x, r.reverse = x ++ '/' :: (r.takeWhile (· != '/')).reverse) := by
  constructor
  · intro hmem
    have h := List.mem_takeWhile_imp hmem
    simp at h
  · have hsplit :=
      List.takeWhile_append_dropWhile (p := (· != '/')) (l := r)
    have hhead := List.head?_dropWhile_not (· != '/') r
    cases hx : r.dropWhile (· != '/') with
    | nil =>
        rw [hx, List.append_nil] at hsplit
        rw [hsplit]
        exact .inl rfl
    | cons c x =>
        right
        rw [hx] at hsplit hhead
        have hc : c = '/' := by simpa using hhead
        refine ⟨x.reverse, ?_⟩
        have h := congrArg List.reverse hsplit
        rw [List.reverse_append, List.reverse_cons, List.append_assoc,
          List.singleton_append, hc] at h
        exact h.symm

/-- The base name of a name that is not empty, against the name without
the slashes at its end. -/
theorem baseName_spec {s : PathName} (h : s ≠ []) :
    (stripSlashes s = [] ∧ baseName s = ['/']) ∨
      (baseName s ≠ [] ∧ '/' ∉ baseName s ∧
        (stripSlashes s = baseName s ∨
          ∃ x, stripSlashes s = x ++ '/' :: baseName s)) := by
  have hhead := List.head?_dropWhile_not (· == '/') s.reverse
  unfold baseName stripSlashes
  rw [if_neg h]
  dsimp only
  generalize s.reverse.dropWhile (· == '/') = r at hhead
  split
  · rename_i hr
    rw [hr]
    exact .inl ⟨rfl, rfl⟩
  · rename_i hr
    right
    obtain ⟨hslash, hspec⟩ := takeWhile_slash r
    refine ⟨?_, fun hmem => hslash (List.mem_reverse.mp hmem), hspec⟩
    obtain ⟨c, x, hcx⟩ := List.exists_cons_of_ne_nil hr
    rw [hcx] at hhead ⊢
    have hc : (c != '/') = true := by simpa [bne] using hhead
    rw [List.takeWhile_cons, if_pos hc]
    simp

/-- A base name is a slash, or a string without slashes. -/
theorem baseName_cases (s : PathName) :
    baseName s = ['/'] ∨ (baseName s ≠ [] ∧ '/' ∉ baseName s) := by
  by_cases h : s = []
  · rw [h]
    exact .inr ⟨by decide, by decide⟩
  · rcases baseName_spec h with ⟨-, hb⟩ | ⟨h1, h2, -⟩
    · exact .inl hb
    · exact .inr ⟨h1, h2⟩

/-- The base name is the last component. -/
theorem components_baseName {s : PathName} (h : s ≠ []) :
    components (baseName s) = (components s).getLast?.toList := by
  rw [← components_stripSlashes s]
  rcases baseName_spec h with ⟨hs, hb⟩ | ⟨h1, h2, hs | ⟨x, hs⟩⟩
  · rw [hs, hb, components_slash_cons, components_nil]
    rfl
  · rw [hs, components_single h1 h2]
    rfl
  · rw [hs, components_slash, components_single h1 h2]
    simp

/-- A place has the components it is spelled with. -/
theorem components_spell (l : Place) :
    components (spell l) = l.map Name.chars := by
  cases l with
  | nil =>
      show components ['/'] = []
      rw [components_slash_cons, components_nil]
  | cons n l =>
      show components ((n :: l).flatMap fun n => '/' :: n.chars) = _
      generalize n :: l = l'
      induction l' with
      | nil => exact components_nil
      | cons n l ih =>
          rw [List.flatMap_cons, List.cons_append, components_slash_cons]
          cases l with
          | nil =>
              rw [List.flatMap_nil, List.append_nil, components_name]
              rfl
          | cons m l =>
              rw [List.flatMap_cons, List.cons_append] at ih ⊢
              rw [components_slash, components_name,
                ← components_slash_cons, ih]
              rfl

end BigDataExpress
