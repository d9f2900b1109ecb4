/-
Joining paths is a monoid.

A name is slashes only, or slashes around a part that neither begins nor
ends with one (`name_cases`). A join drops the slashes at the end of its
first name and those at both ends of its second, and glues what is left
(`glue`). Of a join of two names, the slashes at its end are those of a
root, and what is between the slashes of its ends is the two inner parts
with one slash between them (`innerPart_joinPaths`). So both shapes of a
join of three names glue the same parts (`glue_assoc`).
-/
import BigDataExpress.Proofs.Paths

namespace BigDataExpress

-- ============================================================= trimming

/-- What is left does not begin with a slash, or is one. -/
theorem trimFront_head (s : PathName) :
    trimFront s = ['/'] ∨ (trimFront s).head? ≠ some '/' := by
  induction s with
  | nil => simp [trimFront]
  | cons c s ih =>
      cases s with
      | nil =>
          by_cases h : c = '/'
          · simp [trimFront, h]
          · simp [trimFront, h]
      | cons d s =>
          unfold trimFront
          split
          · exact ih
          · rename_i h
            simp [h]

theorem trimBack_last (s : PathName) :
    trimBack s = ['/'] ∨ (trimBack s).getLast? ≠ some '/' := by
  unfold trimBack
  rw [List.getLast?_reverse]
  apply (trimFront_head s.reverse).imp_left
  intro h
  rw [h]
  rfl

/-- Slashes in front of a name that begins without one. -/
theorem trimFront_slashes {m : PathName} (hne : m ≠ [])
    (h : m.head? ≠ some '/') (k : Nat) :
    trimFront (List.replicate k '/' ++ m) = m := by
  obtain ⟨c, m, rfl⟩ := List.exists_cons_of_ne_nil hne
  induction k with
  | zero =>
      apply trimFront_of_ne
      intro hc
      exact h (hc ▸ rfl)
  | succ k ih =>
      rw [List.replicate_succ, List.cons_append]
      cases k with
      | zero => exact ih
      | succ k => exact ih

theorem trimBack_slashes {m : PathName} (hne : m ≠ [])
    (h : m.getLast? ≠ some '/') (k : Nat) :
    trimBack (m ++ List.replicate k '/') = m := by
  unfold trimBack
  rw [List.reverse_append, List.reverse_replicate, trimFront_slashes,
    List.reverse_reverse]
  · simp [hne]
  · rw [List.head?_reverse]
    exact h

theorem trimFront_root (k : Nat) :
    trimFront (List.replicate (k + 1) '/') = ['/'] := by
  induction k with
  | zero => rfl
  | succ k ih => exact ih

theorem trimBack_root (k : Nat) :
    trimBack (List.replicate (k + 1) '/') = ['/'] := by
  unfold trimBack
  rw [List.reverse_replicate, trimFront_root]
  rfl

-- ====================================================== parts of a name

/-- A part that neither begins nor ends with a slash. -/
structure Solid (m : PathName) : Prop where
  ne_nil : m ≠ []
  first : m.head? ≠ some '/'
  last : m.getLast? ≠ some '/'

theorem Solid.ne_root {m : PathName} (h : Solid m) : m ≠ ['/'] := by
  intro heq
  apply h.first
  rw [heq]
  rfl

/-- A name is slashes only, or slashes around a solid part. -/
theorem name_cases {s : PathName} (h : s ≠ []) :
    (∃ k, s = List.replicate (k + 1) '/')
      ∨ ∃ k m j, Solid m
        ∧ s = List.replicate k '/' ++ m ++ List.replicate j '/' := by
  obtain ⟨k, hk⟩ := trimFront_spec s
  rcases trimFront_head s with hroot | hhead
  · left
    refine ⟨k, ?_⟩
    rw [hroot] at hk
    rw [hk, List.replicate_succ']
  · right
    obtain ⟨j, hj⟩ := trimBack_spec (trimFront s)
    have hne := trimBack_ne_nil (trimFront_ne_nil h)
    have hfirst : (trimBack (trimFront s)).head? ≠ some '/' := by
      rw [hj, List.head?_append_of_ne_nil _ hne] at hhead
      exact hhead
    refine ⟨k, trimBack (trimFront s), j, ⟨hne, hfirst, ?_⟩, ?_⟩
    · rcases trimBack_last (trimFront s) with hroot | hlast
      · rw [hroot] at hfirst
        exact absurd rfl hfirst
      · exact hlast
    · rw [List.append_assoc, ← hj]
      exact hk

/-- What a join takes of its second name. -/
def innerPart (s : PathName) : PathName := trimBack (trimFront s)

theorem innerPart_solid {m : PathName} (h : Solid m) (k j : Nat) :
    innerPart (List.replicate k '/' ++ m ++ List.replicate j '/') = m := by
  unfold innerPart
  rw [List.append_assoc, trimFront_slashes, trimBack_slashes h.ne_nil h.last]
  · simp [h.ne_nil]
  · rw [List.head?_append_of_ne_nil _ h.ne_nil]
    exact h.first

theorem innerPart_root (k : Nat) :
    innerPart (List.replicate (k + 1) '/') = ['/'] := by
  unfold innerPart
  rw [trimFront_root]
  rfl

theorem trimBack_solid {m : PathName} (h : Solid m) (k j : Nat) :
    trimBack (List.replicate k '/' ++ m ++ List.replicate j '/')
      = List.replicate k '/' ++ m := by
  apply trimBack_slashes
  · simp [h.ne_nil]
  · rw [List.getLast?_append_of_ne_nil _ h.ne_nil]
    exact h.last

/-- What a join takes of a name is a root, or solid. -/
theorem innerPart_cases {s : PathName} (h : s ≠ []) :
    innerPart s = ['/'] ∨ Solid (innerPart s) := by
  rcases name_cases h with ⟨k, hk⟩ | ⟨k, m, j, hm, hs⟩
  · left
    rw [hk, innerPart_root]
  · right
    rw [hs, innerPart_solid hm]
    exact hm

-- ================================================================ joins

/-- Two parts with a slash between them, if neither is a root. -/
def glue (x y : PathName) : PathName :=
  if y = ['/'] then x
  else if x = ['/'] then x ++ y
  else x ++ '/' :: y

theorem joinPaths_glue {a b : PathName} (ha : a ≠ []) (hb : b ≠ []) :
    joinPaths a b = glue (trimBack a) (innerPart b) := by
  unfold joinPaths
  rw [if_neg ha, if_neg hb]
  rfl

theorem glue_root (x : PathName) : glue x ['/'] = x := if_pos rfl

theorem glue_solid {y : PathName} (h : Solid y) (x : PathName) :
    glue x y = if x = ['/'] then '/' :: y else x ++ '/' :: y := by
  unfold glue
  rw [if_neg h.ne_root]
  by_cases hx : x = ['/']
  · rw [if_pos hx, if_pos hx, hx]
    rfl
  · rw [if_neg hx, if_neg hx]

/-- A join ends like its second part. -/
theorem glue_last {y : PathName} (h : Solid y) (x : PathName) :
    (glue x y).getLast? ≠ some '/' := by
  have hcons : ('/' :: y).getLast? = y.getLast? := by
    rw [List.getLast?_cons_of_ne_nil h.ne_nil]
  rw [glue_solid h]
  split
  · rw [hcons]
    exact h.last
  · rw [List.getLast?_append_of_ne_nil _ (List.cons_ne_nil _ _), hcons]
    exact h.last

/-- There is nothing to trim at the end of a join. -/
theorem joinPaths_last {a b : PathName} (ha : a ≠ []) (hb : b ≠ []) :
    joinPaths a b = ['/'] ∨ (joinPaths a b).getLast? ≠ some '/' := by
  rw [joinPaths_glue ha hb]
  rcases innerPart_cases hb with hroot | hsolid
  · rw [hroot, glue_root]
    exact trimBack_last a
  · exact .inr (glue_last hsolid _)

theorem trimBack_joinPaths {a b : PathName} (ha : a ≠ []) (hb : b ≠ []) :
    trimBack (joinPaths a b) = joinPaths a b := by
  rcases joinPaths_last ha hb with hroot | hlast
  · rw [hroot]
    rfl
  · exact trimBack_of_last hlast

theorem joinPaths_ne_nil {a b : PathName} (ha : a ≠ []) (hb : b ≠ []) :
    joinPaths a b ≠ [] := by
  have hne := trimBack_ne_nil ha
  rw [joinPaths_glue ha hb]
  unfold glue
  split_ifs <;> simp [hne]

/-- Two inner parts, a root among them being dropped. -/
def chain (u v : PathName) : PathName :=
  if v = ['/'] then u
  else if u = ['/'] then v
  else u ++ '/' :: v

theorem innerPart_joinPaths {b c : PathName} (hb : b ≠ []) (hc : c ≠ []) :
    innerPart (joinPaths b c) = chain (innerPart b) (innerPart c) := by
  rw [joinPaths_glue hb hc]
  unfold chain
  rcases innerPart_cases hc with hroot | hsolid
  · -- only the end of the first name was trimmed
    rw [hroot, glue_root, if_pos rfl]
    rcases name_cases hb with ⟨k, rfl⟩ | ⟨k, m, j, hm, rfl⟩
    · rw [trimBack_root, innerPart_root]
      rfl
    · have hshort := innerPart_solid hm k 0
      rw [List.replicate_zero, List.append_nil] at hshort
      rw [trimBack_solid hm, innerPart_solid hm, hshort]
  · rw [if_neg hsolid.ne_root, glue_solid hsolid]
    rcases name_cases hb with ⟨k, rfl⟩ | ⟨k, m, j, hm, rfl⟩
    · have hone := innerPart_solid hsolid 1 0
      rw [List.replicate_zero, List.append_nil] at hone
      rw [trimBack_root, innerPart_root, if_pos rfl, if_pos rfl]
      exact hone
    · have hne : List.replicate k '/' ++ m ≠ ['/'] := by
        intro heq
        apply hm.last
        rw [← List.getLast?_append_of_ne_nil (List.replicate k '/') hm.ne_nil,
          heq]
        rfl
      have hjoined : Solid (m ++ '/' :: innerPart c) := by
        refine ⟨by simp, ?_, ?_⟩
        · rw [List.head?_append_of_ne_nil _ hm.ne_nil]
          exact hm.first
        · rw [List.getLast?_append_of_ne_nil _ (List.cons_ne_nil _ _),
            List.getLast?_cons_of_ne_nil hsolid.ne_nil]
          exact hsolid.last
      have hlong := innerPart_solid hjoined k 0
      rw [List.replicate_zero, List.append_nil] at hlong
      rw [trimBack_solid hm, innerPart_solid hm, if_neg hne,
        if_neg hm.ne_root, List.append_assoc]
      exact hlong

/-- Parts are glued one by one, or the last two of them first. -/
theorem glue_assoc {x u : PathName} (hx : x ≠ []) (hu : u ≠ [])
    (v : PathName) : glue (glue x u) v = glue x (chain u v) := by
  by_cases hv : v = ['/']
  · simp [glue, chain, hv]
  · by_cases hroot : u = ['/']
    · simp [glue, chain, hv, hroot]
    · have hchain : u ++ '/' :: v ≠ ['/'] := by
        intro heq
        have hlen := congrArg List.length heq
        have hpos := List.length_pos_iff.mpr hu
        simp only [List.length_append, List.length_cons] at hlen
        simp at hlen
        omega
      by_cases hxr : x = ['/']
      · simp [glue, chain, hv, hroot, hxr, hchain, hu]
      · have hglue : x ++ '/' :: u ≠ ['/'] := by
          intro heq
          have hlen := congrArg List.length heq
          have hpos := List.length_pos_iff.mpr hx
          simp at hlen
          omega
        simp [glue, chain, hv, hroot, hxr, hchain, hglue]

theorem joinPaths_nil_left (a : PathName) : joinPaths [] a = a := if_pos rfl

theorem joinPaths_nil_right (a : PathName) : joinPaths a [] = a := by
  unfold joinPaths
  by_cases h : a = []
  · rw [if_pos h, h]
  · rw [if_neg h, if_pos rfl]

theorem joinPaths_assoc (a b c : PathName) :
    joinPaths (joinPaths a b) c = joinPaths a (joinPaths b c) := by
  by_cases ha : a = []
  · rw [ha, joinPaths_nil_left, joinPaths_nil_left]
  by_cases hb : b = []
  · rw [hb, joinPaths_nil_right, joinPaths_nil_left]
  by_cases hc : c = []
  · rw [hc, joinPaths_nil_right, joinPaths_nil_right]
  have hinner : innerPart b ≠ [] :=
    trimBack_ne_nil (trimFront_ne_nil hb)
  calc joinPaths (joinPaths a b) c
      = glue (joinPaths a b) (innerPart c) := by
        rw [joinPaths_glue (joinPaths_ne_nil ha hb) hc,
          trimBack_joinPaths ha hb]
    _ = glue (glue (trimBack a) (innerPart b)) (innerPart c) := by
        rw [joinPaths_glue ha hb]
    _ = glue (trimBack a) (chain (innerPart b) (innerPart c)) :=
        glue_assoc (trimBack_ne_nil ha) hinner _
    _ = joinPaths a (joinPaths b c) := by
        rw [← innerPart_joinPaths hb hc,
          joinPaths_glue ha (joinPaths_ne_nil hb hc)]

/-- Joining is associative, an empty name is neutral on both sides, and a
join of names that are not empty has no slash at its end if it is not the
root. -/
theorem joinPaths_monoid :
    (∀ a b c, joinPaths (joinPaths a b) c = joinPaths a (joinPaths b c))
      ∧ (∀ a, joinPaths [] a = a ∧ joinPaths a [] = a)
      ∧ ∀ a b, a ≠ [] ∧ b ≠ [] → joinPaths a b = ['/']
        ∨ (joinPaths a b).getLast? ≠ some '/' :=
  ⟨joinPaths_assoc, fun a => ⟨joinPaths_nil_left a, joinPaths_nil_right a⟩,
    fun _ _ h => joinPaths_last h.1 h.2⟩

/-- Nested joins of the join test. -/
example : joinPaths (joinPaths "/".toList "usr//".toList) "share///".toList
    = "/usr/share".toList := by decide

end BigDataExpress
