/-
Sets in a red-black tree, as the library of C++ keeps them.

An element goes left at a node if it is less than the node's, and right if
not, and is linked at the end of its way. It is refused if the last node
at which it went right, its predecessor there, is not less than it. So it
is compared only with the elements on its way, and whether it is found
depends on the shape of the tree unless the comparison is a strict weak
order.

The second half is about one kind of comparison that is not: `a` is less
than `b` if `b ≤ a` does not hold, in a partial order. Two elements that
are not comparable are then less than each other. No element is ever lost
(`mem_build`), but one may be linked again. An element stays alone if all
others are comparable to it, since those below it and those above it keep
to their sides (`Parted`); and also if all others but one are above it,
since it then stays on the left spine (`Spine`). In all other cases three
elements, in the right order, hide the first of them (`count_hidden`).
-/
import Mathlib.Data.List.Induction
import Mathlib.Data.List.Perm.Basic
import Mathlib.Order.Basic

namespace RbSet

/-- The colour of a node. -/
inductive Color
  | red
  | black
deriving DecidableEq, Repr

/-- A binary tree with coloured nodes; nothing keeps it ordered or
balanced. -/
inductive Tree (α : Type)
  | nil
  | node (color : Color) (left : Tree α) (key : α) (right : Tree α)
deriving DecidableEq, Repr

namespace Tree

variable {α : Type}

/-- The elements in order, as an iterator meets them. -/
def toList : Tree α → List α
  | nil => []
  | node _ l k r => l.toList ++ k :: r.toList

/-- The tree has a red root. -/
def isRed : Tree α → Bool
  | node .red _ _ _ => true
  | _ => false

/-- The root has a red child. -/
def hasRedChild : Tree α → Bool
  | nil => false
  | node _ l _ r => l.isRed || r.isRed

/-- The root becomes black. -/
def blacken : Tree α → Tree α
  | nil => nil
  | node _ l k r => node .black l k r

-- ============================================================= rebalancing

/-- A black node whose left child and a child of that are red, rotated. -/
def rotateRight : Tree α → α → Tree α → Tree α
  | node .red (node .red a x b) y c, k, r =>
      node .black (node .red a x b) y (node .red c k r)
  | node .red a x (node .red b y c), k, r =>
      node .black (node .red a x b) y (node .red c k r)
  | l, k, r => node .black l k r

/-- A black node whose right child and a child of that are red, rotated. -/
def rotateLeft : Tree α → α → Tree α → Tree α
  | l, k, node .red b y (node .red c z d) =>
      node .black (node .red l k b) y (node .red c z d)
  | l, k, node .red (node .red b y c) z d =>
      node .black (node .red l k b) y (node .red c z d)
  | l, k, r => node .black l k r

/-- A node whose left subtree has a new element. -/
def fixLeft (c : Color) (l : Tree α) (k : α) (r : Tree α) : Tree α :=
  if c = .black ∧ l.isRed = true ∧ l.hasRedChild = true then
    if r.isRed then node .red l.blacken k r.blacken else rotateRight l k r
  else node c l k r

/-- A node whose right subtree has a new element. -/
def fixRight (c : Color) (l : Tree α) (k : α) (r : Tree α) : Tree α :=
  if c = .black ∧ r.isRed = true ∧ r.hasRedChild = true then
    if l.isRed then node .red l.blacken k r.blacken else rotateLeft l k r
  else node c l k r

/-- Either the node has its place and at most other colours, or its left
child has taken it, or the right child of that. -/
theorem fixLeft_cases (c : Color) (l : Tree α) (k : α) (r : Tree α) :
    (∃ c', fixLeft c l k r = node c' l k r)
    ∨ (∃ c', fixLeft c l k r = node c' l.blacken k r.blacken)
    ∨ (∃ a x b y d, l = node .red (node .red a x b) y d
        ∧ fixLeft c l k r = node .black (node .red a x b) y (node .red d k r))
    ∨ (∃ a x b y d, l = node .red a x (node .red b y d)
        ∧ fixLeft c l k r
          = node .black (node .red a x b) y (node .red d k r)) := by
  unfold fixLeft
  split_ifs with h hr
  · exact .inr (.inl ⟨_, rfl⟩)
  · unfold rotateRight
    split
    · exact .inr (.inr (.inl ⟨_, _, _, _, _, rfl, rfl⟩))
    · exact .inr (.inr (.inr ⟨_, _, _, _, _, rfl, rfl⟩))
    · exact .inl ⟨_, rfl⟩
  · exact .inl ⟨_, rfl⟩

/-- After an insertion on the right the node is recoloured, or the tree
rotated. -/
theorem fixRight_cases (c : Color) (l : Tree α) (k : α) (r : Tree α) :
    (∃ c', fixRight c l k r = node c' l k r)
    ∨ (∃ c', fixRight c l k r = node c' l.blacken k r.blacken)
    ∨ (∃ b y d z e, r = node .red b y (node .red d z e)
        ∧ fixRight c l k r = node .black (node .red l k b) y (node .red d z e))
    ∨ (∃ b y d z e, r = node .red (node .red b y d) z e
        ∧ fixRight c l k r
          = node .black (node .red l k b) y (node .red d z e)) := by
  unfold fixRight
  split_ifs with h hr
  · exact .inr (.inl ⟨_, rfl⟩)
  · unfold rotateLeft
    split
    · exact .inr (.inr (.inl ⟨_, _, _, _, _, rfl, rfl⟩))
    · exact .inr (.inr (.inr ⟨_, _, _, _, _, rfl, rfl⟩))
    · exact .inl ⟨_, rfl⟩
  · exact .inl ⟨_, rfl⟩

/-- An empty tree has no elements. -/
@[simp] theorem toList_nil : (nil : Tree α).toList = [] := rfl

/-- A node stands between its subtrees. -/
@[simp] theorem toList_node (c : Color) (l : Tree α) (k : α) (r : Tree α) :
    (node c l k r).toList = l.toList ++ k :: r.toList := rfl

/-- Colours change no elements. -/
@[simp] theorem toList_blacken (t : Tree α) : t.blacken.toList = t.toList := by
  cases t <;> rfl

/-- Rotations after an insertion on the left keep the order. -/
@[simp] theorem toList_fixLeft (c : Color) (l : Tree α) (k : α) (r : Tree α) :
    (fixLeft c l k r).toList = l.toList ++ k :: r.toList := by
  rcases fixLeft_cases c l k r with ⟨c', h⟩ | ⟨c', h⟩
    | ⟨a, x, b, y, d, rfl, h⟩ | ⟨a, x, b, y, d, rfl, h⟩ <;> simp [h]

/-- And those on the right. -/
@[simp] theorem toList_fixRight (c : Color) (l : Tree α) (k : α) (r : Tree α) :
    (fixRight c l k r).toList = l.toList ++ k :: r.toList := by
  rcases fixRight_cases c l k r with ⟨c', h⟩ | ⟨c', h⟩
    | ⟨b, y, d, z, e, rfl, h⟩ | ⟨b, y, d, z, e, rfl, h⟩ <;> simp [h]

-- =============================================================== insertion

section Insertion

variable (lt : α → α → Bool) (k : α)

/-- The last node at which an element goes right. -/
def pred : Option α → Tree α → Option α
  | p, nil => p
  | p, node _ l n r => if lt k n then pred p l else pred (some n) r

/-- An element linked at the end of its way. -/
def link : Tree α → Tree α
  | nil => node .red nil k nil
  | node c l n r =>
      if lt k n then fixLeft c (link l) n r else fixRight c l n (link r)

/-- `std::set::emplace` -/
def emplace (t : Tree α) : Tree α :=
  match pred lt k none t with
  | none => (link lt k t).blacken
  | some j => if lt j k then (link lt k t).blacken else t

/-- The elements before the end of the way, and those behind it. -/
def cut : Tree α → List α × List α
  | nil => ([], [])
  | node _ l n r =>
      if lt k n then ((cut l).1, (cut l).2 ++ n :: r.toList)
      else (l.toList ++ n :: (cut r).1, (cut r).2)

variable {lt k}

/-- The two sides of the descent are the elements. -/
theorem cut_append (t : Tree α) : (cut lt k t).1 ++ (cut lt k t).2 = t.toList := by
  induction t with
  | nil => rfl
  | node c l n r ihl ihr =>
      unfold cut
      split
      · rw [toList_node, ← ihl, List.append_assoc]
      · rw [toList_node, ← ihr, List.append_assoc, List.cons_append]

/-- What is inserted stands between the two sides. -/
theorem toList_link (t : Tree α) :
    (link lt k t).toList = (cut lt k t).1 ++ k :: (cut lt k t).2 := by
  induction t with
  | nil => rfl
  | node c l n r ihl ihr =>
      unfold link cut
      split
      · simp [ihl]
      · simp [ihr]

/-- The candidate for an equal element is the last on the left. -/
theorem pred_eq (p : Option α) (t : Tree α) :
    pred lt k p t = (cut lt k t).1.getLast?.or p := by
  induction t generalizing p with
  | nil => rfl
  | node c l n r ihl ihr =>
      unfold pred cut
      split
      · exact ihl p
      · rw [ihr, List.getLast?_append, List.getLast?_cons]
        cases (cut lt k r).1.getLast? <;> rfl

/-- Elements that send it right are before it. -/
theorem cut_right {t : Tree α} {xs ys : List α} (h : t.toList = xs ++ ys)
    (hx : ∀ x ∈ xs, lt k x = false) :
    ∃ ys₁ ys₂, ys = ys₁ ++ ys₂ ∧ cut lt k t = (xs ++ ys₁, ys₂) := by
  induction t generalizing xs ys with
  | nil =>
      obtain ⟨rfl, rfl⟩ := List.append_eq_nil_iff.mp h.symm
      exact ⟨[], [], rfl, rfl⟩
  | node c l n r ihl ihr =>
      rw [toList_node] at h
      unfold cut
      rcases List.append_eq_append_iff.mp h with ⟨as, hxs, htail⟩ | ⟨bs, hl, hys⟩
      · cases as with
        | nil =>
            rw [List.append_nil] at hxs
            rw [List.nil_append] at htail
            subst hxs htail
            split
            · obtain ⟨y₁, y₂, hnil, hcut⟩ := ihl (List.append_nil _).symm hx
              obtain ⟨rfl, rfl⟩ := List.append_eq_nil_iff.mp hnil.symm
              rw [hcut]
              exact ⟨[], n :: r.toList, rfl, rfl⟩
            · exact ⟨n :: (cut lt k r).1, (cut lt k r).2,
                by rw [List.cons_append, cut_append], rfl⟩
        | cons m as =>
            injection htail with hm htail
            subst hm hxs
            rw [if_neg (by simp [hx n (by simp)])]
            obtain ⟨y₁, y₂, rfl, hcut⟩ := ihr htail fun x hmem => hx x (by simp [hmem])
            rw [hcut]
            exact ⟨y₁, y₂, rfl, by simp⟩
      · subst hys
        split
        · obtain ⟨y₁, y₂, rfl, hcut⟩ := ihl hl hx
          rw [hcut]
          exact ⟨y₁, y₂ ++ n :: r.toList, by simp, rfl⟩
        · refine ⟨bs ++ n :: (cut lt k r).1, (cut lt k r).2, ?_, ?_⟩
          · rw [List.append_assoc, List.cons_append, cut_append]
          · rw [hl, List.append_assoc]

/-- Elements that send it left are behind it. -/
theorem cut_left {t : Tree α} {xs ys : List α} (h : t.toList = xs ++ ys)
    (hy : ∀ y ∈ ys, lt k y = true) :
    ∃ xs₁ xs₂, xs = xs₁ ++ xs₂ ∧ cut lt k t = (xs₁, xs₂ ++ ys) := by
  induction t generalizing xs ys with
  | nil =>
      obtain ⟨rfl, rfl⟩ := List.append_eq_nil_iff.mp h.symm
      exact ⟨[], [], rfl, rfl⟩
  | node c l n r ihl ihr =>
      rw [toList_node] at h
      unfold cut
      rcases List.append_eq_append_iff.mp h with ⟨as, hxs, htail⟩ | ⟨bs, hl, hys⟩
      · cases as with
        | nil =>
            rw [List.append_nil] at hxs
            rw [List.nil_append] at htail
            subst hxs htail
            rw [if_pos (hy n (by simp))]
            exact ⟨(cut lt k l).1, (cut lt k l).2, (cut_append l).symm, rfl⟩
        | cons m as =>
            injection htail with hm htail
            subst hm hxs
            split
            · refine ⟨(cut lt k l).1, (cut lt k l).2 ++ n :: as, ?_, ?_⟩
              · rw [← List.append_assoc, cut_append]
              · rw [htail, List.append_assoc, List.cons_append]
                rfl
            · obtain ⟨x₁, x₂, rfl, hcut⟩ := ihr htail hy
              rw [hcut]
              exact ⟨l.toList ++ n :: x₁, x₂, by simp, rfl⟩
      · subst hys
        rw [if_pos (hy n (by simp))]
        obtain ⟨x₁, x₂, rfl, hcut⟩ := ihl hl fun y hmem => hy y (by simp [hmem])
        rw [hcut]
        exact ⟨x₁, x₂, rfl, by simp⟩

/-- Both together. -/
theorem cut_exact {t : Tree α} {xs ys : List α} (h : t.toList = xs ++ ys)
    (hx : ∀ x ∈ xs, lt k x = false) (hy : ∀ y ∈ ys, lt k y = true) :
    cut lt k t = (xs, ys) := by
  obtain ⟨y₁, y₂, hys, hcut⟩ := cut_right h hx
  obtain ⟨x₁, x₂, hxs, hcut'⟩ := cut_left h hy
  have hlen : (xs ++ y₁).length = x₁.length := by
    rw [hcut] at hcut'
    exact congrArg (fun p => p.1.length) hcut'
  have hnil : y₁ = [] := by
    have hle := congrArg List.length hxs
    simp only [List.length_append] at hlen hle
    exact List.eq_nil_of_length_eq_zero (by omega)
  subst hnil
  rw [hcut, hys, List.append_nil, List.nil_append]

end Insertion

-- ======================================================= partial orders

section Order

variable [PartialOrder α] [DecidableLE α] {k e x : α}

/-- Less than, in a linear order; of two elements that are not comparable
each is less than the other. -/
def notGe (a b : α) : Bool := decide (¬ b ≤ a)

/-- Not above or equal, as a proposition. -/
@[simp] theorem notGe_eq_true {a b : α} : notGe a b = true ↔ ¬ b ≤ a := by
  simp [notGe]

/-- And its negation. -/
@[simp] theorem notGe_eq_false {a b : α} : notGe a b = false ↔ b ≤ a := by
  simp [notGe]

/-- A comparison with which a set works, on the elements of a list. -/
structure StrictWeakOn (lt : α → α → Bool) (l : List α) : Prop where
  irrefl : ∀ a ∈ l, lt a a = false
  asymm : ∀ a ∈ l, ∀ b ∈ l, lt a b = true → lt b a = false
  trans : ∀ a ∈ l, ∀ b ∈ l, ∀ c ∈ l, lt a b = true → lt b c = true →
    lt a c = true
  incomparable : ∀ a ∈ l, ∀ b ∈ l, ∀ c ∈ l, lt a b = false → lt b a = false →
    lt b c = false → lt c b = false → lt a c = false ∧ lt c a = false

/-- On a list that is totally ordered the comparison is a strict weak order,
and on no other. -/
theorem strictWeakOn_iff (l : List α) :
    StrictWeakOn notGe l ↔ ∀ a ∈ l, ∀ b ∈ l, a ≤ b ∨ b ≤ a := by
  constructor
  · intro h a ha b hb
    by_cases hab : b ≤ a
    · exact .inr hab
    · exact .inl (notGe_eq_false.mp (h.asymm a ha b hb (notGe_eq_true.mpr hab)))
  · intro h
    refine ⟨?_, ?_, ?_, ?_⟩
    · intro a _
      simp
    · intro a ha b hb hab
      rw [notGe_eq_true] at hab
      rw [notGe_eq_false]
      exact (h a ha b hb).resolve_right hab
    · intro a ha b hb c hc hab hbc
      rw [notGe_eq_true] at hab hbc ⊢
      intro hca
      exact hbc (hca.trans ((h a ha b hb).resolve_right hab))
    · intro a _ b _ c _ hab hba hbc hcb
      simp only [notGe_eq_false] at *
      exact ⟨hbc.trans hab, hba.trans hcb⟩

/-- The last node to the left of which an element is not, is not above it. -/
theorem pred_le {p : Option α} {t : Tree α} {j : α} (hp : ∀ q ∈ p, q ≤ k)
    (h : pred notGe k p t = some j) : j ≤ k := by
  induction t generalizing p with
  | nil => exact hp j h
  | node c l n r ihl ihr =>
      unfold pred at h
      split at h
      · exact ihl hp h
      · rename_i hn
        refine ihr ?_ h
        intro q hq
        cases hq
        simpa using hn

/-- An element is refused by itself only. -/
theorem emplace_eq [DecidableEq α] (t : Tree α) :
    emplace notGe k t = if pred notGe k none t = some k then t
      else (link notGe k t).blacken := by
  unfold emplace
  cases hp : pred notGe k none t with
  | none => rfl
  | some j =>
      have hj : j ≤ k := pred_le (p := none) (by simp) hp
      by_cases heq : j = k
      · subst heq
        simp
      · have hlt : notGe j k = true :=
          notGe_eq_true.mpr fun hkj => heq (le_antisymm hj hkj)
        simp [hlt, heq]

/-- An element is inserted between the sides, unless the last on the left is
equal to it. -/
theorem toList_emplace [DecidableEq α] (t : Tree α) :
    (emplace notGe k t).toList
      = if (cut notGe k t).1.getLast? = some k then t.toList
        else (cut notGe k t).1 ++ k :: (cut notGe k t).2 := by
  rw [emplace_eq, pred_eq, Option.or_none]
  split
  · rfl
  · rw [toList_blacken, toList_link]

/-- The same for this comparison. -/
theorem cut_append_of (k : α) (t : Tree α) :
    (cut notGe k t).1 ++ (cut notGe k t).2 = t.toList := cut_append t

/-- The set after a number of insertions. -/
def build (l : List α) : Tree α :=
  l.foldl (fun t k => emplace notGe k t) nil

/-- The last element is inserted last. -/
theorem build_snoc (l : List α) (k : α) :
    build (l ++ [k]) = emplace notGe k (build l) := by
  unfold build
  rw [List.foldl_append]
  rfl

/-- The set has the element and what it had. -/
theorem mem_emplace [DecidableEq α] (t : Tree α) :
    e ∈ (emplace notGe k t).toList ↔ e = k ∨ e ∈ t.toList := by
  rw [toList_emplace]
  split
  · rename_i h
    refine ⟨.inr, ?_⟩
    rintro (rfl | h')
    · rw [← cut_append_of e t]
      exact List.mem_append_left _ (List.mem_of_getLast? h)
    · exact h'
  · rw [← cut_append_of k t]
    simp only [List.mem_append, List.mem_cons]
    tauto

/-- No element is lost. -/
theorem mem_build [DecidableEq α] (l : List α) :
    e ∈ (build l).toList ↔ e ∈ l := by
  induction l using List.reverseRecOn with
  | nil => simp [build]
  | append_singleton l k ih =>
      rw [build_snoc, mem_emplace, ih, List.mem_append, List.mem_singleton,
        or_comm]

/-- An insertion removes nothing. -/
theorem count_emplace_le [DecidableEq α] (t : Tree α) :
    t.toList.count e ≤ (emplace notGe k t).toList.count e := by
  rw [toList_emplace]
  split
  · exact Nat.le_refl _
  · rw [← cut_append_of k t]
    simp only [List.count_append, List.count_cons]
    omega

/-- Nor do insertions in a row. -/
theorem count_foldl_le [DecidableEq α] (l : List α) (t : Tree α) :
    t.toList.count e
      ≤ (l.foldl (fun t k => emplace notGe k t) t).toList.count e := by
  induction l generalizing t with
  | nil => exact Nat.le_refl _
  | cons k l ih => exact Nat.le_trans (count_emplace_le t) (ih _)

-- ============================================= one that all compare with

omit [DecidableLE α] in
/-- What can be compared is below, equal or above. -/
theorem lt_trichotomy_of_comparable (h : k ≤ e ∨ e ≤ k) :
    k < e ∨ k = e ∨ e < k := by
  rcases h with h | h
  · rcases h.lt_or_eq with hlt | heq
    · exact .inl hlt
    · exact .inr (.inl heq)
  · rcases h.lt_or_eq with hlt | heq
    · exact .inr (.inr hlt)
    · exact .inr (.inl heq.symm)

/-- What is below an element is before it, and what is above it behind. -/
def Parted (e : α) (t : Tree α) : Prop :=
  ∃ below mid above, t.toList = below ++ (mid ++ above)
    ∧ (mid = [] ∨ mid = [e]) ∧ (∀ b ∈ below, b < e) ∧ ∀ a ∈ above, e < a

/-- Insertions of what can be compared with an element keep the set parted at
it. -/
theorem Parted.emplace [DecidableEq α] {t : Tree α} (h : Parted e t)
    (hk : k ≤ e ∨ e ≤ k) : Parted e (emplace notGe k t) := by
  obtain ⟨below, mid, above, htree, hmid, hbelow, habove⟩ := h
  have hmid_eq : ∀ m ∈ mid, m = e := by
    rcases hmid with rfl | rfl
    · simp
    · simp
  rcases lt_trichotomy_of_comparable hk with hlt | rfl | hlt
  · -- below: it goes left of the element and of all above it
    have hleft : ∀ y ∈ mid ++ above, notGe k y = true := by
      intro y hy
      rw [notGe_eq_true]
      intro hyk
      rcases List.mem_append.mp hy with hy | hy
      · exact absurd (hmid_eq y hy ▸ hyk) hlt.not_ge
      · exact absurd ((habove y hy).le.trans hyk) hlt.not_ge
    obtain ⟨b₁, b₂, rfl, hcut⟩ := cut_left htree hleft
    rw [Parted, toList_emplace, hcut]
    split
    · exact ⟨_, mid, above, htree, hmid, hbelow, habove⟩
    · refine ⟨b₁ ++ k :: b₂, mid, above, by simp, hmid, ?_, habove⟩
      intro b hb
      simp only [List.mem_append, List.mem_cons] at hb hbelow
      rcases hb with hb | rfl | hb
      · exact hbelow b (.inl hb)
      · exact hlt
      · exact hbelow b (.inr hb)
  · -- the element itself
    have hright : ∀ y ∈ below ++ mid, notGe k y = false := by
      intro y hy
      rw [notGe_eq_false]
      rcases List.mem_append.mp hy with hy | hy
      · exact (hbelow y hy).le
      · exact (hmid_eq y hy).le
    have hleft : ∀ y ∈ above, notGe k y = true := by
      intro y hy
      rw [notGe_eq_true]
      exact (habove y hy).not_ge
    have hcut := cut_exact (by rw [htree, List.append_assoc]) hright hleft
    rw [Parted, toList_emplace, hcut]
    rcases hmid with rfl | rfl
    · rw [if_neg]
      · exact ⟨below, [k], above, by simp, .inr rfl, hbelow, habove⟩
      · rw [List.append_nil]
        intro hlast
        exact (hbelow k (List.mem_of_getLast? hlast)).false
    · rw [if_pos (by simp)]
      exact ⟨below, [k], above, htree, .inr rfl, hbelow, habove⟩
  · have hright : ∀ y ∈ below ++ mid, notGe k y = false := by
      intro y hy
      rw [notGe_eq_false]
      rcases List.mem_append.mp hy with hy | hy
      · exact ((hbelow y hy).trans hlt).le
      · exact (hmid_eq y hy).le.trans hlt.le
    obtain ⟨a₁, a₂, rfl, hcut⟩ :=
      cut_right (by rw [htree, List.append_assoc]) hright
    rw [Parted, toList_emplace, hcut]
    split
    · exact ⟨below, mid, _, htree, hmid, hbelow, habove⟩
    · refine ⟨below, mid, a₁ ++ k :: a₂, by simp, hmid, hbelow, ?_⟩
      intro a ha
      simp only [List.mem_append, List.mem_cons] at ha habove
      rcases ha with ha | rfl | ha
      · exact habove a (.inl ha)
      · exact hlt
      · exact habove a (.inr ha)

omit [DecidableLE α] in
/-- A set that is parted at an element has it once at most. -/
theorem Parted.count_le [DecidableEq α] {t : Tree α} (h : Parted e t) :
    t.toList.count e ≤ 1 := by
  obtain ⟨below, mid, above, htree, hmid, hbelow, habove⟩ := h
  have hb : below.count e = 0 :=
    List.count_eq_zero.mpr fun hmem => (hbelow e hmem).false
  have ha : above.count e = 0 :=
    List.count_eq_zero.mpr fun hmem => (habove e hmem).false
  rw [htree, List.count_append, List.count_append, hb, ha]
  rcases hmid with rfl | rfl
  · simp
  · simp

/-- A set of elements comparable with one is parted at it. -/
theorem parted_build [DecidableEq α] {l : List α}
    (h : ∀ k ∈ l, k ≤ e ∨ e ≤ k) : Parted e (build l) := by
  induction l using List.reverseRecOn with
  | nil => exact ⟨[], [], [], rfl, .inl rfl, by simp, by simp⟩
  | append_singleton l k ih =>
      rw [build_snoc]
      exact (ih fun j hj => h j (List.mem_append_left _ hj)).emplace
        (h k (List.mem_append_right _ (List.mem_singleton_self k)))

-- ======================================== one that all but one are above

/-- An element on the left spine of a tree; before it there is at most one
other, in a leaf. -/
def Spine (e x : α) : Tree α → Prop
  | nil => False
  | node _ l n r => e ∉ r.toList
      ∧ ((n = e ∧ (l = nil ∨ ∃ c, l = node c nil x nil))
        ∨ (n ≠ e ∧ Spine e x l))

omit [PartialOrder α] [DecidableLE α] in
/-- Colours do not matter to the spine. -/
theorem Spine.blacken {t : Tree α} (h : Spine e x t) : Spine e x t.blacken := by
  cases t with
  | nil => exact h
  | node c l n r => exact h

omit [PartialOrder α] [DecidableLE α] in
/-- The children of a node may change their colours. -/
theorem Spine.recolour {c c' : Color} {l r : Tree α} {n : α}
    (h : Spine e x (node c l n r)) : Spine e x (node c' l.blacken n r.blacken) := by
  obtain ⟨hr, ⟨rfl, hl⟩ | ⟨hn, hl⟩⟩ := h
  · refine ⟨by simpa using hr, .inl ⟨rfl, ?_⟩⟩
    rcases hl with rfl | ⟨c, rfl⟩
    · exact .inl rfl
    · exact .inr ⟨_, rfl⟩
  · exact ⟨by simpa using hr, .inr ⟨hn, hl.blacken⟩⟩

omit [PartialOrder α] [DecidableLE α] in
/-- A rotation to the right takes the element up the spine, since a leaf
has no red child. -/
theorem Spine.fixLeft {c : Color} {l r : Tree α} {n : α}
    (h : Spine e x (node c l n r)) : Spine e x (fixLeft c l n r) := by
  rcases fixLeft_cases c l n r with ⟨c', heq⟩ | ⟨c', heq⟩
    | ⟨a, m, b, y, d, rfl, heq⟩ | ⟨a, m, b, y, d, rfl, heq⟩
  · rw [heq]
    exact h
  · rw [heq]
    exact h.recolour
  · rw [heq]
    obtain ⟨hr, ⟨_, hl | ⟨_, hl⟩⟩ | ⟨hn, hd, hl⟩⟩ := h
    · cases hl
    · injection hl with _ hl
      cases hl
    · refine ⟨?_, hl⟩
      simp only [toList_node, List.mem_append, List.mem_cons, not_or]
      exact ⟨hd, hn.symm, hr⟩
  · rw [heq]
    obtain ⟨hr, ⟨_, hl | ⟨_, hl⟩⟩ | ⟨hn, hmid, hl⟩⟩ := h
    · cases hl
    · injection hl with _ _ _ hl
      cases hl
    · simp only [toList_node, List.mem_append, List.mem_cons, not_or] at hmid
      refine ⟨?_, .inr ⟨Ne.symm hmid.2.1, hmid.1, hl⟩⟩
      simp only [toList_node, List.mem_append, List.mem_cons, not_or]
      exact ⟨hmid.2.2, hn.symm, hr⟩

omit [PartialOrder α] [DecidableLE α] in
/-- A rotation to the left makes the spine longer at the top. -/
theorem Spine.fixRight {c : Color} {l r : Tree α} {n : α}
    (h : Spine e x (node c l n r)) : Spine e x (fixRight c l n r) := by
  rcases fixRight_cases c l n r with ⟨c', heq⟩ | ⟨c', heq⟩
    | ⟨b, y, d, z, f, rfl, heq⟩ | ⟨b, y, d, z, f, rfl, heq⟩
  · rw [heq]
    exact h
  · rw [heq]
    exact h.recolour
  · rw [heq]
    obtain ⟨hr, hl⟩ := h
    simp only [toList_node, List.mem_append, List.mem_cons, not_or] at hr
    refine ⟨?_, .inr ⟨Ne.symm hr.2.1, hr.1, hl⟩⟩
    simp only [toList_node, List.mem_append, List.mem_cons, not_or]
    exact hr.2.2
  · rw [heq]
    obtain ⟨hr, hl⟩ := h
    simp only [toList_node, List.mem_append, List.mem_cons, not_or] at hr
    refine ⟨?_, .inr ⟨Ne.symm hr.1.2.1, hr.1.1, hl⟩⟩
    simp only [toList_node, List.mem_append, List.mem_cons, not_or]
    exact ⟨hr.1.2.2, hr.2⟩

omit [PartialOrder α] [DecidableLE α] in
/-- With a spine the element is there once. -/
theorem Spine.count_eq [DecidableEq α] {t : Tree α} (h : Spine e x t)
    (hne : x ≠ e) : t.toList.count e = 1 := by
  induction t with
  | nil => exact h.elim
  | node c l n r ihl _ =>
      obtain ⟨hr, ⟨rfl, hl⟩ | ⟨hn, hl⟩⟩ := h
      · have hcount : l.toList.count n = 0 := by
          rcases hl with rfl | ⟨c, rfl⟩
          · rfl
          · simp [hne]
        rw [toList_node, List.count_append, hcount, List.count_cons_self,
          List.count_eq_zero.mpr hr]
      · rw [toList_node, List.count_append, ihl hl, List.count_cons_of_ne hn,
          List.count_eq_zero.mpr hr]

/-- An element that is less than all others goes left always. -/
theorem pred_skip {p : Option α} {t : Tree α} (h : ∀ n ∈ t.toList, ¬ n ≤ k) :
    pred notGe k p t = p := by
  induction t with
  | nil => rfl
  | node c l n r ihl _ =>
      unfold pred
      rw [if_pos (notGe_eq_true.mpr (h n (by simp)))]
      exact ihl fun m hm => h m (by simp [hm])

/-- So the element on the spine is found. -/
theorem Spine.pred_eq {p : Option α} {t : Tree α} (h : Spine e x t)
    (hall : ∀ n ∈ t.toList, n ≠ e → ¬ n ≤ e) :
    pred notGe e p t = some e := by
  induction t generalizing p with
  | nil => exact h.elim
  | node c l n r ihl _ =>
      obtain ⟨hr, ⟨rfl, _⟩ | ⟨hn, hl⟩⟩ := h
      · unfold pred
        rw [if_neg (by simp)]
        apply pred_skip
        intro m hm
        exact hall m (by simp [hm]) fun heq => hr (heq ▸ hm)
      · unfold pred
        rw [if_pos (notGe_eq_true.mpr (hall n (by simp) hn))]
        exact ihl hl fun m hm => hall m (by simp [hm])

/-- A first element goes to the left end. -/
theorem spine_link {t : Tree α} (he : e ∉ t.toList)
    (hall : ∀ n ∈ t.toList, ¬ n ≤ e) (x : α) : Spine e x (link notGe e t) := by
  induction t with
  | nil => exact ⟨List.not_mem_nil, .inl ⟨rfl, .inl rfl⟩⟩
  | node c l n r ihl _ =>
      simp only [toList_node, List.mem_append, List.mem_cons, not_or] at he
      unfold link
      rw [if_pos (notGe_eq_true.mpr (hall n (by simp)))]
      exact Spine.fixLeft ⟨he.2.2, .inr ⟨Ne.symm he.2.1,
        ihl he.1 fun m hm => hall m (by simp [hm])⟩⟩

/-- No other element comes between the element and its place: one that is
above it goes right at it, and the one that is not is refused at its own
leaf. -/
theorem Spine.link {p : Option α} {t : Tree α} (h : Spine e x t) (hk : k ≠ e)
    (hx : ¬ x ≤ e ∧ ¬ e ≤ x) (habove : k ≠ x → e ≤ k)
    (hp : pred notGe k p t ≠ some k) : Spine e x (link notGe k t) := by
  induction t generalizing p with
  | nil => exact h.elim
  | node c l n r ihl _ =>
      obtain ⟨hr, hplace⟩ := h
      unfold pred at hp
      unfold Tree.link
      by_cases hlt : notGe k n = true
      · rw [if_pos hlt] at hp ⊢
        apply Spine.fixLeft
        rcases hplace with ⟨rfl, hl⟩ | ⟨hn, hl⟩
        · have hkx : k = x := by
            by_contra hne
            exact notGe_eq_true.mp hlt (habove hne)
          subst hkx
          rcases hl with rfl | ⟨c', rfl⟩
          · exact ⟨hr, .inl ⟨rfl, .inr ⟨.red, rfl⟩⟩⟩
          · exact absurd (by simp [pred]) hp
        · exact ⟨hr, .inr ⟨hn, ihl hl hp⟩⟩
      · rw [if_neg hlt]
        apply Spine.fixRight
        refine ⟨?_, hplace⟩
        rw [toList_link, List.mem_append, List.mem_cons, not_or, not_or]
        rw [← cut_append_of k r, List.mem_append, not_or] at hr
        exact ⟨hr.1, hk.symm, hr.2⟩

/-- If all but one are above the element, it has a spine once it is there. -/
theorem spine_build [DecidableEq α] {l : List α} (hx : ¬ x ≤ e ∧ ¬ e ≤ x)
    (h : ∀ k ∈ l, k ≠ x → e ≤ k) :
    e ∉ (build l).toList ∨ Spine e x (build l) := by
  induction l using List.reverseRecOn with
  | nil => exact .inl List.not_mem_nil
  | append_singleton l k ih =>
      have hl := fun j hj => h j (List.mem_append_left [k] hj)
      have hk := h k (List.mem_append_right l (List.mem_singleton_self k))
      have hall : ∀ n ∈ (build l).toList, n ≠ e → ¬ n ≤ e := by
        intro n hn hne hle
        rw [mem_build] at hn
        by_cases hnx : n = x
        · exact hx.1 (hnx ▸ hle)
        · exact hne (le_antisymm hle (hl n hn hnx))
      rw [build_snoc]
      by_cases hke : k = e
      · subst hke
        rcases ih hl with hno | hspine
        · have hall' : ∀ n ∈ (build l).toList, ¬ n ≤ k :=
            fun n hn => hall n hn fun heq => hno (heq ▸ hn)
          rw [emplace_eq, pred_skip hall', if_neg nofun]
          exact .inr (spine_link hno hall' x).blacken
        · rw [emplace_eq, hspine.pred_eq hall, if_pos rfl]
          exact .inr hspine
      · rcases ih hl with hno | hspine
        · rw [mem_emplace, not_or]
          exact .inl ⟨Ne.symm hke, hno⟩
        · rw [emplace_eq]
          by_cases hp : pred notGe k none (build l) = some k
          · rw [if_pos hp]
            exact .inr hspine
          · rw [if_neg hp]
            exact .inr (hspine.link hke hx hk hp).blacken

-- ====================================================== one that is hidden

/-- An element that finds no equal is inserted, even a second time. -/
theorem count_emplace_of_pred [DecidableEq α] {t : Tree α}
    (h : pred notGe k none t ≠ some k) :
    (emplace notGe k t).toList.count k = t.toList.count k + 1 := by
  rw [emplace_eq, if_neg h, toList_blacken, toList_link, ← cut_append_of k t,
    List.count_append, List.count_append, List.count_cons_self]
  omega

/-- After three elements the first is to the right of the root, and the
root is less than it only in one direction. -/
theorem pred_hidden [DecidableEq α] {z : α} (hex : ¬ e ≤ x) (hxe : ¬ x ≤ e)
    (hzx : z ≠ x) (hz : ¬ e ≤ z) :
    pred notGe e none (build [e, x, z]) ≠ some e := by
  have htwo : build [e, x] = node .black (node .red nil x nil) e nil := by
    show emplace notGe x (emplace notGe e nil) = _
    simp [emplace, pred, link, fixLeft, blacken, isRed, hasRedChild, hex]
  have hthree : build [e, x, z]
      = emplace notGe z (node .black (node .red nil x nil) e nil) := by
    rw [← htwo, ← build_snoc]
    rfl
  rw [hthree]
  by_cases hxz : x ≤ z
  · -- between the two: `z` becomes the root
    have hzx' : ¬ z ≤ x := fun h => hzx (le_antisymm h hxz)
    have hez : ¬ z ≤ e := fun h => hxe (hxz.trans h)
    simp [emplace, pred, link, fixLeft, fixRight, rotateRight, blacken, isRed,
      hasRedChild, hz, hxz, hzx', hez, hxe]
  · have hze : z ≠ e := fun h => hz h.ge
    by_cases hez : z ≤ e
    · simp [emplace, pred, link, fixLeft, rotateRight, blacken, isRed,
        hasRedChild, hz, hxz, hez, hxe, hze]
    · simp [emplace, pred, link, fixLeft, rotateRight, blacken, isRed,
        hasRedChild, hz, hxz, hez, hxe]

/-- So it is put into the set again. -/
theorem count_hidden [DecidableEq α] {z : α} (hex : ¬ e ≤ x) (hxe : ¬ x ≤ e)
    (hzx : z ≠ x) (hz : ¬ e ≤ z) (rest : List α) :
    2 ≤ (build (e :: x :: z :: e :: rest)).toList.count e := by
  have hone : 1 ≤ (build [e, x, z]).toList.count e := by
    rw [Nat.succ_le_iff, List.count_pos_iff, mem_build]
    exact List.mem_cons_self ..
  have htwo := count_emplace_of_pred (pred_hidden hex hxe hzx hz)
  have hrest := count_foldl_le (e := e) rest (emplace notGe e (build [e, x, z]))
  have hbuild : build (e :: x :: z :: e :: rest)
      = rest.foldl (fun t k => emplace notGe k t)
        (emplace notGe e (build [e, x, z])) := rfl
  rw [hbuild]
  omega

-- ============================================================ exactly once

/-- An element that comes twice, one that is not comparable to it, and a
third that is not above it. -/
def Hides [DecidableEq α] (l : List α) (e x z : α) : Prop :=
  2 ≤ l.count e ∧ x ∈ l ∧ z ∈ l ∧ ¬ e ≤ x ∧ ¬ x ≤ e ∧ z ≠ x ∧ ¬ e ≤ z

/-- The set has nothing more often than it was inserted. -/
theorem count_build_le [DecidableEq α] (l : List α) :
    (build l).toList.count e ≤ l.count e := by
  induction l using List.reverseRecOn with
  | nil => exact Nat.le_refl _
  | append_singleton l k ih =>
      rw [build_snoc, List.count_append, toList_emplace]
      split
      · omega
      · rw [← cut_append_of k (build l)] at ih
        simp only [List.count_append, List.count_cons, List.count_nil] at ih ⊢
        omega

/-- An element that nothing hides is in the set once. -/
theorem count_build [DecidableEq α] {l : List α} (he : e ∈ l)
    (h : ∀ x z, ¬ Hides l e x z) : (build l).toList.count e = 1 := by
  have hpos : 1 ≤ (build l).toList.count e := by
    rw [Nat.succ_le_iff, List.count_pos_iff, mem_build]
    exact he
  apply Nat.le_antisymm _ hpos
  by_cases htwo : 2 ≤ l.count e
  · by_cases hall : ∀ k ∈ l, k ≤ e ∨ e ≤ k
    · exact (parted_build hall).count_le
    · simp only [not_forall, not_or] at hall
      obtain ⟨x, hx, hxe, hex⟩ := hall
      have habove : ∀ k ∈ l, k ≠ x → e ≤ k := by
        intro k hk hkx
        by_contra hek
        exact h x k ⟨htwo, hx, hk, hex, hxe, hkx, hek⟩
      rcases spine_build ⟨hxe, hex⟩ habove with hno | hspine
      · rw [List.count_eq_zero.mpr hno]
        exact Nat.zero_le 1
      · exact Nat.le_of_eq (hspine.count_eq fun heq => hxe heq.le)
  · have hle := count_build_le (e := e) l
    omega

omit [DecidableLE α] in
/-- The order of insertion that hides an element. -/
theorem exists_hiding_order [DecidableEq α] {l : List α} {z : α}
    (h : Hides l e x z) :
    ∃ rest, (e :: x :: z :: e :: rest).Perm l := by
  obtain ⟨htwo, hx, hz, hex, hxe, hzx, hez⟩ := h
  have hxne : x ≠ e := fun heq => hxe heq.le
  have hzne : z ≠ e := fun heq => hez heq.ge
  have he : e ∈ l := List.count_pos_iff.mp (by omega)
  have hx₁ : x ∈ l.erase e := (List.mem_erase_of_ne hxne).mpr hx
  have hz₁ : z ∈ (l.erase e).erase x :=
    (List.mem_erase_of_ne hzx).mpr ((List.mem_erase_of_ne hzne).mpr hz)
  have he₁ : e ∈ ((l.erase e).erase x).erase z := by
    rw [List.mem_erase_of_ne hzne.symm, List.mem_erase_of_ne hxne.symm,
      ← List.count_pos_iff, List.count_erase_self]
    omega
  refine ⟨(((l.erase e).erase x).erase z).erase e, ?_⟩
  calc (e :: x :: z :: e :: (((l.erase e).erase x).erase z).erase e).Perm
        (e :: x :: z :: ((l.erase e).erase x).erase z) :=
        (((List.perm_cons_erase he₁).symm.cons z).cons x).cons e
    _ |>.Perm (e :: x :: (l.erase e).erase x) :=
        ((List.perm_cons_erase hz₁).symm.cons x).cons e
    _ |>.Perm (e :: l.erase e) := (List.perm_cons_erase hx₁).symm.cons e
    _ |>.Perm l := (List.perm_cons_erase he).symm

/-- Whatever the order of insertion, the set has every element once: if
and only if none is hidden. -/
theorem exactly_once_iff [DecidableEq α] (l : List α) :
    (∀ l', l'.Perm l → ∀ e ∈ l, (build l').toList.count e = 1)
      ↔ ∀ e x z, ¬ Hides l e x z := by
  constructor
  · intro h e x z hhides
    obtain ⟨rest, hperm⟩ := exists_hiding_order hhides
    obtain ⟨htwo, _, _, hex, hxe, hzx, hez⟩ := hhides
    have he : e ∈ l := List.count_pos_iff.mp (by omega)
    have honce := h _ hperm e he
    have htwice := count_hidden hex hxe hzx hez rest
    omega
  · intro h l' hperm e he
    apply count_build (hperm.mem_iff.mpr he)
    rintro x z ⟨htwo, hx, hz, hrest⟩
    rw [hperm.count_eq] at htwo
    exact h e x z ⟨htwo, hperm.mem_iff.mp hx, hperm.mem_iff.mp hz, hrest⟩

end Order

end Tree

end RbSet
