/-
Document collections: a list of documents, updated the way a document
store's `update_one` does it, at the first document that matches the
filter.

When at most one document can match, the update is pointwise
(`updateOne_eq_map`), and that is the form proofs work with: a chain of
updates becomes a chain of `List.map`s. Uniqueness comes from keys:
`updateOne_key` for a filter on a document's own key, `updateOne_subkey`
for a filter on the keys of the entries of an embedded array.
-/
import Mathlib.Data.List.Basic
import Mathlib.Data.List.Nodup
import Mathlib.Data.List.Pairwise
import Mathlib.Data.List.Forall2
import Mathlib.Algebra.BigOperators.Group.List.Basic
import Mathlib.Tactic.Abel

namespace Collection

variable {α κ : Type}

/-- Update the first element that satisfies the filter. -/
def updateOne (p : α → Bool) (f : α → α) : List α → List α
  | [] => []
  | a :: l => if p a then f a :: l else a :: updateOne p f l

@[simp] theorem updateOne_nil (p : α → Bool) (f : α → α) :
    updateOne p f [] = [] := rfl

theorem updateOne_cons (p : α → Bool) (f : α → α) (a : α) (l : List α) :
    updateOne p f (a :: l)
      = if p a then f a :: l else a :: updateOne p f l := rfl

/-- An element after the update was there, or is the updated one. -/
theorem mem_updateOne {p : α → Bool} {f : α → α} {l : List α} {b : α}
    (h : b ∈ updateOne p f l) : b ∈ l ∨ ∃ a ∈ l, p a = true ∧ b = f a := by
  induction l with
  | nil => cases h
  | cons a l ih =>
      rw [updateOne_cons] at h
      split at h
      · rename_i hp
        rcases List.mem_cons.mp h with rfl | h
        · exact .inr ⟨a, List.mem_cons_self .., hp, rfl⟩
        · exact .inl (List.mem_cons_of_mem _ h)
      · rcases List.mem_cons.mp h with rfl | h
        · exact .inl (List.mem_cons_self ..)
        · rcases ih h with h | ⟨c, hc, hp, rfl⟩
          · exact .inl (List.mem_cons_of_mem _ h)
          · exact .inr ⟨c, List.mem_cons_of_mem _ hc, hp, rfl⟩

/-- A projection the update keeps is kept along the list. -/
theorem map_updateOne {β : Type} {p : α → Bool} {f : α → α} {g : α → β}
    (h : ∀ a, g (f a) = g a) (l : List α) :
    (updateOne p f l).map g = l.map g := by
  induction l with
  | nil => rfl
  | cons a l ih =>
      rw [updateOne_cons]
      split
      · simp only [List.map_cons, h]
      · simp only [List.map_cons, ih]

/-- Two updates under one filter, fused. -/
theorem updateOne_updateOne {p : α → Bool} {f g : α → α}
    (hg : ∀ a, p (g a) = p a) (l : List α) :
    updateOne p f (updateOne p g l) = updateOne p (fun a => f (g a)) l := by
  induction l with
  | nil => rfl
  | cons a l ih =>
      by_cases hp : p a = true
      · simp only [updateOne_cons, hp, if_true, hg]
      · simp only [updateOne_cons, hp, ih, if_false, Bool.false_eq_true]

/-- What an update does is decided at the element the filter finds. -/
theorem map_updateOne_congr {β : Type} {p : α → Bool} {f g : α → α}
    {m : α → β} {l : List α}
    (h : ∀ a, l.find? p = some a → m (f a) = m (g a)) :
    (updateOne p f l).map m = (updateOne p g l).map m := by
  induction l with
  | nil => rfl
  | cons a l ih =>
      by_cases hp : p a = true
      · have hm := h a (List.find?_cons_of_pos hp)
        simp only [updateOne_cons, hp, if_true, List.map_cons, hm]
      · have hrest := ih fun b hb =>
          h b (by rw [List.find?_cons_of_neg hp]; exact hb)
        simp only [updateOne_cons, hp, if_false, Bool.false_eq_true,
          List.map_cons, hrest]

/-- Lists that look alike look alike after updates that look alike. -/
theorem map_updateOne_alike {β : Type} {p q : α → Bool} {f g : α → α}
    {m : α → β} (hpq : ∀ a b, m a = m b → p a = q b)
    (hfg : ∀ a b, m a = m b → m (f a) = m (g b)) :
    ∀ {l l' : List α}, l.map m = l'.map m →
      (updateOne p f l).map m = (updateOne q g l').map m := by
  intro l
  induction l with
  | nil =>
      intro l' h
      cases l' with
      | nil => rfl
      | cons b l' => cases h
  | cons a l ih =>
      intro l' h
      cases l' with
      | nil => cases h
      | cons b l' =>
          rw [List.map_cons, List.map_cons, List.cons.injEq] at h
          rw [updateOne_cons, updateOne_cons, hpq a b h.1]
          split
          · simp only [List.map_cons, hfg a b h.1, h.2]
          · simp only [List.map_cons, h.1, ih h.2]

/-- The updated element is found in place of the old one. -/
theorem find?_updateOne {p : α → Bool} {f : α → α}
    (hf : ∀ a, p (f a) = p a) (l : List α) :
    (updateOne p f l).find? p = (l.find? p).map f := by
  induction l with
  | nil => rfl
  | cons a l ih =>
      by_cases hp : p a = true
      · simp only [updateOne_cons, hp, if_true]
        rw [List.find?_cons_of_pos (by rw [hf]; exact hp),
          List.find?_cons_of_pos hp]
        rfl
      · simp only [updateOne_cons, hp, if_false, Bool.false_eq_true]
        rw [List.find?_cons_of_neg hp, List.find?_cons_of_neg hp, ih]

/-- What does not match is found as before. -/
theorem find?_updateOne_other {p q : α → Bool} {f : α → α}
    (hp : ∀ a, p a = true → q a = false)
    (hf : ∀ a, p a = true → q (f a) = false) (l : List α) :
    (updateOne p f l).find? q = l.find? q := by
  induction l with
  | nil => rfl
  | cons a l ih =>
      rw [updateOne_cons]
      by_cases h : p a = true
      · rw [if_pos h, List.find?_cons_of_neg (by simp [hf a h]),
          List.find?_cons_of_neg (by simp [hp a h])]
      · rw [if_neg h, List.find?_cons, List.find?_cons, ih]

/-- With at most one match the update is pointwise. -/
theorem updateOne_eq_map {p : α → Bool} {f : α → α} {l : List α}
    (h : l.Pairwise fun a b => ¬(p a = true ∧ p b = true)) :
    updateOne p f l = l.map fun a => if p a then f a else a := by
  induction l with
  | nil => rfl
  | cons a l ih =>
      rw [List.pairwise_cons] at h
      rw [updateOne_cons, List.map_cons]
      split
      · rename_i hp
        have hrest : ∀ b ∈ l, (if p b then f b else b) = b := by
          intro b hb
          have : ¬ p b = true := fun hb' => h.1 b hb ⟨hp, hb'⟩
          rw [if_neg this]
        rw [List.map_congr_left hrest, List.map_id']
      · rw [ih h.2]

/-- A filter on a unique key updates pointwise. -/
theorem updateOne_key [DecidableEq κ] {key : α → κ} {k : κ} {f : α → α}
    {l : List α} (h : (l.map key).Nodup) :
    updateOne (fun a => key a == k) f l
      = l.map fun a => if key a = k then f a else a := by
  rw [updateOne_eq_map]
  · simp only [beq_iff_eq]
  · rw [List.Nodup, List.pairwise_map] at h
    refine h.imp fun hne hboth => hne ?_
    simp only [beq_iff_eq] at hboth
    rw [hboth.1, hboth.2]

/-- With a unique key, an element of the filter's key after the update
is the updated one. -/
theorem mem_updateOne_key [DecidableEq κ] {key : α → κ} {k : κ}
    {f : α → α} {l : List α} {b : α} (hl : (l.map key).Nodup)
    (h : b ∈ updateOne (fun a => key a == k) f l) (hb : key b = k) :
    ∃ a ∈ l, key a = k ∧ b = f a := by
  rw [updateOne_key hl] at h
  obtain ⟨a, ha, rfl⟩ := List.mem_map.mp h
  by_cases hk : key a = k
  · rw [if_pos hk]
    exact ⟨a, ha, hk, rfl⟩
  · rw [if_neg hk] at hb
    exact absurd hb hk

theorem mem_updateOne_twice [DecidableEq κ] (key : α → κ) {k : κ}
    {f g : α → α} {l : List α} {b : α} (hl : (l.map key).Nodup)
    (h : b ∈ updateOne (fun a => key a == k) g
      (updateOne (fun a => key a == k) f l)) (hb : key b = k)
    (hf : ∀ a, key (f a) = key a) : ∃ a ∈ l, b = g (f a) := by
  rw [← map_updateOne hf] at hl
  obtain ⟨c, hc, hck, rfl⟩ := mem_updateOne_key hl h hb
  rw [map_updateOne hf] at hl
  obtain ⟨a, ha, -, rfl⟩ := mem_updateOne_key hl hc hck
  exact ⟨a, ha, rfl⟩

/-- A filter on the keys of embedded entries, unique over the whole
collection, updates pointwise. -/
theorem updateOne_subkey [DecidableEq κ] {p : α → Bool}
    {keys : α → List κ} {k : κ} {f : α → α} {l : List α}
    (hp : ∀ a, p a = true ↔ k ∈ keys a)
    (h : (l.flatMap keys).Nodup) :
    updateOne p f l = l.map fun a => if k ∈ keys a then f a else a := by
  rw [updateOne_eq_map]
  · simp only [hp]
  · rw [List.nodup_flatMap] at h
    refine h.2.imp fun hdis hboth => ?_
    exact hdis ((hp _).mp hboth.1) ((hp _).mp hboth.2)

/-- An embedded key that is unique over the collection belongs to one
document. -/
theorem eq_of_subkey {keys : α → List κ} {k : κ} {l : List α}
    (h : (l.flatMap keys).Nodup) {a b : α} (ha : a ∈ l) (hb : b ∈ l)
    (hka : k ∈ keys a) (hkb : k ∈ keys b) : b = a := by
  by_contra hne
  have hp := (List.nodup_flatMap.mp h).2
  have : Std.Symm (Function.onFun List.Disjoint keys) :=
    ⟨fun _ _ h _ ha hb => h hb ha⟩
  exact hp.forall hb ha hne hkb hka

/-- A search asks its filter of the elements only. -/
theorem find?_congr {p q : α → Bool} {l : List α}
    (h : ∀ a ∈ l, p a = q a) : l.find? p = l.find? q := by
  induction l with
  | nil => rfl
  | cons a l ih =>
      have hrest := ih fun b hb => h b (List.mem_cons_of_mem _ hb)
      rw [List.find?_cons, List.find?_cons, h a (List.mem_cons_self ..),
        hrest]

/-- Looking up by a unique key. -/
theorem find?_key [DecidableEq κ] (key : α → κ) {l : List α}
    (h : (l.map key).Nodup) {a : α} (ha : a ∈ l) :
    l.find? (fun b => key b == key a) = some a := by
  induction l with
  | nil => cases ha
  | cons b l ih =>
      rw [List.map_cons, List.nodup_cons] at h
      rcases List.mem_cons.mp ha with rfl | ha
      · simp
      · have hne : key b ≠ key a := fun he =>
          h.1 (he ▸ List.mem_map_of_mem ha)
        rw [List.find?_cons_of_neg (by simpa using hne)]
        exact ih h.2 ha

/-- An update moves a sum by what it does to the element it finds. -/
theorem sum_updateOne {G : Type} [AddCommGroup G] {p : α → Bool}
    {f : α → α} {g : α → G} {l : List α} {a : α}
    (h : l.find? p = some a) :
    ((updateOne p f l).map g).sum = (l.map g).sum + (g (f a) - g a) := by
  induction l with
  | nil => cases h
  | cons b l ih =>
      by_cases hp : p b = true
      · rw [List.find?_cons_of_pos hp] at h
        obtain rfl := Option.some.inj h
        rw [updateOne_cons, if_pos hp, List.map_cons, List.map_cons,
          List.sum_cons, List.sum_cons]
        abel
      · rw [List.find?_cons_of_neg hp] at h
        rw [updateOne_cons, if_neg hp, List.map_cons, List.map_cons,
          List.sum_cons, List.sum_cons, ih h]
        abel

/-- A sum is the sum over its fibres, of keys that are all among these. -/
theorem sum_fibres {M : Type} [AddCommMonoid M] [DecidableEq κ]
    {key : α → Option κ} {g : α → M} {keys : List κ} {l : List α}
    (hkeys : keys.Nodup) (h : ∀ a ∈ l, ∃ k ∈ keys, key a = some k) :
    (keys.map fun k => ((l.filter fun a => key a = some k).map g).sum).sum
      = (l.map g).sum := by
  induction keys generalizing l with
  | nil =>
      have hnil : l = [] := by
        apply List.eq_nil_iff_forall_not_mem.mpr
        intro a ha
        obtain ⟨k, hk, _⟩ := h a ha
        cases hk
      rw [hnil]
      rfl
  | cons k keys ih =>
      obtain ⟨hnot, hkeys⟩ := List.nodup_cons.mp hkeys
      -- the elements of the first key, and the others
      have hsplit := ((List.filter_append_perm
        (fun a : α => key a = some k) l).map g).sum_eq
      rw [List.map_append, List.sum_append] at hsplit
      rw [List.map_cons, List.sum_cons, ← hsplit]
      congr 1
      rw [← ih hkeys]
      · congr 1
        apply List.map_congr_left
        intro k' hk'
        congr 2
        rw [List.filter_filter]
        apply List.filter_congr
        intro a _
        have hne : k' ≠ k := fun he => hnot (he ▸ hk')
        by_cases ha : key a = some k'
        · simp [ha, hne]
        · simp [ha]
      · intro a ha
        obtain ⟨hmem, hka⟩ := List.mem_filter.mp ha
        obtain ⟨k', hk', hak⟩ := h a hmem
        rcases List.mem_cons.mp hk' with rfl | hk'
        · simp [hak] at hka
        · exact ⟨k', hk', hak⟩

/-- Along related lists, every element on the right is related to one on
the left. -/
theorem mem_left_of_forall₂ {β : Type} {R : α → β → Prop} {xs : List α}
    {ys : List β} (h : List.Forall₂ R xs ys) {y : β} (hy : y ∈ ys) :
    ∃ x ∈ xs, R x y := by
  induction h with
  | nil => cases hy
  | cons hr _ ih =>
      rcases List.mem_cons.mp hy with rfl | hy
      · exact ⟨_, List.mem_cons_self .., hr⟩
      · obtain ⟨x, hx, hxy⟩ := ih hy
        exact ⟨x, List.mem_cons_of_mem _ hx, hxy⟩

theorem mem_right_of_forall₂ {β : Type} {R : α → β → Prop} {xs : List α}
    {ys : List β} (h : List.Forall₂ R xs ys) {x : α} (hx : x ∈ xs) :
    ∃ y ∈ ys, R x y :=
  mem_left_of_forall₂ (List.Forall₂.flip h) hx

end Collection
