/-
Ordered multimaps: entries in the order of their keys, and entries with
the same key in the order in which they came.

The list of the entries is the map: two maps with the same list are the
same. An entry is put behind all entries whose key is not greater, so
putting the entries of a map into an empty one in their order gives the
map back (`emplaceAll_self`).
-/
import Mathlib.Data.List.Sort

/-- The entries, in the order of the keys. -/
@[ext]
structure Multimap (κ α : Type) [LinearOrder κ] where
  entries : List (κ × α)
  sorted : entries.Pairwise fun a b => a.1 ≤ b.1

namespace Multimap

variable {κ α : Type} [LinearOrder κ]

def empty : Multimap κ α where
  entries := []
  sorted := List.Pairwise.nil

/-- An entry put at its place. -/
def insertEntry (l : List (κ × α)) (p : κ × α) : List (κ × α) :=
  l.orderedInsert (fun a b => a.1 < b.1) p

theorem insertEntry_sorted {l : List (κ × α)}
    (h : l.Pairwise fun a b => a.1 ≤ b.1) (p : κ × α) :
    (insertEntry l p).Pairwise fun a b => a.1 ≤ b.1 := by
  unfold insertEntry
  induction h with
  | nil => exact List.pairwise_singleton _ _
  | @cons q l hq hl ih =>
      rw [List.orderedInsert_cons]
      by_cases hlt : p.1 < q.1
      · rw [if_pos hlt]
        refine .cons ?_ (.cons hq hl)
        intro r hr
        obtain rfl | hr := List.mem_cons.mp hr
        · exact hlt.le
        · exact hlt.le.trans (hq r hr)
      · rw [if_neg hlt]
        refine .cons ?_ ih
        intro r hr
        obtain rfl | hr := (List.mem_orderedInsert _).mp hr
        · exact not_lt.mp hlt
        · exact hq r hr

/-- Behind entries whose key is not greater. -/
theorem insertEntry_last {l : List (κ × α)} {p : κ × α}
    (h : ∀ q ∈ l, q.1 ≤ p.1) : insertEntry l p = l ++ [p] := by
  unfold insertEntry
  induction l with
  | nil => rfl
  | cons q l ih =>
      have hq : ¬ p.1 < q.1 := not_lt.mpr (h q (List.mem_cons_self ..))
      rw [List.orderedInsert_cons, if_neg hq,
        ih fun r hr => h r (List.mem_cons_of_mem q hr)]
      rfl

def emplace (m : Multimap κ α) (p : κ × α) : Multimap κ α where
  entries := insertEntry m.entries p
  sorted := insertEntry_sorted m.sorted p

def emplaceAll (m : Multimap κ α) (l : List (κ × α)) : Multimap κ α :=
  l.foldl emplace m

theorem length_emplaceAll (m : Multimap κ α) (l : List (κ × α)) :
    (m.emplaceAll l).entries.length = m.entries.length + l.length := by
  induction l generalizing m with
  | nil => rfl
  | cons p l ih =>
      have hstep := ih (m.emplace p)
      have hlen : (m.emplace p).entries.length = m.entries.length + 1 :=
        List.orderedInsert_length _ m.entries p
      show ((m.emplace p).emplaceAll l).entries.length = _
      rw [hstep, hlen, List.length_cons]
      omega

theorem emplaceAll_sorted (m : Multimap κ α) {l : List (κ × α)}
    (hl : (m.entries ++ l).Pairwise fun a b => a.1 ≤ b.1) :
    (m.emplaceAll l).entries = m.entries ++ l := by
  induction l generalizing m with
  | nil => exact (List.append_nil _).symm
  | cons p l ih =>
      have hle : ∀ q ∈ m.entries, q.1 ≤ p.1 := fun q hq =>
        (List.pairwise_append.mp hl).2.2 q hq p (List.mem_cons_self ..)
      have hput : (m.emplace p).entries = m.entries ++ [p] :=
        insertEntry_last hle
      show ((m.emplace p).emplaceAll l).entries = _
      rw [ih (m.emplace p) (by rw [hput, List.append_assoc]; exact hl), hput,
        List.append_assoc]
      rfl

/-- A map is what its entries make. -/
theorem emplaceAll_self (m : Multimap κ α) :
    (empty : Multimap κ α).emplaceAll m.entries = m := by
  apply Multimap.ext
  exact emplaceAll_sorted empty m.sorted

/-- Entries more or less make another map. -/
theorem emplaceAll_between (l l' l'' : List (κ × α)) :
    (empty : Multimap κ α).emplaceAll (l ++ l' ++ l'')
      = (empty : Multimap κ α).emplaceAll (l ++ l'') ↔ l' = [] := by
  constructor
  · intro h
    have hlen := congrArg (fun m => m.entries.length) h
    simp only [length_emplaceAll, List.length_append] at hlen
    exact List.length_eq_zero_iff.mp (by omega)
  · intro h
    rw [h, List.append_nil]

theorem emplaceAll_around (m : Multimap κ α) (l l' : List (κ × α)) :
    (empty : Multimap κ α).emplaceAll (l ++ m.entries ++ l') = m
      ↔ l = [] ∧ l' = [] := by
  constructor
  · intro h
    have hlen := congrArg (fun m => m.entries.length) h
    have hnil : (empty : Multimap κ α).entries.length = 0 := rfl
    rw [length_emplaceAll, List.length_append, List.length_append, hnil] at hlen
    exact ⟨List.length_eq_zero_iff.mp (by omega),
      List.length_eq_zero_iff.mp (by omega)⟩
  · intro h
    rw [h.1, h.2, List.nil_append, List.append_nil]
    exact emplaceAll_self m

end Multimap
