/-
When does a storage have a block?

The scheduler picks an sjob with a waiting block and no flow. The blocks
of an sjob are the groups its storage was divided into by the agent of
the storage's DTN, and the agent passes over everything that is neither a
regular file nor a directory: a storage of links or devices has no group.
A division has one exactly if its path is of the two kinds
(`divide_groups`).
-/
import BigDataExpress.Agent.Response
import BigDataExpress.Proofs.Groups
import BigDataExpress.Proofs.Space

namespace BigDataExpress

open Stateful

-- ======================================================== the divisions

/-- A path of one of the two kinds that are moved. -/
def Path.Solid (p : Path) : Prop :=
  p.isRegularFile = true ∨ p.isDirectory = true

instance (p : Path) : Decidable p.Solid :=
  inferInstanceAs (Decidable (_ ∨ _))

/-- Something was put into a group. -/
def Dividing.Filled (st : Dividing) : Prop :=
  st.super.groups ≠ [] ∨ 0 < st.group.count

namespace Dividing

variable {st : Dividing} {p : Path} {maxSize maxFiles size : UInt64}

theorem count_add (g : PathGroup) : 0 < (g.add p size).count := by
  obtain ⟨q, hq, _⟩ := key_mem_insertBy Path.name p g.paths
  exact List.length_pos_iff.2 (List.ne_nil_of_mem hq)

theorem groups_flush : st.flush.super.groups ≠ [] := by
  unfold flush PathSuperGroup.add
  simp

theorem Filled.flush : st.flush.Filled := .inl groups_flush

theorem Filled.addFile : (st.addFile maxSize maxFiles p).Filled := by
  unfold Dividing.addFile
  dsimp only
  generalize (if st.full maxSize maxFiles p.size then st.flush else st) = st'
  split
  · exact .flush
  · exact .inr (count_add _)

theorem Filled.addWhole : (st.addWhole p size).Filled := by
  refine .inl ?_
  unfold Dividing.addWhole PathSuperGroup.add
  simp

theorem Filled.addDir (h : st.Filled) : (st.addDir p).Filled := h

theorem Filled.finish (h : st.Filled) : st.finish.super.groups ≠ [] := by
  unfold Dividing.finish
  split
  · exact groups_flush
  · rename_i hcount
    exact h.resolve_right hcount

/-- What is entered with something in a group is left with one. -/
theorem Filled.enter {fs : FileSystem} {st' : Dividing}
    {loop : Dividing → Except String Dividing}
    (hloop : ∀ st, st.Filled → loop st = .ok st' → st'.super.groups ≠ [])
    (h : st.Filled) (hst' : enter fs maxSize p loop st = .ok st') :
    st'.super.groups ≠ [] := by
  unfold BigDataExpress.enter at hst'
  split at hst'
  · cases hst'
  · split at hst'
    · injection hst' with hst'
      subst hst'
      unfold Dividing.addWhole PathSuperGroup.add
      simp
    · exact hloop _ h.addDir hst'

theorem Filled.divideEntries {fs : FileSystem} (l : Listing) {st' : Dividing}
    (h : st.Filled)
    (hst' : divideEntries fs maxSize maxFiles p l st = .ok st') :
    st'.super.groups ≠ [] := by
  induction l generalizing p st st' with
  | done =>
      injection hst' with hst'
      exact hst' ▸ h.finish
  | file n size rest ih => exact ih .addFile hst'
  | dir n entries rest ih₁ ih₂ =>
      unfold BigDataExpress.divideEntries at hst'
      dsimp only at hst'
      split at hst'
      · cases hst'
      · rename_i st₁ henter
        exact ih₂ (.inl (h.enter (fun _ hf hl => ih₁ hf hl) henter)) hst'
  | shut n why rest ih =>
      unfold BigDataExpress.divideEntries at hst'
      dsimp only at hst'
      split at hst'
      · cases hst'
      · rename_i st₁ henter
        refine ih (.inl (h.enter ?_ henter)) hst'
        intro _ _ hl
        cases hl
  | other n size rest ih => exact ih h hst'

end Dividing

section divide

variable {fs : FileSystem} {p : Path} {maxSize maxFiles : UInt64}
  {r : PathSuperGroup}

theorem divide_hollow (h : ¬ p.Solid) :
    divide fs p maxSize maxFiles = .ok {} := by
  unfold Path.Solid Path.isRegularFile Path.isDirectory at h
  unfold divide
  cases hnode : p.node with
  | file size => exact absurd (.inl (by rw [hnode])) h
  | dir entries => exact absurd (.inr (by rw [hnode])) h
  | shut why => exact absurd (.inr (by rw [hnode])) h
  | other size => rfl
  | missing => rfl

/-- A division has groups if there is something to divide. -/
theorem divide_groups (h : divide fs p maxSize maxFiles = .ok r) :
    r.groups = [] ↔ ¬ p.Solid := by
  constructor
  · intro hnil hsolid
    have hseeded : (seeded p).Filled := .inr (Dividing.count_add _)
    unfold divide at h
    split at h
    · injection h with h
      subst h
      cases hnil
    · obtain ⟨st, hst, rfl⟩ := map_eq_ok h
      exact hseeded.enter (fun _ hf hl => hf.divideEntries _ hl) hst hnil
    · obtain ⟨st, hst, rfl⟩ := map_eq_ok h
      refine hseeded.enter ?_ hst hnil
      intro _ _ hl
      cases hl
    · rename_i hfile hdir hshut
      unfold Path.Solid Path.isRegularFile Path.isDirectory at hsolid
      split at hsolid
      · rename_i hnode
        exact hfile _ hnode
      · split at hsolid
        · rename_i hnode
          exact hdir _ hnode
        · rename_i hnode
          exact hshut _ hnode
        · exact hsolid.elim Bool.false_ne_true Bool.false_ne_true
  · intro hhollow
    rw [divide_hollow hhollow] at h
    injection h with h
    exact h ▸ rfl

end divide

end BigDataExpress
