/-
What handlers care about in an sjob document.

Handlers write byte counts, times and retry counters into documents, and
no handler decides anything by them except the ones that wrote them.
`Sjob.Alike` forgets them: two documents are alike when they show the
same sjob state, the same failure, the same flows (task, state, block)
and the same blocks (id, state, size, bytes). The abstract updates below
are the changes that remain visible.
-/
import BigDataExpress.Proofs.Store

namespace BigDataExpress

open Interact Collection

-- =========================================================== likeness

/-- What is visible of a flow. -/
def Flow.mark (f : Flow) : Guid × FlowState × Oid := (f.task, f.state, f.block)

/-- What is visible of a block. -/
def Block.mark (b : Block) : Oid × BlockState × Int × Int :=
  (b.id, b.state, b.size, b.txBytes)

/-- Documents that show the same. -/
structure Sjob.Alike (x y : Sjob) : Prop where
  state : y.state = x.state
  error : y.error.isSome = x.error.isSome
  flows : y.flows.map Flow.mark = x.flows.map Flow.mark
  blocks : y.blocks.map Block.mark = x.blocks.map Block.mark

namespace Sjob.Alike

variable {x y z : Sjob}

/-- A document is like itself. -/
theorem refl (x : Sjob) : x.Alike x := ⟨rfl, rfl, rfl, rfl⟩

/-- Documents that are alike have the same tasks. -/
theorem tasks (h : x.Alike y) : y.tasks = x.tasks := by
  have := congrArg (List.map Prod.fst) h.flows
  rw [List.map_map, List.map_map] at this
  exact this

/-- And the same blocks. -/
theorem blockIds (h : x.Alike y) : y.blockIds = x.blockIds := by
  have := congrArg (List.map Prod.fst) h.blocks
  rw [List.map_map, List.map_map] at this
  exact this

/-- A flow of one document has a likeness in the other. -/
theorem flow (h : x.Alike y) {f : Flow} (hf : f ∈ y.flows) :
    ∃ f' ∈ x.flows, f'.mark = f.mark := by
  have hm : f.mark ∈ y.flows.map Flow.mark := List.mem_map_of_mem hf
  rw [h.flows, List.mem_map] at hm
  exact hm

/-- A block of one document has a likeness in the other. -/
theorem block (h : x.Alike y) {b : Block} (hb : b ∈ y.blocks) :
    ∃ b' ∈ x.blocks, b'.mark = b.mark := by
  have hm : b.mark ∈ y.blocks.map Block.mark := List.mem_map_of_mem hb
  rw [h.blocks, List.mem_map] at hm
  exact hm

/-- Alikeness goes on. -/
theorem trans (h : x.Alike y) (h' : y.Alike z) : x.Alike z :=
  ⟨h'.state.trans h.state, h'.error.trans h.error,
    h'.flows.trans h.flows, h'.blocks.trans h.blocks⟩

/-- And both ways. -/
theorem symm (h : x.Alike y) : y.Alike x :=
  ⟨h.state.symm, h.error.symm, h.flows.symm, h.blocks.symm⟩

-- ------------------------------------------------------ under updates

/-- Updates of flows that are alike keep documents alike. -/
theorem onFlow (h : x.Alike y) {t : Guid} {g g' : Flow → Flow}
    (hg : ∀ f f', f.mark = f'.mark → (g f).mark = (g' f').mark) :
    (x.onFlow t g).Alike (y.onFlow t g') where
  state := h.state
  error := h.error
  flows := map_updateOne_alike
    (fun _ _ hm => by rw [(Prod.mk.inj hm).1])
    (fun a b hm => (hg b a hm.symm).symm) h.flows
  blocks := h.blocks

/-- So do updates of blocks. -/
theorem onBlock (h : x.Alike y) {b : Oid} {g g' : Block → Block}
    (hg : ∀ k k', k.mark = k'.mark → (g k).mark = (g' k').mark) :
    (x.onBlock b g).Alike (y.onBlock b g') where
  state := h.state
  error := h.error
  flows := h.flows
  blocks := map_updateOne_alike
    (fun _ _ hm => by rw [(Prod.mk.inj hm).1])
    (fun a b hm => (hg b a hm.symm).symm) h.blocks

/-- An update of a flow that is not visible. -/
theorem onFlow_same (h : x.Alike y) {t : Guid} {g : Flow → Flow}
    (hg : ∀ f, (g f).mark = f.mark) : x.Alike (y.onFlow t g) :=
  ⟨h.state, h.error, (map_updateOne hg y.flows).trans h.flows, h.blocks⟩

/-- An update of a flow that does not show. -/
theorem hideFlow {t : Guid} {g : Flow → Flow}
    (hg : ∀ f, (g f).mark = f.mark) : (x.onFlow t g).Alike x :=
  ((refl x).onFlow_same hg).symm

/-- An update of a block that is not visible. -/
theorem onBlock_same (h : x.Alike y) {b : Oid} {g : Block → Block}
    (hg : ∀ k, (g k).mark = k.mark) : x.Alike (y.onBlock b g) :=
  ⟨h.state, h.error, h.flows, (map_updateOne hg y.blocks).trans h.blocks⟩

end Sjob.Alike

-- ====================================================== abstract updates

/-- A flow in another state. -/
def Flow.setState (st : FlowState) (f : Flow) : Flow := { f with state := st }

/-- The flow goes on with a block. -/
def Flow.carry (b : Oid) (f : Flow) : Flow :=
  { f with state := .setting, block := b }

/-- A block in another state. -/
def Block.setState (st : BlockState) (b : Block) : Block :=
  { b with state := st }

/-- More of the block has been transferred. -/
def Block.addTx (v : Int) (b : Block) : Block :=
  { b with txBytes := b.txBytes + v }

/-- The whole block has been transferred. -/
def Block.complete (st : BlockState) (b : Block) : Block :=
  { b with state := st, txBytes := b.size }

/-- Nothing of the block has been transferred. -/
def Block.restart (st : BlockState) (b : Block) : Block :=
  { b with state := st, txBytes := 0 }

/-- The sjob with another state. -/
def Sjob.setState (s : SjobState) (x : Sjob) : Sjob := { x with state := s }

/-- The sjob has failed. -/
def Sjob.fail (x : Sjob) : Sjob := { x with state := .error, error := some "" }

section ids

variable (x : Sjob) (t : Guid) (i : Oid)

/-- The flow keeps its block. -/
@[simp] theorem Flow.setState_block (st : FlowState) (f : Flow) :
    (f.setState st).block = f.block := rfl

/-- And its task. -/
@[simp] theorem Flow.setState_task (st : FlowState) (f : Flow) :
    (f.setState st).task = f.task := rfl

/-- And has the state. -/
@[simp] theorem Flow.setState_state (st : FlowState) (f : Flow) :
    (f.setState st).state = st := rfl

/-- The flow has the block it is given. -/
@[simp] theorem Flow.carry_block (f : Flow) : (f.carry i).block = i := rfl

/-- It keeps its task. -/
@[simp] theorem Flow.carry_task (f : Flow) : (f.carry i).task = f.task := rfl

/-- A block keeps its id in another state. -/
@[simp] theorem Sjob.blockIds_setBlock (st : BlockState) :
    (x.onBlock i (Block.setState st)).blockIds = x.blockIds :=
  blockIds_onBlock (g := Block.setState st) (fun _ => rfl) i x

/-- And with more bytes. -/
@[simp] theorem Sjob.blockIds_addTx (v : Int) :
    (x.onBlock i (Block.addTx v)).blockIds = x.blockIds :=
  blockIds_onBlock (g := Block.addTx v) (fun _ => rfl) i x

/-- And when it is completed. -/
@[simp] theorem Sjob.blockIds_complete (st : BlockState) :
    (x.onBlock i (Block.complete st)).blockIds = x.blockIds :=
  blockIds_onBlock (g := Block.complete st) (fun _ => rfl) i x

/-- And when it begins again. -/
@[simp] theorem Sjob.blockIds_restart (st : BlockState) :
    (x.onBlock i (Block.restart st)).blockIds = x.blockIds :=
  blockIds_onBlock (g := Block.restart st) (fun _ => rfl) i x

/-- Flows are no blocks. -/
@[simp] theorem Sjob.blockIds_onFlow (g : Flow → Flow) :
    (x.onFlow t g).blockIds = x.blockIds := rfl

/-- A state is no block. -/
@[simp] theorem Sjob.blockIds_setState (s : SjobState) :
    (x.setState s).blockIds = x.blockIds := rfl

/-- Nor is an error. -/
@[simp] theorem Sjob.blockIds_fail : x.fail.blockIds = x.blockIds := rfl

end ids

/-- Two updates of one block, fused. -/
theorem Sjob.onBlock_onBlock {g : Block → Block} (hg : ∀ k, (g k).id = k.id)
    (b : Oid) (g' : Block → Block) (x : Sjob) :
    (x.onBlock b g).onBlock b g' = x.onBlock b fun k => g' (g k) := by
  unfold onBlock
  rw [updateOne_updateOne fun a => by rw [hg]]

/-- Two updates of one flow, fused. -/
theorem Sjob.onFlow_onFlow {g : Flow → Flow} (hg : ∀ f, (g f).task = f.task)
    (t : Guid) (g' : Flow → Flow) (x : Sjob) :
    (x.onFlow t g).onFlow t g' = x.onFlow t fun f => g' (g f) := by
  unfold onFlow
  rw [updateOne_updateOne fun a => by rw [hg]]

/-- Documents stay alike in another state. -/
theorem Sjob.Alike.setState {x y : Sjob} (h : x.Alike y) (s : SjobState) :
    (x.setState s).Alike (y.setState s) := ⟨rfl, h.error, h.flows, h.blocks⟩

/-- A message does not show, whatever it says. -/
theorem Sjob.Alike.fail {x y : Sjob} (h : x.Alike y) (err : String) :
    x.fail.Alike { y with state := .error, error := some err } :=
  ⟨rfl, rfl, h.flows, h.blocks⟩

end BigDataExpress
