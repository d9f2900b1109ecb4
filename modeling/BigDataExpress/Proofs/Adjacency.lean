/-
The bookkeeping of the resource graph: what each member function does to
the graph, and the adjacency invariant over every sequence of calls.

`target` is the node a module id is deleted under. Every member function
is an instance of an operation of the pointer graph, or leaves the graph
alone; that is all `keeps_sound` needs of it.
-/
import BigDataExpress.Lib.Stateful
import BigDataExpress.Server.ResourceGraph

namespace BigDataExpress

open Stateful

namespace RGraph

variable {g : RGraph} {E : RGraph → Prop}

-- ============================================== what the functions do

theorem wp_getNode {Q : PtrGraph.Node RNode → RGraph → Prop} {id : String} :
    wp (getNode id) Q E g ↔
      (∃ n, lookup g id = some n ∧ Q n g) ∨ (lookup g id = none ∧ E g) := by
  simp only [getNode, wp_bind, wp_get]
  cases lookup g id with
  | none => simp
  | some n => simp

theorem wp_getStorageNode {Q : PtrGraph.Node RNode → RGraph → Prop}
    {id : String} :
    wp (getStorageNode id) Q E g ↔
      (∃ n, find g (.storage, id) = some n ∧ Q n g) ∨
        (find g (.storage, id) = none ∧ E g) := by
  simp only [getStorageNode, wp_bind, wp_get]
  cases find g (.storage, id) with
  | none => simp
  | some n => simp

theorem wp_getDtnNode {Q : PtrGraph.Node RNode → RGraph → Prop}
    {id : String} :
    wp (getDtnNode id) Q E g ↔
      (∃ n, find g (.dtn, id) = some n ∧ Q n g) ∨
        (find g (.dtn, id) = none ∧ E g) := by
  simp only [getDtnNode, wp_bind, wp_get]
  cases find g (.dtn, id) with
  | none => simp
  | some n => simp

theorem wp_emplace {Q : Nat → RGraph → Prop} {d : RNode} :
    wp (emplace d) Q E g ↔
      (∃ n, find g d.nodeName = some n ∧ Q n.addr g) ∨
        (find g d.nodeName = none ∧ Q g.next (g.insert d)) := by
  simp only [emplace, wp_bind, wp_get]
  cases find g d.nodeName with
  | none => simp
  | some n => simp

theorem wp_addEdge {Q : Unit → RGraph → Prop} {src dst : String}
    {cap : Rat} :
    wp (addEdge src dst cap) Q E g ↔
      if hasEdge g src dst then Q () g
      else (∃ s d, lookup g src = some s ∧ lookup g dst = some d ∧
          Q () (g.connect s.addr d.addr cap)) ∨
        ((lookup g src = none ∨ lookup g dst = none) ∧ E g) := by
  simp only [addEdge, wp_bind, wp_get]
  by_cases he : hasEdge g src dst = true
  · simp [he]
  · simp only [he, if_false, Bool.false_eq_true, wp_bind, wp_getNode,
      wp_modify]
    cases lookup g src with
    | none => simp
    | some s =>
        cases lookup g dst with
        | none => simp
        | some d => simp

theorem wp_addEdgeToGateway {Q : Unit → RGraph → Prop} {src : String}
    {cap : Rat} :
    wp (addEdgeToGateway src cap) Q E g ↔
      if hasDtnNode g src then wp (addEdge src gatewayId cap) Q E g
      else E g := by
  simp only [addEdgeToGateway, wp_bind, wp_get]
  by_cases hd : hasDtnNode g src = true
  · simp [hd]
  · simp [hd]

/-- The node that is deleted for a module id. -/
def target (g : RGraph) (id : String) : Option (PtrGraph.Node RNode) :=
  if id = "gateway" then none else (nodeKey g id).bind (lookup g)

theorem lookup_mem {id : String} {n : PtrGraph.Node RNode}
    (h : lookup g id = some n) : n ∈ g.nodes := by
  simp only [lookup, Option.or_eq_some_iff] at h
  rcases h with (h | ⟨-, h⟩) | ⟨-, h⟩ <;> exact (PtrGraph.find_some h).1

theorem target_mem {id : String} {n : PtrGraph.Node RNode}
    (h : target g id = some n) : n ∈ g.nodes := by
  unfold target at h
  split at h
  · cases h
  · obtain ⟨key, -, h⟩ := Option.bind_eq_some_iff.mp h
    exact lookup_mem h

theorem hasNode_iff {id : String} :
    hasNode g id = true ↔ ∃ n, lookup g id = some n := by
  rw [← Option.isSome_iff_exists]
  simp [hasNode, lookup, hasStorageNode, hasDtnNode, hasGeneralNode,
    Option.isSome_or]

/-- The key a module id stands for is that of a node. -/
theorem nodeKey_lookup {id key : String} (h : nodeKey g id = some key) :
    ∃ n, lookup g key = some n := by
  have hgen : ∀ {k : String} {p : PtrGraph.Node RNode → Bool},
      (find g (.general, k)).any p = true → hasNode g k = true := by
    intro k p hp
    cases hf : find g (.general, k) with
    | none => rw [hf] at hp; cases hp
    | some n => simp [hasNode, hasGeneralNode, hf]
  unfold nodeKey at h
  split at h
  · rename_i hn
    cases h
    exact hasNode_iff.mp hn
  · split at h
    · rename_i hn
      cases h
      exact hasNode_iff.mp (hgen hn)
    · split at h
      · rename_i hn
        cases h
        exact hasNode_iff.mp (hgen hn)
      · cases h

/-- The graph without the target of a module id. -/
def deleted (g : RGraph) (id : String) : RGraph :=
  ((target g id).map fun n => g.remove n.addr).getD g

/-- Deleting removes the target; without one nothing happens. -/
theorem wp_delNode {Q : Unit → RGraph → Prop} {id : String} :
    wp (delNode id) Q E g ↔
      if id = "gateway" then E g else Q () (deleted g id) := by
  simp only [delNode, deleted, target, beq_iff_eq]
  by_cases hid : id = "gateway"
  · simp [hid]
  · simp only [hid, if_false, wp_bind, wp_get]
    cases hk : nodeKey g id with
    | none => simp
    | some key =>
        obtain ⟨n, hn⟩ := nodeKey_lookup hk
        simp [wp_getNode, hn]

theorem after_delNode (g : RGraph) (id : String) :
    after (delNode id) g = deleted g id := by
  refine wp.after (P := fun g' => g' = _) ?_
  rw [wp_delNode]
  split
  · rename_i hid
    simp [deleted, target, hid]
  · rfl

-- ========================================================= soundness

/-- Every outcome of a function keeps the graph sound. -/
def KeepsSound {α : Type} (x : Resource α) : Prop :=
  ∀ g : RGraph, g.Sound → wp x (fun _ g' => g'.Sound) (fun g' => g'.Sound) g

theorem KeepsSound.bind {α β : Type} {x : Resource α} {f : α → Resource β}
    (hx : KeepsSound x) (hf : ∀ a, KeepsSound (f a)) :
    KeepsSound (x >>= f) := by
  intro g h
  rw [wp_bind]
  exact (hx g h).mono (fun a g' h' => hf a g' h') fun _ he => he

theorem keepsSound_emplace (d : RNode) : KeepsSound (emplace d) := by
  intro g h
  rw [wp_emplace]
  cases find g d.nodeName with
  | none => exact .inr ⟨rfl, h.insert d⟩
  | some n => exact .inl ⟨n, rfl, h⟩

theorem keepsSound_addEdge (src dst : String) (cap : Rat) :
    KeepsSound (addEdge src dst cap) := by
  intro g h
  rw [wp_addEdge]
  split
  · exact h
  · cases hs : lookup g src with
    | none => exact .inr ⟨.inl rfl, h⟩
    | some s =>
        cases hd : lookup g dst with
        | none => exact .inr ⟨.inr rfl, h⟩
        | some d =>
            refine .inl ⟨s, d, rfl, rfl, ?_⟩
            exact h.connect cap ⟨s, lookup_mem hs, rfl⟩
              ⟨d, lookup_mem hd, rfl⟩

theorem keepsSound_addEdgeToGateway (src : String) (cap : Rat) :
    KeepsSound (addEdgeToGateway src cap) := by
  intro g h
  rw [wp_addEdgeToGateway]
  split
  · exact keepsSound_addEdge src gatewayId cap g h
  · exact h

theorem keepsSound_delNode (id : String) : KeepsSound (delNode id) := by
  intro g h
  refine wp_of_after ?_
  rw [after_delNode, deleted]
  cases ht : target g id with
  | none => exact h
  | some n => exact h.remove (target_mem ht)

theorem keepsSound_delLauncher : KeepsSound delLauncher := by
  intro g h
  simp only [delLauncher, wp_bind, wp_get]
  by_cases hl : hasLauncher g = true
  · simp only [hl, Bool.not_true, Bool.false_eq_true, if_false]
    exact keepsSound_delNode launcherId g h
  · simp only [hl, Bool.not_false, if_true, wp_pure]
    exact h

theorem keepsSound_delSdn : KeepsSound delSdn := by
  intro g h
  simp only [delSdn, wp_bind, wp_get]
  by_cases hl : hasSdn g = true
  · simp only [hl, Bool.not_true, Bool.false_eq_true, if_false]
    exact keepsSound_delNode sdnId g h
  · simp only [hl, Bool.not_false, if_true, wp_pure]
    exact h

theorem keepsSound_reset : KeepsSound reset := by
  intro g _
  exact PtrGraph.Sound.clear g

end RGraph

-- ====================================================== sequences of calls

/-- A call of a member function that changes the graph. -/
inductive GraphCall
  | addStorageNode (id name : String) (cap : Rat)
  | addDtnNode (id name : String) (cap : Rat)
  | addGeneralNode (id rid name : String) (cap : Rat)
  | addEdge (src dst : String) (cap : Rat)
  | addEdgeToGateway (src : String) (cap : Rat)
  | delNode (id : String)
  | delLauncher
  | delSdn
  | reset

/-- The call as a program; a returned reference is dropped. -/
def GraphCall.run : GraphCall → Resource Unit
  | .addStorageNode id name cap => do
      let _ ← RGraph.addStorageNode id name cap
  | .addDtnNode id name cap => do
      let _ ← RGraph.addDtnNode id name cap
  | .addGeneralNode id rid name cap => do
      let _ ← RGraph.addGeneralNode id rid name cap
  | .addEdge src dst cap => RGraph.addEdge src dst cap
  | .addEdgeToGateway src cap => RGraph.addEdgeToGateway src cap
  | .delNode id => RGraph.delNode id
  | .delLauncher => RGraph.delLauncher
  | .delSdn => RGraph.delSdn
  | .reset => RGraph.reset

theorem GraphCall.keepsSound (c : GraphCall) : RGraph.KeepsSound c.run := by
  have hdrop : ∀ d : RNode, RGraph.KeepsSound
      (do let _ ← RGraph.emplace d) := fun d =>
    (RGraph.keepsSound_emplace d).bind fun _ g h => h
  cases c with
  | addStorageNode id name cap => exact hdrop _
  | addDtnNode id name cap => exact hdrop _
  | addGeneralNode id rid name cap => exact hdrop _
  | addEdge src dst cap => exact RGraph.keepsSound_addEdge src dst cap
  | addEdgeToGateway src cap => exact RGraph.keepsSound_addEdgeToGateway src cap
  | delNode id => exact RGraph.keepsSound_delNode id
  | delLauncher => exact RGraph.keepsSound_delLauncher
  | delSdn => exact RGraph.keepsSound_delSdn
  | reset => exact RGraph.keepsSound_reset

/-- The graph after a sequence of calls on a new one. -/
def RGraph.reached (calls : List GraphCall) : RGraph :=
  runAll (calls.map GraphCall.run) {}

theorem RGraph.reached_sound (calls : List GraphCall) :
    (RGraph.reached calls).Sound := by
  refine runAll_inv ?_ PtrGraph.Sound.empty
  intro x hx g h
  obtain ⟨c, -, rfl⟩ := List.mem_map.mp hx
  exact (c.keepsSound g h).after

namespace RGraph

/-- Every edge of the map is listed once at either end, at nodes of the
graph, and every entry of a list is an edge of the map at that node. -/
structure Adjacent (g : RGraph) : Prop where
  addrs : (g.nodes.map PtrGraph.Node.addr).Nodup
  rids : (g.edges.map PtrGraph.Edge.rid).Nodup
  source : ∀ e ∈ g.edges,
    ∃ n ∈ g.nodes, n.addr = e.src ∧ n.outs.count e.rid = 1
  destination : ∀ e ∈ g.edges,
    ∃ n ∈ g.nodes, n.addr = e.dst ∧ n.ins.count e.rid = 1
  out : ∀ n ∈ g.nodes, ∀ i ∈ n.outs,
    ∃ e ∈ g.edges, e.rid = i ∧ e.src = n.addr
  into : ∀ n ∈ g.nodes, ∀ i ∈ n.ins,
    ∃ e ∈ g.edges, e.rid = i ∧ e.dst = n.addr

theorem adjacent_of_sound {g : RGraph} (h : g.Sound) : Adjacent g where
  addrs := h.addrs
  rids := h.rids
  source := by
    intro e he
    obtain ⟨n, hn, hs, hi⟩ := h.src_out e he
    exact ⟨n, hn, hs, List.count_eq_one_of_mem (h.outs_nodup n hn) hi⟩
  destination := by
    intro e he
    obtain ⟨n, hn, hs, hi⟩ := h.dst_in e he
    exact ⟨n, hn, hs, List.count_eq_one_of_mem (h.ins_nodup n hn) hi⟩
  out := h.out_edge
  into := h.in_edge

/-- A node with its lists cut down to the edges of a table, in their
order. -/
def restrict (edges : List (PtrGraph.Edge Rat)) (n : PtrGraph.Node RNode) :
    PtrGraph.Node RNode :=
  { n with
    ins := n.ins.filter fun i => edges.any fun e => e.rid == i,
    outs := n.outs.filter fun i => edges.any fun e => e.rid == i }

/-- The graph without a node: the edges at it are gone, and every other
node keeps its remaining edges in their order. -/
def without (g : RGraph) (n : PtrGraph.Node RNode) : RGraph :=
  let edges := g.edges.filter fun e => e.src != n.addr && e.dst != n.addr
  { g with
    nodes := (g.nodes.filter fun m => m.addr != n.addr).map (restrict edges),
    edges := edges }

theorem remove_eq_without {g : RGraph} (h : g.Sound)
    {n : PtrGraph.Node RNode} (hn : n ∈ g.nodes) :
    g.remove n.addr = without g n := by
  rw [h.remove_eq hn]
  simp only [without]
  congr 1
  refine List.map_congr_left fun m hm => ?_
  have hm := List.mem_of_mem_filter hm
  -- an edge in a list of `m` stays exactly when it is not at `n`
  have hkept : ∀ e ∈ g.edges, decide (e.rid ∉ n.ins ∧ e.rid ∉ n.outs)
      = (g.edges.filter fun e => e.src != n.addr && e.dst != n.addr).any
          fun f => f.rid == e.rid := by
    intro e he
    rw [Bool.eq_iff_iff, decide_eq_true_eq, List.any_eq_true,
      h.mem_ins hn he, h.mem_outs hn he]
    constructor
    · intro hp
      refine ⟨e, List.mem_filter.mpr ⟨he, ?_⟩, BEq.refl _⟩
      simp [hp.1, hp.2]
    · rintro ⟨f, hf, hr⟩
      obtain ⟨hf, hp⟩ := List.mem_filter.mp hf
      rw [h.edge_unique hf he (beq_iff_eq.mp hr)] at hp
      simp only [Bool.and_eq_true, bne_iff_ne] at hp
      exact ⟨hp.2, hp.1⟩
  have hins : ∀ i ∈ m.ins, ∃ e ∈ g.edges, e.rid = i := by
    intro i hi
    obtain ⟨e, he, hr, -⟩ := h.in_edge m hm i hi
    exact ⟨e, he, hr⟩
  have houts : ∀ i ∈ m.outs, ∃ e ∈ g.edges, e.rid = i := by
    intro i hi
    obtain ⟨e, he, hr, -⟩ := h.out_edge m hm i hi
    exact ⟨e, he, hr⟩
  simp only [PtrGraph.Node.without, restrict]
  congr 1
  · refine List.filter_congr fun i hi => ?_
    obtain ⟨e, he, rfl⟩ := hins i hi
    exact hkept e he
  · refine List.filter_congr fun i hi => ?_
    obtain ⟨e, he, rfl⟩ := houts i hi
    exact hkept e he

/-- After any sequence of calls the three copies of every edge agree, and
deleting a module id then removes its node and the edges at it, and
nothing else. -/
theorem adjacency_reachable (calls : List GraphCall) :
    Adjacent (reached calls) ∧
      ∀ id, after (delNode id) (reached calls)
        = ((target (reached calls) id).map
            fun n => without (reached calls) n).getD (reached calls) := by
  have h := reached_sound calls
  refine ⟨adjacent_of_sound h, fun id => ?_⟩
  rw [after_delNode, deleted]
  cases ht : target (reached calls) id with
  | none => rfl
  | some n => exact remove_eq_without h (target_mem ht)

end RGraph

end BigDataExpress
