/-
Directed multigraphs held by pointers: every edge is kept three times,
in the table of edges, in the out list of its source and in the in list
of its destination, and a node is an allocated object that the lists of
the edges point to.

# Identity

An address or an edge id is a number taken from `next` and never given
out again, so a pointer to a node that was removed stays dangling, also
when a node with the same contents is inserted later.

# The invariant

`Sound` ties the three copies together. Removing a node edits the lists
of its neighbours while it walks its own lists; `remove_eq` says what
comes out of the two loops: the node and the edges at it are gone, and
every other list is filtered in its order.

`links` is the graph without its pointers: the pairs of names its edges
join.
-/
import BigDataExpress.Lib.Collection

namespace PtrGraph

/-- An allocated node: its contents and the edges it points to. -/
structure Node (β : Type) where
  addr : Nat
  data : β
  ins : List Nat := []
  outs : List Nat := []
deriving DecidableEq

/-- An edge of the table, with the addresses of its two nodes. -/
structure Edge (γ : Type) where
  rid : Nat
  src : Nat
  dst : Nat
  data : γ
deriving DecidableEq

end PtrGraph

/-- The nodes, the table of edges and the next free number. -/
structure PtrGraph (β γ : Type) where
  nodes : List (PtrGraph.Node β) := []
  edges : List (PtrGraph.Edge γ) := []
  next : Nat := 0
deriving DecidableEq

namespace PtrGraph

variable {β γ κ : Type}

-- ======================================================== the operations

/-- The object at an address. -/
def node? (g : PtrGraph β γ) (a : Nat) : Option (Node β) :=
  g.nodes.find? fun n => n.addr == a

/-- The edge with an id. -/
def edge? (g : PtrGraph β γ) (i : Nat) : Option (Edge γ) :=
  g.edges.find? fun e => e.rid == i

/-- Write through a pointer. -/
def update (g : PtrGraph β γ) (a : Nat) (f : Node β → Node β) :
    PtrGraph β γ :=
  { g with nodes := g.nodes.map fun n => if n.addr = a then f n else n }

/-- Allocate a node. -/
def insert (g : PtrGraph β γ) (d : β) : PtrGraph β γ :=
  { g with nodes := g.nodes ++ [{ addr := g.next, data := d }],
           next := g.next + 1 }

/-- Change the contents of a node. -/
def modify (g : PtrGraph β γ) (a : Nat) (f : β → β) : PtrGraph β γ :=
  g.update a fun n => { n with data := f n.data }

/-- Two changes at one address, fused. -/
theorem modify_modify (g : PtrGraph β γ) (a : Nat) (f f' : β → β) :
    (g.modify a f).modify a f' = g.modify a fun d => f' (f d) := by
  simp only [modify, update, List.map_map]
  congr 1
  refine List.map_congr_left fun n _ => ?_
  by_cases ha : n.addr = a
  · simp only [Function.comp_apply, if_pos ha]
  · simp only [Function.comp_apply, if_neg ha]

/-- Append an edge to the out list of its source. -/
def Node.addOut (i : Nat) (n : Node β) : Node β :=
  { n with outs := n.outs ++ [i] }

/-- Append an edge to the in list of its destination. -/
def Node.addIn (i : Nat) (n : Node β) : Node β :=
  { n with ins := n.ins ++ [i] }

/-- Drop the first entry of an edge from the out list. -/
def Node.delOut (i : Nat) (n : Node β) : Node β :=
  { n with outs := n.outs.erase i }

/-- Drop the first entry of an edge from the in list. -/
def Node.delIn (i : Nat) (n : Node β) : Node β :=
  { n with ins := n.ins.erase i }

/-- A new edge between two nodes. -/
def connect (g : PtrGraph β γ) (a b : Nat) (d : γ) : PtrGraph β γ :=
  let g' : PtrGraph β γ :=
    { g with edges := g.edges ++ [⟨g.next, a, b, d⟩], next := g.next + 1 }
  (g'.update a (Node.addOut g.next)).update b (Node.addIn g.next)

/-- Drop an edge from the table. -/
def eraseEdge (g : PtrGraph β γ) (i : Nat) : PtrGraph β γ :=
  { g with edges := g.edges.filter fun e => e.rid != i }

/-- Drop an edge at its source and from the table. -/
def cutIn (g : PtrGraph β γ) (i : Nat) : PtrGraph β γ :=
  match g.edge? i with
  | none => g
  | some e => (g.update e.src (Node.delOut i)).eraseEdge i

/-- Drop an edge at its destination and from the table. -/
def cutOut (g : PtrGraph β γ) (i : Nat) : PtrGraph β γ :=
  match g.edge? i with
  | none => g
  | some e => (g.update e.dst (Node.delIn i)).eraseEdge i

/-- The out list of a node, as it is now. -/
def outsAt (g : PtrGraph β γ) (a : Nat) : List Nat :=
  ((g.node? a).map Node.outs).getD []

/-- The in list of a node, as it is now. -/
def insAt (g : PtrGraph β γ) (a : Nat) : List Nat :=
  ((g.node? a).map Node.ins).getD []

/-- Cut the edges into a node, then those still out of it. -/
def isolate (g : PtrGraph β γ) (a : Nat) : PtrGraph β γ :=
  let g' := (g.insAt a).foldl cutIn g
  (g'.outsAt a).foldl cutOut g'

/-- Remove a node with the edges at it. -/
def remove (g : PtrGraph β γ) (a : Nat) : PtrGraph β γ :=
  let g' := g.isolate a
  { g' with nodes := g'.nodes.filter fun n => n.addr != a }

/-- Clear the three tables. -/
def clear (g : PtrGraph β γ) : PtrGraph β γ :=
  { g with nodes := [], edges := [] }

-- ========================================================= the invariant

/-- The three copies of every edge agree, and every number in use was
given out. -/
structure Sound (g : PtrGraph β γ) : Prop where
  addrs : (g.nodes.map Node.addr).Nodup
  rids : (g.edges.map Edge.rid).Nodup
  addr_lt : ∀ n ∈ g.nodes, n.addr < g.next
  rid_lt : ∀ e ∈ g.edges, e.rid < g.next
  outs_nodup : ∀ n ∈ g.nodes, n.outs.Nodup
  ins_nodup : ∀ n ∈ g.nodes, n.ins.Nodup
  out_edge : ∀ n ∈ g.nodes, ∀ i ∈ n.outs,
    ∃ e ∈ g.edges, e.rid = i ∧ e.src = n.addr
  in_edge : ∀ n ∈ g.nodes, ∀ i ∈ n.ins,
    ∃ e ∈ g.edges, e.rid = i ∧ e.dst = n.addr
  src_out : ∀ e ∈ g.edges, ∃ n ∈ g.nodes, n.addr = e.src ∧ e.rid ∈ n.outs
  dst_in : ∀ e ∈ g.edges, ∃ n ∈ g.nodes, n.addr = e.dst ∧ e.rid ∈ n.ins

variable {g : PtrGraph β γ}

/-- Two nodes at one address are one node. -/
theorem Sound.node_unique (h : g.Sound) {n m : Node β}
    (hn : n ∈ g.nodes) (hm : m ∈ g.nodes) (he : n.addr = m.addr) : n = m :=
  List.inj_on_of_nodup_map h.addrs hn hm he

/-- Two edges with one id are one edge. -/
theorem Sound.edge_unique (h : g.Sound) {e f : Edge γ}
    (he : e ∈ g.edges) (hf : f ∈ g.edges) (hr : e.rid = f.rid) : e = f :=
  List.inj_on_of_nodup_map h.rids he hf hr

/-- What is found at an address is a node with it. -/
theorem node?_some {a : Nat} {n : Node β} (h : g.node? a = some n) :
    n ∈ g.nodes ∧ n.addr = a := by
  refine ⟨List.mem_of_find?_eq_some h, ?_⟩
  simpa using List.find?_some h

/-- In a sound graph every node is found at its address. -/
theorem Sound.node?_eq (h : g.Sound) {n : Node β} (hn : n ∈ g.nodes) :
    g.node? n.addr = some n :=
  Collection.find?_key Node.addr h.addrs hn

/-- And every edge by its id. -/
theorem Sound.edge?_eq (h : g.Sound) {e : Edge γ} (he : e ∈ g.edges) :
    g.edge? e.rid = some e :=
  Collection.find?_key Edge.rid h.rids he

-- ============================================================ the mirror

/-- A node with its two lists exchanged. -/
def Node.flip (n : Node β) : Node β := { n with ins := n.outs, outs := n.ins }

/-- An edge the other way. -/
def Edge.flip (e : Edge γ) : Edge γ := { e with src := e.dst, dst := e.src }

/-- The graph with every edge the other way. -/
def flip (g : PtrGraph β γ) : PtrGraph β γ :=
  { g with nodes := g.nodes.map Node.flip, edges := g.edges.map Edge.flip }

/-- Turning twice turns nothing. -/
@[simp] theorem flip_flip (g : PtrGraph β γ) : g.flip.flip = g := by
  have hn : Node.flip ∘ Node.flip = (id : Node β → Node β) := rfl
  have he : Edge.flip ∘ Edge.flip = (id : Edge γ → Edge γ) := rfl
  simp only [flip, List.map_map, hn, he, List.map_id]

/-- The turned graph has the turned edges. -/
theorem edge?_flip (g : PtrGraph β γ) (i : Nat) :
    g.flip.edge? i = (g.edge? i).map Edge.flip := by
  simp only [edge?, flip, List.find?_map]
  rfl

/-- Updates are turned with the graph. -/
theorem flip_update (g : PtrGraph β γ) (a : Nat) (f : Node β → Node β) :
    (g.update a f).flip = g.flip.update a fun n => (f n.flip).flip := by
  simp only [update, flip, List.map_map]
  congr 1
  refine List.map_congr_left fun n _ => ?_
  by_cases ha : n.addr = a
  · simp only [Function.comp_apply, if_pos ha]
    rw [if_pos (show n.flip.addr = a from ha)]
    rfl
  · simp only [Function.comp_apply, if_neg ha]
    rw [if_neg (show ¬ n.flip.addr = a from ha)]

/-- So is the erasure of an edge. -/
theorem flip_eraseEdge (g : PtrGraph β γ) (i : Nat) :
    (g.eraseEdge i).flip = g.flip.eraseEdge i := by
  simp only [eraseEdge, flip, List.filter_map]
  rfl

/-- Cutting at the destination is cutting at the source in the
mirror. -/
theorem cutOut_eq_flip (g : PtrGraph β γ) (i : Nat) :
    g.cutOut i = (g.flip.cutIn i).flip := by
  unfold cutOut cutIn
  rw [edge?_flip]
  cases g.edge? i with
  | none => rw [Option.map_none]; exact (flip_flip g).symm
  | some e =>
      simp only [Option.map_some, flip_eraseEdge, flip_update, flip_flip]
      rfl

/-- Cutting outgoing edges is cutting incoming ones of the turned graph. -/
theorem foldl_cutOut_eq_flip (l : List Nat) (g : PtrGraph β γ) :
    l.foldl cutOut g = (l.foldl cutIn g.flip).flip := by
  induction l generalizing g with
  | nil => exact (flip_flip g).symm
  | cons i l ih => rw [List.foldl_cons, List.foldl_cons, ih, cutOut_eq_flip,
      flip_flip]

-- ============================================================= the loops

/-- What the loop over in edges needs of the out lists: an edge is
listed once, and at its source only. -/
structure OutsOwned (g : PtrGraph β γ) : Prop where
  rids : (g.edges.map Edge.rid).Nodup
  outs_nodup : ∀ n ∈ g.nodes, n.outs.Nodup
  own : ∀ e ∈ g.edges, ∀ n ∈ g.nodes, e.rid ∈ n.outs → n.addr = e.src

/-- Without the edges of a list, in the out lists and in the table. -/
def dropOuts (g : PtrGraph β γ) (l : List Nat) : PtrGraph β γ :=
  { g with
    nodes := g.nodes.map fun n =>
      { n with outs := n.outs.filter fun i => decide (i ∉ l) },
    edges := g.edges.filter fun e => decide (e.rid ∉ l) }

/-- Dropping outgoing edges leaves the others with their owners. -/
theorem OutsOwned.dropOuts (h : g.OutsOwned) (l : List Nat) :
    (g.dropOuts l).OutsOwned where
  rids := (List.filter_sublist.map Edge.rid).nodup h.rids
  outs_nodup := by
    intro n hn
    obtain ⟨m, hm, rfl⟩ := List.mem_map.mp hn
    exact (h.outs_nodup m hm).filter _
  own := by
    intro e he n hn hi
    obtain ⟨m, hm, rfl⟩ := List.mem_map.mp hn
    exact h.own e (List.mem_of_mem_filter he) m hm (List.mem_of_mem_filter hi)

/-- One round of the loop. -/
theorem OutsOwned.cutIn (h : g.OutsOwned) {e : Edge γ} (he : e ∈ g.edges) :
    g.cutIn e.rid = g.dropOuts [e.rid] := by
  have hf : g.edge? e.rid = some e := Collection.find?_key Edge.rid h.rids he
  simp only [PtrGraph.cutIn, hf, update, eraseEdge, PtrGraph.dropOuts,
    List.mem_singleton, decide_not]
  congr 1
  · refine List.map_congr_left fun n hn => ?_
    by_cases ha : n.addr = e.src
    · rw [if_pos ha, Node.delOut, (h.outs_nodup n hn).erase_eq_filter]
      rfl
    · rw [if_neg ha]
      have hno : e.rid ∉ n.outs := fun hi => ha (h.own e he n hn hi)
      have hall : n.outs.filter (fun i => !decide (i = e.rid)) = n.outs := by
        refine List.filter_eq_self.mpr fun i hi => ?_
        have : i ≠ e.rid := fun hie => hno (hie ▸ hi)
        simp [this]
      rw [hall]

/-- Dropping twice is dropping all of them. -/
theorem dropOuts_dropOuts (g : PtrGraph β γ) (k l : List Nat) :
    (g.dropOuts k).dropOuts l = g.dropOuts (k ++ l) := by
  simp only [dropOuts, List.map_map, List.filter_filter, List.mem_append,
    not_or, Bool.decide_and]
  congr 1
  · refine List.map_congr_left fun n _ => ?_
    simp only [Function.comp_apply, List.filter_filter]
    congr 1
    exact List.filter_congr fun i _ => Bool.and_comm ..
  · exact List.filter_congr fun i _ => Bool.and_comm ..

/-- The loop over a list of edges drops them all. -/
theorem OutsOwned.foldl_cutIn {l : List Nat} (h : g.OutsOwned)
    (hl : l.Nodup) (hin : ∀ i ∈ l, ∃ e ∈ g.edges, e.rid = i) :
    l.foldl PtrGraph.cutIn g = g.dropOuts l := by
  induction l generalizing g with
  | nil => simp [PtrGraph.dropOuts]
  | cons i l ih =>
      obtain ⟨e, he, rfl⟩ := hin i (List.mem_cons_self ..)
      rw [List.nodup_cons] at hl
      rw [List.foldl_cons, h.cutIn he]
      rw [ih (h.dropOuts _) hl.2, dropOuts_dropOuts]
      · rfl
      · intro j hj
        obtain ⟨f, hf, rfl⟩ := hin j (List.mem_cons_of_mem _ hj)
        have hne : f.rid ≠ e.rid := fun he' => hl.1 (he' ▸ hj)
        refine ⟨f, List.mem_filter.mpr ⟨hf, ?_⟩, rfl⟩
        simpa using hne

/-- In a sound graph outgoing edges have owners. -/
theorem Sound.outsOwned (h : g.Sound) : g.OutsOwned where
  rids := h.rids
  outs_nodup := h.outs_nodup
  own := by
    intro e he n hn hi
    obtain ⟨f, hf, hr, hs⟩ := h.out_edge n hn _ hi
    rw [← hs, h.edge_unique hf he hr]

/-- A sound graph stays so when turned. -/
theorem Sound.flip (h : g.Sound) : g.flip.Sound where
  addrs := by
    simp only [PtrGraph.flip, List.map_map]
    exact h.addrs
  rids := by
    simp only [PtrGraph.flip, List.map_map]
    exact h.rids
  addr_lt := by
    intro n hn
    obtain ⟨m, hm, rfl⟩ := List.mem_map.mp hn
    exact h.addr_lt m hm
  rid_lt := by
    intro e he
    obtain ⟨f, hf, rfl⟩ := List.mem_map.mp he
    exact h.rid_lt f hf
  outs_nodup := by
    intro n hn
    obtain ⟨m, hm, rfl⟩ := List.mem_map.mp hn
    exact h.ins_nodup m hm
  ins_nodup := by
    intro n hn
    obtain ⟨m, hm, rfl⟩ := List.mem_map.mp hn
    exact h.outs_nodup m hm
  out_edge := by
    intro n hn i hi
    obtain ⟨m, hm, rfl⟩ := List.mem_map.mp hn
    obtain ⟨e, he, hr, hd⟩ := h.in_edge m hm i hi
    exact ⟨e.flip, List.mem_map_of_mem he, hr, hd⟩
  in_edge := by
    intro n hn i hi
    obtain ⟨m, hm, rfl⟩ := List.mem_map.mp hn
    obtain ⟨e, he, hr, hs⟩ := h.out_edge m hm i hi
    exact ⟨e.flip, List.mem_map_of_mem he, hr, hs⟩
  src_out := by
    intro e he
    obtain ⟨f, hf, rfl⟩ := List.mem_map.mp he
    obtain ⟨n, hn, ha, hi⟩ := h.dst_in f hf
    exact ⟨n.flip, List.mem_map_of_mem hn, ha, hi⟩
  dst_in := by
    intro e he
    obtain ⟨f, hf, rfl⟩ := List.mem_map.mp he
    obtain ⟨n, hn, ha, hi⟩ := h.src_out f hf
    exact ⟨n.flip, List.mem_map_of_mem hn, ha, hi⟩

-- ========================================================= what is removed

/-- A node whose lists lost the edges at another one. -/
def Node.without (n m : Node β) : Node β :=
  { m with
    ins := m.ins.filter fun i => decide (i ∉ n.ins ∧ i ∉ n.outs),
    outs := m.outs.filter fun i => decide (i ∉ n.ins ∧ i ∉ n.outs) }

/-- A node that loses edges keeps its address. -/
@[simp] theorem Node.without_addr (n m : Node β) :
    (n.without m).addr = m.addr := rfl

/-- And its data. -/
@[simp] theorem Node.without_data (n m : Node β) :
    (n.without m).data = m.data := rfl

/-- An edge out of one node is not out of another. -/
theorem Sound.outs_disjoint (h : g.Sound) {n m : Node β}
    (hn : n ∈ g.nodes) (hm : m ∈ g.nodes) (hne : m.addr ≠ n.addr) {i : Nat}
    (hi : i ∈ m.outs) : i ∉ n.outs := by
  intro hi'
  obtain ⟨e, he, hr, hs⟩ := h.out_edge m hm i hi
  obtain ⟨f, hf, hr', hs'⟩ := h.out_edge n hn i hi'
  have hef := h.edge_unique he hf (hr.trans hr'.symm)
  exact hne (by rw [← hs, ← hs', hef])

/-- An edge is in the lists of a node exactly when it is at the node. -/
theorem Sound.mem_outs (h : g.Sound) {n : Node β} (hn : n ∈ g.nodes)
    {e : Edge γ} (he : e ∈ g.edges) : e.rid ∈ n.outs ↔ e.src = n.addr := by
  constructor
  · intro hi
    exact (h.outsOwned.own e he n hn hi).symm
  · intro hs
    obtain ⟨m, hm, ha, hi⟩ := h.src_out e he
    rw [h.node_unique hm hn (ha.trans hs)] at hi
    exact hi

/-- The incoming edges of a node are those that end there. -/
theorem Sound.mem_ins (h : g.Sound) {n : Node β} (hn : n ∈ g.nodes)
    {e : Edge γ} (he : e ∈ g.edges) : e.rid ∈ n.ins ↔ e.dst = n.addr :=
  h.flip.mem_outs (List.mem_map_of_mem (f := Node.flip) hn)
    (List.mem_map_of_mem (f := Edge.flip) he)

/-- After both loops: every edge at the node is gone from the table and
from the lists of the others. -/
theorem Sound.isolate_eq (h : g.Sound) {n : Node β} (hn : n ∈ g.nodes) :
    g.isolate n.addr
      = ((g.dropOuts n.ins).flip.dropOuts
          (n.outs.filter fun i => decide (i ∉ n.ins))).flip := by
  have hins : g.insAt n.addr = n.ins := by
    rw [insAt, h.node?_eq hn]
    rfl
  have hloop : n.ins.foldl PtrGraph.cutIn g = g.dropOuts n.ins := by
    refine h.outsOwned.foldl_cutIn (h.ins_nodup n hn) fun i hi => ?_
    obtain ⟨e, he, hr, -⟩ := h.in_edge n hn i hi
    exact ⟨e, he, hr⟩
  have haddrs : ((g.dropOuts n.ins).nodes.map Node.addr).Nodup := by
    simp only [dropOuts, List.map_map]
    exact h.addrs
  have houts : (g.dropOuts n.ins).outsAt n.addr
      = n.outs.filter fun i => decide (i ∉ n.ins) := by
    have hmem := List.mem_map_of_mem (f := fun m : Node β =>
      { m with outs := m.outs.filter fun i => decide (i ∉ n.ins) }) hn
    have hfind := Collection.find?_key Node.addr haddrs hmem
    simp only [outsAt, node?]
    rw [hfind]
    rfl
  -- the second loop is the first one of the mirror
  have hown : (g.dropOuts n.ins).flip.OutsOwned :=
    { rids := by
        simp only [PtrGraph.flip, List.map_map]
        exact (h.outsOwned.dropOuts _).rids
      outs_nodup := by
        intro m hm
        simp only [PtrGraph.flip, dropOuts, List.map_map] at hm
        obtain ⟨k, hk, rfl⟩ := List.mem_map.mp hm
        exact h.ins_nodup k hk
      own := by
        intro e he m hm hi
        simp only [PtrGraph.flip, dropOuts, List.map_map] at hm
        obtain ⟨k, hk, rfl⟩ := List.mem_map.mp hm
        obtain ⟨f, hf, rfl⟩ := List.mem_map.mp he
        exact ((h.mem_ins hk (List.mem_of_mem_filter hf)).mp hi).symm }
  simp only [isolate, hins, hloop, houts, foldl_cutOut_eq_flip]
  rw [hown.foldl_cutIn ((h.outs_nodup n hn).filter _)]
  intro i hi
  obtain ⟨hi, hnot⟩ := List.mem_filter.mp hi
  obtain ⟨e, he, hr, -⟩ := h.out_edge n hn i hi
  refine ⟨e.flip, List.mem_map_of_mem (List.mem_filter.mpr ⟨he, ?_⟩), hr⟩
  rw [hr]
  exact hnot

/-- Removing a node removes it and the edges at it, and keeps the order
of every list. -/
theorem Sound.remove_eq (h : g.Sound) {n : Node β} (hn : n ∈ g.nodes) :
    g.remove n.addr =
      { nodes := (g.nodes.filter fun m => m.addr != n.addr).map n.without,
        edges := g.edges.filter fun e =>
          e.src != n.addr && e.dst != n.addr,
        next := g.next } := by
  rw [remove, h.isolate_eq hn]
  simp only [PtrGraph.flip, dropOuts, List.map_map, List.filter_map,
    List.filter_filter]
  congr 1
  · refine List.map_congr_left fun m hm => ?_
    obtain ⟨hm, ha⟩ := List.mem_filter.mp hm
    have hne : m.addr ≠ n.addr := bne_iff_ne.mp ha
    have houts : m.outs.filter (fun i => decide (i ∉ n.ins))
        = m.outs.filter fun i => decide (i ∉ n.ins ∧ i ∉ n.outs) := by
      refine List.filter_congr fun i hi => ?_
      have := h.outs_disjoint hn hm hne hi
      simp [this]
    have hins : m.ins.filter
          (fun i => decide (i ∉ n.outs.filter fun j => decide (j ∉ n.ins)))
        = m.ins.filter fun i => decide (i ∉ n.ins ∧ i ∉ n.outs) := by
      refine List.filter_congr fun i hi => ?_
      have : i ∉ n.ins := h.flip.outs_disjoint
        (List.mem_map_of_mem (f := Node.flip) hn)
        (List.mem_map_of_mem (f := Node.flip) hm) hne hi
      simp [this]
    simp only [Function.comp_apply, Node.flip, Node.without, houts, hins]
  · have hid : Edge.flip ∘ Edge.flip = (id : Edge γ → Edge γ) := rfl
    rw [hid, List.map_id]
    refine List.filter_congr fun e he => ?_
    have ho := h.mem_outs hn he
    have hi := h.mem_ins hn he
    by_cases hs : e.src = n.addr <;> by_cases hd : e.dst = n.addr <;>
      simp [Edge.flip, ho, hi, hs, hd]

-- ============================================ the operations keep it sound

/-- The empty graph is sound. -/
theorem Sound.empty : ({} : PtrGraph β γ).Sound := by
  constructor <;> simp

/-- So is a graph that was cleared. -/
theorem Sound.clear (g : PtrGraph β γ) : g.clear.Sound := by
  constructor <;> simp [PtrGraph.clear]

/-- Changing contents touches no pointer. -/
theorem Sound.modify (h : g.Sound) (a : Nat) (f : β → β) :
    (g.modify a f).Sound := by
  have hmem : ∀ m ∈ (g.modify a f).nodes, ∃ n ∈ g.nodes,
      m.addr = n.addr ∧ m.ins = n.ins ∧ m.outs = n.outs := by
    intro m hm
    obtain ⟨n, hn, rfl⟩ := List.mem_map.mp hm
    refine ⟨n, hn, ?_⟩
    split <;> exact ⟨rfl, rfl, rfl⟩
  have hback : ∀ n ∈ g.nodes, ∃ m ∈ (g.modify a f).nodes,
      m.addr = n.addr ∧ m.ins = n.ins ∧ m.outs = n.outs := by
    intro n hn
    refine ⟨_, List.mem_map_of_mem hn, ?_⟩
    split <;> exact ⟨rfl, rfl, rfl⟩
  have haddrs : (g.modify a f).nodes.map Node.addr
      = g.nodes.map Node.addr := by
    simp only [PtrGraph.modify, update, List.map_map]
    refine List.map_congr_left fun n _ => ?_
    simp only [Function.comp_apply]
    split <;> rfl
  refine ⟨haddrs ▸ h.addrs, h.rids, ?_, h.rid_lt, ?_, ?_, ?_, ?_, ?_, ?_⟩
  · intro m hm
    obtain ⟨n, hn, ha, -, -⟩ := hmem m hm
    rw [ha]
    exact h.addr_lt n hn
  · intro m hm
    obtain ⟨n, hn, -, -, ho⟩ := hmem m hm
    rw [ho]
    exact h.outs_nodup n hn
  · intro m hm
    obtain ⟨n, hn, -, hi, -⟩ := hmem m hm
    rw [hi]
    exact h.ins_nodup n hn
  · intro m hm
    obtain ⟨n, hn, ha, -, ho⟩ := hmem m hm
    rw [ha, ho]
    exact h.out_edge n hn
  · intro m hm
    obtain ⟨n, hn, ha, hi, -⟩ := hmem m hm
    rw [ha, hi]
    exact h.in_edge n hn
  · intro e he
    obtain ⟨n, hn, hs, hi⟩ := h.src_out e he
    obtain ⟨m, hm, ha, -, ho⟩ := hback n hn
    exact ⟨m, hm, ha.trans hs, ho ▸ hi⟩
  · intro e he
    obtain ⟨n, hn, hs, hi⟩ := h.dst_in e he
    obtain ⟨m, hm, ha, ho, -⟩ := hback n hn
    exact ⟨m, hm, ha.trans hs, ho ▸ hi⟩

/-- A new node has an address of its own and no edges. -/
theorem Sound.insert (h : g.Sound) (d : β) : (g.insert d).Sound := by
  have hmem : ∀ m ∈ (g.insert d).nodes, m ∈ g.nodes ∨
      m = { addr := g.next, data := d } := by
    intro m hm
    simpa only [PtrGraph.insert, List.mem_append, List.mem_singleton] using hm
  have hold : ∀ n ∈ g.nodes, n ∈ (g.insert d).nodes := fun n hn =>
    List.mem_append_left _ hn
  constructor
  · simp only [PtrGraph.insert, List.map_append, List.map_cons, List.map_nil]
    refine h.addrs.append (List.nodup_singleton _) ?_
    intro x hx hnew
    obtain ⟨n, hn, rfl⟩ := List.mem_map.mp hx
    have := h.addr_lt n hn
    rw [List.mem_singleton] at hnew
    omega
  · exact h.rids
  · intro m hm
    rcases hmem m hm with hm | rfl
    · exact Nat.lt_succ_of_lt (h.addr_lt m hm)
    · exact Nat.lt_succ_self _
  · intro e he
    exact Nat.lt_succ_of_lt (h.rid_lt e he)
  · intro m hm
    rcases hmem m hm with hm | rfl
    · exact h.outs_nodup m hm
    · exact List.nodup_nil
  · intro m hm
    rcases hmem m hm with hm | rfl
    · exact h.ins_nodup m hm
    · exact List.nodup_nil
  · intro m hm i hi
    rcases hmem m hm with hm | rfl
    · exact h.out_edge m hm i hi
    · cases hi
  · intro m hm i hi
    rcases hmem m hm with hm | rfl
    · exact h.in_edge m hm i hi
    · cases hi
  · intro e he
    obtain ⟨n, hn, hs⟩ := h.src_out e he
    exact ⟨n, hold n hn, hs⟩
  · intro e he
    obtain ⟨n, hn, hs⟩ := h.dst_in e he
    exact ⟨n, hold n hn, hs⟩

/-- A node after an edge was connected. -/
def Node.joined (i a b : Nat) (n : Node β) : Node β :=
  { n with
    outs := if n.addr = a then n.outs ++ [i] else n.outs,
    ins := if n.addr = b then n.ins ++ [i] else n.ins }

/-- Connecting changes the two ends only. -/
theorem connect_nodes (g : PtrGraph β γ) (a b : Nat) (d : γ) :
    (g.connect a b d).nodes = g.nodes.map (Node.joined g.next a b) := by
  simp only [connect, update, List.map_map]
  refine List.map_congr_left fun n _ => ?_
  simp only [Function.comp_apply, Node.joined, Node.addOut, Node.addIn]
  by_cases ha : n.addr = a
  · simp only [if_pos ha]
    split <;> rfl
  · simp only [if_neg ha]
    split <;> rfl

/-- It adds one edge. -/
@[simp] theorem connect_edges (g : PtrGraph β γ) (a b : Nat) (d : γ) :
    (g.connect a b d).edges = g.edges ++ [⟨g.next, a, b, d⟩] := rfl

/-- And uses one id. -/
@[simp] theorem connect_next (g : PtrGraph β γ) (a b : Nat) (d : γ) :
    (g.connect a b d).next = g.next + 1 := rfl

-- ====================================================== what is found

/-- A node is found with its modified data. -/
theorem node?_modify (g : PtrGraph β γ) (a b : Nat) (f : β → β) :
    (g.modify a f).node? b = (g.node? b).map fun n =>
      if n.addr = a then { n with data := f n.data } else n := by
  simp only [node?, modify, update, List.find?_map]
  congr 2
  funext n
  simp only [Function.comp_apply]
  split <;> rfl

/-- What was found is found after an insertion. -/
theorem node?_insert {a : Nat} {n : Node β} (h : g.node? a = some n)
    (d : β) : (g.insert d).node? a = some n := by
  simp only [node?] at h
  simp only [node?, PtrGraph.insert, List.find?_append, h, Option.some_or]

/-- A node is found with its new edge. -/
theorem node?_connect (g : PtrGraph β γ) (a b c : Nat) (d : γ) :
    (g.connect a b d).node? c
      = (g.node? c).map (Node.joined g.next a b) := by
  simp only [node?, connect_nodes, List.find?_map]
  rfl

/-- What was found is found after an edge was connected. -/
theorem edge?_connect {i : Nat} {e : Edge γ} (h : g.edge? i = some e)
    (a b : Nat) (d : γ) : (g.connect a b d).edge? i = some e := by
  simp only [edge?] at h
  simp only [edge?, connect_edges, List.find?_append, h, Option.some_or]

/-- The new edge is found by the id that was free. -/
theorem Sound.edge?_connect_self (h : g.Sound) (a b : Nat) (d : γ) :
    (g.connect a b d).edge? g.next = some ⟨g.next, a, b, d⟩ := by
  have hnone : g.edge? g.next = none := by
    apply List.find?_eq_none.mpr
    intro e he
    simpa using Nat.ne_of_lt (h.rid_lt e he)
  simp only [edge?] at hnone
  simp [edge?, List.find?_append, hnone]

/-- An edge with a fresh id, entered in all three places. -/
theorem Sound.connect (h : g.Sound) {a b : Nat} (d : γ)
    (ha : ∃ n ∈ g.nodes, n.addr = a) (hb : ∃ n ∈ g.nodes, n.addr = b) :
    (g.connect a b d).Sound := by
  have hmem : ∀ m ∈ (g.connect a b d).nodes, ∃ n ∈ g.nodes,
      m = n.joined g.next a b := by
    intro m hm
    rw [connect_nodes] at hm
    obtain ⟨n, hn, rfl⟩ := List.mem_map.mp hm
    exact ⟨n, hn, rfl⟩
  have hback : ∀ n ∈ g.nodes,
      n.joined g.next a b ∈ (g.connect a b d).nodes := by
    intro n hn
    rw [connect_nodes]
    exact List.mem_map_of_mem hn
  have hfresh_out : ∀ n ∈ g.nodes, g.next ∉ n.outs := by
    intro n hn hi
    obtain ⟨e, he, hr, -⟩ := h.out_edge n hn _ hi
    have := h.rid_lt e he
    omega
  have hfresh_in : ∀ n ∈ g.nodes, g.next ∉ n.ins := by
    intro n hn hi
    obtain ⟨e, he, hr, -⟩ := h.in_edge n hn _ hi
    have := h.rid_lt e he
    omega
  have hone : ∀ l : List Nat, g.next ∉ l → l.Nodup →
      (l ++ [g.next]).Nodup := by
    intro l hno hl
    refine hl.append (List.nodup_singleton _) fun x hx hnew => ?_
    rw [List.mem_singleton] at hnew
    exact hno (hnew ▸ hx)
  constructor
  · rw [connect_nodes, List.map_map]
    exact h.addrs
  · rw [connect_edges, List.map_append]
    refine hone _ ?_ h.rids
    intro hx
    obtain ⟨e, he, hr⟩ := List.mem_map.mp hx
    have := h.rid_lt e he
    omega
  · intro m hm
    obtain ⟨n, hn, rfl⟩ := hmem m hm
    exact Nat.lt_succ_of_lt (h.addr_lt n hn)
  · intro e he
    rw [connect_edges, List.mem_append, List.mem_singleton] at he
    rcases he with he | rfl
    · exact Nat.lt_succ_of_lt (h.rid_lt e he)
    · exact Nat.lt_succ_self _
  · intro m hm
    obtain ⟨n, hn, rfl⟩ := hmem m hm
    simp only [Node.joined]
    split
    · exact hone _ (hfresh_out n hn) (h.outs_nodup n hn)
    · exact h.outs_nodup n hn
  · intro m hm
    obtain ⟨n, hn, rfl⟩ := hmem m hm
    simp only [Node.joined]
    split
    · exact hone _ (hfresh_in n hn) (h.ins_nodup n hn)
    · exact h.ins_nodup n hn
  · intro m hm i hi
    obtain ⟨n, hn, rfl⟩ := hmem m hm
    have hsplit : i ∈ n.outs ∨ (n.addr = a ∧ i = g.next) := by
      simp only [Node.joined] at hi
      split at hi
      · rename_i hna
        rw [List.mem_append, List.mem_singleton] at hi
        exact hi.imp_right fun hi => ⟨hna, hi⟩
      · exact .inl hi
    rcases hsplit with hi | ⟨hna, rfl⟩
    · obtain ⟨e, he, hr, hs⟩ := h.out_edge n hn i hi
      exact ⟨e, List.mem_append_left _ he, hr, hs⟩
    · exact ⟨_, List.mem_append_right _ (List.mem_singleton_self _), rfl,
        hna.symm⟩
  · intro m hm i hi
    obtain ⟨n, hn, rfl⟩ := hmem m hm
    have hsplit : i ∈ n.ins ∨ (n.addr = b ∧ i = g.next) := by
      simp only [Node.joined] at hi
      split at hi
      · rename_i hna
        rw [List.mem_append, List.mem_singleton] at hi
        exact hi.imp_right fun hi => ⟨hna, hi⟩
      · exact .inl hi
    rcases hsplit with hi | ⟨hnb, rfl⟩
    · obtain ⟨e, he, hr, hs⟩ := h.in_edge n hn i hi
      exact ⟨e, List.mem_append_left _ he, hr, hs⟩
    · exact ⟨_, List.mem_append_right _ (List.mem_singleton_self _), rfl,
        hnb.symm⟩
  · intro e he
    rw [connect_edges, List.mem_append, List.mem_singleton] at he
    rcases he with he | rfl
    · obtain ⟨n, hn, hs, hi⟩ := h.src_out e he
      refine ⟨_, hback n hn, hs, ?_⟩
      simp only [Node.joined]
      split
      · exact List.mem_append_left _ hi
      · exact hi
    · obtain ⟨n, hn, hs⟩ := ha
      refine ⟨_, hback n hn, hs, ?_⟩
      simp only [Node.joined, if_pos hs]
      exact List.mem_append_right _ (List.mem_singleton_self _)
  · intro e he
    rw [connect_edges, List.mem_append, List.mem_singleton] at he
    rcases he with he | rfl
    · obtain ⟨n, hn, hs, hi⟩ := h.dst_in e he
      refine ⟨_, hback n hn, hs, ?_⟩
      simp only [Node.joined]
      split
      · exact List.mem_append_left _ hi
      · exact hi
    · obtain ⟨n, hn, hs⟩ := hb
      refine ⟨_, hback n hn, hs, ?_⟩
      simp only [Node.joined, if_pos hs]
      exact List.mem_append_right _ (List.mem_singleton_self _)

/-- Removing a node leaves no pointer to it, and none to its edges. -/
theorem Sound.remove (h : g.Sound) {n : Node β} (hn : n ∈ g.nodes) :
    (g.remove n.addr).Sound := by
  rw [h.remove_eq hn]
  have hkept : ∀ e ∈ g.edges, e.src ≠ n.addr → e.dst ≠ n.addr →
      e.rid ∉ n.ins ∧ e.rid ∉ n.outs := fun e he hs hd =>
    ⟨fun hi => hd ((h.mem_ins hn he).mp hi),
      fun hi => hs ((h.mem_outs hn he).mp hi)⟩
  have hedge : ∀ e ∈ g.edges, e.rid ∉ n.ins → e.rid ∉ n.outs →
      e ∈ g.edges.filter fun e => e.src != n.addr && e.dst != n.addr := by
    intro e he hi ho
    rw [h.mem_ins hn he] at hi
    rw [h.mem_outs hn he] at ho
    refine List.mem_filter.mpr ⟨he, ?_⟩
    simp [hi, ho]
  have hmem : ∀ m ∈ (g.nodes.filter fun m => m.addr != n.addr).map n.without,
      ∃ k ∈ g.nodes, m = n.without k := by
    intro m hm
    obtain ⟨k, hk, rfl⟩ := List.mem_map.mp hm
    exact ⟨k, List.mem_of_mem_filter hk, rfl⟩
  have hends : ∀ e ∈ g.edges.filter
        (fun e => e.src != n.addr && e.dst != n.addr),
      e ∈ g.edges ∧ e.src ≠ n.addr ∧ e.dst ≠ n.addr := by
    intro e he
    obtain ⟨he, hp⟩ := List.mem_filter.mp he
    simp only [Bool.and_eq_true, bne_iff_ne] at hp
    exact ⟨he, hp⟩
  have hlive : ∀ k ∈ g.nodes, k.addr ≠ n.addr →
      n.without k ∈ (g.nodes.filter fun m => m.addr != n.addr).map n.without :=
    fun k hk hne =>
      List.mem_map_of_mem (List.mem_filter.mpr ⟨hk, bne_iff_ne.mpr hne⟩)
  constructor
  · rw [List.map_map]
    exact (List.filter_sublist.map Node.addr).nodup h.addrs
  · exact (List.filter_sublist.map Edge.rid).nodup h.rids
  · intro m hm
    obtain ⟨k, hk, rfl⟩ := hmem m hm
    exact h.addr_lt k hk
  · intro e he
    exact h.rid_lt e (hends e he).1
  · intro m hm
    obtain ⟨k, hk, rfl⟩ := hmem m hm
    exact (h.outs_nodup k hk).filter _
  · intro m hm
    obtain ⟨k, hk, rfl⟩ := hmem m hm
    exact (h.ins_nodup k hk).filter _
  · intro m hm i hi
    obtain ⟨k, hk, rfl⟩ := hmem m hm
    obtain ⟨hi, hp⟩ := List.mem_filter.mp hi
    obtain ⟨e, he, rfl, hs⟩ := h.out_edge k hk i hi
    rw [decide_eq_true_eq] at hp
    exact ⟨e, hedge e he hp.1 hp.2, rfl, hs⟩
  · intro m hm i hi
    obtain ⟨k, hk, rfl⟩ := hmem m hm
    obtain ⟨hi, hp⟩ := List.mem_filter.mp hi
    obtain ⟨e, he, rfl, hs⟩ := h.in_edge k hk i hi
    rw [decide_eq_true_eq] at hp
    exact ⟨e, hedge e he hp.1 hp.2, rfl, hs⟩
  · intro e he
    obtain ⟨he, hs, hd⟩ := hends e he
    obtain ⟨k, hk, ha, hi⟩ := h.src_out e he
    refine ⟨_, hlive k hk (ha ▸ hs), ha, List.mem_filter.mpr ⟨hi, ?_⟩⟩
    exact decide_eq_true (hkept e he hs hd)
  · intro e he
    obtain ⟨he, hs, hd⟩ := hends e he
    obtain ⟨k, hk, ha, hi⟩ := h.dst_in e he
    refine ⟨_, hlive k hk (ha ▸ hd), ha, List.mem_filter.mpr ⟨hi, ?_⟩⟩
    exact decide_eq_true (hkept e he hs hd)

-- ========================================================== the contents

/-- The contents of every node have a property. -/
def Every (P : β → Prop) (g : PtrGraph β γ) : Prop :=
  ∀ n ∈ g.nodes, P n.data

variable {P : β → Prop}

/-- No node is left to fail. -/
theorem Every.clear (g : PtrGraph β γ) : Every P g.clear := by
  intro n hn
  cases hn

/-- A new node that has the property. -/
theorem Every.insert (h : Every P g) {d : β} (hd : P d) :
    Every P (g.insert d) := by
  intro n hn
  obtain hn | hn := List.mem_append.mp hn
  · exact h n hn
  · rw [List.mem_singleton.mp hn]
    exact hd

/-- An update that keeps the property. -/
theorem Every.update (h : Every P g) {f : Node β → Node β}
    (hf : ∀ n, P n.data → P (f n).data) (a : Nat) : Every P (g.update a f) := by
  intro n hn
  obtain ⟨m, hm, rfl⟩ := List.mem_map.mp hn
  by_cases ha : m.addr = a
  · rw [if_pos ha]
    exact hf m (h m hm)
  · rw [if_neg ha]
    exact h m hm

/-- A change of data that keeps the property. -/
theorem Every.modify (h : Every P g) {f : β → β} (hf : ∀ d, P d → P (f d))
    (a : Nat) : Every P (g.modify a f) :=
  h.update (fun n => hf n.data) a

/-- Edges are no data. -/
theorem Every.connect (h : Every P g) (a b : Nat) (d : γ) :
    Every P (g.connect a b d) := by
  have h' : Every P (γ := γ)
      { g with edges := g.edges ++ [⟨g.next, a, b, d⟩], next := g.next + 1 } := h
  have hout := h'.update (f := Node.addOut g.next) (fun _ hn => hn) a
  exact hout.update (f := Node.addIn g.next) (fun _ hn => hn) b

/-- Cutting an incoming edge changes no data. -/
theorem Every.cutIn (h : Every P g) (i : Nat) : Every P (g.cutIn i) := by
  unfold PtrGraph.cutIn
  split
  · exact h
  · exact h.update (f := Node.delOut i) (fun _ hn => hn) _

/-- Nor does cutting an outgoing one. -/
theorem Every.cutOut (h : Every P g) (i : Nat) : Every P (g.cutOut i) := by
  unfold PtrGraph.cutOut
  split
  · exact h
  · exact h.update (f := Node.delIn i) (fun _ hn => hn) _

/-- What is left has the property. -/
theorem Every.remove (h : Every P g) (a : Nat) : Every P (g.remove a) := by
  have hin : ∀ (l : List Nat) (g : PtrGraph β γ), Every P g →
      Every P (l.foldl PtrGraph.cutIn g) := by
    intro l
    induction l with
    | nil => exact fun _ h => h
    | cons i l ih => exact fun _ h => ih _ (h.cutIn i)
  have hout : ∀ (l : List Nat) (g : PtrGraph β γ), Every P g →
      Every P (l.foldl PtrGraph.cutOut g) := by
    intro l
    induction l with
    | nil => exact fun _ h => h
    | cons i l ih => exact fun _ h => ih _ (h.cutOut i)
  intro n hn
  exact hout _ _ (hin _ _ h) n (List.mem_of_mem_filter hn)

end PtrGraph
