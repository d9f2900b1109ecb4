/-
Pointer graphs whose nodes have unique names: the graph by name, with
its addresses gone.

`view` is the table of contents by name, `links` the list of pairs of
names that the edges join. Each operation of the pointer graph is one
change of the table (`view_insert`, `view_modify`, `view_remove`) and one
change of the list (`links_connect`, `links_remove`); proofs about what a
graph holds work with these and never open a list of edge ids.
-/
import BigDataExpress.Lib.PtrGraph
import Mathlib.Logic.Function.Basic

namespace PtrGraph

variable {β γ κ : Type}

/-- The name of the node at an address. -/
def nameAt (name : β → κ) (g : PtrGraph β γ) (a : Nat) : Option κ :=
  (g.node? a).map fun n => name n.data

/-- The pairs of names the edges join, in the order of the edges. -/
def links (name : β → κ) (g : PtrGraph β γ) : List (Option κ × Option κ) :=
  g.edges.map fun e => (nameAt name g e.src, nameAt name g e.dst)

/-- A sound graph whose names are unique. -/
structure Named (name : β → κ) (g : PtrGraph β γ) : Prop where
  sound : g.Sound
  names : (g.nodes.map fun n => name n.data).Nodup

variable {name : β → κ} {g : PtrGraph β γ}

/-- A name is that of one node. -/
theorem Named.unique (h : Named name g) {n m : Node β}
    (hn : n ∈ g.nodes) (hm : m ∈ g.nodes)
    (he : name n.data = name m.data) : n = m :=
  List.inj_on_of_nodup_map h.names hn hm he

/-- At the address of a node stands its name. -/
theorem Named.nameAt_eq (h : Named name g) {n : Node β} (hn : n ∈ g.nodes) :
    nameAt name g n.addr = some (name n.data) := by
  rw [nameAt, h.sound.node?_eq hn]
  rfl

/-- Both ends of an edge have names. -/
theorem Named.edge_names (h : Named name g) {e : Edge γ}
    (he : e ∈ g.edges) : ∃ u ∈ g.nodes, ∃ v ∈ g.nodes,
      u.addr = e.src ∧ v.addr = e.dst ∧
      nameAt name g e.src = some (name u.data) ∧
      nameAt name g e.dst = some (name v.data) := by
  obtain ⟨u, hu, hs, -⟩ := h.sound.src_out e he
  obtain ⟨v, hv, hd, -⟩ := h.sound.dst_in e he
  refine ⟨u, hu, v, hv, hs, hd, ?_, ?_⟩
  · rw [← hs, h.nameAt_eq hu]
  · rw [← hd, h.nameAt_eq hv]

/-- A link joins the names of the ends of an edge. -/
theorem Named.mem_links (h : Named name g) {p : Option κ × Option κ} :
    p ∈ links name g ↔ ∃ e ∈ g.edges, ∃ u ∈ g.nodes, ∃ v ∈ g.nodes,
      u.addr = e.src ∧ v.addr = e.dst ∧
      p = (some (name u.data), some (name v.data)) := by
  constructor
  · intro hp
    obtain ⟨e, he, rfl⟩ := List.mem_map.mp hp
    obtain ⟨u, hu, v, hv, hs, hd, hsn, hdn⟩ := h.edge_names he
    exact ⟨e, he, u, hu, v, hv, hs, hd, by rw [hsn, hdn]⟩
  · rintro ⟨e, he, u, hu, v, hv, hs, hd, rfl⟩
    refine List.mem_map.mpr ⟨e, he, ?_⟩
    rw [← hs, ← hd, h.nameAt_eq hu, h.nameAt_eq hv]

-- ============================================================== insertion

/-- A node with a new name may come in. -/
theorem Named.insert (h : Named name g) {d : β}
    (hd : ∀ n ∈ g.nodes, name n.data ≠ name d) : Named name (g.insert d) where
  sound := h.sound.insert d
  names := by
    simp only [PtrGraph.insert, List.map_append, List.map_cons, List.map_nil]
    refine h.names.append (List.nodup_singleton _) ?_
    intro x hx hnew
    obtain ⟨n, hn, rfl⟩ := List.mem_map.mp hx
    exact hd n hn (List.mem_singleton.mp hnew)

/-- It comes without links. -/
theorem Named.links_insert (h : Named name g) (d : β) :
    links name (g.insert d) = links name g := by
  have hold : ∀ n ∈ g.nodes, nameAt name (g.insert d) n.addr
      = nameAt name g n.addr := by
    intro n hn
    have hf := h.sound.node?_eq hn
    simp only [node?] at hf
    simp only [nameAt, node?, PtrGraph.insert, List.find?_append, hf]
    rfl
  refine List.map_congr_left fun e he => ?_
  obtain ⟨u, hu, v, hv, hs, hd, -, -⟩ := h.edge_names he
  rw [← hs, ← hd, hold u hu, hold v hv]

-- =========================================================== modification

variable {f : β → β}

/-- A change of data that keeps names keeps all names. -/
theorem nodes_modify_names (hf : ∀ d, name (f d) = name d) (a : Nat) :
    (g.modify a f).nodes.map (fun n => name n.data)
      = g.nodes.map fun n => name n.data := by
  simp only [modify, update, List.map_map]
  refine List.map_congr_left fun n _ => ?_
  simp only [Function.comp_apply]
  split
  · exact hf n.data
  · rfl

/-- So names stay unique. -/
theorem Named.modify (h : Named name g) (hf : ∀ d, name (f d) = name d)
    (a : Nat) : Named name (g.modify a f) where
  sound := h.sound.modify a f
  names := by
    rw [nodes_modify_names hf]
    exact h.names

/-- And stand where they stood. -/
theorem nameAt_modify (hf : ∀ d, name (f d) = name d) (a b : Nat) :
    nameAt name (g.modify a f) b = nameAt name g b := by
  simp only [nameAt, node?, PtrGraph.modify, update, List.find?_map,
    Option.map_map]
  have hp : ((fun n : Node β => n.addr == b) ∘ fun n =>
      if n.addr = a then { n with data := f n.data } else n)
      = fun n => n.addr == b := by
    funext n
    simp only [Function.comp_apply]
    split <;> rfl
  rw [hp]
  cases g.nodes.find? fun n => n.addr == b with
  | none => rfl
  | some n =>
      simp only [Option.map_some, Function.comp_apply]
      split
      · rw [hf]
      · rfl

/-- And are linked as they were. -/
theorem links_modify (hf : ∀ d, name (f d) = name d) (a : Nat) :
    links name (g.modify a f) = links name g := by
  refine List.map_congr_left fun e _ => ?_
  rw [nameAt_modify hf, nameAt_modify hf]

-- ============================================================= connection

/-- Connecting changes no name. -/
theorem Named.connect (h : Named name g) {n m : Node β} (hn : n ∈ g.nodes)
    (hm : m ∈ g.nodes) (d : γ) : Named name (g.connect n.addr m.addr d) where
  sound := h.sound.connect d ⟨n, hn, rfl⟩ ⟨m, hm, rfl⟩
  names := by
    rw [connect_nodes, List.map_map]
    exact h.names

/-- So names stand where they stood. -/
theorem nameAt_connect (a b c : Nat) (d : γ) :
    nameAt name (g.connect a b d) c = nameAt name g c := by
  simp only [nameAt, node?, connect_nodes, List.find?_map, Option.map_map]
  rfl

/-- It links the names of the two nodes. -/
theorem Named.links_connect (h : Named name g) {n m : Node β}
    (hn : n ∈ g.nodes) (hm : m ∈ g.nodes) (d : γ) :
    links name (g.connect n.addr m.addr d)
      = links name g ++ [(some (name n.data), some (name m.data))] := by
  simp only [links, connect_edges, List.map_append, List.map_cons,
    List.map_nil, nameAt_connect, h.nameAt_eq hn, h.nameAt_eq hm]

-- ================================================================ removal

/-- Removing a node leaves names unique. -/
theorem Named.remove (h : Named name g) {n : Node β} (hn : n ∈ g.nodes) :
    Named name (g.remove n.addr) where
  sound := h.sound.remove hn
  names := by
    rw [h.sound.remove_eq hn, List.map_map]
    exact (List.filter_sublist.map fun m : Node β => name m.data).nodup h.names

/-- The others stand where they stood. -/
theorem Named.nameAt_remove (h : Named name g) {n m : Node β}
    (hn : n ∈ g.nodes) (hm : m ∈ g.nodes) (hne : m.addr ≠ n.addr) :
    nameAt name (g.remove n.addr) m.addr = nameAt name g m.addr := by
  have hin : n.without m ∈ (g.remove n.addr).nodes := by
    rw [h.sound.remove_eq hn]
    exact List.mem_map_of_mem
      (List.mem_filter.mpr ⟨hm, bne_iff_ne.mpr hne⟩)
  rw [h.nameAt_eq hm, ← Node.without_data n m, ← Node.without_addr n m]
  exact (h.remove hn).nameAt_eq hin

-- ================================================================ by name

variable [DecidableEq κ]

/-- The node with a name. -/
def find (name : β → κ) (g : PtrGraph β γ) (x : κ) : Option (Node β) :=
  g.nodes.find? fun n => name n.data == x

/-- The contents by name. -/
def view (name : β → κ) (g : PtrGraph β γ) (x : κ) : Option β :=
  (find name g x).map Node.data

/-- The address by name. -/
def addrOf (name : β → κ) (g : PtrGraph β γ) (x : κ) : Option Nat :=
  (find name g x).map Node.addr

/-- What is found under a name has it. -/
theorem find_some {x : κ} {n : Node β} (h : find name g x = some n) :
    n ∈ g.nodes ∧ name n.data = x := by
  refine ⟨List.mem_of_find?_eq_some h, ?_⟩
  simpa using List.find?_some h

/-- Where nothing is found, no node has the name. -/
theorem find_none {x : κ} (h : find name g x = none) :
    ∀ n ∈ g.nodes, name n.data ≠ x := by
  intro n hn
  simpa using List.find?_eq_none.mp h n hn

/-- Every node is found under its name. -/
theorem Named.find_eq (h : Named name g) {n : Node β} (hn : n ∈ g.nodes) :
    find name g (name n.data) = some n :=
  Collection.find?_key (fun m : Node β => name m.data) h.names hn

/-- A new node is found under its name, and the others as before. -/
theorem find_insert {d : β} (hd : find name g (name d) = none) (x : κ) :
    find name (g.insert d) x
      = if x = name d then some { addr := g.next, data := d }
        else find name g x := by
  simp only [find, PtrGraph.insert, List.find?_append]
  by_cases hx : x = name d
  · subst hx
    rw [if_pos rfl]
    simp only [find] at hd
    rw [hd]
    simp
  · have hne : ¬ name d = x := fun he => hx he.symm
    rw [if_neg hx]
    simp [hne]

/-- It is seen with its data. -/
theorem view_insert {d : β} (hd : find name g (name d) = none) :
    view name (g.insert d) = Function.update (view name g) (name d) (some d) := by
  funext x
  simp only [view, find_insert hd, Function.update_apply]
  split <;> rfl

/-- It has the next address. -/
theorem addrOf_insert {d : β} (hd : find name g (name d) = none) :
    addrOf name (g.insert d)
      = Function.update (addrOf name g) (name d) (some g.next) := by
  funext x
  simp only [addrOf, find_insert hd, Function.update_apply]
  split <;> rfl

/-- A node is found with its modified data. -/
theorem find_modify (hf : ∀ d, name (f d) = name d) (a : Nat) (x : κ) :
    find name (g.modify a f) x = (find name g x).map fun n =>
      if n.addr = a then { n with data := f n.data } else n := by
  simp only [find, PtrGraph.modify, update, List.find?_map]
  congr 2
  funext n
  simp only [Function.comp_apply]
  split
  · rw [hf]
  · rfl

/-- And seen with them. -/
theorem Named.view_modify (h : Named name g) (hf : ∀ d, name (f d) = name d)
    {n : Node β} (hn : n ∈ g.nodes) :
    view name (g.modify n.addr f)
      = Function.update (view name g) (name n.data) (some (f n.data)) := by
  funext x
  rw [view, find_modify hf, Function.update_apply]
  split
  · rename_i hx
    rw [hx, h.find_eq hn]
    simp
  · rename_i hx
    rw [view, Option.map_map]
    cases hm : find name g x with
    | none => rfl
    | some m =>
        obtain ⟨hmem, hname⟩ := find_some hm
        have hne : m.addr ≠ n.addr := fun ha => by
          rw [h.sound.node_unique hmem hn ha] at hname
          exact hx hname.symm
        simp [hne]

/-- Its address stays. -/
theorem addrOf_modify (hf : ∀ d, name (f d) = name d) (a : Nat) :
    addrOf name (g.modify a f) = addrOf name g := by
  funext x
  simp only [addrOf, find_modify hf, Option.map_map]
  congr 1
  funext n
  simp only [Function.comp_apply]
  split <;> rfl

/-- A node is found with its new edge. -/
theorem find_connect (a b : Nat) (d : γ) (x : κ) :
    find name (g.connect a b d) x
      = (find name g x).map (Node.joined g.next a b) := by
  simp only [find, connect_nodes, List.find?_map]
  rfl

/-- An edge is not seen in the data. -/
theorem view_connect (a b : Nat) (d : γ) :
    view name (g.connect a b d) = view name g := by
  funext x
  rw [view, find_connect, Option.map_map]
  rfl

/-- Nor does it move a node. -/
theorem addrOf_connect (a b : Nat) (d : γ) :
    addrOf name (g.connect a b d) = addrOf name g := by
  funext x
  rw [addrOf, find_connect, Option.map_map]
  rfl

/-- A removed node is not found, and the others without its edges. -/
theorem Named.find_remove (h : Named name g) {n : Node β}
    (hn : n ∈ g.nodes) (x : κ) :
    find name (g.remove n.addr) x
      = if x = name n.data then none else (find name g x).map n.without := by
  simp only [find, h.sound.remove_eq hn, List.find?_map, List.find?_filter]
  split
  · rename_i hx
    subst hx
    rw [Option.map_eq_none_iff, List.find?_eq_none]
    intro m hm
    simp only [Function.comp_apply, Node.without_data, decide_eq_true_eq,
      beq_iff_eq, bne_iff_ne]
    rintro ⟨hne, hname⟩
    exact hne (by rw [h.unique hm hn hname])
  · rename_i hx
    congr 1
    refine Collection.find?_congr fun m hm => ?_
    simp only [Function.comp_apply, Node.without_data]
    by_cases hname : name m.data = x
    · have hne : m.addr ≠ n.addr := fun ha => by
        rw [h.sound.node_unique hm hn ha] at hname
        exact hx hname.symm
      simp [hname, hne]
    · simp [hname]

/-- Nor is it seen. -/
theorem Named.view_remove (h : Named name g) {n : Node β}
    (hn : n ∈ g.nodes) :
    view name (g.remove n.addr)
      = Function.update (view name g) (name n.data) none := by
  funext x
  rw [view, h.find_remove hn, Function.update_apply]
  split
  · rfl
  · rw [view, Option.map_map]
    rfl

/-- Nor has it an address. -/
theorem Named.addrOf_remove (h : Named name g) {n : Node β}
    (hn : n ∈ g.nodes) :
    addrOf name (g.remove n.addr)
      = Function.update (addrOf name g) (name n.data) none := by
  funext x
  rw [addrOf, h.find_remove hn, Function.update_apply]
  split
  · rfl
  · rw [addrOf, Option.map_map]
    rfl

/-- The links not at a name. -/
def linksWithout (name : β → κ) (g : PtrGraph β γ) (x : κ) :
    List (Option κ × Option κ) :=
  (links name g).filter fun p => p.1 != some x && p.2 != some x

/-- The links that are left touch the name on neither side. -/
theorem mem_linksWithout {x : κ} {p : Option κ × Option κ} :
    p ∈ linksWithout name g x
      ↔ p ∈ links name g ∧ p.1 ≠ some x ∧ p.2 ≠ some x := by
  simp only [linksWithout, List.mem_filter, Bool.and_eq_true, bne_iff_ne]

/-- No link is at a name that is not there. -/
theorem Named.linksWithout_absent (h : Named name g) {x : κ}
    (hx : find name g x = none) : linksWithout name g x = links name g := by
  refine List.filter_eq_self.mpr fun p hp => ?_
  obtain ⟨e, -, u, hu, v, hv, -, -, rfl⟩ := h.mem_links.mp hp
  have hu' := find_none hx u hu
  have hv' := find_none hx v hv
  simp [hu', hv']

/-- The links left are those not at the name that went. -/
theorem Named.links_remove (h : Named name g) {n : Node β}
    (hn : n ∈ g.nodes) :
    links name (g.remove n.addr) = linksWithout name g (name n.data) := by
  have hends : ∀ u ∈ g.nodes, (u.addr = n.addr ↔ name u.data = name n.data) :=
    fun u hu => ⟨fun ha => by rw [h.sound.node_unique hu hn ha],
      fun hname => by rw [h.unique hu hn hname]⟩
  have hedges : (g.remove n.addr).edges = g.edges.filter fun e =>
      e.src != n.addr && e.dst != n.addr := by
    rw [h.sound.remove_eq hn]
  simp only [linksWithout, links, List.filter_map, hedges]
  have hsame : g.edges.filter (fun e => e.src != n.addr && e.dst != n.addr)
      = g.edges.filter ((fun p : Option κ × Option κ =>
          p.1 != some (name n.data) && p.2 != some (name n.data)) ∘
        fun e => (nameAt name g e.src, nameAt name g e.dst)) := by
    refine List.filter_congr fun e he => ?_
    obtain ⟨u, hu, v, hv, hs, hd, hsn, hdn⟩ := h.edge_names he
    rw [Function.comp_apply, hsn, hdn, ← hs, ← hd, Bool.eq_iff_iff]
    simp only [Bool.and_eq_true, bne_iff_ne, ne_eq, Option.some.injEq,
      hends u hu, hends v hv]
  rw [← hsame]
  refine List.map_congr_left fun e he => ?_
  obtain ⟨he, hp⟩ := List.mem_filter.mp he
  simp only [Bool.and_eq_true, bne_iff_ne] at hp
  obtain ⟨u, hu, v, hv, hs, hd, -, -⟩ := h.edge_names he
  rw [← hs, ← hd] at hp ⊢
  rw [h.nameAt_remove hn hu hp.1, h.nameAt_remove hn hv hp.2]

end PtrGraph
