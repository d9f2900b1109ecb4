/-
The order in which agents register.

# The outline

`Outline` is the resource graph without addresses and without the
pointers of the storages: what is kept under a name, and which names are
linked. A registration is a list of operations on it, and the graph
follows them (`outline_online`).

# Territories

An operation of an agent reads and writes names of the agent only, and
the gateway, which nobody writes: it is local (`exec_local`) and leaves
the rest alone (`exec_frame`). Agents with territories apart therefore
commute, and so does every permutation of them (`registerAll_perm`).

Two agents that both carry a launcher share its slot, which is the last
one's by design; a DTN that names a storage of another agent is linked to
it only when the storage is there first. `Independent` leaves both out.
-/
import BigDataExpress.Proofs.Shape

namespace BigDataExpress

open Stateful ResourceManager RGraph

-- ============================================================ the outline

/-- What is under each name, and which names are linked. -/
@[ext] structure Outline where
  node : NodeName → Option RNode
  link : NodeName → NodeName → Prop

/-- A node without its pointer. -/
def RNode.plain (d : RNode) : RNode := { d with pDtn := none }

/-- The outline of a graph. -/
def RGraph.outline (g : RGraph) : Outline where
  node x := (view g x).map RNode.plain
  link x y := (some x, some y) ∈ links g

namespace Outline

/-- A step of a registration. -/
inductive Op
  | put (queue : String) (m : Module)
  | map (sid did : String)

/-- The name an id stands for as the end of an edge. -/
def lookup (s : Outline) (id : String) : Option NodeName :=
  if (s.node (.storage, id)).isSome then some (.storage, id)
  else if (s.node (.dtn, id)).isSome then some (.dtn, id)
  else none

/-- The name that a link to an id would go to. -/
def endName (s : Outline) (id : String) : NodeName :=
  if (s.node (.storage, id)).isSome then (.storage, id) else (.dtn, id)

/-- Some link joins nodes with these rids. -/
def HasEdge (s : Outline) (sid did : String) : Prop :=
  ∃ x y d e, s.link x y ∧ s.node x = some d ∧ d.rid = sid ∧
    s.node y = some e ∧ e.rid = did

/-- What an operation does to an outline. -/
def exec (s : Outline) : Op → Outline
  | .put queue m =>
      match slotName m with
      | none => s
      | some x =>
          { node := Function.update s.node x
              (some (registered queue m (s.node x)).plain)
            link := fun u v =>
              (s.link u v ∧ (x.1 = .general → u ≠ x ∧ v ≠ x)) ∨
                (m.type = .dtn ∧ u = s.endName m.id ∧ v = gatewayName) }
  | .map sid did =>
      { s with link := fun u v => s.link u v ∨
          (¬ s.HasEdge sid did ∧ s.lookup sid = some u ∧
            s.lookup did = some v) }

/-- A module without a name is not kept. -/
theorem exec_put_none (s : Outline) {queue : String} {m : Module}
    (h : slotName m = none) : s.exec (.put queue m) = s := by
  simp only [exec, h]

/-- A module is kept under its name. -/
theorem exec_put_some (s : Outline) {queue : String} {m : Module}
    {x : NodeName} (h : slotName m = some x) :
    s.exec (.put queue m) =
      { node := Function.update s.node x
          (some (registered queue m (s.node x)).plain)
        link := fun u v =>
          (s.link u v ∧ (x.1 = .general → u ≠ x ∧ v ≠ x)) ∨
            (m.type = .dtn ∧ u = s.endName m.id ∧ v = gatewayName) } := by
  simp only [exec, h]

end Outline

-- ============================================================ refinement

variable {g g' : RGraph} {E : RGraph → Prop}

/-- The outline has the nodes of the graph. -/
theorem outline_isSome (g : RGraph) (x : NodeName) :
    ((outline g).node x).isSome = (find g x).isSome := by
  simp only [outline, view, PtrGraph.view, Option.isSome_map]
  rfl

/-- What is registered does not depend on the links there were. -/
theorem registered_plain (queue : String) (m : Module)
    (old : Option RNode) :
    (registered queue m (old.map RNode.plain)).plain
      = (registered queue m old).plain := by
  unfold registered
  cases m.type <;> cases old <;> rfl

/-- Ends of links are the same in graph and outline. -/
theorem outline_endName (g : RGraph) (id : String) :
    (outline g).endName id = RGraph.endName g id := by
  rw [Outline.endName, RGraph.endName, hasStorageNode, outline_isSome]

/-- Ids are looked up alike. -/
theorem outline_lookup (h : Proper g) {id : String} (hid : ¬ ReservedKey id) :
    (outline g).lookup id
      = (RGraph.lookup g id).map fun n => n.data.nodeName := by
  rw [Outline.lookup, outline_isSome, outline_isSome, h.lookup_free hid]
  cases hs : find g (.storage, id) with
  | some n =>
      simp only [Option.isSome_some, if_true, Option.some_or, Option.map_some,
        (PtrGraph.find_some hs).2]
  | none =>
      cases hd : find g (.dtn, id) with
      | some n =>
          simp [(PtrGraph.find_some hd).2]
      | none => simp

/-- Links are the same. -/
theorem outline_hasEdge (h : Named g) (sid did : String) :
    (outline g).HasEdge sid did ↔ hasEdge g sid did = true := by
  constructor
  · rintro ⟨x, y, d, e, hl, hx, hrx, hy, hry⟩
    obtain ⟨f, hf, u, hu, v, hv, hs, hd, hp⟩ := h.mem_links.mp hl
    simp only [Prod.mk.injEq, Option.some.injEq] at hp
    simp only [outline, hp.1, h.view_mem hu, Option.map_some,
      Option.some.injEq] at hx
    simp only [outline, hp.2, h.view_mem hv, Option.map_some,
      Option.some.injEq] at hy
    subst hx
    subst hy
    refine List.any_eq_true.mpr ⟨f, hf, ?_⟩
    simp only [ridAt, ← hs, ← hd, h.sound.node?_eq hu, h.sound.node?_eq hv,
      Option.map_some, Bool.and_eq_true, beq_iff_eq, Option.some.injEq]
    exact ⟨hrx, hry⟩
  · intro he
    obtain ⟨f, hf, hr⟩ := List.any_eq_true.mp he
    obtain ⟨u, hu, v, hv, hs, hd, -, -⟩ := h.edge_names hf
    simp only [ridAt, ← hs, ← hd, h.sound.node?_eq hu, h.sound.node?_eq hv,
      Option.map_some, Bool.and_eq_true, beq_iff_eq, Option.some.injEq] at hr
    refine ⟨u.data.nodeName, v.data.nodeName, u.data.plain, v.data.plain,
      h.mem_links.mpr ⟨f, hf, u, hu, v, hv, hs, hd, rfl⟩, ?_, hr.1, ?_, hr.2⟩
    · simp only [outline, h.view_mem hu, Option.map_some]
    · simp only [outline, h.view_mem hv, Option.map_some]

/-- Adding a module to the graph adds it to the outline. -/
theorem outline_added {queue : String} {m : Module}
    (ha : Added g g' queue m) :
    outline g' = (outline g).exec (.put queue m) := by
  have hnode : ∀ x, slotName m = some x →
      (outline g').node = Function.update (outline g).node x
        (some (registered queue m ((outline g).node x)).plain) := by
    intro x hx
    funext y
    simp only [outline, ha.view, viewAdded, hx, registered_plain,
      Function.update_apply]
    split <;> rfl
  have hlinks := ha.links
  unfold linksAdded at hlinks
  cases hty : m.type with
  | dtn =>
      have hs : slotName m = some (.dtn, m.id) := by rw [slotName, hty]
      rw [hty] at hlinks
      rw [Outline.exec_put_some _ hs]
      refine Outline.ext (hnode _ hs) ?_
      funext u v
      simp only [outline_endName, hty, true_and]
      simp [outline, hlinks]
  | localStorage =>
      have hs : slotName m = some (.storage, m.id) := by rw [slotName, hty]
      rw [hty] at hlinks
      rw [Outline.exec_put_some _ hs]
      refine Outline.ext (hnode _ hs) ?_
      funext u v
      simp [outline, hlinks, hty]
  | launcher =>
      have hs : slotName m = some (.general, launcherId) := by
        rw [slotName, hty]
      rw [hty] at hlinks
      rw [Outline.exec_put_some _ hs]
      refine Outline.ext (hnode _ hs) ?_
      funext u v
      simp [outline, hlinks, hty, PtrGraph.mem_linksWithout]
  | sdn =>
      have hs : slotName m = some (.general, sdnId) := by rw [slotName, hty]
      rw [hty] at hlinks
      rw [Outline.exec_put_some _ hs]
      refine Outline.ext (hnode _ hs) ?_
      funext u v
      simp [outline, hlinks, hty, PtrGraph.mem_linksWithout]
  | other t =>
      have hs : slotName m = none := by rw [slotName, hty]
      rw [hty] at hlinks
      rw [Outline.exec_put_none _ hs]
      simp only [outline, hlinks, ha.view, viewAdded, hs]

/-- Mapping a storage in the graph maps it in the outline. -/
theorem outline_mapped (h : Proper g) {sid did : String}
    (hs : ¬ ReservedKey sid) (hd : ¬ ReservedKey did)
    (hm : Mapped g g' sid did) :
    outline g' = (outline g).exec (.map sid did) := by
  refine Outline.ext ?_ ?_
  · funext x
    simp only [Outline.exec, outline, hm.view]
    rcases viewMapped_cases (g := g) sid did x with hc | ⟨d, a, -, hv, -, hc⟩
    · rw [hc]
    · rw [hc, hv]
      rfl
  · funext u v
    simp only [Outline.exec, outline_hasEdge h.named, outline_lookup h hs,
      outline_lookup h hd]
    simp only [outline, hm.links, List.mem_append, eq_iff_iff]
    refine or_congr_right ?_
    unfold linksMapped
    by_cases he : hasEdge g sid did = true
    · simp [he]
    · cases hls : RGraph.lookup g sid with
      | none => simp [he]
      | some s =>
          cases hld : RGraph.lookup g did with
          | none => simp [he]
          | some d =>
              simp only [he, if_false, Bool.false_eq_true, not_false_iff,
                true_and, Option.map_some, Option.some.injEq,
                List.mem_singleton, Prod.mk.injEq]
              exact ⟨fun hp => ⟨hp.1.symm, hp.2.symm⟩,
                fun hp => ⟨hp.1.symm, hp.2.symm⟩⟩

-- ============================================================ territories

namespace Agent

/-- The id of a storage or a DTN of the agent. -/
def NodeId (a : Instance) (id : String) : Prop :=
  ∃ m ∈ a.modules, (m.type = .dtn ∨ m.type = .localStorage) ∧ m.id = id

/-- A storage that a DTN of the agent names. -/
def Names (a : Instance) (sid : String) : Prop :=
  ∃ m ∈ a.modules, m.type = .dtn ∧ ∃ s ∈ m.storages, s.id = sid

/-- The names an agent works on. -/
def Owns (a : Instance) (x : NodeName) : Prop :=
  (x.1 ≠ .general ∧ NodeId a x.2) ∨ ∃ m ∈ a.modules, slotName m = some x

/-- The steps of its registration. -/
def ops (a : Instance) : List Outline.Op :=
  a.modules.map (.put a.queue) ++ a.modules.flatMap fun m =>
    match m.type with
    | .dtn => m.storages.map fun s => .map s.id m.id
    | _ => []

/-- The operations of an agent put its modules and map its storages. -/
theorem mem_ops {a : Instance} {o : Outline.Op} (h : o ∈ ops a) :
    (∃ m ∈ a.modules, o = .put a.queue m) ∨
      ∃ sid did, o = .map sid did ∧ Names a sid ∧ NodeId a did := by
  rcases List.mem_append.mp h with h | h
  · obtain ⟨m, hm, rfl⟩ := List.mem_map.mp h
    exact .inl ⟨m, hm, rfl⟩
  · obtain ⟨m, hm, h⟩ := List.mem_flatMap.mp h
    split at h
    · rename_i hty
      obtain ⟨s, hs, rfl⟩ := List.mem_map.mp h
      exact .inr ⟨s.id, m.id, rfl, ⟨m, hm, hty, s, hs, rfl⟩,
        ⟨m, hm, .inl hty, rfl⟩⟩
    · cases h

/-- The general names are those of the launcher and the SDN agent. -/
theorem slotName_general {m : Module} {key : String}
    (h : slotName m = some (.general, key)) :
    (m.type = .launcher ∧ key = launcherId) ∨
      (m.type = .sdn ∧ key = sdnId) := by
  unfold slotName at h
  split at h <;> simp_all

/-- No module is kept as the gateway. -/
theorem slotName_ne_gateway (m : Module) : slotName m ≠ some gatewayName := by
  intro h
  rcases slotName_general h with ⟨-, he⟩ | ⟨-, he⟩
  · exact absurd he (by decide)
  · exact absurd he (by decide)

/-- No agent owns it. -/
theorem not_owns_gateway (a : Instance) : ¬ Owns a gatewayName := by
  rintro (⟨hk, -⟩ | ⟨m, -, hs⟩)
  · exact hk rfl
  · exact slotName_ne_gateway m hs

/-- An agent owns the nodes with its ids. -/
theorem owns_of_nodeId {a : Instance} {k : NodeKind} {id : String}
    (hk : k ≠ .general) (h : NodeId a id) : Owns a (k, id) :=
  .inl ⟨hk, h⟩

/-- The id of a node that a module is kept under. -/
theorem nodeId_of_slot {a : Instance} {m : Module} {x : NodeName}
    (hm : m ∈ a.modules) (hs : slotName m = some x) (hk : x.1 ≠ .general) :
    NodeId a x.2 := by
  obtain ⟨k, id⟩ := x
  cases k with
  | dtn =>
      obtain ⟨hty, hid⟩ := slotName_dtn hs
      exact ⟨m, hm, .inl hty, hid⟩
  | storage =>
      obtain ⟨hty, hid⟩ := slotName_storage hs
      exact ⟨m, hm, .inr hty, hid⟩
  | general => exact absurd rfl hk

/-- A node that an agent owns has an id of it. -/
theorem nodeId_of_owns {a : Instance} {x : NodeName} (h : Owns a x)
    (hk : x.1 ≠ .general) : NodeId a x.2 := by
  rcases h with ⟨-, h⟩ | ⟨m, hm, hs⟩
  · exact h
  · exact nodeId_of_slot hm hs hk

/-- Agents whose registrations do not meet: module ids are apart and none
is a key of a general node, at most one agent has a launcher and at most
one an SDN agent, and no DTN names a storage or DTN of another agent. -/
structure Independent (agents : List Instance) : Prop where
  apart : ∀ a ∈ agents, ∀ b ∈ agents, a ≠ b →
    ∀ m ∈ a.modules, ∀ n ∈ b.modules, m.id ≠ n.id
  free : ∀ a ∈ agents, ∀ m ∈ a.modules, ¬ ReservedKey m.id
  named_free : ∀ a ∈ agents, ∀ sid, Names a sid → ¬ ReservedKey sid
  launcher : ∀ a ∈ agents, ∀ b ∈ agents, a ≠ b →
    ∀ m ∈ a.modules, ∀ n ∈ b.modules, m.type = .launcher →
      n.type ≠ .launcher
  sdn : ∀ a ∈ agents, ∀ b ∈ agents, a ≠ b →
    ∀ m ∈ a.modules, ∀ n ∈ b.modules, m.type = .sdn → n.type ≠ .sdn
  named : ∀ a ∈ agents, ∀ b ∈ agents, a ≠ b →
    ∀ sid, Names a sid → ¬ NodeId b sid

variable {agents : List Instance} {a b : Instance}

/-- Of independent agents only one has an id. -/
theorem Independent.nodeId_eq (h : Independent agents) (ha : a ∈ agents)
    (hb : b ∈ agents) {id : String} (hia : NodeId a id)
    (hib : NodeId b id) : a = b := by
  by_contra hne
  obtain ⟨m, hm, -, hmid⟩ := hia
  obtain ⟨n, hn, -, hnid⟩ := hib
  exact h.apart a ha b hb hne m hm n hn (hmid.trans hnid.symm)

/-- Territories of different agents do not meet. -/
theorem Independent.owns_eq (h : Independent agents) (ha : a ∈ agents)
    (hb : b ∈ agents) {x : NodeName} (hxa : Owns a x) (hxb : Owns b x) :
    a = b := by
  obtain ⟨k, key⟩ := x
  by_cases hk : k = .general
  · subst hk
    rcases hxa with ⟨hk, -⟩ | ⟨m, hm, hsm⟩
    · exact absurd rfl hk
    rcases hxb with ⟨hk, -⟩ | ⟨n, hn, hsn⟩
    · exact absurd rfl hk
    by_contra hne
    have hkeys : launcherId ≠ sdnId := by decide
    rcases slotName_general hsm with ⟨hmt, hmk⟩ | ⟨hmt, hmk⟩ <;>
      rcases slotName_general hsn with ⟨hnt, hnk⟩ | ⟨hnt, hnk⟩
    · exact h.launcher a ha b hb hne m hm n hn hmt hnt
    · exact hkeys (hmk.symm.trans hnk)
    · exact hkeys (hnk.symm.trans hmk)
    · exact h.sdn a ha b hb hne m hm n hn hmt hnt
  · exact h.nodeId_eq ha hb (nodeId_of_owns hxa hk) (nodeId_of_owns hxb hk)

-- ============================================== operations stay at home

/-- What every outline on the way has: storages and DTNs have their id
for a rid, links leave a territory only for the gateway, and a storage
that is named and belongs to nobody is not there. -/
structure Tame (agents : List Instance) (s : Outline) : Prop where
  rid : ∀ x d, s.node x = some d → x.1 ≠ .general → d.rid = x.2
  starts : ∀ x y, s.link x y →
    x.1 ≠ .general ∧ (y.1 = .general → y = gatewayName)
  closed : ∀ a ∈ agents, ∀ x y, s.link x y → Owns a x →
    Owns a y ∨ y = gatewayName
  absent : ∀ a ∈ agents, ∀ sid, Names a sid → ¬ NodeId a sid →
    ∀ k, k ≠ .general → s.node (k, sid) = none

variable {s t : Outline}

/-- What is looked up has the id, is not general, and is there. -/
theorem lookup_some {id : String} {x : NodeName}
    (h : s.lookup id = some x) :
    x.2 = id ∧ x.1 ≠ .general ∧ (s.node x).isSome = true := by
  unfold Outline.lookup at h
  split at h
  · rename_i hs
    cases h
    exact ⟨rfl, by simp, hs⟩
  · split at h
    · rename_i hd
      cases h
      exact ⟨rfl, by simp, hd⟩
    · cases h

/-- The end of a link has the id it was asked by, and is not general. -/
theorem endName_kind (s : Outline) (id : String) :
    (s.endName id).2 = id ∧ (s.endName id).1 ≠ .general := by
  unfold Outline.endName
  split <;> exact ⟨rfl, by simp⟩

/-- A named storage that is found belongs to the agent itself. -/
theorem Tame.named_found (h : Tame agents s) (ha : a ∈ agents)
    {sid : String} (hn : Names a sid) {x : NodeName}
    (hx : s.lookup sid = some x) : NodeId a sid := by
  by_contra hno
  obtain ⟨rfl, hk, hsome⟩ := lookup_some hx
  rw [h.absent a ha _ hn hno x.1 hk] at hsome
  cases hsome

/-- Outside its territory an agent changes nothing. -/
theorem exec_frame (h : Tame agents s) (ha : a ∈ agents) {o : Outline.Op}
    (ho : o ∈ ops a) {x : NodeName} (hx : ¬ Owns a x) :
    (s.exec o).node x = s.node x ∧
      ∀ y, (s.exec o).link x y ↔ s.link x y := by
  rcases mem_ops ho with ⟨m, hm, rfl⟩ | ⟨sid, did, rfl, hsid, hdid⟩
  · cases hs : slotName m with
    | none =>
        rw [s.exec_put_none hs]
        exact ⟨rfl, fun _ => Iff.rfl⟩
    | some z =>
        rw [s.exec_put_some hs]
        have hxz : x ≠ z := fun he => hx (.inr ⟨m, hm, he ▸ hs⟩)
        refine ⟨Function.update_of_ne hxz .., fun y => ⟨?_, ?_⟩⟩
        · rintro (⟨hl, -⟩ | ⟨hty, hend, -⟩)
          · exact hl
          · -- a link to the gateway starts at home
            have hid : NodeId a m.id := ⟨m, hm, .inl hty, rfl⟩
            obtain ⟨he, hk⟩ := endName_kind s m.id
            refine absurd (.inl ⟨?_, ?_⟩) hx
            · rw [hend]
              exact hk
            · rw [hend, he]
              exact hid
        · intro hl
          refine .inl ⟨hl, fun hz => ⟨hxz, fun hy => ?_⟩⟩
          have hgw := (h.starts x y hl).2 (hy ▸ hz)
          rw [← hy, hgw] at hs
          exact slotName_ne_gateway m hs
  · refine ⟨rfl, fun y => ⟨?_, .inl⟩⟩
    rintro (hl | ⟨-, hlx, -⟩)
    · exact hl
    · obtain ⟨he, hk, -⟩ := lookup_some hlx
      exact absurd (.inl ⟨hk, he ▸ h.named_found ha hsid hlx⟩) hx

/-- An operation of one of the agents keeps the outline tame. -/
theorem exec_tame (hi : Independent agents) (h : Tame agents s)
    (ha : a ∈ agents) {o : Outline.Op} (ho : o ∈ ops a) :
    Tame agents (s.exec o) := by
  rcases mem_ops ho with ⟨m, hm, rfl⟩ | ⟨sid, did, rfl, hsid, hdid⟩
  · cases hs : slotName m with
    | none =>
        rw [s.exec_put_none hs]
        exact h
    | some z =>
        rw [s.exec_put_some hs]
        refine ⟨?_, ?_, ?_, ?_⟩
        · intro x d hx hk
          simp only [Function.update_apply] at hx
          split at hx
          · rename_i hxz
            cases hx
            subst hxz
            have hold := h.rid x
            obtain ⟨k, id⟩ := x
            cases k with
            | dtn =>
                obtain ⟨hty, rfl⟩ := slotName_dtn hs
                simp only [registered, hty, dtnNode, RNode.plain]
                cases hv : s.node (.dtn, m.id) with
                | none => rfl
                | some e => exact hold e hv hk
            | storage =>
                obtain ⟨hty, rfl⟩ := slotName_storage hs
                simp only [registered, hty, storageNode, RNode.plain]
                cases hv : s.node (.storage, m.id) with
                | none => rfl
                | some e => exact hold e hv hk
            | general => exact absurd rfl hk
          · exact h.rid x d hx hk
        · rintro x y (⟨hl, -⟩ | ⟨-, rfl, rfl⟩)
          · exact h.starts x y hl
          · exact ⟨(endName_kind s m.id).2, fun _ => rfl⟩
        · rintro b hb x y (⟨hl, -⟩ | ⟨-, rfl, rfl⟩) hx
          · exact h.closed b hb x y hl hx
          · exact .inr rfl
        · intro b hb sid hn hno k hk
          have hne : (k, sid) ≠ z := by
            rintro rfl
            have hid := nodeId_of_slot hm hs hk
            by_cases hab : b = a
            · exact hno (hab ▸ hid)
            · exact hi.named b hb a ha hab sid hn hid
          simp only [Function.update_of_ne hne]
          exact h.absent b hb sid hn hno k hk
  · refine ⟨h.rid, ?_, ?_, h.absent⟩
    · rintro x y (hl | ⟨-, hx, hy⟩)
      · exact h.starts x y hl
      · exact ⟨(lookup_some hx).2.1,
          fun hg => absurd hg (lookup_some hy).2.1⟩
    · rintro b hb x y (hl | ⟨-, hx, hy⟩) hown
      · exact h.closed b hb x y hl hown
      · -- both ends are of the agent, so the owner is the agent
        obtain ⟨hxid, hxk, -⟩ := lookup_some hx
        obtain ⟨hyid, hyk, -⟩ := lookup_some hy
        have hxa := h.named_found ha hsid hx
        have hxb : NodeId b sid := hxid ▸ nodeId_of_owns hown hxk
        have hab := hi.nodeId_eq ha hb hxa hxb
        exact .inl (.inl ⟨hyk, hyid ▸ hab ▸ hdid⟩)

/-- Two outlines that look alike to an agent. -/
structure Agree (a : Instance) (s t : Outline) : Prop where
  node : ∀ x, Owns a x → s.node x = t.node x
  gateway : s.node gatewayName = t.node gatewayName
  link : ∀ x y, Owns a x → (s.link x y ↔ t.link x y)

/-- Agreement goes both ways. -/
theorem Agree.symm (h : Agree a s t) : Agree a t s :=
  ⟨fun x hx => (h.node x hx).symm, h.gateway.symm,
    fun x y hx => (h.link x y hx).symm⟩

/-- What agrees for an agent is looked up alike by its ids. -/
theorem Agree.lookup (h : Agree a s t) {id : String} (hid : NodeId a id) :
    s.lookup id = t.lookup id := by
  rw [Outline.lookup, Outline.lookup,
    h.node _ (owns_of_nodeId (k := .storage) (by simp) hid),
    h.node _ (owns_of_nodeId (k := .dtn) (by simp) hid)]

/-- And so are the ends of its links. -/
theorem Agree.endName (h : Agree a s t) {id : String} (hid : NodeId a id) :
    s.endName id = t.endName id := by
  rw [Outline.endName, Outline.endName,
    h.node _ (owns_of_nodeId (k := .storage) (by simp) hid)]

/-- An edge from an id of the agent is seen the same. -/
theorem Agree.hasEdge (h : Agree a s t) (hs : Tame agents s)
    (ha : a ∈ agents) {sid did : String} (hid : NodeId a sid)
    (he : s.HasEdge sid did) : t.HasEdge sid did := by
  obtain ⟨x, y, d, e, hl, hx, hrx, hy, hry⟩ := he
  have hk := (hs.starts x y hl).1
  have hxid : x.2 = sid := by rw [← hs.rid x d hx hk, hrx]
  have hown : Owns a x := .inl ⟨hk, hxid ▸ hid⟩
  have hyn : t.node y = some e := by
    rcases hs.closed a ha x y hl hown with hoy | rfl
    · rw [← h.node y hoy]
      exact hy
    · rw [← h.gateway]
      exact hy
  exact ⟨x, y, d, e, (h.link x y hown).mp hl,
    (h.node x hown) ▸ hx, hrx, hyn, hry⟩

/-- A mapping with a storage of nobody does nothing. -/
theorem Tame.exec_map_absent (h : Tame agents s) (ha : a ∈ agents)
    {sid did : String} (hn : Names a sid) (hno : ¬ NodeId a sid) :
    s.exec (.map sid did) = s := by
  refine Outline.ext rfl ?_
  funext u v
  refine propext ⟨?_, .inl⟩
  rintro (hl | ⟨-, hu, -⟩)
  · exact hl
  · exact absurd (h.named_found ha hn hu) hno

/-- What an agent does is decided by what it sees. -/
theorem exec_local (h : Agree a s t) (hs : Tame agents s)
    (ht : Tame agents t) (ha : a ∈ agents) {o : Outline.Op}
    (ho : o ∈ ops a) : Agree a (s.exec o) (t.exec o) := by
  have hgw : (s.exec o).node gatewayName = (t.exec o).node gatewayName := by
    rw [(exec_frame hs ha ho (not_owns_gateway a)).1,
      (exec_frame ht ha ho (not_owns_gateway a)).1]
    exact h.gateway
  rcases mem_ops ho with ⟨m, hm, rfl⟩ | ⟨sid, did, rfl, hsid, hdid⟩
  · refine ⟨?_, hgw, ?_⟩
    · intro x hx
      cases hsl : slotName m with
      | none =>
          rw [s.exec_put_none hsl, t.exec_put_none hsl]
          exact h.node x hx
      | some z =>
          rw [s.exec_put_some hsl, t.exec_put_some hsl]
          simp only [Function.update_apply, h.node z (.inr ⟨m, hm, hsl⟩)]
          split
          · rfl
          · exact h.node x hx
    · intro x y hx
      cases hsl : slotName m with
      | none =>
          rw [s.exec_put_none hsl, t.exec_put_none hsl]
          exact h.link x y hx
      | some z =>
          rw [s.exec_put_some hsl, t.exec_put_some hsl]
          refine or_congr (and_congr_left fun _ => h.link x y hx) ?_
          refine and_congr_right fun hty => ?_
          rw [h.endName ⟨m, hm, .inl hty, rfl⟩]
  · by_cases hid : NodeId a sid
    · refine ⟨h.node, hgw, fun x y hx => or_congr (h.link x y hx) ?_⟩
      rw [h.lookup hid, h.lookup hdid]
      refine and_congr_left fun _ => not_congr ?_
      exact ⟨fun he => h.hasEdge hs ha hid he,
        fun he => h.symm.hasEdge ht ha hid he⟩
    · rw [hs.exec_map_absent ha hsid hid, ht.exec_map_absent ha hsid hid]
      exact h

-- ================================================================= agents

/-- The registration of an agent. -/
def register (s : Outline) (a : Instance) : Outline :=
  (ops a).foldl Outline.exec s

/-- A registration keeps the outline tame. -/
theorem register_tame (hi : Independent agents) (h : Tame agents s)
    (ha : a ∈ agents) : Tame agents (register s a) := by
  have hall : ∀ l : List Outline.Op, (∀ o ∈ l, o ∈ ops a) →
      ∀ s, Tame agents s → Tame agents (l.foldl Outline.exec s) := by
    intro l
    induction l with
    | nil => intro _ s hs; exact hs
    | cons o l ih =>
        intro hl s hs
        exact ih (fun p hp => hl p (List.mem_cons_of_mem _ hp)) _
          (exec_tame hi hs ha (hl o (List.mem_cons_self ..)))
  exact hall _ (fun _ ho => ho) s h

/-- It changes nothing that the agent does not own. -/
theorem register_frame (hi : Independent agents) (h : Tame agents s)
    (ha : a ∈ agents) {x : NodeName} (hx : ¬ Owns a x) :
    (register s a).node x = s.node x ∧
      ∀ y, (register s a).link x y ↔ s.link x y := by
  have hall : ∀ l : List Outline.Op, (∀ o ∈ l, o ∈ ops a) →
      ∀ s, Tame agents s →
        (l.foldl Outline.exec s).node x = s.node x ∧
          ∀ y, (l.foldl Outline.exec s).link x y ↔ s.link x y := by
    intro l
    induction l with
    | nil => intro _ s _; exact ⟨rfl, fun _ => Iff.rfl⟩
    | cons o l ih =>
        intro hl s hs
        have ho := hl o (List.mem_cons_self ..)
        obtain ⟨hn, hk⟩ := exec_frame hs ha ho hx
        obtain ⟨hn', hk'⟩ := ih (fun p hp => hl p (List.mem_cons_of_mem _ hp))
          _ (exec_tame hi hs ha ho)
        exact ⟨hn'.trans hn, fun y => (hk' y).trans (hk y)⟩
  exact hall _ (fun _ ho => ho) s h

/-- What it does depends on what the agent owns. -/
theorem register_local (hi : Independent agents) (h : Agree a s t)
    (hs : Tame agents s) (ht : Tame agents t) (ha : a ∈ agents) :
    Agree a (register s a) (register t a) := by
  have hall : ∀ l : List Outline.Op, (∀ o ∈ l, o ∈ ops a) →
      ∀ s t, Agree a s t → Tame agents s → Tame agents t →
        Agree a (l.foldl Outline.exec s) (l.foldl Outline.exec t) := by
    intro l
    induction l with
    | nil => intro _ s t h _ _; exact h
    | cons o l ih =>
        intro hl s t h hs ht
        have ho := hl o (List.mem_cons_self ..)
        exact ih (fun p hp => hl p (List.mem_cons_of_mem _ hp)) _ _
          (exec_local h hs ht ha ho) (exec_tame hi hs ha ho)
          (exec_tame hi ht ha ho)
  exact hall _ (fun _ ho => ho) s t h hs ht

/-- An agent sees the same before and after another one registered. -/
theorem agree_register (hi : Independent agents) (h : Tame agents s)
    (ha : a ∈ agents) (hb : b ∈ agents) (hab : a ≠ b) :
    Agree a s (register s b) := by
  have hout : ∀ x, Owns a x → ¬ Owns b x := fun x hx hxb =>
    hab (hi.owns_eq ha hb hx hxb)
  refine ⟨fun x hx => ?_, ?_, fun x y hx => ?_⟩
  · exact (register_frame hi h hb (hout x hx)).1.symm
  · exact (register_frame hi h hb (not_owns_gateway b)).1.symm
  · exact ((register_frame hi h hb (hout x hx)).2 y).symm

/-- Independent agents commute. -/
theorem register_comm (hi : Independent agents) (h : Tame agents s)
    (ha : a ∈ agents) (hb : b ∈ agents) :
    register (register s a) b = register (register s b) a := by
  by_cases hab : a = b
  · rw [hab]
  have hta := register_tame hi h ha
  have htb := register_tame hi h hb
  have hla := register_local hi (agree_register hi h ha hb hab) h htb ha
  have hlb := register_local hi
    (agree_register hi h hb ha (Ne.symm hab)) h hta hb
  -- a name is of the one, of the other or of neither
  have hsame : ∀ x, (register (register s a) b).node x
        = (register (register s b) a).node x ∧
      ∀ y, (register (register s a) b).link x y
        ↔ (register (register s b) a).link x y := by
    intro x
    by_cases hxa : Owns a x
    · have hxb : ¬ Owns b x := fun hxb => hab (hi.owns_eq ha hb hxa hxb)
      obtain ⟨hn, hk⟩ := register_frame hi hta hb hxb
      exact ⟨hn.trans (hla.node x hxa),
        fun y => (hk y).trans (hla.link x y hxa)⟩
    · obtain ⟨hn, hk⟩ := register_frame hi htb ha hxa
      by_cases hxb : Owns b x
      · exact ⟨((hn.trans (hlb.node x hxb))).symm,
          fun y => ((hk y).trans (hlb.link x y hxb)).symm⟩
      · obtain ⟨hna, hka⟩ := register_frame hi h ha hxa
        obtain ⟨hnb, hkb⟩ := register_frame hi h hb hxb
        obtain ⟨hnba, hkba⟩ := register_frame hi hta hb hxb
        exact ⟨by rw [hn, hnb, hnba, hna], fun y => by
          rw [hk y, hkb y, hkba y, hka y]⟩
  refine Outline.ext ?_ ?_
  · funext x
    exact (hsame x).1
  · funext x y
    exact propext ((hsame x).2 y)

/-- Every order of the agents gives the same outline. -/
theorem registerAll_perm (hi : Independent agents) {l k : List Instance}
    (hp : l.Perm k) (hl : ∀ a ∈ l, a ∈ agents) (h : Tame agents s) :
    l.foldl register s = k.foldl register s := by
  induction hp generalizing s with
  | nil => rfl
  | cons a _ ih =>
      exact ih (fun b hb => hl b (List.mem_cons_of_mem _ hb))
        (register_tame hi h (hl a (List.mem_cons_self ..)))
  | swap a b l =>
      have ha := hl a (List.mem_cons_of_mem _ (List.mem_cons_self ..))
      have hb := hl b (List.mem_cons_self ..)
      rw [List.foldl_cons, List.foldl_cons, List.foldl_cons, List.foldl_cons,
        register_comm hi h hb ha]
  | trans h₁ _ ih₁ ih₂ =>
      exact (ih₁ hl h).trans
        (ih₂ (fun a ha => hl a (h₁.mem_iff.mpr ha)) h)

-- ========================================================= the messages

/-- The first iteration follows the outline. -/
theorem wp_puts {queue : String} {l : List Module}
    (hl : ∀ m ∈ l, ¬ ReservedKey m.id) {g : RGraph} (h : Proper g) :
    wp (l.forM (addModule queue))
      (fun _ g' => Proper g' ∧ outline g'
        = (l.map (Outline.Op.put queue)).foldl Outline.exec (outline g))
      E g := by
  induction l generalizing g with
  | nil => exact ⟨h, rfl⟩
  | cons m l ih =>
      rw [wp_forM_cons]
      refine h.wp_addModule (hl m (List.mem_cons_self ..)) fun g₁ hadd => ?_
      refine (ih (fun n hn => hl n (List.mem_cons_of_mem _ hn))
        hadd.proper).mono ?_ fun _ he => he
      intro _ g₂ h₂
      refine ⟨h₂.1, ?_⟩
      rw [h₂.2, outline_added hadd]
      rfl

/-- The storages of a DTN are mapped in a row, each as in the outline. -/
theorem wp_maps {did : String} (hd : ¬ ReservedKey did)
    {l : List StorageRef} (hl : ∀ s ∈ l, ¬ ReservedKey s.id) {g : RGraph}
    (h : Proper g) :
    wp (l.forM fun s => mapStorageCaught s.id did)
      (fun _ g' => Proper g' ∧ outline g'
        = (l.map fun s => Outline.Op.map s.id did).foldl Outline.exec
            (outline g)) E g := by
  induction l generalizing g with
  | nil => exact ⟨h, rfl⟩
  | cons s l ih =>
      rw [wp_forM_cons]
      refine wp_mapStorageCaught h.named fun g₁ hm => ?_
      refine (ih (fun n hn => hl n (List.mem_cons_of_mem _ hn))
        (h.mapped hm)).mono ?_ fun _ he => he
      intro _ g₂ h₂
      refine ⟨h₂.1, ?_⟩
      rw [h₂.2, outline_mapped h (hl s (List.mem_cons_self ..)) hd hm]
      rfl

/-- The second iteration follows the outline. -/
theorem wp_links {l : List Module} (hl : ∀ m ∈ l, ¬ ReservedKey m.id)
    (hs : ∀ m ∈ l, m.type = .dtn → ∀ s ∈ m.storages, ¬ ReservedKey s.id)
    {g : RGraph} (h : Proper g) :
    wp (l.forM linkModule)
      (fun _ g' => Proper g' ∧ outline g'
        = (l.flatMap fun m => match m.type with
            | .dtn => m.storages.map fun s => Outline.Op.map s.id m.id
            | _ => []).foldl Outline.exec (outline g)) E g := by
  induction l generalizing g with
  | nil => exact ⟨h, rfl⟩
  | cons m l ih =>
      have ih' := @ih (fun n hn => hl n (List.mem_cons_of_mem _ hn))
        (fun n hn => hs n (List.mem_cons_of_mem _ hn))
      rw [wp_forM_cons]
      unfold linkModule
      split
      · rename_i hty
        refine (wp_maps (hl m (List.mem_cons_self ..))
          (hs m (List.mem_cons_self ..) hty) h).mono ?_ fun _ he => he
        intro _ g₁ h₁
        refine (ih' h₁.1).mono ?_ fun _ he => he
        intro _ g₂ h₂
        refine ⟨h₂.1, ?_⟩
        rw [h₂.2, h₁.2, List.flatMap_cons, List.foldl_append]
        simp only [hty]
      · rename_i hty
        refine (ih' h).mono ?_ fun _ he => he
        intro _ g₂ h₂
        refine ⟨h₂.1, ?_⟩
        rw [h₂.2, List.flatMap_cons]
        split
        · rename_i hty'
          exact absurd hty' (by simpa using hty)
        · rfl

/-- The handler of a registration does to the graph what is done to the
outline. -/
theorem outline_online (hi : Independent agents) (ha : a ∈ agents)
    (h : Proper g) :
    Proper (after (resourceConstruct (.online a)) g) ∧
      outline (after (resourceConstruct (.online a)) g)
        = register (outline g) a := by
  refine wp.after (P := fun g' => Proper g' ∧ outline g' = _) ?_
  rw [resourceConstruct, addModules, wp_bind]
  refine (wp_puts (hi.free a ha) h).mono ?_ fun _ he => he
  intro _ g₁ h₁
  refine (wp_links (hi.free a ha) ?_ h₁.1).mono ?_ fun _ he => he
  · intro m hm hty s hs
    exact hi.named_free a ha s.id ⟨m, hm, hty, s, hs, rfl⟩
  · intro _ g₂ h₂
    refine ⟨h₂.1, ?_⟩
    rw [h₂.2, h₁.2, register, ops, List.foldl_append]

/-- The first outline is tame. -/
theorem tame_initial (agents : List Instance) :
    Tame agents (outline initial) := by
  have hnode : ∀ x d, (outline initial).node x = some d →
      x = gatewayName := by
    intro x d hx
    obtain ⟨e, he, -⟩ := Option.map_eq_some_iff.mp hx
    exact (view_bare (g := {}) he).1
  have hlink : ∀ x y, ¬ (outline initial).link x y := by
    intro x y hl
    simp only [outline, initial_eq, links_bare, List.not_mem_nil] at hl
  refine ⟨?_, fun x y hl => absurd hl (hlink x y),
    fun a _ x y hl => absurd hl (hlink x y), ?_⟩
  · intro x d hx hk
    exact absurd (congrArg Prod.fst (hnode x d hx)) hk
  · intro a _ sid _ _ k hk
    cases hv : (outline initial).node (k, sid) with
    | none => rfl
    | some d => exact absurd (congrArg Prod.fst (hnode _ d hv)) hk

/-- The graph after the agents registered, one after the other. -/
def registerAll (agents : List Instance) : RGraph :=
  runAll (agents.map fun a => resourceConstruct (.online a)) initial

/-- Registrations in a row do to the graph what they do to the outline. -/
theorem outline_registerAll (hi : Independent agents) {l : List Instance}
    (hl : ∀ a ∈ l, a ∈ agents) :
    outline (registerAll l) = l.foldl register (outline initial) := by
  have hrun : ∀ (l : List Instance) (g : RGraph), (∀ a ∈ l, a ∈ agents) →
      Proper g →
      outline (runAll (l.map fun a => resourceConstruct (.online a)) g)
        = l.foldl register (outline g) := by
    intro l
    induction l with
    | nil => intro g _ _; rfl
    | cons a l ih =>
        intro g hl h
        obtain ⟨hp, he⟩ := outline_online hi (hl a (List.mem_cons_self ..)) h
        rw [List.foldl_cons, ← he]
        exact ih _ (fun b hb => hl b (List.mem_cons_of_mem _ hb)) hp
  exact hrun l initial hl (bare_proper {})

end Agent

open Agent

/-- The same nodes with the same contents under the same names, and the
same names linked. -/
def RGraph.Same (g g' : RGraph) : Prop :=
  (∀ x, (view g x).map RNode.plain = (view g' x).map RNode.plain) ∧
    ∀ x y, (some x, some y) ∈ links g ↔ (some x, some y) ∈ links g'

/-- Independent agents give the same graph in every order. -/
theorem registration_order_independent (agents order : List Instance)
    (hi : Independent agents) (hp : agents.Perm order) :
    Same (registerAll agents) (registerAll order) := by
  have hsame : outline (registerAll agents) = outline (registerAll order) := by
    rw [outline_registerAll hi fun _ ha => ha,
      outline_registerAll hi fun a ha => hp.mem_iff.mpr ha]
    exact registerAll_perm hi hp (fun _ ha => ha) (tame_initial agents)
  refine ⟨fun x => ?_, fun x y => ?_⟩
  · exact congrFun (congrArg Outline.node hsame) x
  · exact iff_of_eq (congrFun (congrFun (congrArg Outline.link hsame) x) y)

/-- An agent with one module. -/
def soloAgent (cid : String) (m : Module) : Instance :=
  { cid := cid, queue := cid, modules := [m] }

/-- Two machines, each with a disk and a DTN, and a launcher. -/
theorem registration_order_independent_site :
    Same
      (registerAll [⟨"c1", "q1", diskAndDtn⟩,
        soloAgent "c2" { id := "l1", type := .launcher },
        soloAgent "c3" { id := "dtn2", type := .dtn }])
      (registerAll [soloAgent "c3" { id := "dtn2", type := .dtn },
        ⟨"c1", "q1", diskAndDtn⟩,
        soloAgent "c2" { id := "l1", type := .launcher }]) := by
  refine registration_order_independent _ _ ?_ ?_
  · constructor <;>
      simp [soloAgent, diskAndDtn, Names, NodeId] <;> decide
  · decide

/-- The order matters for a DTN that names a storage of another agent,
for two launchers, and when a module takes the key of the gateway. -/
theorem registration_order_matters :
    ¬ Same
      (registerAll [soloAgent "c1" { id := "disk1", type := .localStorage },
        soloAgent "c2" { id := "dtn1", type := .dtn,
                         storages := [{ id := "disk1" }] }])
      (registerAll [soloAgent "c2" { id := "dtn1", type := .dtn,
                                     storages := [{ id := "disk1" }] },
        soloAgent "c1" { id := "disk1", type := .localStorage }]) ∧
    ¬ Same
      (registerAll [soloAgent "c1" { id := "l1", type := .launcher },
        soloAgent "c2" { id := "l2", type := .launcher }])
      (registerAll [soloAgent "c2" { id := "l2", type := .launcher },
        soloAgent "c1" { id := "l1", type := .launcher }]) ∧
    ¬ Same
      (registerAll [soloAgent "c1" { id := gatewayId, type := .localStorage },
        soloAgent "c2" { id := "dtn1", type := .dtn }])
      (registerAll [soloAgent "c2" { id := "dtn1", type := .dtn },
        soloAgent "c1" { id := gatewayId, type := .localStorage }]) := by
  refine ⟨fun h => ?_, fun h => ?_, fun h => ?_⟩
  · have hlink := h.2 (.storage, "disk1") (.dtn, "dtn1")
    revert hlink
    decide +kernel
  · have hnode := h.1 (.general, launcherId)
    revert hnode
    decide +kernel
  · have hlink := h.2 (.dtn, "dtn1") gatewayName
    revert hlink
    decide +kernel

end BigDataExpress
