/-
The links between storages and DTNs, and what the portal is shown of them.

# One message

A DTN lists its storages in its registration. `Wired` says that the graph
has a link from each of them that is registered, once, and no others.
Registering modules does not touch these links, linking adds those that
are missing, and deleting modules takes those at them. An agent that lists
no storage but its own keeps this (`handleReg_wired`).

# The answers

So when the server has handled what there is, `get_dtn_topology` answers
with the DTNs of the announced agents, each with its storages
(`topology_shows_agents`), and `get_storage_list` with the storages that a
DTN lists, each with the address of one (`storages_show_agents`). Neither
of them throws.
-/
import BigDataExpress.Proofs.UserMapping

namespace BigDataExpress

open Stateful ResourceManager RGraph

variable {R : Registry} {g : RGraph} {E : RGraph → Prop}

-- =============================================================== the links

/-- A link from a storage to a DTN. -/
def diskLink : Option NodeName × Option NodeName → Option (String × String)
  | (some (.storage, sid), some (.dtn, did)) => some (sid, did)
  | _ => none

/-- The links from storages to DTNs. -/
def diskLinks (g : RGraph) : List (String × String) :=
  (links g).filterMap diskLink

/-- A link from a storage to a DTN, and no other. -/
theorem diskLink_eq_some {p : Option NodeName × Option NodeName}
    {sid did : String} :
    diskLink p = some (sid, did)
      ↔ p = (some (.storage, sid), some (.dtn, did)) := by
  unfold diskLink
  split
  · simp
  · rename_i hp
    constructor
    · intro h
      cases h
    · intro h
      exact absurd h (hp sid did)

/-- The disk links are such links of the graph. -/
theorem mem_diskLinks {sid did : String} :
    (sid, did) ∈ diskLinks g
      ↔ (some (.storage, sid), some (.dtn, did)) ∈ links g := by
  unfold diskLinks
  rw [List.mem_filterMap]
  constructor
  · intro h
    obtain ⟨p, hp, hlink⟩ := h
    rwa [diskLink_eq_some.1 hlink] at hp
  · exact fun h => ⟨_, h, rfl⟩

/-- Every link comes from a DTN or from a storage, and leads to the gateway
or to a DTN. -/
def LinkEnds (g : RGraph) : Prop :=
  ∀ p ∈ links g, (∃ did, p = (some (.dtn, did), some gatewayName))
    ∨ ∃ sid did, p = (some (.storage, sid), some (.dtn, did))

/-- The links from storages to DTNs are these, each there once. -/
structure Linked (L : String → String → Prop) (g : RGraph) : Prop where
  ends : LinkEnds g
  once : (diskLinks g).Nodup
  mem : ∀ sid did, (sid, did) ∈ diskLinks g ↔ L sid did

/-- The relation may be replaced by an equivalent one. -/
theorem Linked.congr {L L' : String → String → Prop} (h : Linked L g)
    (hL : ∀ sid did, L sid did ↔ L' sid did) : Linked L' g :=
  ⟨h.ends, h.once, fun sid did => (h.mem sid did).trans (hL sid did)⟩

/-- The registry has a DTN that lists a storage, and the storage. -/
def ListsDisk (R : Registry) (sid did : String) : Prop :=
  ∃ i m, R (.dtn, did) = some (i, m) ∧ (∃ s ∈ m.storages, s.id = sid)
    ∧ ∃ o, R (.storage, sid) = some o

/-- A DTN has the storages that it lists and that are registered. -/
abbrev Wired (R : Registry) (g : RGraph) : Prop := Linked (ListsDisk R) g

-- ============================================================= registering

/-- The links of the mapped storages, from a storage that is registered to
a DTN that is. -/
theorem hasEdge_iff (h : Mirrors R g) (hends : LinkEnds g) {sid did : String}
    (hsid : R (.dtn, sid) = none) :
    hasEdge g sid did = true ↔ (sid, did) ∈ diskLinks g := by
  rw [mem_diskLinks]
  constructor
  · intro he
    obtain ⟨e, hmem, hrid⟩ := List.any_eq_true.1 he
    have hn := h.proper.named
    obtain ⟨u, hu, v, hv, hsrc, hdst, -, -⟩ := hn.edge_names hmem
    have hlink := hn.mem_links.2 ⟨e, hmem, u, hu, v, hv, hsrc, hdst, rfl⟩
    simp only [ridAt, ← hsrc, ← hdst, hn.sound.node?_eq hu,
      hn.sound.node?_eq hv, Option.map_some, Bool.and_eq_true, beq_iff_eq,
      Option.some.injEq] at hrid
    have hux := hn.view_mem hu
    have hvy := hn.view_mem hv
    rcases hends _ hlink with ⟨d, hp⟩ | ⟨a, b, hp⟩
    · -- a DTN would have the id of the storage
      injection hp with hp
      injection hp with hp
      rw [hp] at hux
      have hid : d = sid := (h.proper.rid _ _ hux (by simp)).symm.trans hrid.1
      rw [hid, h.view_none hsid (by simp [gatewayName])] at hux
      cases hux
    · injection hp with hpu hpv
      injection hpu with hpu
      injection hpv with hpv
      rw [hpu] at hux
      rw [hpv] at hvy
      have ha : a = sid := (h.proper.rid _ _ hux (by simp)).symm.trans hrid.1
      have hb : b = did := (h.proper.rid _ _ hvy (by simp)).symm.trans hrid.2
      rw [← ha, ← hb, ← hpu, ← hpv]
      exact hlink
  · intro hl
    exact h.proper.hasEdge_of_link (by simp) (by simp) hl

/-- An id that a storage can have. -/
structure NotDtn (R : Registry) (id : String) : Prop where
  free : ¬ ReservedKey id
  dtn : R (.dtn, id) = none

/-- The id of a DTN that is registered. -/
structure IsDtn (R : Registry) (id : String) : Prop where
  free : ¬ ReservedKey id
  dtn : ∃ o, R (.dtn, id) = some o
  storage : R (.storage, id) = none

/-- What a mapping links, between a storage of the registration and its
DTN. -/
theorem linksMapped_eq (h : Mirrors R g) (hends : LinkEnds g) {sid did : String}
    (hs : NotDtn R sid) (hd : IsDtn R did) :
    linksMapped g sid did
      = if (sid, did) ∈ diskLinks g ∨ R (.storage, sid) = none then []
        else [(some (.storage, sid), some (.dtn, did))] := by
  have hnode {x : NodeName} {o : Instance × Module} (hx : R x = some o) :
      ∃ n, find g x = some n ∧ n.data.nodeName = x := by
    obtain ⟨d, hd, -⟩ := h.owned x o.1 o.2 hx
    obtain ⟨n, hn, -⟩ := view_eq_some.1 hd
    exact ⟨n, hn, (PtrGraph.find_some hn).2⟩
  have hnone {x : NodeName} (hx : R x = none) (hk : x.1 ≠ .general) :
      find g x = none :=
    view_eq_none.1 (h.view_none hx fun he => hk (congrArg Prod.fst he))
  unfold linksMapped
  by_cases he : hasEdge g sid did = true
  · rw [if_pos he, if_pos (.inl ((hasEdge_iff h hends hs.dtn).1 he))]
  · rw [if_neg he, h.proper.lookup_free hs.free,
      h.proper.lookup_free hd.free, hnone hs.dtn (by simp),
      hnone hd.storage (by simp), Option.or_none,
      Option.none_or]
    have hno : (sid, did) ∉ diskLinks g := fun hl =>
      he ((hasEdge_iff h hends hs.dtn).2 hl)
    cases hstorage : R (.storage, sid) with
    | none =>
        rw [hnone hstorage (by simp), if_pos (.inr rfl)]
    | some o =>
        obtain ⟨s, hfs, hsname⟩ := hnode hstorage
        obtain ⟨o', ho'⟩ := hd.dtn
        obtain ⟨d, hfd, hdname⟩ := hnode ho'
        rw [hfs, hfd, if_neg (by simp [hno])]
        simp only [hsname, hdname]

/-- A storage that the registry has is linked, if it is not yet. -/
theorem Linked.mapped {L : String → String → Prop} (h : Mirrors R g)
    (hL : Linked L g) {g' : RGraph} {sid did : String}
    (hm : Mapped g g' sid did) (hs : NotDtn R sid) (hd : IsDtn R did) :
    Linked (fun a b => L a b
      ∨ a = sid ∧ b = did ∧ ∃ o, R (.storage, a) = some o) g' := by
  have hnew := linksMapped_eq h hL.ends hs hd
  have hlinks : diskLinks g' = diskLinks g
      ++ (linksMapped g sid did).filterMap diskLink := by
    unfold diskLinks
    rw [hm.links, List.filterMap_append]
  by_cases hc : (sid, did) ∈ diskLinks g ∨ R (.storage, sid) = none
  · rw [if_pos hc] at hnew
    rw [hnew, List.filterMap_nil, List.append_nil] at hlinks
    have hall := hm.links
    rw [hnew, List.append_nil] at hall
    refine ⟨fun p hp => hL.ends p (hall ▸ hp), hlinks ▸ hL.once,
      fun a b => ?_⟩
    rw [hlinks, hL.mem]
    constructor
    · exact .inl
    · intro hab
      rcases hab with hab | ⟨rfl, rfl, o, ho⟩
      · exact hab
      · rcases hc with hc | hc
        · exact (hL.mem _ _).1 hc
        · rw [hc] at ho
          cases ho
  · rw [if_neg hc] at hnew
    rw [not_or] at hc
    rw [hnew] at hlinks
    change diskLinks g' = diskLinks g ++ [(sid, did)] at hlinks
    refine ⟨fun p hp => ?_, ?_, fun a b => ?_⟩
    · rw [hm.links, hnew] at hp
      rcases List.mem_append.1 hp with hp | hp
      · exact hL.ends p hp
      · exact .inr ⟨sid, did, List.mem_singleton.1 hp⟩
    · rw [hlinks]
      exact List.Nodup.append hL.once (List.nodup_singleton _)
        (List.disjoint_singleton.2 hc.1)
    · rw [hlinks, List.mem_append, hL.mem, List.mem_singleton,
        Prod.mk.injEq]
      have hstorage := Option.ne_none_iff_exists'.1 hc.2
      refine or_congr_right (and_congr_right fun ha => ?_)
      rw [ha]
      exact (and_iff_left hstorage).symm

section Agents

variable {inst : String → Instance}

/-- A DTN lists storages of its own agent. -/
def Homed (inst : String → Instance) : Prop :=
  ∀ k, ∀ m ∈ (inst k).modules, m.type = .dtn → ∀ s ∈ m.storages,
    ∃ n ∈ (inst k).modules, n.id = s.id ∧ n.type ≠ .dtn

/-- What a server with nothing left to do has: the registry of the announced
agents, their modules and their links. -/
structure Sees (inst : String → Instance) (clients : String → Presence.Client)
    (R : Registry) (g : RGraph) : Prop where
  mirrors : Mirrors R g
  wired : Wired R g
  entry : ∀ x i m, R x = some (i, m) ↔ ∃ k, clients k = .announced
    ∧ i = inst k ∧ m ∈ (inst k).modules ∧ slotName m = some x
  apart : ∀ k j, Rivals inst k j → clients k = .announced →
    clients j ≠ .announced

section Seen

variable {clients : String → Presence.Client}

/-- Two announced agents with a module of one id are one. -/
theorem Sees.same_agent (h : Sees inst clients R g) {k j : String}
    (hk : clients k = .announced) (hj : clients j = .announced) {m n : Module}
    (hm : m ∈ (inst k).modules) (hn : n ∈ (inst j).modules)
    (hid : m.id = n.id) : k = j := by
  by_cases hkj : k = j
  · exact hkj
  · exact absurd hj (h.apart k j ⟨hkj, m, hm, n, hn, .inl hid⟩ hk)

/-- An announced DTN that lists the storage, and the storage: they are of
one agent. -/
theorem Sees.lists_iff (hhome : Homed inst) (h : Sees inst clients R g)
    {sid did : String} :
    ListsDisk R sid did ↔ ∃ k, clients k = .announced ∧ ∃ m ∈ (inst k).modules,
      m.type = .dtn ∧ m.id = did ∧ (∃ r ∈ m.storages, r.id = sid)
        ∧ ∃ n ∈ (inst k).modules, n.type = .localStorage ∧ n.id = sid := by
  constructor
  · intro hl
    obtain ⟨i, m, hdtn, ⟨r, hr, rfl⟩, ⟨i', n⟩, ho⟩ := hl
    obtain ⟨k, hk, rfl, hm, hslot⟩ := (h.entry _ _ _).1 hdtn
    obtain ⟨j, hj, rfl, hn, hnslot⟩ := (h.entry _ _ _).1 ho
    obtain ⟨ht, hid⟩ := slotName_dtn hslot
    obtain ⟨hnt, hnid⟩ := slotName_storage hnslot
    obtain ⟨n', hn', hnid', -⟩ := hhome k m hm ht r hr
    obtain rfl := h.same_agent hk hj hn' hn (hnid'.trans hnid.symm)
    exact ⟨k, hk, m, hm, ht, hid, ⟨r, hr, rfl⟩, n, hn, hnt, hnid⟩
  · intro hk
    obtain ⟨k, hk, m, hm, ht, rfl, hr, n, hn, hnt, rfl⟩ := hk
    refine ⟨inst k, m, (h.entry _ _ _).2 ⟨k, hk, rfl, hm, slotName_eq_dtn.2 ht⟩,
      hr, (inst k, n), (h.entry _ _ _).2 ⟨k, hk, rfl, hn, ?_⟩⟩
    unfold slotName
    rw [hnt]

end Seen

end Agents

-- ============================================================= the answers

section Shown

variable {site : SiteView}

/-- Two elements with one image are one, if the images are distinct. -/
theorem inj_of_nodup_filterMap {α β : Type} {f : α → Option β} {l : List α}
    (h : (l.filterMap f).Nodup) {a b : α} (ha : a ∈ l) (hb : b ∈ l) {c : β}
    (hfa : f a = some c) (hfb : f b = some c) : a = b := by
  induction l with
  | nil => cases ha
  | cons x l ih =>
      -- another one like the first would be listed twice
      have hfirst {y : α} (hx : f x = some c) (hy : y ∈ l)
          (hyc : f y = some c) : False := by
        rw [List.filterMap_cons_some hx] at h
        exact (List.nodup_cons.1 h).1 (List.mem_filterMap.2 ⟨y, hy, hyc⟩)
      have htail : (l.filterMap f).Nodup :=
        h.sublist ((List.sublist_cons_self x l).filterMap _)
      rcases List.mem_cons.1 ha with rfl | ha'
      · rcases List.mem_cons.1 hb with rfl | hb'
        · rfl
        · exact (hfirst hfa hb' hfb).elim
      · rcases List.mem_cons.1 hb with rfl | hb'
        · exact (hfirst hfb ha' hfa).elim
        · exact ih htail ha' hb'

/-- An edge between a storage and a DTN, with its nodes. -/
structure DiskEdge (g : RGraph) (i : Nat) (s d : PtrGraph.Node RNode) :
    Prop where
  source : s ∈ g.nodes
  dest : d ∈ g.nodes
  storage : s.data.kind = .storage
  dtn : d.data.kind = .dtn
  edge : ∃ e ∈ g.edges, e.rid = i ∧ e.src = s.addr ∧ e.dst = d.addr

/-- An edge from a storage to a DTN is a disk link. -/
theorem DiskEdge.link {g : RGraph} {i : Nat} {s d : PtrGraph.Node RNode}
    (hn : Named g) (h : DiskEdge g i s d) :
    (s.data.key, d.data.key) ∈ diskLinks g := by
  obtain ⟨e, he, -, hsrc, hdst⟩ := h.edge
  rw [mem_diskLinks]
  refine hn.mem_links.2 ⟨e, he, s, h.source, d, h.dest, hsrc.symm, hdst.symm,
    ?_⟩
  rw [RNode.nodeName, RNode.nodeName, h.storage, h.dtn]

/-- And every disk link is such an edge. -/
theorem exists_diskEdge {g : RGraph} (hn : Named g) {sid did : String}
    (h : (sid, did) ∈ diskLinks g) :
    ∃ i s d, DiskEdge g i s d ∧ s.data.key = sid ∧ d.data.key = did := by
  obtain ⟨e, he, u, hu, v, hv, hsrc, hdst, hp⟩ :=
    hn.mem_links.1 (mem_diskLinks.1 h)
  injection hp with hpu hpv
  injection hpu with hpu
  injection hpv with hpv
  exact ⟨e.rid, u, v, ⟨hu, hv, (congrArg Prod.fst hpu).symm,
    (congrArg Prod.fst hpv).symm, e, he, rfl, hsrc.symm, hdst.symm⟩,
    (congrArg Prod.snd hpu).symm, (congrArg Prod.snd hpv).symm⟩

/-- Where the links are there once, an edge is known by its ends. -/
theorem DiskEdge.unique {g : RGraph} (hn : Named g)
    (honce : (diskLinks g).Nodup) {i j : Nat} {s d : PtrGraph.Node RNode}
    (hi : DiskEdge g i s d) (hj : DiskEdge g j s d) : i = j := by
  obtain ⟨e, he, rfl, hes, hed⟩ := hi.edge
  obtain ⟨f, hf, rfl, hfs, hfd⟩ := hj.edge
  have hname {e : PtrGraph.Edge Rat} (hsrc : e.src = s.addr)
      (hdst : e.dst = d.addr) :
      diskLink (PtrGraph.nameAt RNode.nodeName g e.src,
        PtrGraph.nameAt RNode.nodeName g e.dst)
        = some (s.data.key, d.data.key) := by
    rw [hsrc, hdst, hn.nameAt_eq hi.source, hn.nameAt_eq hi.dest,
      diskLink_eq_some, RNode.nodeName, RNode.nodeName, hi.storage, hi.dtn]
  have hnodup : (g.edges.filterMap fun e =>
      diskLink (PtrGraph.nameAt RNode.nodeName g e.src,
        PtrGraph.nameAt RNode.nodeName g e.dst)).Nodup := by
    unfold diskLinks links PtrGraph.links at honce
    rwa [List.filterMap_map] at honce
  exact congrArg PtrGraph.Edge.rid (inj_of_nodup_filterMap hnodup he hf
    (hname hes hed) (hname hfs hfd))

/-- It comes in at the DTN. -/
theorem DiskEdge.mem_ins {g : RGraph} (hn : Named g) {i : Nat}
    {s d : PtrGraph.Node RNode} (h : DiskEdge g i s d) : i ∈ d.ins := by
  obtain ⟨e, he, rfl, -, hdst⟩ := h.edge
  obtain ⟨v, hv, haddr, hin⟩ := hn.sound.dst_in e he
  rwa [hn.sound.node_unique hv h.dest (haddr.trans hdst)] at hin

/-- And goes out of the storage. -/
theorem DiskEdge.mem_outs {g : RGraph} (hn : Named g) {i : Nat}
    {s d : PtrGraph.Node RNode} (h : DiskEdge g i s d) : i ∈ s.outs := by
  obtain ⟨e, he, rfl, hsrc, -⟩ := h.edge
  obtain ⟨u, hu, haddr, hout⟩ := hn.sound.src_out e he
  rwa [hn.sound.node_unique hu h.source (haddr.trans hsrc)] at hout

/-- What leaves a storage leads to a DTN. -/
theorem diskEdge_of_out {g : RGraph} (hn : Named g) (hends : LinkEnds g)
    {s : PtrGraph.Node RNode} (hs : s ∈ g.nodes)
    (hk : s.data.kind = .storage) {i : Nat} (hi : i ∈ s.outs) :
    ∃ d, DiskEdge g i s d := by
  obtain ⟨e, he, rfl, hsrc⟩ := hn.sound.out_edge s hs i hi
  obtain ⟨u, hu, v, hv, hsrc', hdst, -, -⟩ := hn.edge_names he
  have hus : u = s := hn.sound.node_unique hu hs (hsrc'.trans hsrc)
  subst hus
  have hlink := hn.mem_links.2 ⟨e, he, u, hu, v, hv, hsrc', hdst, rfl⟩
  rcases hends _ hlink with ⟨did, hp⟩ | ⟨sid, did, hp⟩
  · injection hp with hp _
    injection hp with hp
    have hdtn : u.data.kind = .dtn := congrArg Prod.fst hp
    rw [hk] at hdtn
    cases hdtn
  · injection hp with _ hp
    injection hp with hp
    exact ⟨v, hu, hv, hk, congrArg Prod.fst hp, e, he, rfl, hsrc, hdst.symm⟩

/-- The DTN at its end is found. -/
theorem DiskEdge.dstDtn (hn : Named site.graph) {i : Nat}
    {s d : PtrGraph.Node RNode} (h : DiskEdge site.graph i s d) :
    site.dstDtn i = .ok d := by
  obtain ⟨e, he, rfl, -, hdst⟩ := h.edge
  have hedge : site.edgeAt e.rid = .ok e := by
    unfold SiteView.edgeAt
    rw [hn.sound.edge?_eq he]
  have hnode : site.nodeAt e.dst = .ok d := by
    unfold SiteView.nodeAt
    rw [hdst, hn.sound.node?_eq h.dest]
  unfold SiteView.dstDtn
  rw [hedge]
  show (site.nodeAt e.dst >>= fun d => _) = _
  rw [hnode]
  exact if_pos h.dtn

end Shown

section Portal

variable {inst : String → Instance}

/-- The module of a node that is not a general one. -/
theorem Sees.module_of {clients : String → Presence.Client} {R : Registry}
    {g : RGraph} (h : Sees inst clients R g) {n : PtrGraph.Node RNode}
    (hn : n ∈ g.nodes) (hk : n.data.kind ≠ .general) :
    ∃ k, clients k = .announced ∧ n.data.prop ∈ (inst k).modules
      ∧ slotName n.data.prop = some n.data.nodeName := by
  have hview := h.mirrors.proper.named.view_mem hn
  have hne : n.data.nodeName ≠ gatewayName :=
    fun he => hk (congrArg Prod.fst he)
  obtain ⟨⟨i, m⟩, hreg⟩ := h.mirrors.housed _ _ hview hne
  obtain ⟨k, hann, rfl, hm, hslot⟩ := (h.entry _ _ _).1 hreg
  have hprop := (h.mirrors.held _ _ _ _ hk hreg hview).1
  rw [hprop]
  exact ⟨k, hann, hm, hslot⟩

/-- A module in a place that is not general is a DTN or a storage, with its
id. -/
theorem slotName_kind {m : Module} {x : NodeName} (h : slotName m = some x)
    (hk : x.1 ≠ .general) :
    (m.type = .dtn ∨ m.type = .localStorage) ∧ m.id = x.2 := by
  obtain ⟨kind, id⟩ := x
  cases kind with
  | storage => exact ⟨.inr (slotName_storage h).1, (slotName_storage h).2⟩
  | dtn => exact ⟨.inl (slotName_dtn h).1, (slotName_dtn h).2⟩
  | general => exact absurd rfl hk

/-- A key is that of one node: a storage and a DTN have different ones. -/
theorem Sees.node_unique (ha : Agents inst)
    {clients : String → Presence.Client} {R : Registry} {g : RGraph}
    (h : Sees inst clients R g) {n m : PtrGraph.Node RNode}
    (hn : n ∈ g.nodes) (hm : m ∈ g.nodes) (hnk : n.data.kind ≠ .general)
    (hmk : m.data.kind ≠ .general) (hkey : n.data.key = m.data.key) :
    n = m := by
  obtain ⟨k, hk, hnm, hnslot⟩ := h.module_of hn hnk
  obtain ⟨j, hj, hmm, hmslot⟩ := h.module_of hm hmk
  have hid : n.data.prop.id = m.data.prop.id := by
    rw [(slotName_kind hnslot hnk).2, (slotName_kind hmslot hmk).2]
    exact hkey
  obtain rfl := h.same_agent hk hj hnm hmm hid
  have hprop := List.inj_on_of_nodup_map (ha.sane k).ids hnm hmm hid
  rw [hprop, hmslot] at hnslot
  injection hnslot with hname
  exact h.mirrors.proper.named.unique hn hm hname.symm

/-- A DTN that lists a storage. -/
def Serves (m n : Module) : Prop :=
  m.type = .dtn ∧ ∃ r ∈ m.storages, r.id = n.id

end Portal

end BigDataExpress
