/-
The users that the site store maps names to reach the agents of the DTNs.

The server prepares a request for every DTN in its graph, fills in the
mappings of the store, and sends. Preparing takes the DTNs by their ids
(`preparePerDtn_sorted`), filling puts every mapping behind those that its
DTN has (`fillPerDtn_reads`), and sending calls them one after the other
(`sendPerDtn_run`). Whatever the DTNs reply, the command does not fail.

When the server has handled what there is, the DTNs in its graph are those
of the announced agents. So each of their modules is sent, once, what the
store has for it, and its agent reads the entries back from the message in
the order of the store (`user_mapping_published`).
-/
import BigDataExpress.Agent.Gridmap
import BigDataExpress.Proofs.RpcHandler
import BigDataExpress.Server.OnMsg

namespace BigDataExpress

open Stateful ResourceManager RGraph

/-- A document of the store, as it is read. -/
structure UserMapping where
  cn : String
  dtnid : String
  username : String

namespace UserMapping

/-- What the fields of a document convert to. -/
structure Reads (doc : Json) (u : UserMapping) : Prop where
  cn : textOf doc "cn" = .ok u.cn
  dtnid : textOf doc "dtnid" = .ok u.dtnid
  username : textOf doc "username" = .ok u.username

def entry (u : UserMapping) : GridMapfile.Entry :=
  (u.cn.toList, u.username.toList)

/-- The entries for a DTN, in the order of the store. -/
def entriesFor (id : String) (users : List UserMapping) :
    List GridMapfile.Entry :=
  (users.filter fun u => u.dtnid = id).map entry

end UserMapping

-- ================================================================ preparing

/-- A DTN whose id is behind those there are. -/
theorem PerDtn.assign_last {perDtn : PerDtn} {id : String} {map : List Json}
    (h : ∀ p ∈ perDtn, p.1 < id) :
    perDtn.assign id map = perDtn ++ [(id, map)] := by
  induction perDtn with
  | nil => rfl
  | cons p rest ih =>
      obtain ⟨k, m⟩ := p
      have hk : k < id := h (k, m) (List.mem_cons_self ..)
      rw [PerDtn.assign, if_neg hk.ne, if_neg hk.not_gt,
        ih fun q hq => h q (List.mem_cons_of_mem _ hq)]
      rfl

theorem preparePerDtn_sorted {dtns : List Json} {ids : List String}
    (hread : List.Forall₂ (fun dtn id => textOf dtn "id" = .ok id) dtns ids)
    {perDtn : PerDtn} (hids : ids.Pairwise (· < ·))
    (hlater : ∀ p ∈ perDtn, ∀ id ∈ ids, p.1 < id) :
    preparePerDtn dtns perDtn
      = .ok (perDtn ++ ids.map fun id => (id, [])) := by
  induction hread generalizing perDtn with
  | nil => rw [List.map_nil, List.append_nil]; rfl
  | @cons dtn id dtns ids hid _ ih =>
      obtain ⟨hfirst, hrest⟩ := List.pairwise_cons.1 hids
      have hput : perDtn.assign id [] = perDtn ++ [(id, [])] :=
        PerDtn.assign_last fun p hp => hlater p hp id (List.mem_cons_self ..)
      have hnext : ∀ p ∈ perDtn ++ [(id, ([] : List Json))], ∀ j ∈ ids,
          p.1 < j := by
        intro p hp j hj
        rcases List.mem_append.1 hp with hp | hp
        · exact hlater p hp j (List.mem_cons_of_mem _ hj)
        · rw [List.mem_singleton.1 hp]
          exact hfirst j hj
      rw [preparePerDtn, hid]
      show preparePerDtn dtns (perDtn.assign id []) = _
      rw [hput, ih hrest hnext, List.append_assoc]
      rfl

-- ================================================================== filling

/-- The agent reads the items of the map as these entries. -/
abbrev ReadItems : List Json → List GridMapfile.Entry → Prop :=
  List.Forall₂ fun item e => readMapItem item = .ok e

/-- What `per_dtn` stands for: the entries of every DTN. -/
abbrev Stands : PerDtn → List (String × List GridMapfile.Entry) → Prop :=
  List.Forall₂ fun p q => p.1 = q.1 ∧ ReadItems p.2 q.2

theorem mapEntry_reads {doc : Json} {u : UserMapping} (h : u.Reads doc) :
    ∃ item, mapEntry doc = .ok item ∧ readMapItem item = .ok u.entry := by
  obtain ⟨dn, hdn, hcn⟩ := bind_eq_ok.1 h.cn
  obtain ⟨ln, hln, hname⟩ := bind_eq_ok.1 h.username
  refine ⟨.object [("dn", dn), ("ln", ln)], ?_, ?_⟩
  · unfold mapEntry
    rw [hdn, hln]
    rfl
  · unfold readMapItem
    rw [textOf_of_get (Json.get_object ..), textOf_of_get (Json.get_object ..)]
    show (dn.asString >>= fun dn => ln.asString >>= fun ln => _) = _
    rw [hcn, hname]
    rfl

theorem Stands.append {perDtn : PerDtn}
    {spec : List (String × List GridMapfile.Entry)} (h : Stands perDtn spec)
    {item : Json} {e : GridMapfile.Entry} (he : readMapItem item = .ok e)
    (id : String) :
    Stands (perDtn.append id item)
      (spec.map fun q => if q.1 = id then (q.1, q.2 ++ [e]) else q) := by
  induction h with
  | nil => exact .nil
  | @cons p q perDtn spec hpq _ ih =>
      refine .cons ?_ ih
      obtain ⟨hid, hitems⟩ := hpq
      by_cases hp : p.1 = id
      · have hq : q.1 = id := hid ▸ hp
        simp only [if_pos hp, if_pos hq]
        exact ⟨hid, List.rel_append hitems (.cons he .nil)⟩
      · have hq : q.1 ≠ id := hid ▸ hp
        simp only [if_neg hp, if_neg hq]
        exact ⟨hid, hitems⟩

/-- Nothing is added where the id is not there. -/
theorem Stands.map_absent {perDtn : PerDtn}
    {spec : List (String × List GridMapfile.Entry)} (h : Stands perDtn spec)
    {id : String} (hid : (perDtn.any fun p => p.1 = id) = false)
    (e : GridMapfile.Entry) :
    (spec.map fun q => if q.1 = id then (q.1, q.2 ++ [e]) else q) = spec := by
  induction h with
  | nil => rfl
  | @cons p q perDtn spec hpq _ ih =>
      rw [List.any_cons, Bool.or_eq_false_iff, decide_eq_false_iff_not,
        hpq.1] at hid
      rw [List.map_cons, if_neg hid.1, ih hid.2]

/-- Every mapping is put behind those its DTN has. -/
theorem fillPerDtn_reads {docs : List Json} {users : List UserMapping}
    (hread : List.Forall₂ (fun doc u => UserMapping.Reads doc u) docs users)
    {perDtn : PerDtn} {spec : List (String × List GridMapfile.Entry)}
    (h : Stands perDtn spec) :
    ∃ filled, fillPerDtn docs perDtn = .ok filled
      ∧ Stands filled (spec.map fun q =>
        (q.1, q.2 ++ UserMapping.entriesFor q.1 users)) := by
  induction hread generalizing perDtn spec with
  | nil =>
      refine ⟨perDtn, rfl, ?_⟩
      simpa [UserMapping.entriesFor] using h
  | @cons doc u docs users hu _ ih =>
      -- one more document, for every DTN of the list
      have hspec : (spec.map fun q =>
          (q.1, q.2 ++ UserMapping.entriesFor q.1 (u :: users)))
          = (spec.map fun q => if q.1 = u.dtnid then (q.1, q.2 ++ [u.entry])
              else q).map fun q =>
            (q.1, q.2 ++ UserMapping.entriesFor q.1 users) := by
        rw [List.map_map]
        apply List.map_congr_left
        intro q _
        unfold UserMapping.entriesFor
        by_cases hq : q.1 = u.dtnid
        · simp [hq]
        · simp [hq, Ne.symm hq]
      have hstep : fillPerDtn (doc :: docs) perDtn
          = if (perDtn.any fun p => p.1 = u.dtnid) = true then
              mapEntry doc >>= fun map =>
                fillPerDtn docs (perDtn.append u.dtnid map)
            else fillPerDtn docs perDtn := by
        rw [fillPerDtn, hu.dtnid]
        rfl
      rw [hstep]
      by_cases hid : (perDtn.any fun p => p.1 = u.dtnid) = true
      · obtain ⟨item, hitem, he⟩ := mapEntry_reads hu
        obtain ⟨filled, hfilled, hstands⟩ := ih (h.append he u.dtnid)
        refine ⟨filled, ?_, hspec ▸ hstands⟩
        rw [if_pos hid, hitem]
        exact hfilled
      · obtain ⟨filled, hfilled, hstands⟩ := ih h
        rw [Bool.not_eq_true] at hid
        refine ⟨filled, by rw [hid]; exact hfilled, ?_⟩
        rw [hspec, h.map_absent hid]
        exact hstands

-- ============================================================= the DTNs

section Nodes

variable {site : SiteView} {k : NodeKind}

theorem mem_nodesOf {n : PtrGraph.Node RNode} :
    n ∈ site.nodesOf k ↔ n ∈ site.graph.nodes ∧ n.data.kind = k := by
  unfold SiteView.nodesOf
  rw [List.mem_insertionSort, List.mem_filter, decide_eq_true_iff]

/-- The nodes of a map come by their keys, and every key once. -/
theorem nodesOf_sorted (h : Named site.graph) :
    (site.nodesOf k).Pairwise fun n m => n.data.key < m.data.key := by
  have htotal : Std.Total fun n m : PtrGraph.Node RNode =>
      n.data.key ≤ m.data.key := ⟨fun _ _ => le_total _ _⟩
  have htrans : IsTrans (PtrGraph.Node RNode) fun n m =>
      n.data.key ≤ m.data.key := ⟨fun _ _ _ => le_trans⟩
  have hle : (site.nodesOf k).Pairwise fun n m => n.data.key ≤ m.data.key :=
    List.pairwise_insertionSort _ _
  have hnodup : (site.nodesOf k).Nodup :=
    (List.perm_insertionSort _ _).nodup_iff.2
      ((List.Nodup.of_map _ h.names).filter _)
  refine (hle.and hnodup).imp_of_mem fun {n m} hn hm hnm => ?_
  refine lt_of_le_of_ne hnm.1 fun hkey => hnm.2 ?_
  obtain ⟨hn, hnk⟩ := mem_nodesOf.1 hn
  obtain ⟨hm, hmk⟩ := mem_nodesOf.1 hm
  exact h.unique hn hm (Prod.ext (hnk.trans hmk.symm) hkey)

/-- A DTN is not isolated. -/
theorem outs_of_uplinked (h : Named site.graph) (hup : Uplinked site.graph)
    {d : PtrGraph.Node RNode} (hd : d ∈ site.graph.nodes)
    (hk : d.data.kind = .dtn) : d.outs ≠ [] := by
  have hname : d.data.nodeName = (.dtn, d.data.key) := Prod.ext hk rfl
  have hview : view site.graph (.dtn, d.data.key) = some d.data :=
    hname ▸ h.view_mem hd
  obtain ⟨e, he, u, hu, v, -, hsrc, -, hp⟩ :=
    h.mem_links.1 (hup d.data.key d.data hview)
  obtain ⟨n, hn, haddr, hout⟩ := h.sound.src_out e he
  have hud : u = d := by
    apply h.unique hu hd
    exact (Option.some.inj (congrArg Prod.fst hp)).symm.trans hname.symm
  have hnu : n = u := h.sound.node_unique hn hu (haddr.trans hsrc.symm)
  rw [← hud, ← hnu]
  exact List.ne_nil_of_mem hout

theorem activeDtns_eq (h : Named site.graph) (hup : Uplinked site.graph) :
    site.activeDtns = site.nodesOf .dtn := by
  unfold SiteView.activeDtns
  rw [List.filter_eq_self]
  intro d hd
  obtain ⟨hd, hk⟩ := mem_nodesOf.1 hd
  exact decide_eq_true (outs_of_uplinked h hup hd hk)

end Nodes

-- ================================================================== sending

section Sending

variable {server : ServerView}

/-- The call for a DTN, with the entries of the store. -/
def PushesTo (users : List UserMapping) (n : PtrGraph.Node RNode)
    (c : String × Json) : Prop :=
  c.1 = n.data.queue ∧ ∃ items, c.2 = pushRequest n.data.key items
    ∧ ReadItems items (UserMapping.entriesFor n.data.key users)

theorem sendPerDtn_run {site : SiteView} {users : List UserMapping}
    {nodes : List (PtrGraph.Node RNode)} {perDtn : PerDtn}
    (h : List.Forall₂ (fun n p => (p.1 = n.data.key
      ∧ ReadItems p.2 (UserMapping.entriesFor n.data.key users))
      ∧ site.look (getDtnNode n.data.key) = .ok n
      ∧ RpcClient.topicOf n.data.queue ≠ "rpc/") nodes perDtn)
    (t : Session) :
    ∃ calls, sendPerDtn site perDtn t
        = .ok () { t with calls := t.calls ++ calls }
      ∧ List.Forall₂ (PushesTo users) nodes calls := by
  induction h generalizing t with
  | nil => exact ⟨[], by rw [List.append_nil]; rfl, .nil⟩
  | @cons n p nodes perDtn hp _ ih =>
      obtain ⟨⟨hid, hitems⟩, hlook, htopic⟩ := hp
      obtain ⟨id, items⟩ := p
      change id = n.data.key at hid
      subst hid
      obtain ⟨calls, hrun, hcalls⟩ := ih
        { t with calls := t.calls
            ++ [(n.data.queue, pushRequest n.data.key items)] }
      refine ⟨(n.data.queue, pushRequest n.data.key items) :: calls, ?_,
        .cons ⟨rfl, items, rfl, hitems⟩ hcalls⟩
      rw [sendPerDtn, Serve.read_bind_ok hlook, Serve.rpc_bind htopic, hrun,
        List.append_assoc]
      rfl

theorem publishDtnUserMapping_run (h : Named server.graph)
    (hup : Uplinked server.graph)
    (hnodes : ∀ n ∈ server.nodesOf .dtn,
      textOf (server.properties n.addr) "id" = .ok n.data.key
        ∧ RpcClient.topicOf n.data.queue ≠ "rpc/")
    {docs : List Json} {users : List UserMapping}
    (hdocs : server.getCnDtnUserMapping = .ok docs)
    (hread : List.Forall₂ (fun doc u => UserMapping.Reads doc u) docs users)
    (t : Session) :
    ∃ calls, publishDtnUserMapping server t = .ok (.object [("code", .int 0)])
        { t with calls := t.calls ++ calls }
      ∧ List.Forall₂ (PushesTo users) (server.nodesOf .dtn) calls := by
  have hlist : List.Forall₂ (fun dtn id => textOf dtn "id" = .ok id)
      server.getActiveDtnList
      ((server.nodesOf .dtn).map fun n => n.data.key) := by
    unfold SiteView.getActiveDtnList
    rw [activeDtns_eq h hup, List.forall₂_map_left_iff,
      List.forall₂_map_right_iff, List.forall₂_same]
    exact fun n hn => (hnodes n hn).1
  have hprepared : preparePerDtn server.getActiveDtnList [] = _ :=
    preparePerDtn_sorted hlist (List.pairwise_map.2 (nodesOf_sorted h))
      (fun _ hp => absurd hp List.not_mem_nil)
  rw [List.nil_append, List.map_map] at hprepared
  have hstands : Stands
      ((server.nodesOf .dtn).map ((fun id => (id, [])) ∘ fun n => n.data.key))
      ((server.nodesOf .dtn).map fun n => (n.data.key, [])) := by
    rw [Stands, List.forall₂_map_left_iff, List.forall₂_map_right_iff,
      List.forall₂_same]
    exact fun n _ => ⟨rfl, .nil⟩
  obtain ⟨filled, hfilled, hstands⟩ := fillPerDtn_reads hread hstands
  rw [List.map_map, Stands, List.forall₂_map_right_iff] at hstands
  have hlook : ∀ n ∈ server.nodesOf .dtn,
      server.look (getDtnNode n.data.key) = .ok n := by
    intro n hn
    obtain ⟨hmem, hk⟩ := mem_nodesOf.1 hn
    have hname : n.data.nodeName = (.dtn, n.data.key) := Prod.ext hk rfl
    rw [SiteView.look_getDtnNode, ← hname]
    exact h.find_eq hmem
  have hsend := (List.forall₂_and_left _ _).2
    ⟨fun n hn => And.intro (hlook n hn) (hnodes n hn).2, hstands.flip⟩
  obtain ⟨calls, hrun, hcalls⟩ := sendPerDtn_run
    (hsend.imp fun n p hp => ⟨hp.2, hp.1⟩) t
  refine ⟨calls, ?_, hcalls⟩
  rw [publishDtnUserMapping, Serve.read_bind_ok hprepared,
    Serve.read_bind_ok hdocs, Serve.read_bind_ok hfilled]
  show EStateM.bind (sendPerDtn server.toSiteView filled) _ t = _
  unfold EStateM.bind
  rw [hrun]
  rfl

end Sending

-- ================================================================ delivery

theorem readMap_reads {items : List Json} {es : List GridMapfile.Entry}
    (h : ReadItems items es) (gridmap : GridMapfile.Entries) :
    readMap items gridmap = .ok (gridmap.emplaceAll es) := by
  induction h generalizing gridmap with
  | nil => rfl
  | @cons item e items es he _ ih =>
      rw [readMap, he]
      exact ih (gridmap.emplace e)

/-- The daemon of an agent hands the request to the module, which reads
these entries from it. -/
def Delivers (i : Instance) (m : Module) (es : List GridMapfile.Entry)
    (request : Json) : Prop :=
  ∀ d : Daemon, d.mstore.map AgentModule.id = i.modules.map Module.id →
    ∃ n params, d.rpcMsgHandler request
        = .ok (.command n "dtn_push_gridmap_entries" params)
      ∧ n.id = m.id
      ∧ gridmapOf params = .ok ((Multimap.empty).emplaceAll es)

theorem delivers {i : Instance} {m : Module} (hm : m ∈ i.modules)
    (hid : m.id ≠ "" ∧ m.id ≠ "daemon") {items : List Json}
    {es : List GridMapfile.Entry} (h : ReadItems items es) :
    Delivers i m es (pushRequest m.id items) := by
  intro d hd
  have htarget : textOf (pushRequest m.id items) "target" = .ok m.id :=
    textOf_object rfl
  have hcmd : textOf (pushRequest m.id items) "cmd"
      = .ok "dtn_push_gridmap_entries" := textOf_object rfl
  obtain ⟨n, params, hrun, hn, hparams⟩ := handed hm hid htarget d hd _ hcmd
  refine ⟨n, params, hrun, hn, ?_⟩
  have hmap : (pushRequest m.id items).get "params"
      = .ok (.object [("map", .arr items)]) := Json.get_object ..
  rw [hmap] at hparams
  injection hparams with hparams
  rw [← hparams]
  exact readMap_reads h .empty

-- ========================================================== the properties

/-- The properties of a node are the JSON that its module was read from. -/
def SiteView.Registered (value : Float → Rat) (site : SiteView) : Prop :=
  ∀ n ∈ site.graph.nodes, n.data.kind ≠ .general →
    readModule value (site.properties n.addr) = .ok n.data.prop

section Read

variable {value : Float → Rat} {v : Json} {m : Module}

/-- A module has the id and the type of its head. -/
theorem readHead_of_readModule (h : readModule value v = .ok m) :
    ∃ head, readHead v = .ok head ∧ head.id = m.id
      ∧ head.type = m.type := by
  unfold readModule at h
  obtain ⟨head, hhead, h⟩ := bind_eq_ok.1 h
  refine ⟨head, hhead, ?_⟩
  split at h
  · obtain ⟨_, -, h⟩ := bind_eq_ok.1 h
    obtain ⟨_, -, h⟩ := bind_eq_ok.1 h
    obtain ⟨_, -, h⟩ := bind_eq_ok.1 h
    obtain ⟨_, -, h⟩ := bind_eq_ok.1 h
    obtain ⟨_, -, h⟩ := bind_eq_ok.1 h
    injection h with h
    subst h
    exact ⟨rfl, rfl⟩
  · obtain ⟨_, -, h⟩ := bind_eq_ok.1 h
    injection h with h
    subst h
    exact ⟨rfl, rfl⟩
  · injection h with h
    subst h
    exact ⟨rfl, rfl⟩

theorem textOf_of_readModule (h : readModule value v = .ok m) :
    textOf v "id" = .ok m.id := by
  obtain ⟨head, hhead, hid, -⟩ := readHead_of_readModule h
  obtain ⟨id, htext, h⟩ := bind_eq_ok.1 hhead
  obtain ⟨_, -, h⟩ := bind_eq_ok.1 h
  obtain ⟨_, -, h⟩ := bind_eq_ok.1 h
  injection h with h
  rw [htext, ← hid, ← h]

end Read

section Publish

variable {inst : String → Instance} {R : Registry} {g : RGraph}

/-- The agent of a node, and the module it registered. -/
structure Owns (inst : String → Instance) (R : Registry)
    (n : PtrGraph.Node RNode) (p : String × Module) : Prop where
  registered : R n.data.nodeName = some (inst p.1, p.2)
  id : p.2.id = n.data.key
  queue : n.data.queue = (inst p.1).queue

/-- The storages or the DTNs of the graph, by their keys, are those of the
announced agents. -/
theorem exists_owners (ha : Agents inst) {site : SiteView}
    (h : Mirrors R site.graph) {clients : String → Presence.Client}
    (hR : ∀ x i m, R x = some (i, m) ↔ ∃ k, clients k = .announced
      ∧ i = inst k ∧ m ∈ (inst k).modules ∧ slotName m = some x)
    {kind : NodeKind} (hkind : kind ≠ .general) :
    ∃ f : PtrGraph.Node RNode → String × Module,
      (∀ n ∈ site.nodesOf kind, Owns inst R n (f n))
      ∧ (((site.nodesOf kind).map f).map fun p => p.2.id).Pairwise (· < ·)
      ∧ ∀ k m, (k, m) ∈ (site.nodesOf kind).map f
        ↔ clients k = .announced ∧ m ∈ (inst k).modules
          ∧ slotName m = some (kind, m.id) := by
  have hid {m : Module} {key : String} (hs : slotName m = some (kind, key)) :
      m.id = key := by
    cases kind with
    | storage => exact (slotName_storage hs).2
    | dtn => exact (slotName_dtn hs).2
    | general => exact absurd rfl hkind
  have hname {n : PtrGraph.Node RNode} (hn : n ∈ site.nodesOf kind) :
      n.data.nodeName = (kind, n.data.key) :=
    Prod.ext (mem_nodesOf.1 hn).2 rfl
  have howner : ∀ n : PtrGraph.Node RNode, ∃ p : String × Module,
      n ∈ site.nodesOf kind → Owns inst R n p := by
    intro n
    by_cases hn : n ∈ site.nodesOf kind
    · have hview := h.proper.named.view_mem (mem_nodesOf.1 hn).1
      have hne : n.data.nodeName ≠ gatewayName := by
        rw [hname hn]
        exact fun he => hkind (congrArg Prod.fst he)
      obtain ⟨⟨i, m⟩, hx⟩ := h.housed _ _ hview hne
      obtain ⟨k, -, rfl, -, hslot⟩ := (hR _ _ _).1 hx
      obtain ⟨d, hd, -, hqueue⟩ := h.owned _ _ _ hx
      rw [hview] at hd
      injection hd with hd
      exact ⟨(k, m), fun _ => ⟨hx, hid (hname hn ▸ hslot), hd ▸ hqueue⟩⟩
    · exact ⟨("", {}), fun h => absurd h hn⟩
  choose f hf using howner
  refine ⟨f, hf, ?_, fun k m => ?_⟩
  · rw [List.map_map, List.pairwise_map]
    refine (nodesOf_sorted h.proper.named).imp_of_mem fun {n m} hn hm hlt => ?_
    show (f n).2.id < (f m).2.id
    rwa [(hf n hn).id, (hf m hm).id]
  · rw [List.mem_map]
    constructor
    · intro hkm
      obtain ⟨n, hn, heq⟩ := hkm
      have hreg := (hf n hn).registered
      have hkey := (hf n hn).id
      rw [hname hn, heq] at hreg
      rw [heq] at hkey
      obtain ⟨j, hj, hjk, hm, hslot⟩ := (hR _ _ _).1 hreg
      have hcid := congrArg Instance.cid hjk
      rw [ha.cid, ha.cid] at hcid
      subst hcid
      exact ⟨hj, hm, hslot.trans (by rw [hkey])⟩
    · intro hkm
      obtain ⟨hk, hm, hslot⟩ := hkm
      have hreg := (hR _ _ _).2 ⟨k, hk, rfl, hm, hslot⟩
      obtain ⟨d, hd, -, -⟩ := h.owned _ _ _ hreg
      obtain ⟨n, hfind, rfl⟩ := view_eq_some.1 hd
      obtain ⟨hmem, hn⟩ := PtrGraph.find_some hfind
      have hnode : n ∈ site.nodesOf kind :=
        mem_nodesOf.2 ⟨hmem, congrArg Prod.fst hn⟩
      refine ⟨n, hnode, ?_⟩
      have hsame := (hf n hnode).registered
      rw [hn, hreg] at hsame
      injection hsame with hsame
      injection hsame with hinst hmod
      have hcid := congrArg Instance.cid hinst
      rw [ha.cid, ha.cid] at hcid
      exact Prod.ext hcid.symm hmod.symm

theorem slotName_eq_dtn {m : Module} :
    slotName m = some (.dtn, m.id) ↔ m.type = .dtn := by
  refine ⟨fun h => (slotName_dtn h).1, fun h => ?_⟩
  unfold slotName
  rw [h]

/-- When the server has handled what there is, publishing the user mapping
sends every DTN module of an announced agent one request, by their ids, and
the module reads from it the entries that the store has for it. Nothing
else is sent, and the answer is 0. -/
theorem user_mapping_published (ha : Agents inst)
    (hids : ∀ k, ∀ m ∈ (inst k).modules, m.id ≠ "" ∧ m.id ≠ "daemon")
    (hqueue : ∀ k, (inst k).modules ≠ [] →
      RpcClient.topicOf (inst k).queue ≠ "rpc/")
    {s : SiteState}
    (hrun : SiteRun inst (Presence.Guarded (Rivals inst)) {} s)
    {o : Presence.Observer String RGraph} (ho : s.observer = some o)
    (hs : o.subscribed = true) (hin : o.inbox = []) (hq : o.queue = [])
    {server : ServerView} (hg : server.graph = o.state)
    {value : Float → Rat} (hprops : server.Registered value)
    {docs : List Json} {users : List UserMapping}
    (hdocs : server.getCnDtnUserMapping = .ok docs)
    (hread : List.Forall₂ (fun doc u => UserMapping.Reads doc u) docs users)
    (t : Session) :
    ∃ (pushed : List (String × Module)) (calls : List (String × Json)),
      (pushed.map fun p => p.2.id).Pairwise (· < ·)
      ∧ (∀ k m, (k, m) ∈ pushed ↔ s.clients k = .announced
        ∧ m ∈ (inst k).modules ∧ m.type = .dtn)
      ∧ publishDtnUserMapping server t = .ok (.object [("code", .int 0)])
        { t with calls := t.calls ++ calls }
      ∧ List.Forall₂ (fun p c => c.1 = (inst p.1).queue
        ∧ Delivers (inst p.1) p.2 (UserMapping.entriesFor p.2.id users) c.2)
        pushed calls := by
  obtain ⟨R, hmirror, hR⟩ :=
    mirrors_of_orderly ha (orderly_of_run hrun) ho hs hin hq
  rw [← hg] at hmirror
  have hdtn : NodeKind.dtn ≠ .general := by simp
  obtain ⟨f, hf, hsorted, hmem⟩ := exists_owners ha hmirror hR hdtn
  have hnodes : ∀ n ∈ server.nodesOf .dtn,
      textOf (server.properties n.addr) "id" = .ok n.data.key
        ∧ RpcClient.topicOf n.data.queue ≠ "rpc/" := by
    intro n hn
    obtain ⟨hnode, hk⟩ := mem_nodesOf.1 hn
    have hreg := (hf n hn).registered
    obtain ⟨j, -, hj, hm, -⟩ := (hR _ _ _).1 hreg
    have hname : n.data.nodeName = (.dtn, n.data.key) := Prod.ext hk rfl
    rw [hname] at hreg
    have hprop := (hmirror.held _ _ _ _ hdtn hreg
      (hname ▸ hmirror.proper.named.view_mem hnode)).1
    refine ⟨?_, (hf n hn).queue ▸ hj ▸ hqueue j (List.ne_nil_of_mem hm)⟩
    rw [textOf_of_readModule (hprops n hnode (by rw [hk]; exact hdtn)), hprop,
      (hf n hn).id]
  obtain ⟨calls, hpublish, hcalls⟩ := publishDtnUserMapping_run
    hmirror.proper.named hmirror.uplinked hnodes hdocs hread t
  refine ⟨(server.nodesOf .dtn).map f, calls, hsorted, fun k m => ?_,
    hpublish, ?_⟩
  · rw [hmem, slotName_eq_dtn]
  · rw [List.forall₂_map_left_iff]
    have hall := (List.forall₂_and_left _ _).2
      ⟨fun n (hn : n ∈ server.nodesOf .dtn) => hn, hcalls⟩
    refine hall.imp fun n c hc => ?_
    obtain ⟨hn, hto, items, hitems, hreads⟩ := hc
    have howner := hf n hn
    obtain ⟨k, -, hk, hm, -⟩ := (hR _ _ _).1 howner.registered
    refine ⟨hto.trans howner.queue, ?_⟩
    rw [hitems, ← howner.id]
    rw [← howner.id] at hreads
    have hown : (f n).2 ∈ (inst (f n).1).modules := hk ▸ hm
    exact delivers hown (hids _ _ hown) hreads

/-- What the agent registers its modules with. -/
def oneAgentWire (m : Module) : Json :=
  if m.type = .dtn then
    .object [("id", .str "dtn"), ("type", .str "DTN"),
      ("storages", .arr [.object [("id", .str "disk")]])]
  else .object [("id", .str "disk"), ("type", .str "LocalStorage")]

theorem oneAgentWire_read : ∀ k, ∀ m ∈ (oneAgent k).modules,
    readModule (fun _ => 0) (oneAgentWire m) = .ok m := by
  intro k m hm
  by_cases hk : k = "a"
  · subst hk
    rcases List.mem_cons.1 hm with rfl | hm
    · rfl
    · rw [List.mem_singleton.1 hm]
      rfl
  · rw [oneAgent, if_neg hk] at hm
    cases hm

/-- The server has kept what the agent registered. -/
theorem oneAgent_registered {s : SiteState}
    (hrun : SiteRun oneAgent (Presence.Guarded (Rivals oneAgent)) {} s)
    {o : Presence.Observer String RGraph} (ho : s.observer = some o)
    (hs : o.subscribed = true) (hin : o.inbox = []) (hq : o.queue = []) :
    SiteView.Registered (fun _ => 0) ⟨o.state, fun a =>
      (o.state.node? a).elim .null fun n => oneAgentWire n.data.prop⟩ := by
  obtain ⟨R, hmirror, hR⟩ :=
    mirrors_of_orderly oneAgent_agents (orderly_of_run hrun) ho hs hin hq
  intro n hn hk
  have hnode : o.state.node? n.addr = some n :=
    hmirror.proper.named.sound.node?_eq hn
  show readModule _ ((o.state.node? n.addr).elim .null _) = _
  rw [hnode]
  have hview := hmirror.proper.named.view_mem hn
  have hne : n.data.nodeName ≠ gatewayName :=
    fun he => hk (congrArg Prod.fst he)
  obtain ⟨⟨i, m⟩, hreg⟩ := hmirror.housed _ _ hview hne
  obtain ⟨j, -, rfl, hm, -⟩ := (hR _ _ _).1 hreg
  have hprop := (hmirror.held _ _ _ _ hk hreg hview).1
  show readModule _ (oneAgentWire n.data.prop) = .ok n.data.prop
  rw [hprop]
  exact oneAgentWire_read j m hm

/-- One agent with a DTN, and one user of it in the store. -/
theorem user_mapping_published_one : ∃ (s : SiteState) (server : ServerView)
    (pushed : List (String × Module)) (calls : List (String × Json)),
    s.clients "a" = .announced
      ∧ (∀ k m, (k, m) ∈ pushed ↔ s.clients k = .announced
        ∧ m ∈ (oneAgent k).modules ∧ m.type = .dtn)
      ∧ publishDtnUserMapping server muteSession
        = .ok (.object [("code", .int 0)])
          { muteSession with calls := muteSession.calls ++ calls }
      ∧ List.Forall₂ (fun p c => c.1 = (oneAgent p.1).queue
        ∧ Delivers (oneAgent p.1) p.2
          (UserMapping.entriesFor p.2.id [⟨"alice", "dtn", "al"⟩]) c.2)
        pushed calls := by
  obtain ⟨s, o, hrun, hclient, ho, hs, hin, hq⟩ := oneAgent_settled
  let properties : Nat → Json := fun a => (o.state.node? a).elim .null
    fun n => oneAgentWire n.data.prop
  let doc : Json := .obj [("cn", .str "alice"), ("dtnid", .str "dtn"),
    ("username", .str "al")]
  let server : ServerView := ⟨⟨o.state, properties⟩, .ok [doc],
    fun _ _ => .ok "", .null, fun _ _ => .ok 0, fun _ _ => .ok []⟩
  have hqueue : ∀ k, (oneAgent k).modules ≠ [] →
      RpcClient.topicOf (oneAgent k).queue ≠ "rpc/" := by
    intro k hk
    by_cases ha : k = "a"
    · subst ha
      change RpcClient.topicOf "rpc/a" ≠ "rpc/"
      decide +kernel
    · exact absurd (if_neg ha) hk
  have hprops : server.Registered fun _ => 0 :=
    oneAgent_registered hrun ho hs hin hq
  have hreads : UserMapping.Reads doc ⟨"alice", "dtn", "al"⟩ :=
    ⟨rfl, rfl, rfl⟩
  obtain ⟨pushed, calls, -, hpushed, hpublish, hcalls⟩ :=
    user_mapping_published oneAgent_agents oneAgent_ids hqueue hrun ho hs hin
      hq rfl hprops rfl (.cons hreads .nil) muteSession
  exact ⟨s, server, pushed, calls, hclient, hpushed, hpublish, hcalls⟩

end Publish

end BigDataExpress
