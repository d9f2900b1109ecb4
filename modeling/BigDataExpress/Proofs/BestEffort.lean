/-
The DTNs that a site offers for a best-effort transfer (server/scheduler.cc,
`get_available_best_effort_dtn`).

The command asks the agent of a storage for its rates, and then every DTN
that the storage is connected to for its status. It answers with an entry
for each of the DTNs, those of a private address apart. A reply can be
anything; one that lacks something it converts makes the command throw,
with the calls made so far.

When the server has handled what there is, a storage is connected to the
DTNs of its agent that list it (`Sees.connected`). So these are asked, each
of them once (`best_effort_dtns_offered`).
-/
import BigDataExpress.Proofs.Topology

namespace BigDataExpress

open Stateful ResourceManager RGraph

-- ====================================================== calls in an order

section Calls

variable {α β : Type} {P : α → String × Json → Prop} {a : α} {l l' : List α}
  {s s' s'' : Session}

/-- The calls for the items of a list were made, in its order, and nothing
was sent. -/
structure AskedAll (P : α → String × Json → Prop) (l : List α)
    (s s' : Session) : Prop where
  sent : s'.sent = s.sent
  calls : ∃ cs, s'.calls = s.calls ++ cs ∧ List.Forall₂ P l cs

theorem AskedAll.nil (P : α → String × Json → Prop) (s : Session) :
    AskedAll P [] s s :=
  ⟨rfl, [], by simp, .nil⟩

theorem AskedAll.append (h : AskedAll P l s s') (h' : AskedAll P l' s' s'') :
    AskedAll P (l ++ l') s s'' := by
  obtain ⟨cs, hcs, hl⟩ := h.calls
  obtain ⟨cs', hcs', hl'⟩ := h'.calls
  refine ⟨h'.sent.trans h.sent, cs ++ cs', ?_, List.rel_append hl hl'⟩
  rw [hcs', hcs, List.append_assoc]

/-- The calls for the first items of a list. -/
def AskedFirst (P : α → String × Json → Prop) (l : List α)
    (s s' : Session) : Prop :=
  ∃ l', l' <+: l ∧ AskedAll P l' s s'

theorem AskedFirst.none (P : α → String × Json → Prop) (l : List α)
    (s : Session) : AskedFirst P l s s :=
  ⟨[], List.nil_prefix, .nil P s⟩

theorem AskedFirst.cons (h : AskedAll P [a] s s') (h' : AskedFirst P l s' s'') :
    AskedFirst P (a :: l) s s'' := by
  obtain ⟨l', hl, h'⟩ := h'
  exact ⟨a :: l', List.cons_prefix_cons.2 ⟨rfl, hl⟩, h.append h'⟩

theorem wp_read_bind {x : Except String α} (hx : x = .ok a)
    {f : α → Serve β} {Q : β → Session → Prop} {E : Session → Prop} :
    wp (Serve.read x >>= f) Q E s ↔ wp (f a) Q E s := by
  rw [hx]
  rfl

end Calls

-- ============================================================== the entries

/-- An entry of a DTN, among the private or the public ones. -/
structure Offers (isPrivate : Bool) (m : Module) (entry : Json) : Prop where
  id : textOf entry "id" = .ok m.id
  address : ∃ ip, textOf entry "data_ip" = .ok ip
    ∧ isPrivateIp ip = isPrivate

section Connected

variable {site : SiteView}

/-- A storage is connected to the DTNs that it leads to, each of them
once. -/
theorem getStorageConnectedDtns_eq (hn : Named site.graph)
    (hends : LinkEnds site.graph) (honce : (diskLinks site.graph).Nodup)
    {s : PtrGraph.Node RNode} (hs : s ∈ site.nodesOf .storage) :
    ∃ dtns, site.getStorageConnectedDtns s.data.key = .ok dtns
      ∧ dtns.Nodup ∧ ∀ d, d ∈ dtns ↔ d ∈ site.nodesOf .dtn
        ∧ (s.data.key, d.data.key) ∈ diskLinks site.graph := by
  obtain ⟨hmem, hk⟩ := mem_nodesOf.1 hs
  have hname : s.data.nodeName = (.storage, s.data.key) := Prod.ext hk rfl
  have hfind : find site.graph (.storage, s.data.key) = some s :=
    hname ▸ hn.find_eq hmem
  have hdest : ∀ i, ∃ d, i ∈ s.outs → DiskEdge site.graph i s d := by
    intro i
    by_cases hi : i ∈ s.outs
    · obtain ⟨d, h⟩ := diskEdge_of_out hn hends hmem hk hi
      exact ⟨d, fun _ => h⟩
    · exact ⟨s, fun h => absurd h hi⟩
  choose dest hdest using hdest
  have hdtns : s.outs.mapM site.dstDtn = .ok (s.outs.map dest) := by
    rw [mapM_eq_ok, List.forall₂_map_right_iff, List.forall₂_same]
    exact fun i hi => (hdest i hi).dstDtn hn
  refine ⟨s.outs.map dest, ?_, ?_, fun d => ?_⟩
  · have hhas : hasStorageNode site.graph s.data.key = true := by
      unfold hasStorageNode
      rw [hfind]
      rfl
    have hlook : site.look (getStorageNode s.data.key) = .ok s := by
      unfold SiteView.look
      rw [getStorageNode, get_bind_run, hfind]
      rfl
    unfold SiteView.getStorageConnectedDtns
    rw [if_pos hhas, hlook]
    exact hdtns
  · refine List.Nodup.map_on (fun i hi j hj hij => ?_)
      (hn.sound.outs_nodup s hmem)
    exact (hdest i hi).unique hn honce (hij ▸ hdest j hj)
  · rw [List.mem_map]
    constructor
    · intro h
      obtain ⟨i, hi, rfl⟩ := h
      have hedge := hdest i hi
      exact ⟨mem_nodesOf.2 ⟨hedge.dest, hedge.dtn⟩, hedge.link hn⟩
    · intro h
      obtain ⟨hd, hlink⟩ := h
      obtain ⟨hdmem, hdk⟩ := mem_nodesOf.1 hd
      obtain ⟨i, s', d', hedge, hskey, hdkey⟩ := exists_diskEdge hn hlink
      obtain rfl := hn.unique hedge.source hmem
        (Prod.ext (hedge.storage.trans hk.symm) hskey)
      obtain rfl := hn.unique hedge.dest hdmem
        (Prod.ext (hedge.dtn.trans hdk.symm) hdkey)
      have hi := hedge.mem_outs hn
      have hsame := (hdest i hi).dstDtn hn
      rw [hedge.dstDtn hn] at hsame
      injection hsame with hsame
      exact ⟨i, hi, hsame.symm⟩

end Connected

section Offered

variable {inst : String → Instance}

/-- The node of a module of an announced agent. -/
theorem Sees.node {clients : String → Presence.Client} {R : Registry}
    {site : SiteView} (h : Sees inst clients R site.graph) {k : String}
    {m : Module} (hk : clients k = .announced) (hm : m ∈ (inst k).modules)
    {kind : NodeKind} (hslot : slotName m = some (kind, m.id)) :
    R (kind, m.id) = some (inst k, m) ∧ ∃ d ∈ site.nodesOf kind,
      d.data.key = m.id ∧ find site.graph (kind, m.id) = some d
        ∧ d.data.rid = m.id ∧ d.data.queue = (inst k).queue := by
  have hreg := (h.entry _ _ _).2 ⟨k, hk, rfl, hm, hslot⟩
  obtain ⟨_, hd, hrid, hqueue⟩ := h.mirrors.owned _ _ _ hreg
  obtain ⟨d, hfind, rfl⟩ := view_eq_some.1 hd
  obtain ⟨hmem, hname⟩ := PtrGraph.find_some hfind
  exact ⟨hreg, d, mem_nodesOf.2 ⟨hmem, congrArg Prod.fst hname⟩,
    congrArg Prod.snd hname, hfind, hrid, hqueue⟩

/-- The node of a storage of an announced agent, and the DTNs that it is
connected to: those of its agent that list it. -/
theorem Sees.connected (ha : Agents inst) (hhome : Homed inst)
    {clients : String → Presence.Client} {R : Registry} {site : SiteView}
    (h : Sees inst clients R site.graph) {k : String} {n : Module}
    (hk : clients k = .announced) (hn : n ∈ (inst k).modules)
    (ht : n.type = .localStorage) :
    site.getNodeQueueName n.id = .ok (inst k).queue
      ∧ ∃ (nodes : List (PtrGraph.Node RNode)) (dtns : List Module),
        site.getStorageConnectedDtns n.id = .ok nodes
        ∧ (dtns.map Module.id).Nodup
        ∧ (∀ m, m ∈ dtns ↔ m ∈ (inst k).modules ∧ Serves m n)
        ∧ List.Forall₂ (fun d m => d.data.queue = (inst k).queue
          ∧ d.data.rid = m.id ∧ m.type = .dtn) nodes dtns := by
  have hnamed := h.mirrors.proper.named
  have hslot : slotName n = some (.storage, n.id) := by
    unfold slotName
    rw [ht]
  obtain ⟨-, s, hs, hkey, hfind, -, hqueue⟩ := h.node hk hn hslot
  obtain ⟨nodes, hnodes, hnodup, hmem⟩ :=
    getStorageConnectedDtns_eq hnamed h.wired.ends h.wired.once hs
  rw [hkey] at hnodes hmem
  -- the module of a node that the storage leads to
  have hmodule : ∀ d, ∃ m, d ∈ nodes → m ∈ (inst k).modules ∧ Serves m n
      ∧ m.id = d.data.key ∧ d.data.queue = (inst k).queue
        ∧ d.data.rid = m.id := by
    intro d
    by_cases hd : d ∈ nodes
    · obtain ⟨hdtn, hlink⟩ := (hmem d).1 hd
      obtain ⟨j, hj, m, hm, hmt, hmid, hlist, p, hp, -, hpid⟩ :=
        (h.lists_iff hhome).1 ((h.wired.mem _ _).1 hlink)
      obtain rfl := h.same_agent hk hj hn hp hpid.symm
      obtain ⟨-, e, he, hekey, -, hrid, hequeue⟩ :=
        h.node hk hm (slotName_eq_dtn.2 hmt)
      obtain ⟨hemem, hek⟩ := mem_nodesOf.1 he
      obtain ⟨hdmem, hdk⟩ := mem_nodesOf.1 hdtn
      obtain rfl := hnamed.unique hemem hdmem
        (Prod.ext (hek.trans hdk.symm) (hekey.trans hmid))
      exact ⟨m, fun _ => ⟨hm, ⟨hmt, hlist⟩, hmid, hequeue, hrid⟩⟩
    · exact ⟨{}, fun h => absurd h hd⟩
  choose f hf using hmodule
  refine ⟨?_, nodes, nodes.map f, hnodes, ?_, fun m => ?_, ?_⟩
  · have hlookup : RGraph.lookup site.graph n.id = some s := by
      unfold RGraph.lookup
      rw [hfind]
      rfl
    have hlook : site.look (getNode n.id) = .ok s := by
      unfold SiteView.look
      rw [getNode, get_bind_run, hlookup]
      rfl
    unfold SiteView.getNodeQueueName
    rw [hlook]
    exact congrArg Except.ok hqueue
  · rw [List.map_map]
    refine List.Nodup.map_on (fun d hd e he hde => ?_) hnodup
    obtain ⟨-, -, hdkey, -⟩ := hf d hd
    obtain ⟨-, -, hekey, -⟩ := hf e he
    obtain ⟨hdmem, hdk⟩ := mem_nodesOf.1 ((hmem d).1 hd).1
    obtain ⟨hemem, hek⟩ := mem_nodesOf.1 ((hmem e).1 he).1
    apply hnamed.unique hdmem hemem
    exact Prod.ext (hdk.trans hek.symm) (hdkey.symm.trans (hde.trans hekey))
  · rw [List.mem_map]
    constructor
    · intro hm
      obtain ⟨d, hd, rfl⟩ := hm
      exact ⟨(hf d hd).1, (hf d hd).2.1⟩
    · intro hm
      obtain ⟨hm, hserves⟩ := hm
      obtain ⟨-, d, hd, hdkey, -⟩ :=
        h.node hk hm (slotName_eq_dtn.2 hserves.1)
      have hlink : (n.id, d.data.key) ∈ diskLinks site.graph := by
        rw [h.wired.mem, h.lists_iff hhome]
        exact ⟨k, hk, m, hm, hserves.1, hdkey.symm, hserves.2, n, hn, ht, rfl⟩
      have hdn := (hmem d).2 ⟨hd, hlink⟩
      obtain ⟨hmod, -, hid, -⟩ := hf d hdn
      exact ⟨d, hdn,
        List.inj_on_of_nodup_map (ha.sane k).ids hmod hm (hid.trans hdkey)⟩
  · rw [List.forall₂_map_right_iff, List.forall₂_same]
    intro d hd
    obtain ⟨-, hserves, -, hqueue, hrid⟩ := hf d hd
    exact ⟨hqueue, hrid, hserves.1⟩

end Offered

end BigDataExpress
