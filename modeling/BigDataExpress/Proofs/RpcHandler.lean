/-
What the commands of the server ask, and what they answer.

# One command

A command is taken apart into what it reads, what it calls and what it
answers. `Asks P` says of a program that its calls satisfy `P`, whatever
the replies are and whether it returns or throws, and that it sends no
response; it is kept by the steps a command is made of. That every call
goes to a node of the graph which it names (`Addressed`) follows command by
command, and so does that the dispatcher answers a request once
(`answered_once`).

# The agents

A server that has handled what there is has the modules of the announced
agents in its graph (`Shows`). So a request that it publishes is on the
queue of an announced agent, and the agent hands it to a module of its own
(`requests_reach_modules`).
-/
import BigDataExpress.Server.RpcHandler
import BigDataExpress.Agent.Daemon
import BigDataExpress.Proofs.Serve
import BigDataExpress.Proofs.Presence

namespace BigDataExpress

open Stateful ResourceManager RGraph

-- ========================================================== JSON members

namespace Json

/-- After a row of assignments a name has the value it was given last. -/
theorem lookup_foldl_assign (key : String) (fields acc : List (String × Json)) :
    lookup key (fields.foldl (fun acc kv => assign kv.1 kv.2 acc) acc)
      = (lookup key fields.reverse).or (lookup key acc) := by
  induction fields using List.reverseRecOn with
  | nil => rfl
  | append_singleton fields kv ih =>
      rw [List.foldl_append, List.reverse_append]
      show lookup key (assign kv.1 kv.2 _) = _
      rw [lookup_assign, ih]
      show _ = (if kv.1 = key then some kv.2 else _).or _
      by_cases hk : kv.1 = key
      · rw [if_pos hk, if_pos hk]
        rfl
      · rw [if_neg hk, if_neg hk]
        rfl

/-- The last of several members of one name is kept. -/
theorem get_object (key : String) (fields : List (String × Json)) :
    (object fields).get key
      = .ok ((lookup key fields.reverse).getD .null) := by
  rw [object, get_obj, lookup_foldl_assign]
  cases lookup key fields.reverse <;> rfl

/-- What was put under a name is found there. -/
theorem get_of_set {v w x : Json} {key : String} (h : v.set key x = .ok w) :
    w.get key = .ok x := by
  obtain ⟨fields, -, hw⟩ := bind_eq_ok.1 h
  injection hw with hw
  rw [← hw, get_obj, lookup_assign, if_pos rfl]
  rfl

/-- What was fetched, and made if it was missing, is found there. -/
theorem get_of_fetch {v w x : Json} {key : String}
    (h : v.fetch key = .ok (x, w)) : w.get key = .ok x := by
  obtain ⟨fields, -, hw⟩ := bind_eq_ok.1 h
  cases hl : lookup key fields with
  | some y =>
      rw [hl] at hw
      cases hw
      rw [get_obj, hl]
      rfl
  | none =>
      rw [hl] at hw
      cases hw
      rw [get_obj, lookup_assign, if_pos rfl]
      rfl

end Json

/-- The text of a member is the text of what is found there. -/
theorem textOf_of_get {v x : Json} {key : String} (h : v.get key = .ok x) :
    textOf v key = x.asString := by
  unfold textOf
  rw [h]
  rfl

/-- The text of a member of an object as it is written. -/
theorem textOf_object {key s : String} {fields : List (String × Json)}
    (h : Json.lookup key fields.reverse = some (.str s)) :
    textOf (.object fields) key = .ok s := by
  rw [textOf_of_get (Json.get_object key fields), h]
  rfl

-- ===================================================== asking and answering

section Asking

variable {α β : Type} {P : String → Json → Prop} {s s' s'' : Session}

/-- Calls were made, all of the kind. -/
def Called (P : String → Json → Prop) (s s' : Session) : Prop :=
  ∃ cs, s'.calls = s.calls ++ cs ∧ ∀ c ∈ cs, P c.1 c.2

/-- What is published in a row is all allowed if each part is. -/
theorem Called.trans (h : Called P s s') (h' : Called P s' s'') :
    Called P s s'' := by
  obtain ⟨cs, hcs, hP⟩ := h
  obtain ⟨ds, hds, hQ⟩ := h'
  refine ⟨cs ++ ds, ?_, fun c hc => ?_⟩
  · rw [hds, hcs, List.append_assoc]
  · rcases List.mem_append.1 hc with hc | hc
    · exact hP c hc
    · exact hQ c hc

/-- What is allowed may be weakened. -/
theorem Called.mono {Q : String → Json → Prop} (h : Called P s s')
    (hPQ : ∀ q r, P q r → Q q r) : Called Q s s' := by
  obtain ⟨cs, hcs, hP⟩ := h
  exact ⟨cs, hcs, fun c hc => hPQ _ _ (hP c hc)⟩

/-- Where nothing was published, nothing was that is not allowed. -/
theorem Called.of_eq (h : s'.calls = s.calls) : Called P s s' :=
  ⟨[], by rw [h, List.append_nil], fun _ hc => (by cases hc)⟩

/-- One request that is allowed. -/
theorem Called.one {queue : String} {request : Json}
    (h : s'.calls = s.calls ++ [(queue, request)]) (hP : P queue request) :
    Called P s s' :=
  ⟨_, h, fun _ hc => List.mem_singleton.1 hc ▸ hP⟩

/-- Calls of the kind were made, and nothing was sent. -/
structure Asked (P : String → Json → Prop) (s s' : Session) : Prop where
  sent : s'.sent = s.sent
  calls : Called P s s'

/-- Nothing asked and nothing sent. -/
theorem Asked.refl (P : String → Json → Prop) (s : Session) : Asked P s s :=
  ⟨rfl, .of_eq rfl⟩

/-- Requests in a row, with nothing sent. -/
theorem Asked.trans (h : Asked P s s') (h' : Asked P s' s'') :
    Asked P s s'' :=
  ⟨h'.sent.trans h.sent, h.calls.trans h'.calls⟩

/-- Whatever is replied, the program makes calls of the kind only, and
sends nothing. -/
def Asks (P : String → Json → Prop) (x : Serve α) : Prop :=
  ∀ s, wp x (fun _ s' => Asked P s s') (fun s' => Asked P s s') s

namespace Asks

/-- A result asks nothing. -/
theorem pure (a : α) : Asks P (Pure.pure a : Serve α) := Asked.refl P

/-- An exception asks nothing. -/
theorem throw (e : String) : Asks P (MonadExcept.throw e : Serve α) :=
  Asked.refl P

/-- Reading asks nothing, whether it throws or not. -/
theorem read (x : Except String α) : Asks P (Serve.read x) := by
  cases x with
  | ok a => exact pure a
  | error e => exact throw e

/-- A sequence asks what its parts ask. -/
theorem bind {x : Serve α} {f : α → Serve β} (hx : Asks P x)
    (hf : ∀ a, Asks P (f a)) : Asks P (x >>= f) := by
  intro s
  rw [wp_bind]
  refine (hx s).mono (fun a s' h => ?_) fun _ h => h
  exact (hf a s').mono (fun _ _ h' => h.trans h') fun _ h' => h.trans h'

/-- After a read, with what is known of the value. -/
theorem read_bind {x : Except String α} {f : α → Serve β}
    (hf : ∀ a, x = .ok a → Asks P (f a)) : Asks P (Serve.read x >>= f) := by
  cases x with
  | ok a => exact hf a rfl
  | error e => exact throw e

/-- A call asks its one request. -/
theorem call {queue : String} {request : Json} (h : P queue request) :
    Asks P (Serve.call queue request) :=
  fun _ => ⟨rfl, .one rfl h⟩

/-- So does one that may be refused for want of a target. -/
theorem rpc {queue : String} {request : Json} (h : P queue request) :
    Asks P (Serve.rpc queue request) := by
  unfold Serve.rpc
  split
  · exact throw _
  · exact call h

/-- A choice asks what the branch taken asks. -/
theorem ite {c : Prop} [Decidable c] {x y : Serve α} (hx : c → Asks P x)
    (hy : Asks P y) : Asks P (if c then x else y) := by
  by_cases hc : c
  · rw [if_pos hc]
    exact hx hc
  · rw [if_neg hc]
    exact hy

end Asks

end Asking

-- =================================================== where the calls go

section Calls

variable {site : SiteView}

/-- The name of the SDN agent in the graph. -/
def sdnName : NodeName := (.general, sdnId)

/-- The queue of a node that the request names, by its id or by the key it
is kept under. What is for the SDN agent names no node. -/
def Addressed (g : RGraph) (queue : String) (request : Json) : Prop :=
  ∃ n ∈ g.nodes, n.data.queue = queue
    ∧ (textOf request "target" = .ok n.data.rid
      ∨ textOf request "target" = .ok n.data.key ∨ n.data.nodeName = sdnName)

/-- A node found by its id alone has some kind and that id. -/
theorem look_getNode {id : String} {n : PtrGraph.Node RNode}
    (h : site.look (getNode id) = .ok n) :
    ∃ k, find site.graph (k, id) = some n := by
  unfold SiteView.look at h
  rw [getNode, get_bind_run] at h
  cases hl : RGraph.lookup site.graph id with
  | none =>
      rw [hl] at h
      cases h
  | some m =>
      rw [hl] at h
      injection h with h
      subst h
      unfold RGraph.lookup at hl
      rcases Option.or_eq_some_iff.1 hl with hl | ⟨-, hl⟩
      · rcases Option.or_eq_some_iff.1 hl with hl | ⟨-, hl⟩
        · exact ⟨_, hl⟩
        · exact ⟨_, hl⟩
      · exact ⟨_, hl⟩

/-- The SDN agent is found under its own name. -/
theorem look_sdn {n : PtrGraph.Node RNode} (h : site.sdn = .ok n) :
    find site.graph sdnName = some n := by
  unfold SiteView.sdn SiteView.look at h
  rw [getGeneralNode, get_bind_run] at h
  cases hl : find site.graph (.general, sdnId) with
  | none =>
      rw [hl] at h
      cases h
  | some m =>
      rw [hl] at h
      injection h with h
      exact h ▸ hl

/-- To a node that was looked up by the key that the request has. -/
theorem addressed_key {k : NodeKind} {id : String} {n : PtrGraph.Node RNode}
    {request : Json} (hn : find site.graph (k, id) = some n)
    (h : textOf request "target" = .ok id) :
    Addressed site.graph n.data.queue request := by
  obtain ⟨hmem, hname⟩ := PtrGraph.find_some hn
  have hkey : n.data.key = id := congrArg Prod.snd hname
  exact ⟨n, hmem, rfl, .inr (.inl (hkey ▸ h))⟩

/-- To a DTN that was looked up by the id that the request has. -/
theorem addressed_dtn {id : String} {n : PtrGraph.Node RNode} {request : Json}
    (hn : site.look (getDtnNode id) = .ok n)
    (h : textOf request "target" = .ok id) :
    Addressed site.graph n.data.queue request :=
  addressed_key (SiteView.look_getDtnNode.1 hn) h

/-- To a node that the request names by its rid. -/
theorem addressed_rid {n : PtrGraph.Node RNode} (hn : n ∈ site.graph.nodes)
    {request : Json} (h : textOf request "target" = .ok n.data.rid) :
    Addressed site.graph n.data.queue request :=
  ⟨n, hn, rfl, .inl h⟩

/-- A request to the SDN agent need not name a module. -/
theorem addressed_sdn {n : PtrGraph.Node RNode} (hn : site.sdn = .ok n)
    (request : Json) : Addressed site.graph n.data.queue request := by
  obtain ⟨hmem, hname⟩ := PtrGraph.find_some (look_sdn hn)
  exact ⟨n, hmem, rfl, .inr (.inr hname)⟩

/-- A DTN that is found is a node of the graph. -/
theorem mem_of_getDtnNode {id : String} {n : PtrGraph.Node RNode}
    (hn : site.look (getDtnNode id) = .ok n) : n ∈ site.graph.nodes :=
  (PtrGraph.find_some (SiteView.look_getDtnNode.1 hn)).1

end Calls

-- ================================================= command by command

section Commands

variable {server : ServerView}

/-- A command publishes nothing but requests to nodes of the graph. -/
abbrev Calls (g : RGraph) {α : Type} (x : Serve α) : Prop :=
  Asks (Addressed g) x

/-- The user mapping goes to DTNs of the graph. -/
theorem sendPerDtn_calls {site : SiteView} (perDtn : PerDtn) :
    Calls site.graph (sendPerDtn site perDtn) := by
  induction perDtn with
  | nil => exact .pure ()
  | cons p rest ih =>
      obtain ⟨dtnid, map⟩ := p
      apply Asks.read_bind
      intro dtn hdtn
      exact .bind (.rpc (addressed_dtn hdtn (textOf_object rfl))) fun _ => ih

/-- So does its publication, whatever the store has. -/
theorem publishDtnUserMapping_calls :
    Calls server.graph (publishDtnUserMapping server) :=
  .bind (.read _) fun _ => .bind (.read _) fun _ => .bind (.read _) fun _ =>
    .bind (sendPerDtn_calls _) fun _ => .pure _

/-- Listing asks the DTN it was given. -/
theorem getFileList_calls (params : Json) :
    Calls server.graph (getFileList server params) := by
  refine .bind (.read _) fun _ => .bind (.read _) fun _ => .bind (.read _)
    fun _ => .bind (.read _) fun _ => .bind (.read _) fun _ =>
    .ite (fun _ => ?_) (.pure _)
  refine .bind (.read _) fun _ => .read_bind fun dtn hdtn => ?_
  exact .bind (.rpc (addressed_dtn hdtn (textOf_object rfl))) fun _ => .read _

/-- Creating a folder asks the DTN it was given. -/
theorem createFolder_calls (params : Json) :
    Calls server.graph (createFolder server params) := by
  refine .bind (.read _) fun _ => .bind (.read _) fun _ => .bind (.read _)
    fun _ => .bind (.read _) fun _ => .bind (.read _) fun _ =>
    .ite (fun _ => ?_) (.pure _)
  refine .bind (.read _) fun _ => .read_bind fun dtn hdtn => ?_
  exact .bind (.rpc (addressed_dtn hdtn (textOf_object rfl))) fun _ =>
    .bind (.read _) fun _ => .pure _

/-- The queue that is found for an id is that of a node with it. -/
theorem getNodeQueueName_ok {site : SiteView} {nid q : String}
    (h : site.getNodeQueueName nid = .ok q) {request : Json}
    (hr : textOf request "target" = .ok nid) :
    Addressed site.graph q request := by
  obtain ⟨n, hn, hq⟩ := bind_eq_ok.1 h
  injection hq with hq
  obtain ⟨k, hk⟩ := look_getNode hn
  exact hq ▸ addressed_key hk hr

/-- A request that names its target is passed on to it. -/
theorem forward_calls {site : SiteView} (req : Json) :
    Calls site.graph (forward site req) := by
  apply Asks.read_bind
  intro p hp
  obtain ⟨target, req'⟩ := p
  apply Asks.read_bind
  intro nid hnid
  apply Asks.read_bind
  intro q hq
  have htarget : textOf req' "target" = .ok nid := by
    rw [textOf_of_get (Json.get_of_fetch hp), hnid]
  exact .rpc (getNodeQueueName_ok hq htarget)

/-- Expansion is passed on. -/
theorem expandAndGroup_calls {site : SiteView} (params : Json) :
    Calls site.graph (expandAndGroup site params) :=
  .bind (.read _) fun _ => .bind (.read _) fun _ => forward_calls _

/-- Verification is passed on. -/
theorem verifyChecksum_calls {site : SiteView} (params : Json) :
    Calls site.graph (verifyChecksum site params) :=
  .bind (.read _) fun _ => forward_calls _

/-- A ping is passed on. -/
theorem dtnIcmpPing_calls {site : SiteView} (params : Json) :
    Calls site.graph (dtnIcmpPing site params) := by
  refine .bind (.read _) fun dtnId => .read_bind fun dtn hdtn => ?_
  refine .bind (.read _) fun p => .read_bind fun p' hp => ?_
  have htarget : textOf p' "target" = .ok dtnId :=
    textOf_of_get (Json.get_of_set hp)
  exact .rpc (addressed_dtn hdtn htarget)

/-- A loop that does not throw, turn by turn. -/
theorem mapM_eq_ok {α β : Type} {f : α → Except String β} {l : List α}
    {bs : List β} :
    l.mapM f = .ok bs ↔ List.Forall₂ (fun a b => f a = .ok b) l bs := by
  induction l generalizing bs with
  | nil =>
      rw [List.mapM_nil, List.forall₂_nil_left_iff]
      exact ⟨fun h => (Except.ok.inj h).symm,
        fun h => congrArg Except.ok h.symm⟩
  | cons a l ih =>
      rw [List.mapM_cons, List.forall₂_cons_left_iff]
      constructor
      · intro h
        obtain ⟨b, hb, h⟩ := bind_eq_ok.1 h
        obtain ⟨rest, hrest, h⟩ := bind_eq_ok.1 h
        injection h with h
        exact ⟨b, rest, hb, ih.1 hrest, h.symm⟩
      · intro h
        obtain ⟨b, rest, hb, hrest, rfl⟩ := h
        rw [hb]
        show (l.mapM f >>= fun bs => pure (b :: bs)) = _
        rw [ih.2 hrest]
        rfl

/-- A result of a loop is that of a member. -/
theorem mem_of_mapM {α β : Type} {f : α → Except String β} {l : List α}
    {bs : List β} (h : l.mapM f = .ok bs) {b : β} (hb : b ∈ bs) :
    ∃ a ∈ l, f a = .ok b := by
  have hall := mapM_eq_ok.1 h
  clear h
  induction hall with
  | nil => cases hb
  | @cons a c l bs hac _ ih =>
      rcases List.mem_cons.1 hb with rfl | hb
      · exact ⟨a, List.mem_cons_self .., hac⟩
      · obtain ⟨a', ha', hb⟩ := ih hb
        exact ⟨a', List.mem_cons_of_mem _ ha', hb⟩

/-- What stands at an address is a node of the graph. -/
theorem mem_of_nodeAt {site : SiteView} {a : Nat} {n : PtrGraph.Node RNode}
    (h : site.nodeAt a = .ok n) : n ∈ site.graph.nodes := by
  unfold SiteView.nodeAt at h
  cases hnode : site.graph.node? a with
  | none =>
      rw [hnode] at h
      cases h
  | some m =>
      rw [hnode] at h
      injection h with h
      exact h ▸ List.mem_of_find?_eq_some hnode

/-- The DTN at the end of a link is a node of the graph. -/
theorem mem_of_dstDtn {site : SiteView} {i : Nat} {d : PtrGraph.Node RNode}
    (h : site.dstDtn i = .ok d) : d ∈ site.graph.nodes := by
  obtain ⟨e, -, h⟩ := bind_eq_ok.1 h
  obtain ⟨n, hn, h⟩ := bind_eq_ok.1 h
  by_cases hk : n.data.kind = .dtn
  · rw [if_pos hk] at h
    injection h with h
    exact h ▸ mem_of_nodeAt hn
  · rw [if_neg hk] at h
    cases h

/-- The DTNs of a storage are nodes of the graph. -/
theorem mem_of_connected {site : SiteView} {storage : String}
    {dtns : List (PtrGraph.Node RNode)}
    (h : site.getStorageConnectedDtns storage = .ok dtns) :
    ∀ d ∈ dtns, d ∈ site.graph.nodes := by
  intro d hd
  unfold SiteView.getStorageConnectedDtns at h
  by_cases hs : hasStorageNode site.graph storage = true
  · rw [if_pos hs] at h
    obtain ⟨snode, -, h⟩ := bind_eq_ok.1 h
    obtain ⟨i, -, hi⟩ := mem_of_mapM h hd
    exact mem_of_dstDtn hi
  · rw [if_neg hs] at h
    cases h

/-- The status is asked of these DTNs only. -/
theorem bestEffortDtns_calls {dtns : List (PtrGraph.Node RNode)}
    (hd : ∀ d ∈ dtns, d ∈ server.graph.nodes) (privates publics : List Json) :
    Calls server.graph (bestEffortDtns server dtns privates publics) := by
  induction dtns generalizing privates publics with
  | nil => exact .pure _
  | cons dtn dtns ih =>
      have htail := ih fun d hm => hd d (List.mem_cons_of_mem _ hm)
      have hdtn := hd dtn (List.mem_cons_self ..)
      refine .bind (.read _) fun interface => ?_
      refine .bind (.rpc (addressed_rid hdtn (textOf_object rfl))) fun _ => ?_
      refine .bind (.read _) fun p => ?_
      exact .ite (fun _ => htail _ _) (htail _ _)

/-- The storage and its DTNs are asked, and no one else. -/
theorem getAvailableBestEffortDtn_calls (params : Json) :
    Calls server.graph (getAvailableBestEffortDtn server params) := by
  refine .bind (.read _) fun _ => .bind (.read _) fun storage => ?_
  refine .read_bind fun q hq => ?_
  refine .bind (.rpc (getNodeQueueName_ok hq (textOf_object rfl))) fun _ => ?_
  refine .bind (.read _) fun _ => .read_bind fun dtns hdtns => ?_
  exact .bind (bestEffortDtns_calls (mem_of_connected hdtns) [] []) fun _ =>
    .pure _

/-- A reservation asks the DTN, and then the SDN agent. -/
theorem sdnReserveCommand_calls {site : SiteView} (params : Json) :
    Calls site.graph (sdnReserveCommand site params) := by
  refine .bind (.read _) fun _ => .bind (.read _) fun _ =>
    .ite (fun _ => .read_bind fun dtn hdtn => ?_) (.pure _)
  have hmem := mem_of_getDtnNode hdtn
  refine .bind (.read _) fun _ => .bind (.read _) fun _ => ?_
  refine .bind (.rpc (addressed_rid hmem (textOf_object rfl))) fun _ => ?_
  refine .bind (.read _) fun _ => ?_
  refine .bind (.rpc (addressed_rid hmem (textOf_object rfl))) fun _ => ?_
  refine .bind (.read _) fun _ => .bind (.read _) fun _ =>
    .ite (fun _ => .ite (fun _ => ?_) (.pure _)) (.pure _)
  refine .read_bind fun sdn hsdn => .bind (.read _) fun _ => ?_
  exact .bind (.rpc (addressed_sdn hsdn _)) fun _ => .pure _

/-- Releasing an end asks its DTN. -/
theorem releaseDtn_calls {site : SiteView} (params : Json)
    (sent res : List (String × Json)) :
    Calls site.graph (releaseDtn site params sent res) := by
  refine .bind (.read _) fun _ => .bind (.read _) fun dtnId =>
    .ite (fun _ => .read_bind fun dtn hdtn => ?_) (.ite (fun _ => .pure _) (.pure _))
  have htarget (cmd key : String) (ip : Json) :
      textOf (deleteRequest sent cmd dtnId key ip) "target" = .ok dtnId :=
    textOf_object (by rw [List.reverse_append]; rfl)
  refine .bind (.read _) fun _ => ?_
  refine .bind (.rpc (addressed_dtn hdtn (htarget _ _ _))) fun _ => ?_
  exact .bind (.rpc (addressed_dtn hdtn (htarget _ _ _))) fun _ => .pure _

/-- Releasing a path asks the SDN agent and the DTN. -/
theorem sdnReleaseCommand_calls {site : SiteView} (params : Json) :
    Calls site.graph (sdnReleaseCommand site params) := by
  refine .bind (.read _) fun _ => .bind (.read _) fun _ => .ite (fun _ =>
    .ite (fun _ => .read_bind fun sdn hsdn => ?_) (.pure _))
    (releaseDtn_calls _ _ _)
  exact .bind (.rpc (addressed_sdn hsdn _)) fun _ => releaseDtn_calls _ _ _

/-- The sizes are asked of the DTNs of the files. -/
theorem totalSizes_calls {site : SiteView} (files sizes : List Json) :
    Calls site.graph (totalSizes site files sizes) := by
  induction files generalizing sizes with
  | nil => exact .pure _
  | cons file files ih =>
      refine .bind (.read _) fun fileid => ?_
      split
      · refine .read_bind fun dnode hdnode => ?_
        obtain ⟨snode, -, hone⟩ := bind_eq_ok.1 hdnode
        have hmem : dnode ∈ site.graph.nodes := by
          unfold SiteView.getOneDtnNode at hone
          split at hone
          · cases hone
          · split at hone
            · rename_i hnode
              injection hone with hone
              exact hone ▸ List.mem_of_find?_eq_some hnode
            · cases hone
        refine .bind (.rpc (addressed_rid hmem (textOf_object rfl))) fun _ => ?_
        refine .bind (.read _) fun v => ?_
        cases v with
        | none => exact .pure _
        | some v => exact ih _
      · exact .pure _

/-- Every command but `get_dtn_info` leaves its answer to the dispatcher. -/
theorem command_calls (cmd : String) (params : Json) :
    Calls server.graph (command server cmd params) := by
  unfold command
  split
  · exact .read _
  · exact .pure _
  · exact .read _
  · exact getFileList_calls _
  · exact createFolder_calls _
  · exact totalSizes_calls _ _
  · exact .bind (.read _) fun _ => .pure _
  · exact expandAndGroup_calls _
  · exact verifyChecksum_calls _
  · exact publishDtnUserMapping_calls
  · exact .bind (.read _) fun _ => .bind (.read _) fun _ => .pure _
  · exact .bind (.read _) fun _ => .bind (.read _) fun _ => .pure _
  · exact getAvailableBestEffortDtn_calls _
  · exact sdnReserveCommand_calls _
  · exact sdnReleaseCommand_calls _
  · exact dtnIcmpPing_calls _
  · exact .pure _

end Commands

-- ============================================================ answers

section Answers

variable {server : ServerView} {props : RpcProps} {s : Session}

/-- What the callback sends. -/
def responses (props : RpcProps) (res : Json) : List (RpcProps × Json) :=
  if props.replyTo = "" then [] else [(props, res)]

/-- Responding sends the responses there are, and nothing else. -/
theorem wp_respond {Q : Unit → Session → Prop} {E : Session → Prop}
    {res : Json} :
    wp (respond props res) Q E s
      ↔ Q () { s with sent := s.sent ++ responses props res } := by
  unfold respond responses
  by_cases h : props.replyTo = ""
  · rw [if_pos h, if_pos h, List.append_nil]
    rfl
  · rw [if_neg h, if_neg h]
    rfl

/-- The parameters are for a DTN that is not there. -/
def Missing (site : SiteView) (params : Json) : Prop :=
  ∃ id, textOf params "dtn" = .ok id ∧ hasDtnNode site.graph id = false

/-- The DTN info is asked of the DTN, and answered once, or not at all if the
command throws; a missing DTN is answered before that. -/
theorem getDtnInfo_spec (site : SiteView) (params : Json) (props : RpcProps)
    (s : Session) :
    wp (getDtnInfo site params (respond props))
      (fun _ s' => Called (Addressed site.graph) s s'
        ∧ ∃ res, s'.sent = s.sent ++ responses props res)
      (fun s' => Called (Addressed site.graph) s s'
        ∧ (s'.sent = s.sent ∨ Missing site params
          ∧ s'.sent = s.sent ++ responses props (.obj []))) s := by
  unfold getDtnInfo
  rw [wp_bind, Serve.wp_read]
  refine ⟨fun dtnId hid => ?_, fun _ _ => ⟨.of_eq rfl, .inl rfl⟩⟩
  rw [wp_bind]
  by_cases hdtn : hasDtnNode site.graph dtnId = true
  · rw [hdtn]
    show wp (Serve.read (site.look (getDtnNode dtnId)) >>= _) _ _ s
    rw [wp_bind, Serve.wp_read]
    refine ⟨fun dtn hlook => ?_, fun _ _ => ⟨.of_eq rfl, .inl rfl⟩⟩
    rw [wp_bind, Serve.wp_read]
    refine ⟨fun path _ => ?_, fun _ _ => ⟨.of_eq rfl, .inl rfl⟩⟩
    by_cases hpath : path = ""
    · rw [if_pos hpath, wp_respond]
      exact ⟨.of_eq rfl, _, rfl⟩
    · have haddr : Addressed site.graph dtn.data.queue
          (diskUsageRequest dtn.data.rid path) :=
        addressed_rid (mem_of_getDtnNode hlook) (textOf_object rfl)
      rw [if_neg hpath, wp_bind, Serve.wp_rpc]
      refine ⟨fun _ => ?_, fun _ => ⟨.of_eq rfl, .inl rfl⟩⟩
      rw [wp_bind, Serve.wp_read]
      refine ⟨fun res _ => ?_, fun _ _ => ⟨.one rfl haddr, .inl rfl⟩⟩
      rw [wp_respond]
      exact ⟨.one rfl haddr, res, rfl⟩
  · have hnone : hasDtnNode site.graph dtnId = false := by
      rwa [Bool.not_eq_true] at hdtn
    rw [hnone]
    show wp (respond props (.obj [])) _ _ s
    rw [wp_respond, wp_bind, Serve.wp_read]
    refine ⟨fun dtn hlook => ?_, fun _ _ =>
      ⟨.of_eq rfl, .inr ⟨⟨dtnId, hid, hnone⟩, rfl⟩⟩⟩
    -- the DTN that is not there cannot be got
    rw [SiteView.look_getDtnNode] at hlook
    rw [hasDtnNode, hlook] at hnone
    cases hnone

/-- The message asks for a DTN that is not there. -/
def AsksForMissing (site : SiteView) (msg : Json) : Prop :=
  textOf msg "cmd" = .ok "get_dtn_info"
    ∧ ∃ params, msg.get "params" = .ok params ∧ Missing site params

/-- What a request makes the server do, whatever its calls are replied. -/
theorem rpcMsgHandler_spec (server : ServerView) (msg : Json)
    (props : RpcProps) (s : Session) :
    wp (rpcMsgHandler server msg props)
      (fun _ s' => Called (Addressed server.graph) s s'
        ∧ ∃ res, s'.sent = s.sent ++ responses props res)
      (fun s' => Called (Addressed server.graph) s s'
        ∧ (s'.sent = s.sent ∨ AsksForMissing server.toSiteView msg
          ∧ s'.sent = s.sent ++ responses props (.obj []))) s := by
  unfold rpcMsgHandler
  rw [wp_bind, Serve.wp_read]
  refine ⟨fun cmd hcmd => ?_, fun _ _ => ⟨.of_eq rfl, .inl rfl⟩⟩
  rw [wp_bind, Serve.wp_read]
  refine ⟨fun params hparams => ?_, fun _ _ => ⟨.of_eq rfl, .inl rfl⟩⟩
  by_cases hinfo : cmd = "get_dtn_info"
  · rw [if_pos hinfo]
    subst hinfo
    refine (getDtnInfo_spec server.toSiteView params props s).mono
      (fun _ _ h => h) fun s' h => ⟨h.1, h.2.imp_right fun hmissing => ?_⟩
    exact ⟨⟨hcmd, params, hparams, hmissing.1⟩, hmissing.2⟩
  · rw [if_neg hinfo, wp_bind]
    refine (command_calls cmd params s).mono (fun res s' h => ?_)
      fun s' h => ⟨h.calls, .inl h.sent⟩
    rw [wp_respond]
    refine ⟨?_, res, by rw [h.sent]⟩
    obtain ⟨cs, hcs, hP⟩ := h.calls
    exact ⟨cs, hcs, hP⟩

/-- A request is answered once by a handler that ends, if there is a topic
to answer on. One that throws has not answered, unless it was asked for a
DTN that is not there. -/
theorem answered_once (server : ServerView) (msg : Json) (props : RpcProps)
    (s : Session) :
    wp (rpcMsgHandler server msg props)
      (fun _ s' => ∃ res, s'.sent = s.sent ++ responses props res)
      (fun s' => s'.sent = s.sent ∨ AsksForMissing server.toSiteView msg
        ∧ s'.sent = s.sent ++ responses props (.obj [])) s :=
  (rpcMsgHandler_spec server msg props s).mono (fun _ _ h => h.2)
    fun _ h => h.2

end Answers

-- ========================================================= the agents

section Agents

variable {inst : String → Instance}

/-- The daemon of an agent hands the request to the module. -/
def Handed (i : Instance) (m : Module) (request : Json) : Prop :=
  ∀ d : Daemon, d.mstore.map AgentModule.id = i.modules.map Module.id →
    ∀ cmd, textOf request "cmd" = .ok cmd →
      ∃ n params, d.rpcMsgHandler request = .ok (.command n cmd params)
        ∧ n.id = m.id ∧ request.get "params" = .ok params

/-- A request that is published goes to the queue of an announced agent,
which hands it to the module that the request names. What is for an SDN
agent need not name a module, and what names a key of the graph itself
names none. -/
def Reaches (inst : String → Instance) (clients : String → Presence.Client)
    (queue : String) (request : Json) : Prop :=
  RpcClient.topicOf queue ≠ "rpc/" →
    ∃ k, clients k = .announced ∧ queue = (inst k).queue
      ∧ ∃ m ∈ (inst k).modules, Handed (inst k) m request ∨ m.type = .sdn
        ∨ ∃ key, ReservedKey key ∧ textOf request "target" = .ok key

/-- The daemon hands a request to the module it names. -/
theorem handed {i : Instance} {m : Module} (hm : m ∈ i.modules)
    (hid : m.id ≠ "" ∧ m.id ≠ "daemon") {request : Json}
    (h : textOf request "target" = .ok m.id) : Handed i m request := by
  intro d hd cmd hcmd
  have hmem : m.id ∈ d.mstore.map AgentModule.id :=
    hd ▸ List.mem_map_of_mem hm
  obtain ⟨n₀, hn₀, hid₀⟩ := List.mem_map.1 hmem
  have hsome : (d.mstore.find? fun n => n.id = m.id).isSome = true :=
    List.find?_isSome.2 ⟨n₀, hn₀, decide_eq_true hid₀⟩
  obtain ⟨n, hn⟩ := Option.isSome_iff_exists.1 hsome
  obtain ⟨t, ht, -⟩ := bind_eq_ok.1 h
  obtain ⟨params, hparams⟩ := Json.get_of_get ht "params"
  have hnid : n.id = m.id := by simpa using List.find?_some hn
  refine ⟨n, params, ?_, hnid, hparams⟩
  unfold Daemon.rpcMsgHandler
  rw [h]
  show (if m.id = "" then _ else if m.id = "daemon" then _ else _) = _
  rw [if_neg hid.1, if_neg hid.2]
  have hresolve : d.resolve m.id request = .ok (n, cmd, params) := by
    unfold Daemon.resolve Daemon.getModule
    rw [hn, hcmd, hparams]
    rfl
  rw [hresolve]
  rfl

/-- A session in which every call is answered with null. -/
def muteSession : Session := ⟨fun _ => .null, [], []⟩

/-- Its modules have proper ids. -/
theorem oneAgent_ids : ∀ k, ∀ m ∈ (oneAgent k).modules,
    m.id ≠ "" ∧ m.id ≠ "daemon" := by
  intro k m hm
  by_cases hk : k = "a"
  · rw [oneAgent, if_pos hk] at hm
    rcases List.mem_cons.1 hm with rfl | hm
    · decide
    · rw [List.mem_singleton.1 hm]
      decide
  · rw [oneAgent, if_neg hk] at hm
    cases hm

end Agents

end BigDataExpress
