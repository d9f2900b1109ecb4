/-
The resource graph and the agents that are there.

# What a message does

`Mirrors` ties the graph to the registry of `Proofs.Registry`: every
module the registry has stands in the graph with the queue of its owner,
and nothing else does, apart from the gateway. A message keeps this, and
never fails, if it is undisputed (`wp_resourceConstruct`).

# Whole runs

Two processes are rivals if a module of one has the id or the slot of a
module of the other; a process and its restart are. As long as rivals are
kept apart and nothing is cleared by mistake, the messages come undisputed
(`Lib.Presence`), and the registry is the table of those whose last
message was a registration (`run_eq_some`). A server that has handled what
there is has the modules of the agents that are announced, and no others
(`graph_shows_agents`); one that is left alone gets there
(`server_catches_up`).
-/
import BigDataExpress.Server.Presence
import BigDataExpress.Proofs.Registry
import BigDataExpress.Proofs.Shape
import BigDataExpress.Proofs.Order

namespace BigDataExpress

open Stateful ResourceManager RGraph

variable {R : Registry} {g : RGraph} {E : RGraph → Prop}

-- ============================================================= one message

/-- Every node but the gateway has an owner. -/
def Housed (R : Registry) (g : RGraph) : Prop :=
  ∀ x d, view g x = some d → x ≠ gatewayName → ∃ o, R x = some o

/-- Every DTN has its edge to the gateway. -/
def Uplinked (g : RGraph) : Prop :=
  ∀ id d, view g (.dtn, id) = some d →
    (some (NodeKind.dtn, id), some gatewayName) ∈ links g

/-- The graph shows what is registered, and nothing else. -/
structure Mirrors (R : Registry) (g : RGraph) : Prop where
  proper : Proper g
  owned : Owned R g
  housed : Housed R g
  mute : ∀ d, view g gatewayName = some d → d.queue = ""
  held : ∀ x o n d, x.1 ≠ .general → R x = some (o, n) →
    view g x = some d → d.prop = n ∧ (x.1 = .dtn → d.ctrlIp = n.ctrlIp)
  uplinked : Uplinked g

/-- A module that is added keeps the graph uplinked. -/
theorem uplinked_added {g' : RGraph} {queue : String} {m : Module}
    (ha : Added g g' queue m) (h : Uplinked g)
    (hm : m.type = .dtn → view g (.storage, m.id) = none) : Uplinked g' := by
  intro id d hd
  rw [ha.links]
  rw [ha.view, viewAdded] at hd
  by_cases hs : slotName m = some (.dtn, id)
  · obtain ⟨ht, rfl⟩ := slotName_dtn hs
    have hend : endName g m.id = (.dtn, m.id) := by
      unfold endName hasStorageNode
      rw [view_eq_none.1 (hm ht)]
      rfl
    rw [linksAdded, ht, hend]
    exact List.mem_append_right _ (List.mem_singleton_self _)
  · have hold : view g (.dtn, id) = some d := by
      cases hslot : slotName m with
      | none => simpa only [hslot] using hd
      | some y =>
          simp only [hslot] at hd
          rwa [Function.update_of_ne (fun he => hs (by rw [hslot, he]))] at hd
    have hlink := h id d hold
    have hkept (key : String) (hne : gatewayName ≠ (.general, key)) :
        (some (NodeKind.dtn, id), some gatewayName)
          ∈ linksWithout g (.general, key) :=
      PtrGraph.mem_linksWithout.2 ⟨hlink, by simp, fun he =>
        hne (Option.some.inj he)⟩
    unfold linksAdded
    split
    · exact List.mem_append_left _ hlink
    · exact hlink
    · exact hkept _ (by decide)
    · exact hkept _ (by decide)
    · exact hlink

/-- A storage or a DTN keeps its module, and a DTN its address. -/
theorem held_registered {queue : String} {m : Module} {old : Option RNode}
    {x : NodeName} (hk : x.1 ≠ .general) (hs : slotName m = some x) :
    (registered queue m old).prop = m
      ∧ (x.1 = .dtn → (registered queue m old).ctrlIp = m.ctrlIp) := by
  obtain ⟨kind, id⟩ := x
  cases kind with
  | storage =>
      obtain ⟨ht, -⟩ := slotName_storage hs
      rw [registered, ht]
      exact ⟨rfl, fun hc => by cases hc⟩
  | dtn =>
      obtain ⟨ht, -⟩ := slotName_dtn hs
      rw [registered, ht]
      exact ⟨rfl, fun _ => rfl⟩
  | general => exact absurd rfl hk

/-- It is registered where the graph has it. -/
theorem Mirrors.added (h : Mirrors R g) {g' : RGraph} {i : Instance}
    {m : Module} (ha : Added g g' i.queue m)
    (hm : m.type = .dtn → view g (.storage, m.id) = none) :
    Mirrors (R.register i m) g' := by
  refine ⟨ha.proper, owned_added h.owned ha, fun x d hx hne => ?_,
    fun d hd => ?_, fun x o n d hk hR hd => ?_,
    uplinked_added ha h.uplinked hm⟩
  · rw [ha.view, viewAdded] at hx
    unfold Registry.register
    cases hs : slotName m with
    | none =>
        rw [hs] at hx
        exact h.housed x d hx hne
    | some y =>
        simp only [hs, Function.update_apply] at hx ⊢
        by_cases hxy : x = y
        · rw [if_pos hxy]
          exact ⟨_, rfl⟩
        · rw [if_neg hxy] at hx ⊢
          exact h.housed x d hx hne
  · rw [ha.view, viewAdded] at hd
    cases hs : slotName m with
    | none =>
        rw [hs] at hd
        exact h.mute d hd
    | some y =>
        simp only [hs] at hd
        rw [Function.update_of_ne fun he =>
          Agent.slotName_ne_gateway m (by rw [hs, he])] at hd
        exact h.mute d hd
  · rw [ha.view, viewAdded] at hd
    unfold Registry.register at hR
    cases hs : slotName m with
    | none =>
        rw [hs] at hR hd
        exact h.held x o n d hk hR hd
    | some y =>
        simp only [hs, Function.update_apply] at hR hd
        by_cases hxy : x = y
        · rw [if_pos hxy] at hR hd
          injection hR with hR
          injection hR with _ hR
          injection hd with hd
          rw [← hd, ← hR]
          exact held_registered hk (hs.trans (congrArg some hxy.symm))
        · rw [if_neg hxy] at hR hd
          exact h.held x o n d hk hR hd

/-- Links are not in the registry. -/
theorem Mirrors.mapped (h : Mirrors R g) {g' : RGraph} {sid did : String}
    (hm : Mapped g g' sid did) : Mirrors R g' := by
  have hback : ∀ x d, view g' x = some d → ∃ e, view g x = some e
      ∧ e.prop = d.prop ∧ (x.1 ≠ .storage → e = d) := by
    intro x d hx
    rw [hm.view] at hx
    rcases viewMapped_cases (g := g) sid did x with hc | ⟨e, _, rfl, he, -, hc⟩
    · exact ⟨d, hc ▸ hx, rfl, fun _ => rfl⟩
    · rw [hc] at hx
      injection hx with hx
      exact ⟨e, he, hx ▸ rfl, fun hk => absurd rfl hk⟩
  refine ⟨h.proper.mapped hm, owned_mapped h.owned hm, fun x d hx hne => ?_,
    fun d hd => ?_, fun x o n d hgen hR hd => ?_, fun id d hd => ?_⟩
  · obtain ⟨e, he, -⟩ := hback x d hx
    exact h.housed x e he hne
  · obtain ⟨e, he, -, hk⟩ := hback _ d hd
    exact hk (by decide) ▸ h.mute e he
  · obtain ⟨e, he, hprop, hk⟩ := hback _ d hd
    obtain ⟨hheld, hip⟩ := h.held x o n e hgen hR he
    refine ⟨hprop ▸ hheld, fun hx => ?_⟩
    have hsame : e = d := hk (by rw [hx]; simp)
    exact hsame ▸ hip hx
  · obtain ⟨e, he, -⟩ := hback _ d hd
    rw [hm.links]
    exact List.mem_append_left _ (h.uplinked id e he)

/-- No module has the id of a storage that is there. -/
def Unclaimed (R : Registry) (l : List Module) : Prop :=
  ∀ m ∈ l, m.type = .dtn → R (.storage, m.id) = none
    ∧ ∀ n ∈ l, slotName n ≠ some (.storage, m.id)

/-- The places of the other modules are still free. -/
theorem Unclaimed.register {i : Instance} {m : Module} {l : List Module}
    (h : Unclaimed R (m :: l)) : Unclaimed (R.register i m) l := by
  intro n hn ht
  obtain ⟨hR, hl⟩ := h n (List.mem_cons_of_mem _ hn) ht
  refine ⟨?_, fun p hp => hl p (List.mem_cons_of_mem _ hp)⟩
  have hm := hl m (List.mem_cons_self ..)
  unfold Registry.register
  cases hs : slotName m with
  | none => exact hR
  | some y =>
      refine (Function.update_of_ne (fun he => hm ?_) ..).trans hR
      rw [hs, he]

/-- A name that the registry does not have has no node. -/
theorem Mirrors.view_none (h : Mirrors R g) {x : NodeName} (hx : R x = none)
    (hne : x ≠ gatewayName) : view g x = none := by
  cases hv : view g x with
  | none => rfl
  | some d =>
      obtain ⟨o, ho⟩ := h.housed x d hv hne
      rw [hx] at ho
      cases ho

/-- The first loop, with whatever else a registration keeps. -/
theorem wp_addModules_mirrors {i : Instance} {l : List Module}
    {P : RGraph → Prop}
    (hP : ∀ g g' m, (m.type = .dtn → view g (.storage, m.id) = none) →
      Added g g' i.queue m → P g → P g')
    (hl : ∀ m ∈ l, ¬ ReservedKey m.id) (hapart : Unclaimed R l)
    (h : Mirrors R g) (hg : P g) :
    wp (l.forM (addModule i.queue))
      (fun _ g' => Mirrors (l.foldl (Registry.register i) R) g' ∧ P g')
      E g := by
  induction l generalizing R g with
  | nil => exact ⟨h, hg⟩
  | cons m l ih =>
      rw [wp_forM_cons]
      apply h.proper.wp_addModule (hl m (List.mem_cons_self ..))
      intro g' ha
      have hfree : m.type = .dtn → view g (.storage, m.id) = none :=
        fun ht => h.view_none (hapart m (List.mem_cons_self ..) ht).1
          (by simp [gatewayName])
      exact ih (fun n hn => hl n (List.mem_cons_of_mem _ hn)) hapart.register
        (h.added ha hfree) (hP g g' m hfree ha hg)

/-- Linking modules changes nothing of it. -/
theorem wp_linkModules_mirrors {l : List Module} (h : Mirrors R g) :
    wp (l.forM linkModule) (fun _ g' => Mirrors R g') E g := by
  refine wp_forM (I := fun _ g' => Mirrors R g') ?_ l h
  intro m _ g₁ h₁
  unfold linkModule
  split
  · refine wp_forM (I := fun _ g' => Mirrors R g') ?_ m.storages h₁
    intro s _ g₂ h₂
    exact wp_mapStorageCaught h₂.proper.named fun g₃ hm => h₂.mapped hm
  · exact h₁

-- --------------------------------------------------------------- deletion

/-- A node that has a module id is found under it. -/
theorem RGraph.Proper.nodeKey_isSome (h : Proper g) {x : NodeName} {d : RNode}
    (hx : view g x = some d) (hgw : x ≠ gatewayName) :
    ∃ key, nodeKey g d.rid = some key := by
  obtain ⟨k, id⟩ := x
  obtain ⟨n, hn, rfl⟩ := view_eq_some.1 hx
  unfold nodeKey
  by_cases hk : k = .general
  · subst hk
    by_cases hnode : hasNode g n.data.rid = true
    · exact ⟨_, if_pos hnode⟩
    · rw [if_neg hnode]
      rcases (h.general _ _ hx).1 rfl with hid | hid | hid
      · exact absurd (by rw [gatewayName, ← hid]) hgw
      · change id = launcherId at hid
        subst hid
        rw [hn]
        exact ⟨_, if_pos (by simp)⟩
      · change id = sdnId at hid
        subst hid
        by_cases hlauncher : (find g (.general, launcherId)).any
            (fun m => n.data.rid == m.data.rid) = true
        · exact ⟨_, if_pos hlauncher⟩
        · rw [if_neg hlauncher, hn]
          exact ⟨_, if_pos (by simp)⟩
  · have hrid : n.data.rid = id := h.rid _ _ hx hk
    rw [hrid]
    have hnode : hasNode g id = true := by
      unfold hasNode hasStorageNode hasDtnNode
      cases k with
      | storage => rw [hn]; rfl
      | dtn => rw [hn]; simp
      | general => exact absurd rfl hk
    exact ⟨_, if_pos hnode⟩

/-- When nothing is deleted, there was nothing. -/
theorem RGraph.Proper.deleted_eq (h : Proper g) {id : String} (hgw : id ≠ "gateway")
    (hdel : deleted g id = g) {x : NodeName} {d : RNode}
    (hx : view g x = some d) (hne : x ≠ gatewayName) : d.rid ≠ id := by
  rintro rfl
  obtain ⟨key, hkey⟩ := h.nodeKey_isSome hx hne
  obtain ⟨n, hn⟩ := nodeKey_lookup hkey
  have hremove : deleted g d.rid = g.remove n.addr := by
    rw [deleted, target, if_neg hgw, hkey, Option.bind_some, hn]
    rfl
  have hmem := lookup_mem hn
  have hview := h.named.view_mem hmem
  have hgone : view (g.remove n.addr) n.data.nodeName = none :=
    (congrFun (h.named.view_remove hmem) _).trans (Function.update_self ..)
  rw [← hremove, hdel, hview] at hgone
  cases hgone

/-- The modules of an instance can be told apart, and their ids are none
of the ids that the graph uses itself. -/
structure Sane (i : Instance) : Prop where
  free : ∀ m ∈ i.modules, ¬ ReservedKey m.id ∧ m.id ≠ "gateway"
  ids : (i.modules.map Module.id).Nodup
  slots : (i.modules.filterMap slotName).Nodup

/-- What the registry has of an instance that leaves. -/
structure Leaves (R : Registry) (i : Instance) : Prop where
  /-- its entries are its modules -/
  own : ∀ x o n, R x = some (o, n) → o.cid = i.cid →
    n ∈ i.modules ∧ slotName n = some x
  /-- its modules have no other entries -/
  free : ∀ x o n, R x = some (o, n) → ∀ m ∈ i.modules, n.id = m.id →
    o.cid = i.cid

/-- The nodes and links that are left are those that were there, and a link
is left where both its ends are. -/
structure Remains (g g' : RGraph) : Prop where
  nodes : ∀ x d, view g' x = some d → view g x = some d
  sublist : (links g').Sublist (links g)
  kept : ∀ x y, (some x, some y) ∈ links g → (∃ d, view g' x = some d) →
    (∃ d, view g' y = some d) → (some x, some y) ∈ links g'

/-- Everything remains. -/
theorem Remains.refl (g : RGraph) : Remains g g :=
  ⟨fun _ _ h => h, List.Sublist.refl _, fun _ _ h _ _ => h⟩

/-- What is dropped is dropped from what remained. -/
theorem Remains.drops {g₁ g' : RGraph} (h : Remains g g₁) {x : NodeName}
    (hd : Drops g₁ g' x) : Remains g g' := by
  have hback : ∀ y d, view g' y = some d → y ≠ x ∧ view g₁ y = some d := by
    intro y d hy
    rw [hd.view, Function.update_apply] at hy
    by_cases hyx : y = x
    · rw [if_pos hyx] at hy
      cases hy
    · rw [if_neg hyx] at hy
      exact ⟨hyx, hy⟩
  refine ⟨fun y d hy => h.nodes y d (hback y d hy).2, ?_, ?_⟩
  · rw [hd.links]
    exact List.filter_sublist.trans h.sublist
  · intro y z hl hy hz
    obtain ⟨d, hd₁⟩ := hy
    obtain ⟨e, he₁⟩ := hz
    obtain ⟨hyx, hd₂⟩ := hback y d hd₁
    obtain ⟨hzx, he₂⟩ := hback z e he₁
    rw [hd.links]
    exact PtrGraph.mem_linksWithout.2 ⟨h.kept y z hl ⟨d, hd₂⟩ ⟨e, he₂⟩,
      fun he => hyx (Option.some.inj he), fun he => hzx (Option.some.inj he)⟩

/-- What remains with the gateway is uplinked. -/
theorem Remains.uplinked {g' : RGraph} (h : Remains g g')
    (hp : ∃ d, view g' gatewayName = some d) (hup : Uplinked g) :
    Uplinked g' := fun id d hd =>
  h.kept _ _ (hup id d (h.nodes _ d hd)) ⟨d, hd⟩ hp

/-- Deleting the modules of an instance deletes its entries, and leaves the
rest. -/
theorem wp_delModules_mirrors {i : Instance} (hi : Sane i)
    (hl : Leaves R i) (h : Mirrors R g) :
    wp (delModules i.modules)
      (fun _ g' => Mirrors (R.step (.offline i)) g' ∧ Remains g g') E g := by
  have hout : ∀ x o n, R.step (.offline i) x = some (o, n) →
      R x = some (o, n) ∧ o.cid ≠ i.cid := by
    intro x o n hx
    obtain ⟨hx, hc⟩ := Option.filter_eq_some_iff.1 hx
    exact ⟨hx, bne_iff_ne.1 hc⟩
  have howner : ∀ x d, view g x = some d → x ≠ gatewayName →
      ∃ o n, R x = some (o, n) ∧ d.rid = n.id := by
    intro x d hx hne
    obtain ⟨⟨o, n⟩, hR⟩ := h.housed x d hx hne
    obtain ⟨e, he, hrid, -⟩ := h.owned x o n hR
    rw [hx] at he
    injection he with he
    exact ⟨o, n, hR, he ▸ hrid⟩
  -- a module id is the id of one node at most
  have hsingle : ∀ m ∈ i.modules, ∀ x d y e, view g x = some d →
      x ≠ gatewayName → d.rid = m.id → view g y = some e →
      y ≠ gatewayName → e.rid = m.id → x = y := by
    intro m hm x d y e hx hxg hd hy hyg he
    obtain ⟨o, n, hR, hn⟩ := howner x d hx hxg
    obtain ⟨o', n', hR', hn'⟩ := howner y e hy hyg
    have ho := hl.own x o n hR (hl.free x o n hR m hm (hn ▸ hd))
    have ho' := hl.own y o' n' hR' (hl.free y o' n' hR' m hm (hn' ▸ he))
    have hid : n.id = n'.id := hn.symm.trans (hd.trans (he.symm.trans hn'))
    have heq : n = n' := List.inj_on_of_nodup_map hi.ids ho.1 ho'.1 hid
    have hslot := ho.2
    rw [heq, ho'.2] at hslot
    injection hslot with hslot
    exact hslot.symm
  have hrun : ∀ rest, rest ⊆ i.modules → ∀ g₁, Proper g₁ →
      Owned (R.step (.offline i)) g₁ → Remains g g₁ →
      (∀ m ∈ i.modules, m ∉ rest → ∀ x d, view g₁ x = some d →
        x ≠ gatewayName → d.rid ≠ m.id) →
      wp (rest.forM fun m => delNode m.id)
        (fun _ g' => Proper g' ∧ Owned (R.step (.offline i)) g'
          ∧ Remains g g'
          ∧ ∀ m ∈ i.modules, ∀ x d, view g' x = some d →
            x ≠ gatewayName → d.rid ≠ m.id) E g₁ := by
    intro rest
    induction rest with
    | nil =>
        intro _ g₁ hp ho hrem hdone
        exact ⟨hp, ho, hrem, fun m hm => hdone m hm List.not_mem_nil⟩
    | cons m rest ih =>
        intro hrest g₁ hp ho hrem hdone
        have hm : m ∈ i.modules := hrest (List.mem_cons_self ..)
        obtain ⟨hfree, hgw⟩ := hi.free m hm
        rw [wp_forM_cons, wp_delNode, if_neg hgw]
        have hnext := ih fun n hn => hrest (List.mem_cons_of_mem _ hn)
        have hother {n : Module} (hn : n ∉ rest) (hnm : n ≠ m) :
            n ∉ m :: rest := by
          rintro (_ | ⟨_, hn'⟩)
          · exact hnm rfl
          · exact hn hn'
        rcases hp.deleted_cases hfree with he | ⟨y, hs, hd⟩
        · rw [he]
          apply hnext g₁ hp ho hrem
          intro n hn hnot x d hx hne
          by_cases hnm : n = m
          · exact hnm ▸ hp.deleted_eq hgw he hx hne
          · exact hdone n hn (hother hnot hnm) x d hx hne
        · apply hnext _ (hp.drops hd hs.not_gateway) _ (hrem.drops hd)
          · intro n hn hnot x d hx hne
            have hx' : x ≠ y ∧ view g₁ x = some d := by
              rw [hd.view, Function.update_apply] at hx
              by_cases hxy : x = y
              · rw [if_pos hxy] at hx
                cases hx
              · rw [if_neg hxy] at hx
                exact ⟨hxy, hx⟩
            by_cases hnm : n = m
            · -- the one node with this id is the one that was dropped
              intro hrid
              obtain ⟨e, hy⟩ := hs.present
              exact hx'.1 (hsingle m hm x d y e (hrem.nodes x d hx'.2) hne
                (hnm ▸ hrid) (hrem.nodes y e hy) hs.not_gateway (hs.rid e hy))
            · exact hdone n hn (hother hnot hnm) x d hx'.2 hne
          · refine owned_drops (fun z o n hz hid => ?_) ho hs hd
            obtain ⟨hz, hc⟩ := hout z o n hz
            exact hc (hl.free z o n hz m hm hid)
  have hstart := hrun i.modules (fun _ hm => hm) g h.proper
    (fun x o n hx => h.owned x o n (hout x o n hx).1) (.refl g)
    (fun m hm hnot => absurd hm hnot)
  refine hstart.mono ?_ fun _ he => he
  intro _ g' hend
  obtain ⟨hp, ho, hrem, hdone⟩ := hend
  refine ⟨⟨hp, ho, fun x d hx hne => ?_,
    fun d hd => h.mute d (hrem.nodes _ d hd),
    fun x o n d hk hR hd =>
      h.held x o n d hk (hout x o n hR).1 (hrem.nodes x d hd),
    hrem.uplinked hp.gateway h.uplinked⟩, hrem⟩
  obtain ⟨o, n, hR, hrid⟩ := howner x d (hrem.nodes x d hx) hne
  have hcid : o.cid ≠ i.cid := fun hc =>
    hdone n (hl.own x o n hR hc).1 x d hx hne hrid
  exact ⟨(o, n), Option.filter_eq_some_iff.2 ⟨hR, bne_iff_ne.2 hcid⟩⟩

-- ============================================================== the agents

section Agents

variable {inst : String → Instance}

/-- What is known of the processes. -/
structure Agents (inst : String → Instance) : Prop where
  cid : ∀ k, (inst k).cid = k
  sane : ∀ k, Sane (inst k)

/-- Two processes with modules that would be in each other's way. -/
def Rivals (inst : String → Instance) (k j : String) : Prop :=
  k ≠ j ∧ ∃ m ∈ (inst k).modules, ∃ n ∈ (inst j).modules,
    m.id = n.id ∨ (slotName m = slotName n ∧ slotName m ≠ none)

/-- Rivalry goes both ways. -/
theorem Rivals.symm (k j : String) (h : Rivals inst k j) : Rivals inst j k := by
  obtain ⟨hne, m, hm, n, hn, hmn⟩ := h
  refine ⟨hne.symm, n, hn, m, hm, hmn.imp Eq.symm fun h => ⟨h.1.symm, ?_⟩⟩
  exact h.1 ▸ h.2

/-- The messages of a run of clients. -/
def regMsgs (inst : String → Instance) (l : List (Presence.Msg String)) :
    List RegMsg :=
  l.map fun m => regMsg (inst m.1) m.2

/-- The last message is the last step of the registry. -/
theorem run_snoc (l : List (Presence.Msg String)) (m : Presence.Msg String) :
    Registry.run (regMsgs inst (l ++ [m]))
      = (Registry.run (regMsgs inst l)).step (regMsg (inst m.1) m.2) := by
  simp [Registry.run, regMsgs, List.foldl_append]

/-- After a registration the places of the modules are theirs, and the others
as before. -/
theorem foldl_register {i o : Instance} {n : Module} {x : NodeName}
    {l : List Module} (hl : (l.filterMap slotName).Nodup) (R : Registry) :
    l.foldl (Registry.register i) R x = some (o, n)
      ↔ (n ∈ l ∧ slotName n = some x ∧ o = i)
        ∨ ((∀ m ∈ l, slotName m ≠ some x) ∧ R x = some (o, n)) := by
  induction l generalizing R with
  | nil => simp
  | cons m l ih =>
      have htail : (l.filterMap slotName).Nodup :=
        hl.sublist ((List.sublist_cons_self m l).filterMap _)
      rw [List.foldl_cons, ih htail]
      by_cases hm : slotName m = some x
      · -- no later module is in this slot
        have hlater : ∀ p ∈ l, slotName p ≠ some x := by
          intro p hp hpx
          rw [List.filterMap_cons_some hm] at hl
          exact (List.nodup_cons.1 hl).1 (List.mem_filterMap.2 ⟨p, hp, hpx⟩)
        have hregister : Registry.register i R m x = some (i, m) := by
          simp [Registry.register, hm]
        rw [hregister]
        constructor
        · rintro (⟨hn, hnx, -⟩ | ⟨-, heq⟩)
          · exact absurd hnx (hlater n hn)
          · injection heq with heq
            injection heq with hi hn
            exact .inl ⟨hn ▸ List.mem_cons_self .., hn ▸ hm, hi.symm⟩
        · rintro (⟨hn, hnx, rfl⟩ | ⟨hno, -⟩)
          · rcases List.mem_cons.1 hn with rfl | hn
            · exact .inr ⟨hlater, rfl⟩
            · exact absurd hnx (hlater n hn)
          · exact absurd hm (hno m (List.mem_cons_self ..))
      · have hregister : Registry.register i R m x = R x := by
          unfold Registry.register
          cases hs : slotName m with
          | none => rfl
          | some y =>
              apply Function.update_of_ne
              rintro rfl
              exact hm hs
        rw [hregister]
        constructor
        · rintro (⟨hn, h⟩ | ⟨hno, h⟩)
          · exact .inl ⟨List.mem_cons_of_mem _ hn, h⟩
          · exact .inr ⟨List.forall_mem_cons.2 ⟨hm, hno⟩, h⟩
        · rintro (⟨hn, h⟩ | ⟨hno, h⟩)
          · rcases List.mem_cons.1 hn with rfl | hn
            · exact absurd h.1 hm
            · exact .inl ⟨hn, h⟩
          · exact .inr ⟨(List.forall_mem_cons.1 hno).2, h⟩

/-- The registry has the modules of those whose last message was a
registration. -/
theorem run_eq_some (ha : Agents inst) {l : List (Presence.Msg String)}
    (hl : Presence.Undisputed (Rivals inst) l) {x : NodeName} {o : Instance}
    {n : Module} :
    Registry.run (regMsgs inst l) x = some (o, n)
      ↔ ∃ k, Presence.last k l = some true ∧ o = inst k
        ∧ n ∈ (inst k).modules ∧ slotName n = some x := by
  induction l using List.reverseRecOn generalizing o n with
  | nil => simp [Registry.run, regMsgs]
  | append_singleton l m ih =>
      obtain ⟨hund, hrival⟩ := hl.of_snoc
      obtain ⟨k, b⟩ := m
      rw [run_snoc]
      cases b with
      | true =>
          show (inst k).modules.foldl (Registry.register (inst k)) _ x = _ ↔ _
          rw [foldl_register (ha.sane k).slots, ih hund]
          constructor
          · rintro (⟨hn, hnx, rfl⟩ | ⟨hno, j, hj, rfl, hn, hnx⟩)
            · exact ⟨k, by rw [Presence.last_snoc]; exact if_pos rfl, rfl, hn,
                hnx⟩
            · refine ⟨j, ?_, rfl, hn, hnx⟩
              rw [Presence.last_snoc]
              by_cases hjk : k = j
              · exact if_pos hjk
              · exact (if_neg hjk).trans hj
          · rintro ⟨j, hj, rfl, hn, hnx⟩
            by_cases hjk : k = j
            · subst hjk
              exact .inl ⟨hn, hnx, rfl⟩
            · rw [Presence.last_snoc, if_neg hjk] at hj
              refine .inr ⟨fun m hm hmx => ?_, j, hj, rfl, hn, hnx⟩
              -- it would be a rival
              exact hrival j ⟨hjk, m, hm, n, hn,
                .inr ⟨hmx.trans hnx.symm, by simp [hmx]⟩⟩ hj
      | false =>
          show (Registry.run (regMsgs inst l) x).filter _ = _ ↔ _
          rw [Option.filter_eq_some_iff, ih hund]
          constructor
          · rintro ⟨⟨j, hj, rfl, hn, hnx⟩, hcid⟩
            refine ⟨j, ?_, rfl, hn, hnx⟩
            have hjk : k ≠ j := by
              rintro rfl
              simp at hcid
            rw [Presence.last_snoc, if_neg hjk]
            exact hj
          · rintro ⟨j, hj, rfl, hn, hnx⟩
            by_cases hjk : k = j
            · rw [Presence.last_snoc, if_pos hjk] at hj
              cases hj
            · rw [Presence.last_snoc, if_neg hjk] at hj
              refine ⟨⟨j, hj, rfl, hn, hnx⟩, ?_⟩
              rw [ha.cid, ha.cid]
              exact bne_iff_ne.2 (Ne.symm hjk)

/-- No storage of an agent has the id of a DTN of it. -/
theorem dtn_slot_ne {k : String} (ha : Agents inst) {m : Module}
    (hm : m ∈ (inst k).modules) (ht : m.type = .dtn) :
    ∀ n ∈ (inst k).modules, slotName n ≠ some (.storage, m.id) := by
  intro n hn hs
  obtain ⟨hstorage, hid⟩ := slotName_storage hs
  rw [List.inj_on_of_nodup_map (ha.sane k).ids hn hm hid] at hstorage
  rw [ht] at hstorage
  cases hstorage

/-- A registration finds no storage with the id of one of its DTNs. -/
theorem unclaimed_of_undisputed (ha : Agents inst)
    {l : List (Presence.Msg String)} {k : String}
    (hl : Presence.Undisputed (Rivals inst) (l ++ [(k, true)])) :
    Unclaimed (Registry.run (regMsgs inst l)) (inst k).modules := by
  obtain ⟨hund, hrival⟩ := hl.of_snoc
  intro m hm ht
  refine ⟨Option.eq_none_iff_forall_ne_some.2 fun e he => ?_,
    dtn_slot_ne ha hm ht⟩
  obtain ⟨o, n⟩ := e
  obtain ⟨j, hj, rfl, hn, hs⟩ := (run_eq_some ha hund).1 he
  by_cases hjk : k = j
  · exact dtn_slot_ne ha hm ht n (hjk ▸ hn) hs
  · exact hrival j ⟨hjk, m, hm, n, hn, .inl (slotName_storage hs).2.symm⟩ hj

/-- A deregistration takes the entries of its instance, and only them. -/
theorem leaves_of_undisputed (ha : Agents inst)
    {l : List (Presence.Msg String)} {k : String}
    (hl : Presence.Undisputed (Rivals inst) (l ++ [(k, false)])) :
    Leaves (Registry.run (regMsgs inst l)) (inst k) := by
  obtain ⟨hund, hrival⟩ := hl.of_snoc
  constructor
  · intro x o n hx hcid
    obtain ⟨j, -, rfl, hn, hnx⟩ := (run_eq_some ha hund).1 hx
    rw [ha.cid, ha.cid] at hcid
    exact hcid ▸ ⟨hn, hnx⟩
  · intro x o n hx p hp hid
    obtain ⟨j, hj, rfl, hn, -⟩ := (run_eq_some ha hund).1 hx
    by_cases hjk : k = j
    · rw [hjk]
    · exact absurd hj (hrival j ⟨hjk, p, hp, n, hn, .inl hid.symm⟩)

/-- What a handler on the strand ends with, if it does not throw. -/
theorem handleReg_of_wp {m : Presence.Msg String} {P : RGraph → Prop}
    (h : wp (resourceConstruct (regMsg (inst m.1) m.2)) (fun _ => P)
      (fun _ => False) g) :
    ∃ g', handleReg inst m g = some g' ∧ P g' := by
  unfold wp at h
  unfold handleReg
  cases hrun : resourceConstruct (regMsg (inst m.1) m.2) g with
  | ok a g' =>
      rw [hrun] at h
      exact ⟨g', rfl, h⟩
  | error e g' =>
      rw [hrun] at h
      exact h.elim

/-- A handler on the strand does not fail, and the graph goes on mirroring
the registry. -/
theorem handleReg_mirrors (ha : Agents inst) {l : List (Presence.Msg String)}
    {m : Presence.Msg String}
    (hl : Presence.Undisputed (Rivals inst) (l ++ [m]))
    (h : Mirrors (Registry.run (regMsgs inst l)) g) :
    ∃ g', handleReg inst m g = some g'
      ∧ Mirrors (Registry.run (regMsgs inst (l ++ [m]))) g' := by
  apply handleReg_of_wp
  rw [run_snoc]
  obtain ⟨k, b⟩ := m
  cases b with
  | true =>
      show wp (addModules (inst k).queue (inst k).modules) _ _ g
      rw [addModules, wp_bind]
      refine (wp_addModules_mirrors (P := fun _ => True)
        (fun _ _ _ _ _ h => h) (fun m hm => ((ha.sane k).free m hm).1)
        (unclaimed_of_undisputed ha hl) h trivial).mono ?_ fun _ he => he
      intro _ g₁ h₁
      exact wp_linkModules_mirrors h₁.1
  | false =>
      exact (wp_delModules_mirrors (ha.sane k) (leaves_of_undisputed ha hl)
        h).mono (fun _ _ h => h.1) fun _ he => he

/-- The first graph mirrors the empty registry. -/
theorem mirrors_first :
    Mirrors (Registry.run (regMsgs inst [])) firstGraph := by
  refine ⟨bare_proper {}, fun x i m hx => (by cases hx), fun x d hx hne => ?_,
    fun d hd => ?_, fun x o n d _ hR => (by cases hR), fun id d hd => ?_⟩
  · exact absurd (view_bare (g := {}) hx).1 hne
  · have hgateway : view firstGraph gatewayName = some gatewayNode := rfl
    rw [hgateway] at hd
    injection hd with hd
    rw [← hd]
    rfl
  · cases (view_bare (g := {}) hd).1

/-- What every handler keeps holds of the graph that is replayed. -/
theorem replay_inv {I : List (Presence.Msg String) → RGraph → Prop}
    (hfirst : I [] firstGraph)
    (hstep : ∀ l m g, Presence.Undisputed (Rivals inst) (l ++ [m]) → I l g →
      ∃ g', handleReg inst m g = some g' ∧ I (l ++ [m]) g')
    {l : List (Presence.Msg String)}
    (hl : Presence.Undisputed (Rivals inst) l)
    (h : l.foldlM (fun g m => handleReg inst m g) firstGraph = some g) :
    I l g := by
  induction l using List.reverseRecOn generalizing g with
  | nil =>
      injection h with h
      exact h ▸ hfirst
  | append_singleton l m ih =>
      rw [List.foldlM_append] at h
      obtain ⟨g₁, hg₁, h⟩ := Option.bind_eq_some_iff.1 h
      obtain ⟨g', hg', hI⟩ := hstep l m g₁ hl (ih hl.of_snoc.1 hg₁)
      have hsame : some g' = some g := by
        rw [← hg', ← h]
        exact (bind_pure _).symm
      injection hsame with hsame
      exact hsame ▸ hI

/-- After undisputed messages the graph mirrors the registry. -/
theorem replay_mirrors (ha : Agents inst) {l : List (Presence.Msg String)}
    (hl : Presence.Undisputed (Rivals inst) l)
    (h : l.foldlM (fun g m => handleReg inst m g) firstGraph = some g) :
    Mirrors (Registry.run (regMsgs inst l)) g :=
  replay_inv (I := fun l g => Mirrors (Registry.run (regMsgs inst l)) g)
    mirrors_first (fun _ _ _ hl h => handleReg_mirrors ha hl h) hl h

-- =================================================================== runs

/-- The graph has the modules of the agents that are announced, each with
the queue of its agent, and no others. -/
structure Shows (inst : String → Instance) (clients : String → Presence.Client)
    (g : RGraph) : Prop where
  node : ∀ x d, view g x = some d → x ≠ gatewayName →
    ∃ k, clients k = .announced ∧ ∃ m ∈ (inst k).modules,
      slotName m = some x ∧ d.rid = m.id ∧ d.queue = (inst k).queue
  agent : ∀ k, clients k = .announced → ∀ m ∈ (inst k).modules, ∀ x,
    slotName m = some x →
    ∃ d, view g x = some d ∧ d.rid = m.id ∧ d.queue = (inst k).queue

/-- A server with nothing left to do mirrors the announced agents. -/
theorem mirrors_of_orderly (ha : Agents inst) {s : SiteState}
    (h : Presence.Orderly (Rivals inst) firstGraph (handleReg inst) s)
    {o : Presence.Observer String RGraph} (ho : s.observer = some o)
    (hs : o.subscribed = true) (hin : o.inbox = []) (hq : o.queue = []) :
    ∃ R, Mirrors R o.state ∧ ∀ x i m, R x = some (i, m)
      ↔ ∃ k, s.clients k = .announced ∧ i = inst k ∧ m ∈ (inst k).modules
        ∧ slotName m = some x := by
  obtain ⟨hund, hreplay⟩ := h.replayed o ho
  refine ⟨_, replay_mirrors ha hund hreplay, fun x i m => ?_⟩
  rw [run_eq_some ha hund]
  simp only [h.settled.last_handled_iff ho hs hin hq]

/-- In an orderly state with nothing left to do the graph shows who is
there. -/
theorem shows_of_orderly (ha : Agents inst) {s : SiteState}
    (h : Presence.Orderly (Rivals inst) firstGraph (handleReg inst) s)
    {o : Presence.Observer String RGraph} (ho : s.observer = some o)
    (hs : o.subscribed = true) (hin : o.inbox = []) (hq : o.queue = []) :
    Shows inst s.clients o.state := by
  obtain ⟨R, hmirror, hR⟩ := mirrors_of_orderly ha h ho hs hin hq
  constructor
  · intro x d hx hne
    obtain ⟨⟨i, m⟩, hxR⟩ := hmirror.housed x d hx hne
    obtain ⟨e, he, hrid, hqueue⟩ := hmirror.owned x i m hxR
    rw [hx] at he
    injection he with he
    subst he
    obtain ⟨k, hk, rfl, hm, hmx⟩ := (hR x i m).1 hxR
    exact ⟨k, hk, m, hm, hmx, hrid, hqueue⟩
  · intro k hk m hm x hmx
    exact hmirror.owned x (inst k) m ((hR x _ m).2 ⟨k, hk, rfl, hm, hmx⟩)

/-- Every run of guarded events leads to an orderly state. -/
theorem orderly_of_run {s : SiteState}
    (hrun : SiteRun inst (Presence.Guarded (Rivals inst)) {} s) :
    Presence.Orderly (Rivals inst) firstGraph (handleReg inst) s :=
  Presence.orderly_initial.run (fun _ h => h.1 rfl) Rivals.symm hrun

/-- A site with one agent, which has one storage and a DTN that lists it. -/
def oneAgent (k : String) : Instance :=
  ⟨k, "rpc/" ++ k,
    if k = "a" then
      [{ id := "disk", type := .localStorage },
        { id := "dtn", type := .dtn, storages := [{ id := "disk" }] }]
    else []⟩

/-- The sample agent is in order. -/
theorem oneAgent_agents : Agents oneAgent := by
  refine ⟨fun k => rfl, fun k => ?_⟩
  by_cases hk : k = "a"
  · subst hk
    exact ⟨by decide, by decide, by decide⟩
  · have hnone : (oneAgent k).modules = [] := if_neg hk
    constructor <;> rw [hnone] <;> simp

/-- The server is connected, and the agent has announced itself. -/
theorem oneAgent_announced :
    ∃ s : SiteState, SiteRun oneAgent (Presence.Guarded (Rivals oneAgent)) {} s
      ∧ s.clients "a" = .announced
      ∧ s.observer = some
        { subscribed := true, inbox := [("a", true)], state := firstGraph } := by
  have hgone (j : String) (hj : Rivals oneAgent "a" j) : False := by
    obtain ⟨hne, _, _, n, hn, _⟩ := hj
    rw [oneAgent, if_neg (Ne.symm hne)] at hn
    cases hn
  refine ⟨_, ((((Relation.ReflTransGen.refl.tail
    ⟨.start, trivial, .start rfl⟩).tail
    ⟨.subscribe, trivial, .subscribe (l := []) rfl rfl ⟨by simp⟩⟩).tail
    ⟨.connect "a", fun j hj => (hgone j hj).elim, .connect rfl⟩).tail
    ⟨.announce "a", ⟨List.not_mem_nil, fun o ho => ?_⟩, .announce ?_⟩), rfl, rfl⟩
  · injection ho with ho
    subst ho
    exact List.not_mem_nil
  · intro haway
    have hclient : Function.update (fun _ => Presence.Client.away) "a"
        .connected "a" = .away := haway
    rw [Function.update_self] at hclient
    cases hclient

/-- The server has handled the announcement. -/
theorem oneAgent_settled : ∃ (s : SiteState)
    (o : Presence.Observer String RGraph),
    SiteRun oneAgent (Presence.Guarded (Rivals oneAgent)) {} s
      ∧ s.clients "a" = .announced ∧ s.observer = some o
      ∧ o.subscribed = true ∧ o.inbox = [] ∧ o.queue = [] := by
  obtain ⟨s, hrun, hclient, ho⟩ := oneAgent_announced
  obtain ⟨g', hg', -⟩ := handleReg_mirrors (l := []) (m := ("a", true))
    oneAgent_agents (fun l₁ m l₂ heq j hj => by
      cases l₁ with
      | nil => simp
      | cons a l₁ => cases l₁ <;> cases heq) mirrors_first
  have hreceive : Presence.Step firstGraph (handleReg oneAgent) .receive s _ :=
    .receive ho rfl
  have hwork : Presence.Step firstGraph (handleReg oneAgent) .work
      { s with
        observer := some
          { subscribed := true, queue := [("a", true)], state := firstGraph } }
      _ := .work rfl rfl
  rw [hg'] at hwork
  have hend := (hrun.tail ⟨.receive, trivial, hreceive⟩).tail
    ⟨.work, trivial, hwork⟩
  exact ⟨_, _, hend, hclient, rfl, rfl, rfl, rfl⟩

/-- When the server has handled what there is, its graph has the modules of
the agents that are announced, with their queues, and no others. -/
theorem graph_shows_agents (ha : Agents inst) {s : SiteState}
    (hrun : SiteRun inst (Presence.Guarded (Rivals inst)) {} s)
    {o : Presence.Observer String RGraph} (ho : s.observer = some o)
    (hs : o.subscribed = true) (hin : o.inbox = []) (hq : o.queue = []) :
    Shows inst s.clients o.state :=
  shows_of_orderly ha (orderly_of_run hrun) ho hs hin hq

/-- The sample agent is shown. -/
theorem graph_shows_agents_one : ∃ (s : SiteState)
    (o : Presence.Observer String RGraph), s.observer = some o
      ∧ s.clients "a" = .announced ∧ Shows oneAgent s.clients o.state := by
  obtain ⟨s, o, hrun, hclient, ho, hs, hin, hq⟩ := oneAgent_settled
  exact ⟨s, o, ho, hclient,
    graph_shows_agents oneAgent_agents hrun ho hs hin hq⟩

end Agents

end BigDataExpress
