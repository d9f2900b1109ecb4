/-
The shape of the resource graph: DTNs lead to the gateway, storages lead
to DTNs, and nothing is linked twice.

# By name

`Laid` says it by name: every link is one of the two kinds, no link is
there twice, every DTN has its link to the gateway, and no id is both a
storage and a DTN. Each operation changes one name and at most one link,
so each case is a few lines; `Shape` says the same with the edges and the
lists of the graph, and follows (`Laid.shape`).

# Where the code leaves it

`has_edge` is asked with the gateway's key and compares rids, so it never
finds the edge of a DTN that is registered again, and a mapping whose
storage turns out to be another node has added its edge before it fails.
`Plain` excludes the two, and ids that are not an identity.
-/
import BigDataExpress.Proofs.Modules

namespace BigDataExpress

open Stateful ResourceManager

namespace RGraph

variable {g : RGraph} {E : RGraph → Prop}

-- ============================================================= the shape

/-- The gateway exists; every DTN has one edge out, to the gateway; every
other edge goes from a storage to a DTN; and no two edges join the same
nodes. -/
structure Shape (g : RGraph) : Prop where
  gateway : hasGateway g = true
  dtn : ∀ n ∈ g.nodes, n.data.kind = .dtn →
    ∃ e ∈ g.edges, n.outs = [e.rid] ∧ e.src = n.addr ∧
      ∃ w ∈ g.nodes, w.addr = e.dst ∧ w.data.nodeName = gatewayName
  other : ∀ e ∈ g.edges, ∃ s ∈ g.nodes, s.addr = e.src ∧
    (s.data.kind = .dtn ∨ (s.data.kind = .storage ∧
      ∃ d ∈ g.nodes, d.addr = e.dst ∧ d.data.kind = .dtn))
  simple : g.edges.Pairwise fun e f => ¬(e.src = f.src ∧ e.dst = f.dst)

/-- The shape by name. -/
structure Laid (g : RGraph) : Prop where
  proper : Proper g
  apart : ∀ id, view g (.storage, id) = none ∨ view g (.dtn, id) = none
  kinds : ∀ p ∈ links g,
    (∃ did, p = (some (.dtn, did), some gatewayName)) ∨
      ∃ sid did, p = (some (.storage, sid), some (.dtn, did))
  nodup : (links g).Nodup
  uplink : ∀ did d, view g (.dtn, did) = some d →
    (some (.dtn, did), some gatewayName) ∈ links g

/-- The names of a link are those of nodes. -/
theorem Named.link_view (h : Named g) {x y : NodeName}
    (hl : (some x, some y) ∈ links g) :
    (∃ d, view g x = some d) ∧ ∃ d, view g y = some d := by
  obtain ⟨e, -, u, hu, v, hv, -, -, hp⟩ := h.mem_links.mp hl
  cases hp
  exact ⟨⟨_, h.view_mem hu⟩, ⟨_, h.view_mem hv⟩⟩

theorem Laid.shape (h : Laid g) : Shape g := by
  have hn := h.proper.named
  -- edges between the same nodes give the same link
  have hsimple : g.edges.Pairwise
      fun e f => ¬(e.src = f.src ∧ e.dst = f.dst) := by
    have hnd := h.nodup
    unfold links PtrGraph.links at hnd
    rw [List.Nodup, List.pairwise_map] at hnd
    refine hnd.imp fun hne hsame => hne ?_
    rw [hsame.1, hsame.2]
  constructor
  · obtain ⟨d, hd⟩ := h.proper.gateway
    obtain ⟨n, hn, -⟩ := view_eq_some.mp hd
    exact Option.isSome_iff_exists.mpr ⟨n, hn⟩
  · intro n hmem hk
    have hname : n.data.nodeName = (.dtn, n.data.key) := by
      rw [RNode.nodeName, hk]
    have hview := hn.view_mem hmem
    rw [hname] at hview
    obtain ⟨e, he, u, hu, w, hw, hs, hd, hp⟩ :=
      hn.mem_links.mp (h.uplink _ _ hview)
    simp only [Prod.mk.injEq, Option.some.injEq] at hp
    have hun : u = n := hn.unique hu hmem (by rw [← hp.1, hname])
    subst hun
    refine ⟨e, he, ?_, hs.symm, w, hw, hd, hp.2.symm⟩
    -- any other edge out of the DTN would be the same link
    have hone : ∀ i ∈ u.outs, i = e.rid := by
      intro i hi
      obtain ⟨f, hf, rfl, hfs⟩ := hn.sound.out_edge u hmem i hi
      obtain ⟨u', hu', w', hw', hs', hd', -, -⟩ := hn.edge_names hf
      have hu'u : u' = u := hn.sound.node_unique hu' hmem (hs'.trans hfs)
      have hlink := hn.mem_links.mpr
        ⟨f, hf, u', hu', w', hw', hs', hd', rfl⟩
      have hgw : w'.data.nodeName = gatewayName := by
        rcases h.kinds _ hlink with ⟨did, hp'⟩ | ⟨sid, did, hp'⟩
        · simp only [Prod.mk.injEq, Option.some.injEq] at hp'
          exact hp'.2
        · simp only [Prod.mk.injEq, Option.some.injEq, hu'u, hname] at hp'
          cases hp'.1.1
      have hw'w : w' = w := hn.unique hw' hw (by rw [hgw, ← hp.2])
      by_contra hne
      have hef : f ≠ e := fun heq => hne (by rw [heq])
      have hsym : Std.Symm fun e f : PtrGraph.Edge Rat =>
          ¬(e.src = f.src ∧ e.dst = f.dst) :=
        ⟨fun a b hab hba => hab ⟨hba.1.symm, hba.2.symm⟩⟩
      refine hsimple.forall hf he hef ⟨hfs.trans hs, ?_⟩
      rw [← hd', ← hd, hw'w]
    have hin : e.rid ∈ u.outs := (hn.sound.mem_outs hmem he).mpr hs.symm
    have hnd := hn.sound.outs_nodup u hmem
    revert hin hone hnd
    cases u.outs with
    | nil => intro _ hin; cases hin
    | cons i l =>
        intro hone _ hnd
        have hi := hone i (List.mem_cons_self ..)
        cases l with
        | nil => rw [hi]
        | cons j l =>
            have hj := hone j (List.mem_cons_of_mem _ (List.mem_cons_self ..))
            rw [hi, hj, List.nodup_cons] at hnd
            exact absurd (List.mem_cons_self ..) hnd.1
  · intro e he
    obtain ⟨u, hu, w, hw, hs, hd, -, -⟩ := hn.edge_names he
    have hlink := hn.mem_links.mpr ⟨e, he, u, hu, w, hw, hs, hd, rfl⟩
    refine ⟨u, hu, hs, ?_⟩
    rcases h.kinds _ hlink with ⟨did, hp⟩ | ⟨sid, did, hp⟩
    · simp only [Prod.mk.injEq, Option.some.injEq] at hp
      exact .inl (congrArg Prod.fst hp.1)
    · simp only [Prod.mk.injEq, Option.some.injEq] at hp
      exact .inr ⟨congrArg Prod.fst hp.1, w, hw, hd, congrArg Prod.fst hp.2⟩
  · exact hsimple

-- ========================================================== one operation

/-- A node that is no DTN and clashes with none keeps the shape. -/
theorem Laid.writes_other (h : Laid g) {g' : RGraph} {x : NodeName}
    {d : RNode} (hp : Proper g') (hw : Writes g g' x d)
    (hx : x.1 = .storage → view g (.dtn, x.2) = none) (hk : x.1 ≠ .dtn)
    (hl : links g' = links g) : Laid g' where
  proper := hp
  apart := by
    intro id
    rw [hw.view]
    by_cases hid : x = (.storage, id)
    · subst hid
      right
      rw [Function.update_of_ne (by simp)]
      exact hx rfl
    · rw [Function.update_of_ne (fun he => hid he.symm),
        Function.update_of_ne (fun he => hk (by rw [← he]))]
      exact h.apart id
  kinds := by
    rw [hl]
    exact h.kinds
  nodup := by
    rw [hl]
    exact h.nodup
  uplink := by
    intro did e he
    rw [hw.view, Function.update_of_ne (fun he => hk (by rw [← he]))] at he
    rw [hl]
    exact h.uplink did e he

/-- A DTN that was not there, with its link to the gateway. -/
theorem Laid.writes_dtn (h : Laid g) {g' : RGraph} {id : String}
    {d : RNode} (hp : Proper g') (hw : Writes g g' (.dtn, id) d)
    (hnew : view g (.dtn, id) = none) (hst : view g (.storage, id) = none)
    (hl : links g' = links g ++ [(some (endName g id), some gatewayName)]) :
    Laid g' := by
  have hend : endName g id = (.dtn, id) := by
    have : hasStorageNode g id = false := by
      rw [hasStorageNode, view_eq_none.mp hst]
      rfl
    simp [endName, this]
  rw [hend] at hl
  constructor
  · exact hp
  · intro id'
    rw [hw.view, Function.update_of_ne (by simp)]
    by_cases he : id' = id
    · rw [he]
      exact .inl hst
    · rw [Function.update_of_ne (by simpa using he)]
      exact h.apart id'
  · intro p hp
    rw [hl, List.mem_append, List.mem_singleton] at hp
    rcases hp with hp | rfl
    · exact h.kinds p hp
    · exact .inl ⟨id, rfl⟩
  · rw [hl]
    refine h.nodup.append (List.nodup_singleton _) ?_
    intro p hp hq
    rw [List.mem_singleton] at hq
    rw [hq] at hp
    obtain ⟨⟨e, he⟩, -⟩ := h.proper.named.link_view hp
    rw [hnew] at he
    cases he
  · intro did e he
    rw [hl, List.mem_append, List.mem_singleton]
    rw [hw.view, Function.update_apply] at he
    split at he
    · rename_i hd
      cases hd
      exact .inr rfl
    · exact .inl (h.uplink did e he)

/-- Without a name other than the gateway. -/
theorem Laid.dropped (h : Laid g) {g' : RGraph} {x : NodeName}
    (hp : Proper g') (hx : x ≠ gatewayName)
    (hv : ∀ y, y.1 ≠ .general → view g' y = none ∨ view g' y = view g y)
    (hxv : ∀ did, x = (.dtn, did) → view g' x = none)
    (hl : links g' = linksWithout g x) : Laid g' := by
  have hsub : ∀ y d, y.1 ≠ .general → view g' y = some d →
      view g y = some d := by
    intro y d hk hy
    rcases hv y hk with hn | he
    · rw [hn] at hy
      cases hy
    · exact he ▸ hy
  constructor
  · exact hp
  · intro id
    rcases h.apart id with ha | ha
    · left
      rcases hv (.storage, id) (by simp) with hn | he
      · exact hn
      · exact he.trans ha
    · right
      rcases hv (.dtn, id) (by simp) with hn | he
      · exact hn
      · exact he.trans ha
  · intro p hp
    rw [hl] at hp
    exact h.kinds p (PtrGraph.mem_linksWithout.mp hp).1
  · rw [hl]
    exact h.nodup.filter _
  · intro did d hd
    rw [hl]
    refine PtrGraph.mem_linksWithout.mpr 
      ⟨h.uplink did d (hsub _ d (by simp) hd), ?_, ?_⟩
    · intro he
      have := hxv did (Option.some.inj he).symm
      rw [← Option.some.inj he, hd] at this
      cases this
    · exact fun he => hx (Option.some.inj he).symm

theorem Laid.drops (h : Laid g) {g' : RGraph} {x : NodeName}
    (hd : Drops g g' x) (hx : x ≠ gatewayName) : Laid g' := by
  refine h.dropped (h.proper.drops hd hx) hx ?_ ?_ hd.links
  · intro y _
    rw [hd.view, Function.update_apply]
    split
    · exact .inl rfl
    · exact .inr rfl
  · intro did hdid
    rw [hd.view, hdid]
    exact Function.update_self ..

/-- A link that is there is found by the rids of its ends. -/
theorem Proper.hasEdge_of_link (h : Proper g) {x y : NodeName}
    (hx : x.1 ≠ .general) (hy : y.1 ≠ .general)
    (hl : (some x, some y) ∈ links g) : hasEdge g x.2 y.2 = true := by
  obtain ⟨e, he, u, hu, v, hv, hs, hd, hp⟩ := h.named.mem_links.mp hl
  simp only [Prod.mk.injEq, Option.some.injEq] at hp
  have hu' := h.named.view_mem hu
  have hv' := h.named.view_mem hv
  rw [← hp.1] at hu'
  rw [← hp.2] at hv'
  refine List.any_eq_true.mpr ⟨e, he, ?_⟩
  simp only [ridAt, ← hs, ← hd, h.named.sound.node?_eq hu,
    h.named.sound.node?_eq hv, Option.map_some, h.rid x _ hu' hx,
    h.rid y _ hv' hy, BEq.refl, Bool.and_self]

/-- A mapping between ids of the right kinds adds a link of the second
kind, or nothing. -/
theorem Laid.mapped (h : Laid g) {g' : RGraph} {sid did : String}
    (hm : Mapped g g' sid did) (hs : ¬ ReservedKey sid) (hd : ¬ ReservedKey did)
    (hsd : view g (.dtn, sid) = none) (hds : view g (.storage, did) = none) :
    Laid g' := by
  have hkeys : ∀ x, view g' x = none ↔ view g x = none := by
    intro x
    rw [hm.view]
    rcases viewMapped_cases (g := g) sid did x with hc | ⟨d, a, -, he, -, hc⟩
    · rw [hc]
    · rw [hc, he]
      simp
  have hnew : linksMapped g sid did = [] ∨
      (hasEdge g sid did = false ∧ linksMapped g sid did
        = [(some (.storage, sid), some (.dtn, did))]) := by
    unfold linksMapped
    by_cases he : hasEdge g sid did = true
    · rw [if_pos he]
      exact .inl rfl
    · rw [if_neg he, h.proper.lookup_free hs, h.proper.lookup_free hd,
        view_eq_none.mp hsd, view_eq_none.mp hds, Option.or_none,
        Option.none_or]
      cases hfs : find g (.storage, sid) with
      | none => exact .inl rfl
      | some s =>
          cases hfd : find g (.dtn, did) with
          | none => exact .inl rfl
          | some d =>
              right
              refine ⟨by simpa using he, ?_⟩
              simp only [(PtrGraph.find_some hfs).2, (PtrGraph.find_some hfd).2]
  constructor
  · exact h.proper.mapped hm
  · intro id
    rw [hkeys, hkeys]
    exact h.apart id
  · intro p hp
    rw [hm.links, List.mem_append] at hp
    rcases hp with hp | hp
    · exact h.kinds p hp
    · rcases hnew with he | ⟨-, he⟩
      · rw [he] at hp
        cases hp
      · rw [he, List.mem_singleton] at hp
        exact .inr ⟨sid, did, hp⟩
  · rw [hm.links]
    rcases hnew with he | ⟨hno, he⟩
    · rw [he, List.append_nil]
      exact h.nodup
    · rw [he]
      refine h.nodup.append (List.nodup_singleton _) ?_
      intro p hp hq
      rw [List.mem_singleton] at hq
      rw [hq] at hp
      have := h.proper.hasEdge_of_link (by simp) (by simp) hp
      rw [hno] at this
      cases this
  · intro did' e he
    rw [hm.links]
    refine List.mem_append_left _ ?_
    cases hv : view g (.dtn, did') with
    | none =>
        rw [(hkeys _).mpr hv] at he
        cases he
    | some d => exact h.uplink did' d hv

-- ============================================== registration messages

/-- Two modules of a message whose ids are no clash: the same id is at
most that of a storage named twice. -/
def Compatible (m n : Module) : Prop :=
  m.id = n.id → (m.type = .dtn ∨ m.type = .localStorage) →
    (n.type = .dtn ∨ n.type = .localStorage) →
    m.type = .localStorage ∧ n.type = .localStorage

/-- A registration that the graph takes in its shape: no id is a key of
the general nodes, no DTN is there already, an id is that of a storage
or of a DTN and not both, and the storages that a DTN names are no
DTNs. -/
structure Plain (g : RGraph) (modules : List Module) : Prop where
  free : ∀ m ∈ modules, ¬ ReservedKey m.id
  dtn : ∀ m ∈ modules, m.type = .dtn →
    hasDtnNode g m.id = false ∧ hasStorageNode g m.id = false
  storage : ∀ m ∈ modules, m.type = .localStorage →
    hasDtnNode g m.id = false
  compatible : modules.Pairwise Compatible
  mapping : ∀ m ∈ modules, m.type = .dtn → ∀ s ∈ m.storages,
    ¬ ReservedKey s.id ∧ hasDtnNode g s.id = false ∧
      ∀ n ∈ modules, n.type = .dtn → n.id ≠ s.id

theorem hasDtnNode_false {id : String} :
    hasDtnNode g id = false ↔ view g (.dtn, id) = none := by
  rw [hasDtnNode, Option.isSome_eq_false_iff, Option.isNone_iff_eq_none,
    view_eq_none]

theorem hasStorageNode_false {id : String} :
    hasStorageNode g id = false ↔ view g (.storage, id) = none := by
  rw [hasStorageNode, Option.isSome_eq_false_iff, Option.isNone_iff_eq_none,
    view_eq_none]

/-- What the modules still to be registered need of the graph. -/
structure Takes (g : RGraph) (modules : List Module) : Prop where
  free : ∀ m ∈ modules, ¬ ReservedKey m.id
  dtn : ∀ m ∈ modules, m.type = .dtn →
    view g (.dtn, m.id) = none ∧ view g (.storage, m.id) = none
  storage : ∀ m ∈ modules, m.type = .localStorage → view g (.dtn, m.id) = none
  compatible : modules.Pairwise Compatible

theorem Plain.takes {l : List Module} (h : Plain g l) : Takes g l where
  free := h.free
  dtn := fun m hm ht => ⟨hasDtnNode_false.mp (h.dtn m hm ht).1,
    hasStorageNode_false.mp (h.dtn m hm ht).2⟩
  storage := fun m hm ht => hasDtnNode_false.mp (h.storage m hm ht)
  compatible := h.compatible

/-- A module that is taken keeps the shape. -/
theorem Laid.added (h : Laid g) {g' : RGraph} {queue : String} {m : Module}
    {l : List Module} (ht : Takes g (m :: l)) (ha : Added g g' queue m) :
    Laid g' := by
  have hin : m ∈ m :: l := List.mem_cons_self ..
  have hw : ∀ x, slotName m = some x →
      Writes g g' x (registered queue m (view g x)) := by
    intro x hx
    refine ⟨ha.proper.named, ?_, ha.addr⟩
    simp only [ha.view, viewAdded, hx]
  have hl := ha.links
  unfold linksAdded at hl
  have hgen : ∀ key, slotName m = some (.general, key) → key ≠ gatewayId →
      links g' = linksWithout g (.general, key) → Laid g' := by
    intro key hs hk hl
    refine h.dropped ha.proper (x := (.general, key)) ?_ ?_ ?_ hl
    · exact fun he => hk (congrArg Prod.snd he)
    · intro y hy
      rw [(hw _ hs).view, Function.update_of_ne (fun he => hy (by rw [he]))]
      exact .inr rfl
    · intro did hd
      cases hd
  cases hty : m.type with
  | dtn =>
      rw [hty] at hl
      obtain ⟨hnew, hst⟩ := ht.dtn m hin hty
      exact h.writes_dtn ha.proper (hw _ (by rw [slotName, hty])) hnew hst hl
  | localStorage =>
      rw [hty] at hl
      exact h.writes_other ha.proper (hw _ (by rw [slotName, hty]))
        (fun _ => ht.storage m hin hty) (by simp) hl
  | launcher =>
      rw [hty] at hl
      exact hgen launcherId (by rw [slotName, hty]) (by decide) hl
  | sdn =>
      rw [hty] at hl
      exact hgen sdnId (by rw [slotName, hty]) (by decide) hl
  | other t =>
      rw [hty] at hl
      have hv : view g' = view g := by rw [ha.view, viewAdded, slotName, hty]
      refine ⟨ha.proper, ?_, ?_, ?_, ?_⟩
      · rw [hv]
        exact h.apart
      · rw [hl]
        exact h.kinds
      · rw [hl]
        exact h.nodup
      · rw [hv, hl]
        exact h.uplink

/-- The names of storages and DTNs after a module was registered. -/
theorem Added.view_other {g' : RGraph} {queue : String} {m : Module}
    (ha : Added g g' queue m) {x : NodeName} (hx : slotName m ≠ some x) :
    RGraph.view g' x = RGraph.view g x := by
  rw [ha.view, viewAdded]
  cases hs : slotName m with
  | none => rfl
  | some y =>
      have hne : x ≠ y := fun he => hx (by rw [hs, he])
      simp only [Function.update_of_ne hne]

theorem slotName_dtn {m : Module} {id : String}
    (h : slotName m = some (.dtn, id)) : m.type = .dtn ∧ m.id = id := by
  unfold slotName at h
  split at h <;> simp_all

theorem slotName_storage {m : Module} {id : String}
    (h : slotName m = some (.storage, id)) :
    m.type = .localStorage ∧ m.id = id := by
  unfold slotName at h
  split at h <;> simp_all

/-- The rest of the modules are still taken. -/
theorem Takes.added {g' : RGraph} {queue : String} {m : Module}
    {l : List Module} (ht : Takes g (m :: l)) (ha : Added g g' queue m) :
    Takes g' l := by
  have htail : ∀ n ∈ l, n ∈ m :: l := fun n hn => List.mem_cons_of_mem _ hn
  obtain ⟨hm, hcomp⟩ := List.pairwise_cons.mp ht.compatible
  -- a later module of one kind does not meet the slot of the other
  have hd : ∀ n ∈ l, (n.type = .dtn ∨ n.type = .localStorage) →
      slotName m ≠ some (.dtn, n.id) := by
    intro n hn hk hs
    obtain ⟨hty, hid⟩ := slotName_dtn hs
    have := (hm n hn hid (.inl hty) hk).1
    rw [hty] at this
    cases this
  have hs : ∀ n ∈ l, n.type = .dtn → slotName m ≠ some (.storage, n.id) := by
    intro n hn hk hs
    obtain ⟨hty, hid⟩ := slotName_storage hs
    have := (hm n hn hid (.inr hty) (.inl hk)).2
    rw [hk] at this
    cases this
  refine ⟨fun n hn => ht.free n (htail n hn), ?_, ?_, hcomp⟩
  · intro n hn hk
    rw [ha.view_other (hd n hn (.inl hk)), ha.view_other (hs n hn hk)]
    exact ht.dtn n (htail n hn) hk
  · intro n hn hk
    rw [ha.view_other (hd n hn (.inr hk))]
    exact ht.storage n (htail n hn) hk

/-- The first iteration keeps the shape, and touches only the names of
its modules. -/
theorem wp_addModules_laid {queue : String} {l : List Module} {g : RGraph}
    (h : Laid g) (ht : Takes g l) :
    wp (l.forM (addModule queue))
      (fun _ g' => Laid g' ∧
        ∀ x, (∀ m ∈ l, slotName m ≠ some x) → view g' x = view g x) E g := by
  induction l generalizing g with
  | nil => exact ⟨h, fun _ _ => rfl⟩
  | cons m l ih =>
      rw [wp_forM_cons]
      refine h.proper.wp_addModule (ht.free m (List.mem_cons_self ..)) ?_
      intro g₁ ha
      refine (ih (h.added ht ha) (ht.added ha)).mono ?_ fun _ he => he
      intro _ g₂ h₂
      refine ⟨h₂.1, fun x hx => ?_⟩
      rw [h₂.2 x fun n hn => hx n (List.mem_cons_of_mem _ hn)]
      exact ha.view_other (hx m (List.mem_cons_self ..))

/-- What the mappings of the modules need of the graph. -/
def Maps (g : RGraph) (modules : List Module) : Prop :=
  ∀ m ∈ modules, m.type = .dtn → ¬ ReservedKey m.id ∧
    view g (.storage, m.id) = none ∧
    ∀ s ∈ m.storages, ¬ ReservedKey s.id ∧ view g (.dtn, s.id) = none

/-- A mapping neither adds nor removes a name. -/
theorem Mapped.view_none {g' : RGraph} {sid did : String}
    (hm : Mapped g g' sid did) {x : NodeName} :
    RGraph.view g' x = none ↔ RGraph.view g x = none := by
  rw [hm.view]
  rcases viewMapped_cases (g := g) sid did x with hc | ⟨d, a, -, he, -, hc⟩
  · rw [hc]
  · rw [hc, he]
    simp

theorem wp_linkModules_laid {l : List Module} (h : Laid g) (hm : Maps g l) :
    wp (l.forM linkModule) (fun _ => Laid) Laid g := by
  have hloop : wp (l.forM linkModule) (fun _ g' => Laid g' ∧ Maps g' l)
      (fun g' => Laid g' ∧ Maps g' l) g := by
    refine wp_forM_inv ?_ ⟨h, hm⟩
    intro m hmem g₁ h₁
    unfold linkModule
    split
    · rename_i hty
      refine wp_forM_inv ?_ h₁
      intro s hs g₂ h₂
      obtain ⟨hid, hst, hmap⟩ := h₂.2 m hmem hty
      obtain ⟨hsid, hsd⟩ := hmap s hs
      refine wp_mapStorageCaught h₂.1.proper.named fun g₃ hg₃ => ?_
      refine ⟨h₂.1.mapped hg₃ hsid hid hsd hst, ?_⟩
      intro n hn hnty
      obtain ⟨hnid, hnst, hnmap⟩ := h₂.2 n hn hnty
      exact ⟨hnid, hg₃.view_none.mpr hnst, fun t ht =>
        ⟨(hnmap t ht).1, hg₃.view_none.mpr (hnmap t ht).2⟩⟩
    · exact h₁
  exact hloop.mono (fun _ _ h' => h'.1) fun _ h' => h'.1

theorem Compatible.symm {m n : Module} (h : Compatible m n) :
    Compatible n m := by
  intro hid hn hm
  exact (h hid.symm hm hn).symm

/-- After the first iteration the mappings find what they need. -/
theorem Plain.maps {l : List Module} (h : Plain g l) {g' : RGraph}
    (hv : ∀ x, (∀ m ∈ l, slotName m ≠ some x) → view g' x = view g x) :
    Maps g' l := by
  intro m hm hty
  refine ⟨h.free m hm, ?_, ?_⟩
  · rw [hv]
    · exact hasStorageNode_false.mp (h.dtn m hm hty).2
    · intro n hn hs
      obtain ⟨hnty, hid⟩ := slotName_storage hs
      have hsym : Std.Symm Compatible := ⟨fun _ _ hc => hc.symm⟩
      have hne : n ≠ m := fun he => by
        rw [he, hty] at hnty
        cases hnty
      have := (h.compatible.forall hn hm hne hid (.inr hnty) (.inl hty)).2
      rw [hty] at this
      cases this
  · intro s hs
    obtain ⟨hsid, hsd, hother⟩ := h.mapping m hm hty s hs
    refine ⟨hsid, ?_⟩
    rw [hv]
    · exact hasDtnNode_false.mp hsd
    · intro n hn hslot
      obtain ⟨hnty, hid⟩ := slotName_dtn hslot
      exact hother n hn hnty hid

theorem wp_addModules_shape {queue : String} {l : List Module}
    (h : Laid g) (hp : Plain g l) :
    wp (addModules queue l) (fun _ => Laid) Laid g := by
  rw [addModules, wp_bind]
  refine (wp_addModules_laid h hp.takes).mono ?_ fun _ he => he
  intro _ g' h'
  exact wp_linkModules_laid h'.1 (hp.maps h'.2)

theorem wp_delModules_shape {l : List Module} (h : Laid g)
    (hl : ∀ m ∈ l, ¬ ReservedKey m.id) :
    wp (delModules l) (fun _ => Laid) Laid g := by
  refine wp_forM_inv ?_ h
  intro m hm g₁ h₁
  rw [wp_delNode]
  split
  · exact h₁
  · rcases h₁.proper.deleted_cases (hl m hm) with he | ⟨x, hs, hd⟩
    · rw [he]
      exact h₁
    · exact h₁.drops hd hs.not_gateway

-- ============================================================== construct

/-- Lists of the store that make a graph of the shape: every DTN once,
no id both a storage and a DTN or a key of the general nodes, and the
pairs go from storages to DTNs. -/
structure Consistent (store : Inventory) : Prop where
  storages : ∀ s ∈ store.storages, ¬ ReservedKey s.id
  dtns : ∀ d ∈ store.dtns, ¬ ReservedKey d.id ∧
    ∀ s ∈ store.storages, s.id ≠ d.id
  nodup : (store.dtns.map Module.id).Nodup
  pairs : ∀ p ∈ store.storageDtnMap, ¬ ReservedKey p.1 ∧ ¬ ReservedKey p.2 ∧
    (∀ d ∈ store.dtns, d.id ≠ p.1) ∧ ∀ s ∈ store.storages, s.id ≠ p.2

theorem bare_laid (g : RGraph) : Laid (bare g) := by
  have hno : ∀ k id, k ≠ NodeKind.general → view (bare g) (k, id) = none := by
    intro k id hk
    cases hv : view (bare g) (k, id) with
    | none => rfl
    | some d => exact absurd (congrArg Prod.fst (view_bare hv).1) hk
  refine ⟨bare_proper g, fun id => .inl (hno _ _ (by simp)), ?_, ?_, ?_⟩
  · intro p hp
    rw [links_bare] at hp
    cases hp
  · rw [links_bare]
    exact List.nodup_nil
  · intro did d hd
    rw [hno _ _ (by simp)] at hd
    cases hd

theorem wp_constructStorages_laid {l : List Module} {g : RGraph}
    (h : Laid g) (hl : ∀ s ∈ l, ¬ ReservedKey s.id)
    (hd : ∀ id, view g (.dtn, id) = none) :
    wp (l.forM constructStorage)
      (fun _ g' => Laid g' ∧ (∀ id, view g' (.dtn, id) = none) ∧
        ∀ id, (∀ s ∈ l, s.id ≠ id) → view g' (.storage, id)
          = view g (.storage, id)) E g := by
  induction l generalizing g with
  | nil => exact ⟨h, hd, fun _ _ => rfl⟩
  | cons s l ih =>
      rw [wp_forM_cons, constructStorage]
      refine h.proper.wp_putStorage (hl s (List.mem_cons_self ..)) ?_
      intro g₁ hp hw hlinks
      have h₁ := h.writes_other hp hw (fun _ => hd s.id) (by simp) hlinks
      have hd₁ : ∀ id, view g₁ (.dtn, id) = none := by
        intro id
        rw [hw.view, Function.update_of_ne (by simp)]
        exact hd id
      refine (ih h₁ (fun t ht => hl t (List.mem_cons_of_mem _ ht)) hd₁).mono
        ?_ fun _ he => he
      intro _ g₂ h₂
      refine ⟨h₂.1, h₂.2.1, fun id hid => ?_⟩
      rw [h₂.2.2 id fun t ht => hid t (List.mem_cons_of_mem _ ht), hw.view,
        Function.update_of_ne]
      intro he
      exact hid s (List.mem_cons_self ..) (congrArg Prod.snd he).symm

theorem wp_constructDtns_laid {l : List Module} {g : RGraph}
    (h : Laid g) (hl : ∀ d ∈ l, ¬ ReservedKey d.id ∧
      view g (.storage, d.id) = none ∧ view g (.dtn, d.id) = none)
    (hnd : (l.map Module.id).Nodup) :
    wp (l.forM constructDtn)
      (fun _ g' => Laid g' ∧
        (∀ id, view g' (.storage, id) = view g (.storage, id)) ∧
        ∀ id, (∀ d ∈ l, d.id ≠ id) → view g' (.dtn, id)
          = view g (.dtn, id)) E g := by
  induction l generalizing g with
  | nil => exact ⟨h, fun _ => rfl, fun _ _ => rfl⟩
  | cons d l ih =>
      rw [List.map_cons, List.nodup_cons] at hnd
      obtain ⟨hid, hst, hnew⟩ := hl d (List.mem_cons_self ..)
      rw [wp_forM_cons, constructDtn]
      refine h.proper.wp_putDtn hid ?_
      intro g₁ hp hw hlinks
      have h₁ := h.writes_dtn hp hw hnew hst hlinks
      have hst₁ : ∀ id, view g₁ (.storage, id) = view g (.storage, id) := by
        intro id
        rw [hw.view, Function.update_of_ne (by simp)]
      have hdtn₁ : ∀ id, d.id ≠ id →
          view g₁ (.dtn, id) = view g (.dtn, id) := by
        intro id hne
        rw [hw.view, Function.update_of_ne]
        intro he
        exact hne (congrArg Prod.snd he).symm
      refine (ih h₁ ?_ hnd.2).mono ?_ fun _ he => he
      · intro e he
        obtain ⟨heid, hest, henew⟩ := hl e (List.mem_cons_of_mem _ he)
        have hne : d.id ≠ e.id := fun heq =>
          hnd.1 (heq ▸ List.mem_map_of_mem he)
        exact ⟨heid, (hst₁ _).trans hest, (hdtn₁ _ hne).trans henew⟩
      · intro _ g₂ h₂
        refine ⟨h₂.1, fun id => (h₂.2.1 id).trans (hst₁ id), fun id hid => ?_⟩
        rw [h₂.2.2 id fun e he => hid e (List.mem_cons_of_mem _ he)]
        exact hdtn₁ id (hid d (List.mem_cons_self ..))

theorem wp_construct_shape {store : Inventory} (hs : Consistent store) :
    wp (construct store) (fun _ => Laid) Laid g := by
  have hinit : construct store = (do
      init
      store.storages.forM constructStorage
      store.dtns.forM constructDtn
      store.storageDtnMap.forM fun sd => mapStorageCaught sd.1 sd.2) := rfl
  have hno : ∀ k id, k ≠ NodeKind.general → view (bare g) (k, id) = none := by
    intro k id hk
    cases hv : view (bare g) (k, id) with
    | none => rfl
    | some d => exact absurd (congrArg Prod.fst (view_bare hv).1) hk
  rw [hinit, wp_bind, wp_init, wp_bind]
  refine (wp_constructStorages_laid (bare_laid g) hs.storages
    fun id => hno _ _ (by simp)).mono ?_ fun _ he => he
  intro _ g₁ h₁
  rw [wp_bind]
  refine (wp_constructDtns_laid h₁.1 ?_ hs.nodup).mono ?_ fun _ he => he
  · intro d hd
    refine ⟨(hs.dtns d hd).1, ?_, h₁.2.1 d.id⟩
    rw [h₁.2.2 d.id (hs.dtns d hd).2]
    exact hno _ _ (by simp)
  · intro _ g₂ h₂
    have hpairs : ∀ p ∈ store.storageDtnMap, view g₂ (.dtn, p.1) = none ∧
        view g₂ (.storage, p.2) = none := by
      intro p hp
      obtain ⟨-, -, hd, hst⟩ := hs.pairs p hp
      rw [h₂.2.2 p.1 hd, h₂.2.1 p.2, h₁.2.2 p.2 hst]
      exact ⟨h₁.2.1 p.1, hno _ _ (by simp)⟩
    have hloop : wp (store.storageDtnMap.forM
        fun sd => mapStorageCaught sd.1 sd.2)
        (fun _ g' => Laid g' ∧ ∀ p ∈ store.storageDtnMap,
          view g' (.dtn, p.1) = none ∧ view g' (.storage, p.2) = none)
        (fun g' => Laid g' ∧ ∀ p ∈ store.storageDtnMap,
          view g' (.dtn, p.1) = none ∧ view g' (.storage, p.2) = none) g₂ := by
      refine wp_forM_inv ?_ ⟨h₂.1, hpairs⟩
      intro p hp g₃ h₃
      refine wp_mapStorageCaught h₃.1.proper.named fun g₄ hm => ?_
      obtain ⟨hs₁, hs₂, -, -⟩ := hs.pairs p hp
      refine ⟨h₃.1.mapped hm hs₁ hs₂ (h₃.2 p hp).1 (h₃.2 p hp).2, ?_⟩
      intro q hq
      exact ⟨hm.view_none.mpr (h₃.2 q hq).1, hm.view_none.mpr (h₃.2 q hq).2⟩
    exact hloop.mono (fun _ _ h' => h'.1) fun _ h' => h'.1

-- ============================================================ whole runs

/-- A call that keeps the shape. -/
def Regular (g : RGraph) : ResourceManager.Call → Prop
  | .addModules _ modules => Plain g modules
  | .delModules modules => ∀ m ∈ modules, ¬ ReservedKey m.id
  | .construct store => Consistent store

/-- Every call of a run is regular where it is made. -/
def RegularRun : RGraph → List ResourceManager.Call → Prop
  | _, [] => True
  | g, c :: calls => Regular g c ∧ RegularRun (after c.run g) calls

theorem Laid.call (h : Laid g) {c : ResourceManager.Call}
    (hc : Regular g c) : Laid (after c.run g) := by
  cases c with
  | addModules queue modules => exact (wp_addModules_shape h hc).after
  | delModules modules => exact (wp_delModules_shape h hc).after
  | construct store => exact (wp_construct_shape hc).after

/-- The graph has its shape after every regular run. -/
theorem graph_keeps_shape (calls : List ResourceManager.Call)
    (h : RegularRun initial calls) :
    Shape (runAll (calls.map ResourceManager.Call.run) initial) := by
  have hrun : ∀ (calls : List ResourceManager.Call) (g : RGraph),
      RegularRun g calls → Laid g →
      Laid (runAll (calls.map ResourceManager.Call.run) g) := by
    intro calls
    induction calls with
    | nil => intro g _ hl; exact hl
    | cons c calls ih =>
        intro g hr hl
        exact ih _ hr.2 (hl.call hr.1)
  exact (hrun calls initial h (bare_laid {})).shape

/-- A DTN with a storage of its own. -/
def diskAndDtn : List Module :=
  [{ id := "disk1", type := .localStorage },
    { id := "dtn1", type := .dtn, storages := [{ id := "disk1" }] }]

theorem graph_keeps_shape_reconnect :
    Shape (runAll ([.addModules "q1" diskAndDtn, .delModules diskAndDtn,
      .addModules "q1" diskAndDtn].map ResourceManager.Call.run)
      initial) := by
  have hids : ∀ m ∈ diskAndDtn, ¬ ReservedKey m.id := by decide +kernel
  have hplain : ∀ g : RGraph, hasDtnNode g "disk1" = false →
      hasDtnNode g "dtn1" = false → hasStorageNode g "dtn1" = false →
      Plain g diskAndDtn := by
    intro g hd hd' hs
    refine ⟨hids, ?_, ?_, ?_, ?_⟩
    · simp [diskAndDtn, hd', hs]
    · simp [diskAndDtn, hd]
    · simp [diskAndDtn, Compatible]
    · simp only [diskAndDtn, List.mem_cons, List.not_mem_nil, or_false]
      rintro m (rfl | rfl) ht s hs
      · cases ht
      · rw [List.mem_singleton] at hs
        subst hs
        refine ⟨by decide, hd, ?_⟩
        rintro n (rfl | rfl) hn
        · cases hn
        · decide
  refine graph_keeps_shape _ ⟨hplain _ ?_ ?_ ?_, hids, hplain _ ?_ ?_ ?_,
    trivial⟩ <;> decide +kernel

/-- An agent that registers again at a reconnect gives its DTN a second
edge to the gateway. -/
theorem second_uplink :
    ¬ Shape (runAll ([.addModules "q1" diskAndDtn,
      .addModules "q1" diskAndDtn].map ResourceManager.Call.run)
      initial) := by
  intro h
  have hsimple := h.simple
  revert hsimple
  decide +kernel

end RGraph

end BigDataExpress
