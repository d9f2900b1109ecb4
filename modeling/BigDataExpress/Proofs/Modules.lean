/-
What the registration of one module does to the resource graph, by name:
one change of the table of nodes, and the links it adds or drops.

# The layout

`Proper` is the layout the specifications rest on: the gateway is there,
the three keys of the general nodes are used by no storage and no DTN,
and no rid is one of them. Module ids that are not one of the three keys
keep it.

# The specifications

`wp_addModule`, `wp_mapStorage` and `wp_delNode` say what a step does.
Under `Proper` the first iteration of `add_modules` never throws: the
gateway is found, and the compared rid of an edge to the gateway is never
the key it is asked under.
-/
import BigDataExpress.Proofs.Adjacency
import BigDataExpress.Server.ResourceManager

namespace BigDataExpress

open Stateful

/-- One of the three keys of the general nodes. -/
def ReservedKey (id : String) : Prop :=
  id = gatewayId ∨ id = launcherId ∨ id = sdnId

instance (id : String) : Decidable (ReservedKey id) :=
  inferInstanceAs (Decidable (_ ∨ _ ∨ _))

namespace RGraph

/-- The contents of the graph by name. -/
abbrev view (g : RGraph) : NodeName → Option RNode :=
  PtrGraph.view RNode.nodeName g

/-- The pairs of names the edges join. -/
abbrev links (g : RGraph) : List (Option NodeName × Option NodeName) :=
  PtrGraph.links RNode.nodeName g

/-- The links not at a name. -/
abbrev linksWithout (g : RGraph) (x : NodeName) :
    List (Option NodeName × Option NodeName) :=
  PtrGraph.linksWithout RNode.nodeName g x

/-- The addresses by name. -/
abbrev addrOf (g : RGraph) : NodeName → Option Nat :=
  PtrGraph.addrOf RNode.nodeName g

/-- The names of the nodes are unique. -/
abbrev Named (g : RGraph) : Prop := PtrGraph.Named RNode.nodeName g

/-- The name of the gateway. -/
def gatewayName : NodeName := (.general, gatewayId)

variable {g : RGraph} {E : RGraph → Prop}

-- ============================================================ the layout

/-- What is seen under a name is the data of what is found. -/
theorem view_eq_some {x : NodeName} {d : RNode} :
    view g x = some d ↔ ∃ n, find g x = some n ∧ n.data = d := by
  simp only [view, PtrGraph.view, find, Option.map_eq_some_iff]

/-- Where nothing is seen, nothing is found. -/
theorem view_eq_none {x : NodeName} :
    view g x = none ↔ find g x = none := by
  simp only [view, PtrGraph.view, find, Option.map_eq_none_iff]

/-- The address of a name is that of what is found. -/
theorem addrOf_eq_some {x : NodeName} {a : Nat} :
    addrOf g x = some a ↔ ∃ n, find g x = some n ∧ n.addr = a := by
  simp only [addrOf, PtrGraph.addrOf, find, Option.map_eq_some_iff]

/-- Where there is no address, nothing is found. -/
theorem addrOf_eq_none {x : NodeName} :
    addrOf g x = none ↔ find g x = none := by
  simp only [addrOf, PtrGraph.addrOf, find, Option.map_eq_none_iff]

/-- Every node is seen under its name. -/
theorem Named.view_mem (h : Named g) {n : PtrGraph.Node RNode}
    (hn : n ∈ g.nodes) : view g n.data.nodeName = some n.data :=
  view_eq_some.mpr ⟨n, h.find_eq hn, rfl⟩

/-- The layout of a graph that modules with ids of their own registered
in. -/
structure Proper (g : RGraph) : Prop where
  named : Named g
  gateway : ∃ d, view g gatewayName = some d
  general : ∀ x d, view g x = some d → (x.1 = .general ↔ ReservedKey x.2)
  rid : ∀ x d, view g x = some d → x.1 ≠ .general → d.rid = x.2
  rid_free : ∀ x d, view g x = some d → ¬ ReservedKey d.rid

/-- Under a key of its own a node is the general one. -/
theorem Proper.find_reserved (h : Proper g) {id : String}
    (hid : ReservedKey id) {k : NodeKind} (hk : k ≠ .general) :
    find g (k, id) = none := by
  rw [← view_eq_none]
  cases hv : view g (k, id) with
  | none => rfl
  | some d => exact absurd ((h.general _ d hv).mpr hid) hk

/-- Only reserved keys are general. -/
theorem Proper.find_general (h : Proper g) {id : String}
    (hid : ¬ ReservedKey id) : find g (.general, id) = none := by
  rw [← view_eq_none]
  cases hv : view g (.general, id) with
  | none => rfl
  | some d => exact absurd ((h.general _ d hv).mp rfl) hid

/-- A reserved key is looked up among the general nodes. -/
theorem Proper.lookup_reserved (h : Proper g) {id : String}
    (hid : ReservedKey id) : lookup g id = find g (.general, id) := by
  simp only [lookup, h.find_reserved hid (k := .storage) (by decide),
    h.find_reserved hid (k := .dtn) (by decide), Option.none_or]

/-- Another id is that of a storage, or else of a DTN. -/
theorem Proper.lookup_free (h : Proper g) {id : String}
    (hid : ¬ ReservedKey id) :
    lookup g id = (find g (.storage, id)).or (find g (.dtn, id)) := by
  simp only [lookup, h.find_general hid, Option.or_none]

/-- Edges are never found under the key of a general node. -/
theorem Proper.hasEdge_reserved (h : Proper g) {id : String}
    (hid : ReservedKey id) (src : String) : hasEdge g src id = false := by
  rw [hasEdge, List.any_eq_false]
  intro e he
  obtain ⟨u, hu, v, hv, hs, hd, -, -⟩ := h.named.edge_names he
  have hrid : ridAt g e.dst = some v.data.rid := by
    rw [ridAt, ← hd, h.named.sound.node?_eq hv]
    rfl
  have hfree := h.rid_free _ _ (h.named.view_mem hv)
  have hne : ¬ v.data.rid = id := fun heq => hfree (heq ▸ hid)
  simp [hrid, hne]

/-- What becomes of the graph when one name is written. -/
structure Writes (g g' : RGraph) (x : NodeName) (d : RNode) : Prop where
  named : Named g'
  view : view g' = Function.update (RGraph.view g) x (some d)
  addr : ∀ y a, y.1 ≠ .general → addrOf g y = some a → addrOf g' y = some a

/-- Writing a node that is in its place keeps the graph proper. -/
theorem Proper.writes (h : Proper g) {g' : RGraph} {x : NodeName}
    {d : RNode} (hw : Writes g g' x d)
    (hgen : x.1 = .general ↔ ReservedKey x.2)
    (hrid : x.1 ≠ .general → d.rid = x.2) (hfree : ¬ ReservedKey d.rid) :
    Proper g' where
  named := hw.named
  gateway := by
    rw [hw.view, Function.update_apply]
    split
    · exact ⟨d, rfl⟩
    · exact h.gateway
  general := by
    intro y e hy
    rw [hw.view, Function.update_apply] at hy
    split at hy
    · rename_i he
      rw [he]
      exact hgen
    · exact h.general y e hy
  rid := by
    intro y e hy hne
    rw [hw.view, Function.update_apply] at hy
    split at hy
    · rename_i he
      cases hy
      rw [he] at hne ⊢
      exact hrid hne
    · exact h.rid y e hy hne
  rid_free := by
    intro y e hy
    rw [hw.view, Function.update_apply] at hy
    split at hy
    · cases hy
      exact hfree
    · exact h.rid_free y e hy

-- ===================================================== nodes of a module

/-- Emplace a node and set its fields: the one that was there, or the
new one, under the changes. -/
theorem wp_configure {Q : Nat → RGraph → Prop} {d : RNode}
    {f : RNode → RNode} (h : Named g)
    (hf : ∀ r : RNode, (f r).nodeName = r.nodeName)
    (hQ : ∀ g', Writes g g' d.nodeName (f ((view g d.nodeName).getD d)) →
      links g' = links g → ∀ a, addrOf g' d.nodeName = some a → Q a g') :
    wp (emplace d) (fun a g₁ => Q a (g₁.modify a f)) E g := by
  rw [wp_emplace]
  cases hd : find g d.nodeName with
  | none =>
      have hv : view g d.nodeName = none := view_eq_none.mpr hd
      have h' : Named (g.insert d) := h.insert (PtrGraph.find_none hd)
      have hn : PtrGraph.find RNode.nodeName (g.insert d) d.nodeName
          = some ⟨g.next, d, [], []⟩ := by
        rw [PtrGraph.find_insert hd, if_pos rfl]
      have hmem := (PtrGraph.find_some hn).1
      have hview := h'.view_modify hf hmem
      have haddr := PtrGraph.addrOf_modify (g := g.insert d) hf g.next
      rw [PtrGraph.addrOf_insert hd] at haddr
      refine .inr ⟨rfl, hQ _ ⟨h'.modify hf g.next, ?_, ?_⟩ ?_ _ ?_⟩
      · rw [PtrGraph.view_insert hd, Function.update_idem] at hview
        rw [hv]
        exact hview
      · intro y a _ hy
        have hne : y ≠ d.nodeName := by
          rintro rfl
          rw [addrOf_eq_none.mpr hd] at hy
          cases hy
        simp only [addrOf, haddr, Function.update_apply, if_neg hne]
        exact hy
      · exact (PtrGraph.links_modify hf g.next).trans (h.links_insert d)
      · simp only [addrOf, haddr, Function.update_self]
  | some n =>
      obtain ⟨hmem, hname⟩ := PtrGraph.find_some hd
      have hv : view g d.nodeName = some n.data := view_eq_some.mpr ⟨n, hd, rfl⟩
      have hview := h.view_modify hf hmem
      have haddr := PtrGraph.addrOf_modify (g := g) hf n.addr
      refine .inl ⟨n, rfl, hQ _ ⟨h.modify hf n.addr, ?_, ?_⟩ ?_ _ ?_⟩
      · rw [hv, Option.getD_some, ← hname]
        exact hview
      · intro y a _ hy
        simp only [addrOf, haddr]
        exact hy
      · exact PtrGraph.links_modify hf n.addr
      · simp only [addrOf, haddr]
        exact addrOf_eq_some.mpr ⟨n, hd, rfl⟩

/-- The name a module is kept under. -/
def slotName (m : Module) : Option NodeName :=
  match m.type with
  | .dtn => some (.dtn, m.id)
  | .localStorage => some (.storage, m.id)
  | .launcher => some (.general, launcherId)
  | .sdn => some (.general, sdnId)
  | .other _ => none

/-- The node of a DTN: the one that was there, with the fields of the
message. -/
def dtnNode (queue : String) (m : Module) (old : Option RNode) : RNode :=
  { old.getD { kind := .dtn, key := m.id, rid := m.id, name := m.name }
    with ctrlIp := m.ctrlIp, queue := queue, prop := m }

/-- The node of a storage, likewise. -/
def storageNode (cap : Rat) (queue : String) (m : Module)
    (old : Option RNode) : RNode :=
  { old.getD { kind := .storage, key := m.id, rid := m.id, name := m.name,
               cap := cap }
    with queue := queue, rootFolder := m.rootFolder, prop := m }

/-- The node of a module. -/
def registered (queue : String) (m : Module) (old : Option RNode) : RNode :=
  match m.type with
  | .dtn => dtnNode queue m old
  | .localStorage => storageNode 1000000 queue m old
  | .launcher =>
      { kind := .general, key := launcherId, rid := m.id,
        name := "Launcher Agent", queue := queue }
  | _ =>
      { kind := .general, key := sdnId, rid := m.id, name := "SDN Agent",
        queue := queue }

/-- The name an id stands for as the end of an edge. -/
def endName (g : RGraph) (id : String) : NodeName :=
  if hasStorageNode g id then (.storage, id) else (.dtn, id)

/-- The links after a module was registered. -/
def linksAdded (g : RGraph) (m : Module) :
    List (Option NodeName × Option NodeName) :=
  match m.type with
  | .dtn => links g ++ [(some (endName g m.id), some gatewayName)]
  | .localStorage => links g
  | .launcher => linksWithout g (.general, launcherId)
  | .sdn => linksWithout g (.general, sdnId)
  | .other _ => links g

/-- The gateway is found by its key. -/
theorem Proper.lookup_gateway (h : Proper g) :
    ∃ n ∈ g.nodes, lookup g gatewayId = some n ∧
      n.data.nodeName = gatewayName := by
  obtain ⟨d, hd⟩ := h.gateway
  obtain ⟨n, hn, -⟩ := view_eq_some.mp hd
  obtain ⟨hmem, hname⟩ := PtrGraph.find_some hn
  refine ⟨n, hmem, ?_, hname⟩
  rw [h.lookup_reserved (.inl rfl)]
  exact hn

/-- An id with a DTN leads to the end that a link to it gets. -/
theorem Proper.lookup_dtn (h : Proper g) {id : String} (hid : ¬ ReservedKey id)
    {d : RNode} (hd : view g (.dtn, id) = some d) :
    ∃ n ∈ g.nodes, lookup g id = some n ∧
      n.data.nodeName = endName g id := by
  rw [h.lookup_free hid]
  unfold endName hasStorageNode
  cases hs : find g (.storage, id) with
  | some n =>
      obtain ⟨hmem, hname⟩ := PtrGraph.find_some hs
      exact ⟨n, hmem, rfl, by simp [hname]⟩
  | none =>
      obtain ⟨n, hn, -⟩ := view_eq_some.mp hd
      obtain ⟨hmem, hname⟩ := PtrGraph.find_some hn
      exact ⟨n, hmem, hn, by simp [hname]⟩

/-- The edge of a DTN to the gateway is always a new one. -/
theorem Proper.wp_addEdgeToGateway {Q : Unit → RGraph → Prop} {id : String}
    {cap : Rat} (h : Proper g) (hid : ¬ ReservedKey id) {d : RNode}
    (hd : view g (.dtn, id) = some d)
    (hQ : ∀ g', Named g' → view g' = view g → addrOf g' = addrOf g →
      links g' = links g ++ [(some (endName g id), some gatewayName)] →
      Q () g') :
    wp (addEdgeToGateway id cap) Q E g := by
  obtain ⟨n, hn, -⟩ := view_eq_some.mp hd
  have hdtn : hasDtnNode g id = true := by rw [hasDtnNode, hn]; rfl
  obtain ⟨s, hs, hsl, hsn⟩ := h.lookup_dtn hid hd
  obtain ⟨w, hw, hwl, hwn⟩ := h.lookup_gateway
  rw [RGraph.wp_addEdgeToGateway, if_pos hdtn, wp_addEdge,
    h.hasEdge_reserved (.inl rfl), if_neg Bool.false_ne_true]
  refine .inl ⟨s, w, hsl, hwl, hQ _ (h.named.connect hs hw cap) ?_ ?_ ?_⟩
  · exact PtrGraph.view_connect ..
  · exact PtrGraph.addrOf_connect ..
  · have hl := h.named.links_connect hs hw cap
    rw [hsn, hwn] at hl
    exact hl

-- ============================================================== deletion

/-- Without one node: its name is gone, with the links at it. -/
structure Drops (g g' : RGraph) (x : NodeName) : Prop where
  named : Named g'
  view : view g' = Function.update (RGraph.view g) x none
  links : links g' = linksWithout g x
  addr : addrOf g' = Function.update (addrOf g) x none

/-- Removing a node drops its name and its links. -/
theorem drops_remove (h : Named g) {x : NodeName} {n : PtrGraph.Node RNode}
    (hn : find g x = some n) : Drops g (g.remove n.addr) x := by
  obtain ⟨hmem, hname⟩ := PtrGraph.find_some hn
  subst hname
  exact ⟨h.remove hmem, h.view_remove hmem, h.links_remove hmem,
    h.addrOf_remove hmem⟩

/-- A general node that is there is deleted under its key. -/
theorem Proper.drops_reserved (h : Proper g) {id : String}
    (hid : ReservedKey id) (hg : hasGeneralNode g id = true) :
    id ≠ "gateway" ∧ Drops g (deleted g id) (.general, id) := by
  have hne : id ≠ "gateway" := by
    rintro rfl
    revert hid
    decide
  refine ⟨hne, ?_⟩
  obtain ⟨n, hn⟩ := Option.isSome_iff_exists.mp hg
  have hkey : nodeKey g id = some id := by
    simp [nodeKey, hasNode, hg]
  rw [deleted, target, if_neg hne, hkey, Option.bind_some,
    h.lookup_reserved hid, hn]
  exact drops_remove h.named hn

/-- Dropping any node but the gateway keeps the graph proper. -/
theorem Proper.drops (h : Proper g) {g' : RGraph} {x : NodeName}
    (hd : Drops g g' x) (hx : x ≠ gatewayName) : Proper g' := by
  have hsub : ∀ y d, view g' y = some d → view g y = some d := by
    intro y d hy
    rw [hd.view, Function.update_apply] at hy
    split at hy
    · cases hy
    · exact hy
  constructor
  · exact hd.named
  · rw [hd.view, Function.update_of_ne hx.symm]
    exact h.gateway
  · exact fun y d hy => h.general y d (hsub y d hy)
  · exact fun y d hy => h.rid y d (hsub y d hy)
  · exact fun y d hy => h.rid_free y d (hsub y d hy)

/-- The launcher's and the SDN agent's slot: the node that is there goes,
and a new one is put in its place. -/
theorem Proper.wp_replace {Q : Unit → RGraph → Prop}
    {key rid name queue : String} {del : Resource Unit}
    (h : Proper g) (hkey : ReservedKey key) (hgw : key ≠ gatewayId)
    (hrid : ¬ ReservedKey rid)
    (hdel : hasGeneralNode g key = true → ∀ {R : Unit → RGraph → Prop},
      wp del R E g ↔ wp (delNode key) R E g)
    (hQ : ∀ g', Proper g' →
      Writes g g' (.general, key)
        { kind := .general, key := key, rid := rid, name := name,
          queue := queue } →
      links g' = linksWithout g (.general, key) → Q () g') :
    wp (do
      if hasGeneralNode (← get) key then
        del
      let a ← addGeneralNode key rid name 0
      setQueue a queue) Q E g := by
  have hname : ((NodeKind.general, key) : NodeName) ≠ gatewayName := fun he =>
    hgw (congrArg Prod.snd he)
  -- the node is put into a graph where its name is free
  have hput : ∀ g₁, Proper g₁ → find g₁ (.general, key) = none →
      view g₁ = Function.update (view g) (.general, key) none →
      (∀ y a, y.1 ≠ .general → addrOf g y = some a → addrOf g₁ y = some a) →
      links g₁ = linksWithout g (.general, key) →
      wp (do
        let a ← addGeneralNode key rid name 0
        setQueue a queue) Q E g₁ := by
    intro g₁ h₁ hfree hv ha hl
    simp only [addGeneralNode, setQueue, setAt, wp_bind, wp_modify]
    refine wp_configure (Q := fun _ => Q ()) h₁.named (fun r => rfl) ?_
    intro g' hw hl' a _
    have hnone : view g₁ (.general, key) = none := view_eq_none.mpr hfree
    simp only [RNode.nodeName, hnone, Option.getD_none] at hw
    have hw' : Writes g g' (.general, key)
        { kind := .general, key := key, rid := rid, name := name,
          queue := queue } :=
      ⟨hw.named, by rw [hw.view, hv, Function.update_idem],
        fun y a hy hya => hw.addr y a hy (ha y a hy hya)⟩
    refine hQ g' (h.writes hw' ?_ ?_ hrid) hw' (hl'.trans hl)
    · exact ⟨fun _ => hkey, fun _ => rfl⟩
    · exact fun hne => absurd rfl hne
  rw [wp_bind, wp_get]
  by_cases hg : hasGeneralNode g key = true
  · obtain ⟨hne, hdrop⟩ := h.drops_reserved hkey hg
    have h₁ := h.drops hdrop hname
    rw [if_pos hg, wp_bind, hdel hg, wp_delNode, if_neg hne]
    refine hput _ h₁ ?_ hdrop.view ?_ hdrop.links
    · rw [← view_eq_none, hdrop.view, Function.update_self]
    · intro y a hy hya
      have hyx : y ≠ (.general, key) := fun he => hy (by rw [he])
      rw [hdrop.addr, Function.update_of_ne hyx]
      exact hya
  · have hnone : find g (.general, key) = none := by
      cases hf : find g (.general, key) with
      | none => rfl
      | some n => exact absurd (by rw [hasGeneralNode, hf]; rfl) hg
    simp only [hg, Bool.false_eq_true, if_false]
    refine hput g h hnone ?_ (fun _ _ _ ha => ha) ?_
    · rw [← view_eq_none.mpr hnone, Function.update_eq_self]
    · exact (h.named.linksWithout_absent hnone).symm

-- ============================================== registration of a module

/-- The table of nodes after a module was registered. -/
def viewAdded (g : RGraph) (queue : String) (m : Module) :
    NodeName → Option RNode :=
  match slotName m with
  | some x => Function.update (view g) x
      (some (registered queue m (view g x)))
  | none => view g

/-- What the registration of a module does. -/
structure Added (g g' : RGraph) (queue : String) (m : Module) : Prop where
  proper : Proper g'
  view : view g' = viewAdded g queue m
  links : links g' = linksAdded g m
  addr : ∀ y a, y.1 ≠ .general → addrOf g y = some a → addrOf g' y = some a

/-- The node that was there has the id, and so has a new one. -/
theorem Proper.getD_rid (h : Proper g) {k : NodeKind} (hk : k ≠ .general)
    {id : String} {d : RNode} (hd : d.rid = id) :
    ((view g (k, id)).getD d).rid = id := by
  cases hv : view g (k, id) with
  | none => exact hd
  | some e => exact h.rid (k, id) e hv hk

/-- A launcher that is there is deleted as a node. -/
theorem wp_delLauncher {Q : Unit → RGraph → Prop}
    (hg : hasGeneralNode g launcherId = true) :
    wp delLauncher Q E g ↔ wp (delNode launcherId) Q E g := by
  simp only [delLauncher, hasLauncher, wp_bind, wp_get, hg, Bool.not_true,
    Bool.false_eq_true, if_false]

/-- So is an SDN agent. -/
theorem wp_delSdn {Q : Unit → RGraph → Prop}
    (hg : hasGeneralNode g sdnId = true) :
    wp delSdn Q E g ↔ wp (delNode sdnId) Q E g := by
  simp only [delSdn, hasSdn, wp_bind, wp_get, hg, Bool.not_true,
    Bool.false_eq_true, if_false]

/-- A DTN is put into the graph, with its edge to the gateway. -/
theorem Proper.wp_putDtn {Q : Unit → RGraph → Prop} {queue : String}
    {m : Module} (h : Proper g) (hid : ¬ ReservedKey m.id)
    (hQ : ∀ g', Proper g' →
      Writes g g' (.dtn, m.id) (dtnNode queue m (view g (.dtn, m.id))) →
      links g' = links g ++ [(some (endName g m.id), some gatewayName)] →
      Q () g') :
    wp (do
      let node ← addDtnNode m.id m.name 0
      setAt node fun d => { d with ctrlIp := m.ctrlIp }
      setQueue node queue
      setAt node fun d => { d with prop := m }
      addEdgeToGateway m.id m.rate) Q E g := by
  simp only [addDtnNode, setQueue, setAt, wp_bind, wp_modify,
    PtrGraph.modify_modify]
  refine wp_configure
    (Q := fun _ => wp (addEdgeToGateway m.id m.rate) Q E) h.named
    (fun r => rfl) ?_
  intro g₁ hw hl a _
  have hrid : (dtnNode queue m (view g (.dtn, m.id))).rid = m.id :=
    h.getD_rid (k := .dtn) (by decide) rfl
  have hgen : NodeKind.dtn = NodeKind.general ↔ ReservedKey m.id :=
    ⟨fun hg => (by cases hg), fun hr => absurd hr hid⟩
  have hfree : ¬ ReservedKey (dtnNode queue m (view g (.dtn, m.id))).rid := by
    rw [hrid]
    exact hid
  have h₁ : Proper g₁ := h.writes hw hgen (fun _ => hrid) hfree
  have hnew : view g₁ (.dtn, m.id)
      = some (dtnNode queue m (view g (.dtn, m.id))) := by
    rw [hw.view]
    exact Function.update_self ..
  have hend : endName g₁ m.id = endName g m.id := by
    have hst : view g₁ (.storage, m.id) = view g (.storage, m.id) := by
      rw [hw.view]
      exact Function.update_of_ne (by simp [RNode.nodeName]) ..
    have hsome : hasStorageNode g₁ m.id = hasStorageNode g m.id := by
      have := congrArg Option.isSome hst
      simp only [view, PtrGraph.view, Option.isSome_map] at this
      exact this
    rw [endName, endName, hsome]
  refine h₁.wp_addEdgeToGateway hid hnew ?_
  intro g₂ hn₂ hv₂ ha₂ hl₂
  have hw₂ : Writes g g₂ (.dtn, m.id)
      (dtnNode queue m (view g (.dtn, m.id))) := by
    refine ⟨hn₂, hv₂.trans hw.view, ?_⟩
    intro y b hy hb
    rw [ha₂]
    exact hw.addr y b hy hb
  refine hQ g₂ (h.writes hw₂ hgen (fun _ => hrid) hfree) hw₂ ?_
  rw [hl₂, hl, hend]

/-- A storage is put into the graph. -/
theorem Proper.wp_putStorage {Q : Unit → RGraph → Prop} {cap : Rat}
    {queue : String} {m : Module} (h : Proper g) (hid : ¬ ReservedKey m.id)
    (hQ : ∀ g', Proper g' →
      Writes g g' (.storage, m.id)
        (storageNode cap queue m (view g (.storage, m.id))) →
      links g' = links g → Q () g') :
    wp (do
      let node ← addStorageNode m.id m.name cap
      setQueue node queue
      setAt node fun d => { d with rootFolder := m.rootFolder }
      setAt node fun d => { d with prop := m }) Q E g := by
  simp only [addStorageNode, setQueue, setAt, wp_bind, wp_modify,
    PtrGraph.modify_modify]
  refine wp_configure (Q := fun _ => Q ()) h.named (fun r => rfl) ?_
  intro g₁ hw hl a _
  have hrid : (storageNode cap queue m (view g (.storage, m.id))).rid
      = m.id :=
    h.getD_rid (k := .storage) (by decide) rfl
  have hfree : ¬ ReservedKey
      (storageNode cap queue m (view g (.storage, m.id))).rid := by
    rw [hrid]
    exact hid
  refine hQ g₁ (h.writes hw ?_ (fun _ => hrid) hfree) hw hl
  exact ⟨fun hg => (by cases hg), fun hr => absurd hr hid⟩

/-- Adding a module to a proper graph succeeds, and does what is said of
it. -/
theorem Proper.wp_addModule {Q : Unit → RGraph → Prop} {queue : String}
    {m : Module} (h : Proper g) (hid : ¬ ReservedKey m.id)
    (hQ : ∀ g', Added g g' queue m → Q () g') :
    wp (ResourceManager.addModule queue m) Q E g := by
  unfold ResourceManager.addModule
  cases ht : m.type with
  | dtn =>
      refine h.wp_putDtn hid fun g' hp hw hl => ?_
      refine hQ g' ⟨hp, ?_, ?_, hw.addr⟩
      · simp only [hw.view, viewAdded, slotName, registered, ht]
      · rw [hl, linksAdded, ht]
  | localStorage =>
      refine h.wp_putStorage hid fun g' hp hw hl => ?_
      refine hQ g' ⟨hp, ?_, ?_, hw.addr⟩
      · simp only [hw.view, viewAdded, slotName, registered, ht]
      · rw [hl, linksAdded, ht]
  | launcher =>
      have hkey : ReservedKey launcherId := .inr (.inl rfl)
      refine h.wp_replace hkey (by decide) hid
        (fun hg => wp_delLauncher hg) ?_
      intro g' hp hw hl
      refine hQ g' ⟨hp, ?_, ?_, hw.addr⟩
      · simp only [hw.view, viewAdded, slotName, registered, ht]
      · rw [hl, linksAdded, ht]
  | sdn =>
      have hkey : ReservedKey sdnId := .inr (.inr rfl)
      refine h.wp_replace hkey (by decide) hid
        (fun hg => wp_delSdn hg) ?_
      intro g' hp hw hl
      refine hQ g' ⟨hp, ?_, ?_, hw.addr⟩
      · simp only [hw.view, viewAdded, slotName, registered, ht]
      · rw [hl, linksAdded, ht]
  | other t =>
      refine hQ g ⟨h, ?_, ?_, fun _ _ _ ha => ha⟩
      · rw [viewAdded, slotName, ht]
      · rw [linksAdded, ht]

-- ======================================================= storage mappings

/-- The link a storage mapping adds. -/
def linksMapped (g : RGraph) (sid did : String) :
    List (Option NodeName × Option NodeName) :=
  if hasEdge g sid did then []
  else match lookup g sid, lookup g did with
    | some s, some d => [(some s.data.nodeName, some d.data.nodeName)]
    | _, _ => []

/-- The table of nodes after a storage mapping: the storage designates
the DTN. -/
def viewMapped (g : RGraph) (sid did : String) : NodeName → Option RNode :=
  match view g (.storage, sid), addrOf g (.dtn, did) with
  | some d, some a => Function.update (view g) (.storage, sid)
      (some { d with pDtn := some a })
  | _, _ => view g

/-- What a storage mapping does, failed or not. -/
structure Mapped (g g' : RGraph) (sid did : String) : Prop where
  named : Named g'
  view : view g' = viewMapped g sid did
  addr : addrOf g' = addrOf g
  links : links g' = links g ++ linksMapped g sid did

/-- The second half of a mapping: the pointer, when both nodes exist. -/
theorem wp_designate {g₁ : RGraph} {sid did : String} (h : Named g₁)
    (hv : view g₁ = view g) (ha : addrOf g₁ = addrOf g)
    (hl : links g₁ = links g ++ linksMapped g sid did) :
    wp (do
      let s ← getStorageNode sid
      let d ← getDtnNode did
      setAt s.addr fun n => { n with pDtn := some d.addr })
      (fun _ g' => Mapped g g' sid did) (fun g' => Mapped g g' sid did)
      g₁ := by
  simp only [wp_bind, setAt, wp_modify, wp_getStorageNode, wp_getDtnNode]
  have hvs := congrFun hv (.storage, sid)
  have had := congrFun ha (.dtn, did)
  cases hs : find g₁ (.storage, sid) with
  | none =>
      refine .inr ⟨rfl, h, ?_, ha, hl⟩
      rw [view_eq_none.mpr hs] at hvs
      rw [hv, viewMapped, ← hvs]
  | some s =>
      obtain ⟨hmem, hname⟩ := PtrGraph.find_some hs
      rw [view_eq_some.mpr ⟨s, hs, rfl⟩] at hvs
      cases hd : find g₁ (.dtn, did) with
      | none =>
          refine .inl ⟨s, rfl, .inr ⟨rfl, h, ?_, ha, hl⟩⟩
          rw [addrOf_eq_none.mpr hd] at had
          rw [hv, viewMapped, ← hvs, ← had]
      | some d =>
          have hf : ∀ r : RNode,
              ({ r with pDtn := some d.addr } : RNode).nodeName
                = r.nodeName := fun r => rfl
          refine .inl ⟨s, rfl, .inl ⟨d, rfl, h.modify hf _, ?_, ?_, ?_⟩⟩
          · rw [addrOf_eq_some.mpr ⟨d, hd, rfl⟩] at had
            rw [viewMapped, ← hvs, ← had, ← hv, ← hname]
            exact h.view_modify hf hmem
          · exact (PtrGraph.addrOf_modify hf _).trans ha
          · exact (PtrGraph.links_modify hf _).trans hl

/-- A storage mapping never throws, and does what `Mapped` says. -/
theorem wp_mapStorageCaught {Q : Unit → RGraph → Prop} {sid did : String}
    (h : Named g) (hQ : ∀ g', Mapped g g' sid did → Q () g') :
    wp (ResourceManager.mapStorageCaught sid did) Q E g := by
  rw [ResourceManager.mapStorageCaught, wp_catch]
  have hall : wp (ResourceManager.mapStorage sid did)
      (fun _ g' => Mapped g g' sid did) (fun g' => Mapped g g' sid did) g := by
    rw [ResourceManager.mapStorage, wp_bind, wp_addEdge]
    by_cases he : hasEdge g sid did = true
    · rw [if_pos he]
      refine wp_designate h rfl rfl ?_
      rw [linksMapped, if_pos he, List.append_nil]
    · rw [if_neg he]
      cases hs : lookup g sid with
      | none =>
          -- nothing was found, so nothing is designated
          refine .inr ⟨.inl rfl, h, ?_, rfl, ?_⟩
          · have hnone : find g (.storage, sid) = none := by
              rw [lookup, Option.or_eq_none_iff, Option.or_eq_none_iff] at hs
              exact hs.1.1
            rw [viewMapped, view_eq_none.mpr hnone]
          · rw [linksMapped, if_neg he, hs, List.append_nil]
      | some s =>
          cases hd : lookup g did with
          | none =>
              refine .inr ⟨.inr rfl, h, ?_, rfl, ?_⟩
              · have hnone : find g (.dtn, did) = none := by
                  rw [lookup, Option.or_eq_none_iff, Option.or_eq_none_iff]
                    at hd
                  exact hd.1.2
                rw [viewMapped, addrOf_eq_none.mpr hnone]
                cases view g (.storage, sid) <;> rfl
              · rw [linksMapped, if_neg he, hs, hd, List.append_nil]
          | some d =>
              have hsm := lookup_mem hs
              have hdm := lookup_mem hd
              refine .inl ⟨s, d, rfl, rfl, ?_⟩
              refine wp_designate (h.connect hsm hdm _)
                (PtrGraph.view_connect ..) (PtrGraph.addrOf_connect ..) ?_
              rw [linksMapped, if_neg he, hs, hd]
              exact h.links_connect hsm hdm _
  exact hall.mono (fun _ g' h' => hQ g' h') fun g' h' => hQ g' h'

/-- Apart from the pointer a mapping leaves the nodes alone. -/
theorem viewMapped_cases (sid did : String) (x : NodeName) :
    viewMapped g sid did x = view g x ∨
      ∃ d a, x = (.storage, sid) ∧ view g x = some d ∧
        addrOf g (.dtn, did) = some a ∧
        viewMapped g sid did x = some { d with pDtn := some a } := by
  cases hd : view g (.storage, sid) with
  | none => exact .inl (by rw [viewMapped, hd])
  | some d =>
      cases ha : addrOf g (.dtn, did) with
      | none => exact .inl (by rw [viewMapped, hd, ha])
      | some a =>
          rw [viewMapped, hd, ha]
          by_cases hx : x = (.storage, sid)
          · subst hx
            exact .inr ⟨d, a, rfl, hd, rfl, Function.update_self ..⟩
          · exact .inl (Function.update_of_ne hx ..)

/-- Mapping a storage keeps the graph proper. -/
theorem Proper.mapped (h : Proper g) {g' : RGraph} {sid did : String}
    (hm : Mapped g g' sid did) : Proper g' := by
  have hback : ∀ x e, view g' x = some e →
      ∃ d, view g x = some d ∧ e.rid = d.rid := by
    intro x e hx
    rw [hm.view] at hx
    rcases viewMapped_cases (g := g) sid did x with hc | ⟨d, a, -, hd, -, hc⟩
    · exact ⟨e, hc ▸ hx, rfl⟩
    · rw [hc] at hx
      cases hx
      exact ⟨d, hd, rfl⟩
  constructor
  · exact hm.named
  · obtain ⟨d, hd⟩ := h.gateway
    rw [hm.view]
    rcases viewMapped_cases (g := g) sid did gatewayName with hc | hc
    · exact ⟨d, hc.trans hd⟩
    · obtain ⟨_, _, hx, -⟩ := hc
      cases hx
  · intro x e hx
    obtain ⟨d, hd, -⟩ := hback x e hx
    exact h.general x d hd
  · intro x e hx hk
    obtain ⟨d, hd, hr⟩ := hback x e hx
    exact hr.trans (h.rid x d hd hk)
  · intro x e hx
    obtain ⟨d, hd, hr⟩ := hback x e hx
    rw [hr]
    exact h.rid_free x d hd

-- ================================================ deletion by a module id

/-- The name a module id is deleted under, when the id is not a key of
the general nodes. -/
structure Stands (g : RGraph) (id : String) (x : NodeName) : Prop where
  present : ∃ d, view g x = some d
  rid : ∀ d, view g x = some d → d.rid = id
  not_gateway : x ≠ gatewayName
  storage : x.1 = .dtn → view g (.storage, id) = none

/-- The node with an id stands in its place. -/
theorem Proper.stands_key (h : Proper g) {k : NodeKind} {id : String}
    {n : PtrGraph.Node RNode} (hk : k ≠ .general)
    (hn : find g (k, id) = some n)
    (hs : k = .dtn → view g (.storage, id) = none) :
    Stands g id (k, id) where
  present := ⟨n.data, view_eq_some.mpr ⟨n, hn, rfl⟩⟩
  rid := fun d hd => h.rid _ d hd hk
  not_gateway := fun he => hk (congrArg Prod.fst he)
  storage := hs

/-- Deleting a module id drops the name it stands for, or nothing. -/
theorem Proper.deleted_cases (h : Proper g) {id : String}
    (hid : ¬ ReservedKey id) :
    deleted g id = g ∨ ∃ x, Stands g id x ∧ Drops g (deleted g id) x := by
  unfold deleted target
  by_cases hgw : id = "gateway"
  · rw [if_pos hgw]
    exact .inl rfl
  rw [if_neg hgw]
  cases hk : nodeKey g id with
  | none => exact .inl rfl
  | some key =>
      obtain ⟨n, hn⟩ := nodeKey_lookup hk
      rw [Option.bind_some, hn]
      right
      -- the key of a general node, found by its rid
      have hgen : ∀ k, ReservedKey k → k ≠ gatewayId → key = k →
          (find g (.general, k)).any (fun n => id == n.data.rid) = true →
          ∃ x, Stands g id x ∧ Drops g (g.remove n.addr) x := by
        intro k hr hkgw he hany
        subst he
        rw [h.lookup_reserved hr] at hn
        rw [hn, Option.any_some, beq_iff_eq] at hany
        refine ⟨(.general, key), ⟨⟨n.data, view_eq_some.mpr ⟨n, hn, rfl⟩⟩,
          ?_, fun he => hkgw (congrArg Prod.snd he), fun hd => (by cases hd)⟩,
          drops_remove h.named hn⟩
        intro d hd
        obtain ⟨n', hn', rfl⟩ := view_eq_some.mp hd
        rw [hn] at hn'
        cases hn'
        exact hany.symm
      unfold nodeKey at hk
      split at hk
      · cases hk
        rw [h.lookup_free hid] at hn
        cases hs : find g (.storage, id) with
        | some m =>
            rw [hs, Option.some_or] at hn
            cases hn
            exact ⟨_, h.stands_key (by decide) hs (fun hd => by cases hd),
              drops_remove h.named hs⟩
        | none =>
            rw [hs, Option.none_or] at hn
            exact ⟨_, h.stands_key (by decide) hn
              (fun _ => view_eq_none.mpr hs), drops_remove h.named hn⟩
      · split at hk
        · rename_i hany
          cases hk
          exact hgen launcherId (.inr (.inl rfl)) (by decide) rfl hany
        · split at hk
          · rename_i hany
            cases hk
            exact hgen sdnId (.inr (.inr rfl)) (by decide) rfl hany
          · cases hk

/-- Whatever an id stands for, no storage is left under it. -/
theorem Proper.deleted_storage (h : Proper g) {id : String}
    (hid : ¬ ReservedKey id) (hgw : id ≠ "gateway") :
    view (deleted g id) (.storage, id) = none := by
  cases hs : find g (.storage, id) with
  | some n =>
      have hkey : nodeKey g id = some id := by
        simp [nodeKey, hasNode, hasStorageNode, hs]
      have hlook : lookup g id = some n := by
        rw [lookup, hs, Option.some_or, Option.some_or]
      rw [deleted, target, if_neg hgw, hkey, Option.bind_some, hlook]
      exact (congrFun (drops_remove h.named hs).view _).trans
        (Function.update_self ..)
  | none =>
      have hno : view g (.storage, id) = none := view_eq_none.mpr hs
      rcases h.deleted_cases hid with he | ⟨x, -, hd⟩
      · rw [he]
        exact hno
      · rw [hd.view, Function.update_apply]
        split
        · rfl
        · exact hno

-- =========================================================== the first graph

/-- What the gateway is. -/
def gatewayNode : RNode :=
  { kind := .general, key := gatewayId, rid := "gateway", name := "Gateway" }

/-- A graph with the gateway only, whatever was there before. -/
def bare (g : RGraph) : RGraph := g.clear.insert gatewayNode

/-- The initialisation leaves the gateway only. -/
theorem wp_init {Q : Unit → RGraph → Prop} :
    wp ResourceManager.init Q E g ↔ Q () (bare g) := Iff.rfl

/-- Nothing else is seen then. -/
theorem view_bare {x : NodeName} {d : RNode} (h : view (bare g) x = some d) :
    x = gatewayName ∧ d.rid = "gateway" := by
  obtain ⟨n, hf, rfl⟩ := view_eq_some.mp h
  obtain ⟨hmem, hname⟩ := PtrGraph.find_some hf
  have hn : n = ⟨g.next, gatewayNode, [], []⟩ := List.mem_singleton.mp hmem
  subst hn
  exact ⟨hname.symm, rfl⟩

/-- And nothing is linked. -/
theorem links_bare (g : RGraph) : links (bare g) = [] := rfl

/-- Such a graph is proper. -/
theorem bare_proper (g : RGraph) : Proper (bare g) := by
  refine ⟨⟨?_, ?_⟩, ⟨_, rfl⟩, ?_, ?_, ?_⟩
  · exact PtrGraph.Sound.insert (PtrGraph.Sound.clear _) _
  · exact List.nodup_singleton _
  · intro x d hx
    rw [(view_bare hx).1]
    exact ⟨fun _ => .inl rfl, fun _ => rfl⟩
  · intro x d hx hk
    rw [(view_bare hx).1] at hk
    exact absurd rfl hk
  · intro x d hx
    rw [(view_bare hx).2]
    decide

/-- The graph the resource manager starts with. -/
def initial : RGraph := after ResourceManager.init {}

/-- The graph the server starts with is such. -/
theorem initial_eq : initial = bare {} := rfl

end RGraph

end BigDataExpress
