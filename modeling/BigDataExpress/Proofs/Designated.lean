/-
The DTN a storage designates (`StorageNode::get_one_dtn_node`).

The pointer is a copy of the storage's edge that is set by a mapping and
never cleared. It stays valid as long as no DTN is removed while a
storage that designates it stays (`Released`): `designated_dtn_valid`.
Registering a DTN again keeps its address, and a storage that comes back
starts without a pointer, so these need no condition; ids that name both
a storage and a DTN do, because a mapping then finds an edge or a node
that is not the one it asked for.
-/
import BigDataExpress.Proofs.Shape

namespace BigDataExpress

open Stateful ResourceManager

namespace RGraph

variable {g : RGraph} {E : RGraph → Prop}

/-- Where a storage designates a DTN, the DTN is in the graph and the
storage has an edge to it. -/
def Designated (g : RGraph) : Prop :=
  ∀ s ∈ g.nodes, s.data.kind = .storage → ∀ a, s.data.pDtn = some a →
    ∃ d ∈ g.nodes, d.addr = a ∧ d.data.kind = .dtn ∧
      ∃ e ∈ g.edges, e.src = s.addr ∧ e.dst = d.addr

-- ========================================================= the invariant

/-- Links start at storages and DTNs, and only DTNs lead to a general
node. -/
structure Routed (g : RGraph) : Prop where
  proper : Proper g
  apart : ∀ id, view g (.storage, id) = none ∨ view g (.dtn, id) = none
  sources : ∀ p ∈ links g, ∃ x y, p = (some x, some y) ∧ x.1 ≠ .general ∧
    (y.1 = .general → x.1 = .dtn)

/-- A storage points to a DTN it is linked to, but for the storages of a
list. -/
def Points (g : RGraph) (except : List String) : Prop :=
  ∀ sid d a, view g (.storage, sid) = some d → d.pDtn = some a →
    sid ∈ except ∨ ∃ did, addrOf g (.dtn, did) = some a ∧
      (some (.storage, sid), some (.dtn, did)) ∈ links g

theorem Routed.designated (h : Routed g) (hp : Points g []) :
    Designated g := by
  have hn := h.proper.named
  intro s hs hk a ha
  have hname : s.data.nodeName = (.storage, s.data.key) := by
    rw [RNode.nodeName, hk]
  have hview := hn.view_mem hs
  rw [hname] at hview
  rcases hp _ _ a hview ha with hin | ⟨did, hd, hl⟩
  · cases hin
  · obtain ⟨d, hfd, hda⟩ := addrOf_eq_some.mp hd
    obtain ⟨hmem, hdname⟩ := PtrGraph.find_some hfd
    refine ⟨d, hmem, hda, congrArg Prod.fst hdname, ?_⟩
    obtain ⟨e, he, u, hu, v, hv, hsrc, hdst, hlink⟩ := hn.mem_links.mp hl
    simp only [Prod.mk.injEq, Option.some.injEq] at hlink
    have hus : u = s := hn.unique hu hs (by rw [hname, ← hlink.1])
    have hvd : v = d := hn.unique hv hmem (by rw [hdname, ← hlink.2])
    exact ⟨e, he, by rw [← hus, hsrc], by rw [← hvd, hdst]⟩

/-- Between ids of a storage and a DTN, a found edge is a link. -/
theorem Routed.link_of_hasEdge (h : Routed g) {sid did : String}
    {s d : RNode} (hs : view g (.storage, sid) = some s)
    (hd : view g (.dtn, did) = some d) (he : hasEdge g sid did = true) :
    (some (.storage, sid), some (.dtn, did)) ∈ links g := by
  have hn := h.proper.named
  obtain ⟨e, hmem, hrid⟩ := List.any_eq_true.mp he
  obtain ⟨u, hu, v, hv, hsrc, hdst, -, -⟩ := hn.edge_names hmem
  have hlink := hn.mem_links.mpr ⟨e, hmem, u, hu, v, hv, hsrc, hdst, rfl⟩
  simp only [ridAt, ← hsrc, ← hdst, hn.sound.node?_eq hu,
    hn.sound.node?_eq hv, Option.map_some, Bool.and_eq_true, beq_iff_eq,
    Option.some.injEq] at hrid
  obtain ⟨x, y, hp, hx, hy⟩ := h.sources _ hlink
  simp only [Prod.mk.injEq, Option.some.injEq] at hp
  have hux := hn.view_mem hu
  have hvy := hn.view_mem hv
  rw [hp.1] at hux
  rw [hp.2] at hvy
  -- the source has the id of a storage, so it is no DTN
  have hxname : x = (.storage, sid) := by
    have hid : x.2 = sid := by
      rw [← hrid.1, h.proper.rid x _ hux hx]
    obtain ⟨k, id⟩ := x
    simp only at hid hx
    subst hid
    cases k with
    | storage => rfl
    | general => exact absurd rfl hx
    | dtn =>
        rcases h.apart id with hno | hno
        · rw [hs] at hno
          cases hno
        · rw [hux] at hno
          cases hno
  have hyname : y = (.dtn, did) := by
    have hk : y.1 ≠ .general := fun hg => by
      have hdtn := hy hg
      rw [hxname] at hdtn
      cases hdtn
    have hid : y.2 = did := by
      rw [← hrid.2, h.proper.rid y _ hvy hk]
    obtain ⟨k, id⟩ := y
    simp only at hid hk
    subst hid
    cases k with
    | dtn => rfl
    | general => exact absurd rfl hk
    | storage =>
        rcases h.apart id with hno | hno
        · rw [hvy] at hno
          cases hno
        · rw [hd] at hno
          cases hno
  rw [hp.1, hp.2, hxname, hyname] at hlink
  exact hlink

-- ============================================================ registration

/-- A module whose id is no key of a general node and not that of a node
of the other kind. -/
structure Distinct (g : RGraph) (m : Module) : Prop where
  free : ¬ ReservedKey m.id
  dtn : m.type = .dtn → view g (.storage, m.id) = none
  storage : m.type = .localStorage → view g (.dtn, m.id) = none

theorem Routed.added (h : Routed g) {g' : RGraph} {queue : String}
    {m : Module} (hm : Distinct g m) (ha : Added g g' queue m) :
    Routed g' := by
  refine ⟨ha.proper, ?_, ?_⟩
  · intro id
    by_cases hs : slotName m = some (.storage, id)
    · obtain ⟨hty, rfl⟩ := slotName_storage hs
      right
      rw [ha.view_other (by rw [hs]; simp)]
      exact hm.storage hty
    · rw [ha.view_other hs]
      by_cases hd : slotName m = some (.dtn, id)
      · obtain ⟨hty, rfl⟩ := slotName_dtn hd
        exact .inl (hm.dtn hty)
      · rw [ha.view_other hd]
        exact h.apart id
  · intro p hp
    rw [ha.links] at hp
    unfold linksAdded at hp
    split at hp
    · rename_i hty
      rw [List.mem_append, List.mem_singleton] at hp
      rcases hp with hp | rfl
      · exact h.sources p hp
      · have hno : hasStorageNode g m.id = false :=
          hasStorageNode_false.mpr (hm.dtn hty)
        have hend : endName g m.id = (.dtn, m.id) := by simp [endName, hno]
        exact ⟨_, _, rfl, by rw [hend]; simp, fun _ => by rw [hend]⟩
    · exact h.sources p hp
    · exact h.sources p (PtrGraph.mem_linksWithout.mp hp).1
    · exact h.sources p (PtrGraph.mem_linksWithout.mp hp).1
    · exact h.sources p hp

/-- Registration keeps a link between storages and DTNs. -/
theorem Added.link {g' : RGraph} {queue : String} {m : Module}
    (ha : Added g g' queue m) {x y : NodeName} (hx : x.1 ≠ .general)
    (hy : y.1 ≠ .general) (hl : (some x, some y) ∈ RGraph.links g) :
    (some x, some y) ∈ RGraph.links g' := by
  have hgen : ∀ key, (some x, some y) ∈ linksWithout g (.general, key) :=
    fun key => PtrGraph.mem_linksWithout.mpr ⟨hl,
      fun he => hx (by rw [Option.some.inj he]),
      fun he => hy (by rw [Option.some.inj he])⟩
  rw [ha.links]
  unfold linksAdded
  split
  · exact List.mem_append_left _ hl
  · exact hl
  · exact hgen _
  · exact hgen _
  · exact hl

theorem registered_storage {queue : String} {m : Module}
    (h : m.type = .localStorage) (old : Option RNode) :
    (registered queue m old).pDtn = old.bind RNode.pDtn := by
  cases old <;> simp [registered, h, storageNode]

theorem Points.added {except : List String} (h : Points g except)
    {g' : RGraph} {queue : String} {m : Module}
    (ha : Added g g' queue m) : Points g' except := by
  intro sid d a hd hptr
  -- the pointer is the one the storage had
  have hold : ∃ d', view g (.storage, sid) = some d' ∧ d'.pDtn = some a := by
    by_cases hs : slotName m = some (.storage, sid)
    · obtain ⟨hty, -⟩ := slotName_storage hs
      simp only [ha.view, viewAdded, hs, Function.update_self,
        Option.some.injEq] at hd
      rw [← hd, registered_storage hty] at hptr
      exact Option.bind_eq_some_iff.mp hptr
    · rw [ha.view_other hs] at hd
      exact ⟨d, hd, hptr⟩
  obtain ⟨d', hd', hptr'⟩ := hold
  rcases h sid d' a hd' hptr' with hin | ⟨did, hdid, hl⟩
  · exact .inl hin
  · exact .inr ⟨did, ha.addr _ _ (by simp) hdid,
      ha.link (by simp) (by simp) hl⟩

-- ================================================================ mappings

theorem lookup_kind (h : Proper g) {id : String} (hid : ¬ ReservedKey id)
    {n : PtrGraph.Node RNode} (hn : lookup g id = some n) :
    n.data.nodeName.1 ≠ .general := by
  rw [h.lookup_free hid, Option.or_eq_some_iff] at hn
  rcases hn with hn | ⟨-, hn⟩
  · rw [(PtrGraph.find_some hn).2]
    simp
  · rw [(PtrGraph.find_some hn).2]
    simp

theorem Routed.mapped (h : Routed g) {g' : RGraph} {sid did : String}
    (hm : Mapped g g' sid did) (hs : ¬ ReservedKey sid)
    (hd : ¬ ReservedKey did) : Routed g' := by
  refine ⟨h.proper.mapped hm, ?_, ?_⟩
  · intro id
    rw [hm.view_none, hm.view_none]
    exact h.apart id
  · intro p hp
    rw [hm.links, List.mem_append] at hp
    rcases hp with hp | hp
    · exact h.sources p hp
    · unfold linksMapped at hp
      split at hp
      · cases hp
      · split at hp
        · rename_i s d hls hld
          rw [List.mem_singleton] at hp
          have hsk := lookup_kind h.proper hs hls
          have hdk := lookup_kind h.proper hd hld
          exact ⟨_, _, hp, hsk, fun hg => absurd hg hdk⟩
        · cases hp

theorem Points.mapped (hr : Routed g) {except : List String}
    (h : Points g except) {g' : RGraph} {sid did : String}
    (hm : Mapped g g' sid did) : Points g' except := by
  intro x d a hd hptr
  rw [hm.view] at hd
  rcases viewMapped_cases (g := g) sid did (.storage, x)
    with hc | ⟨e, b, hx, he, hb, hc⟩
  · rw [hc] at hd
    rcases h x d a hd hptr with hin | ⟨did', hdid, hl⟩
    · exact .inl hin
    · refine .inr ⟨did', ?_, ?_⟩
      · rw [hm.addr]
        exact hdid
      · rw [hm.links]
        exact List.mem_append_left _ hl
  · -- the storage of the mapping: the DTN is there, and so is the link
    rw [hc] at hd
    cases hd
    cases hptr
    cases hx
    refine .inr ⟨did, ?_, ?_⟩
    · rw [hm.addr]
      exact hb
    · obtain ⟨n, hn, -⟩ := addrOf_eq_some.mp hb
      have hdv : view g (.dtn, did) = some n.data :=
        view_eq_some.mpr ⟨n, hn, rfl⟩
      rw [hm.links, List.mem_append]
      by_cases hedge : hasEdge g sid did = true
      · exact .inl (hr.link_of_hasEdge he hdv hedge)
      · right
        obtain ⟨s, hs, -⟩ := view_eq_some.mp he
        have hls : lookup g sid = some s := by
          rw [lookup, hs, Option.some_or, Option.some_or]
        have hno : find g (.storage, did) = none := by
          rcases hr.apart did with hno | hno
          · exact view_eq_none.mp hno
          · rw [hdv] at hno
            cases hno
        have hld : lookup g did = some n := by
          rw [lookup, hno, hn, Option.none_or, Option.some_or]
        rw [linksMapped, if_neg hedge, hls, hld]
        simp only [(PtrGraph.find_some hs).2, (PtrGraph.find_some hn).2,
          List.mem_singleton]

/-- A registration whose ids are an identity: none is a key of a general
node, and none is that of a node or module of the other kind. -/
structure Clear (g : RGraph) (modules : List Module) : Prop where
  free : ∀ m ∈ modules, ¬ ReservedKey m.id
  dtn : ∀ m ∈ modules, m.type = .dtn → hasStorageNode g m.id = false ∧
    ∀ n ∈ modules, n.type = .localStorage → n.id ≠ m.id
  storage : ∀ m ∈ modules, m.type = .localStorage →
    hasDtnNode g m.id = false
  mapping : ∀ m ∈ modules, m.type = .dtn → ∀ s ∈ m.storages,
    ¬ ReservedKey s.id

theorem wp_addModules_points {queue : String} {l all : List Module}
    (hsub : ∀ m ∈ l, m ∈ all)
    (hall : ∀ m ∈ all, m.type = .dtn → ∀ n ∈ all, n.type = .localStorage →
      n.id ≠ m.id) {g : RGraph}
    (h : Routed g) (hp : Points g []) (hd : ∀ m ∈ l, Distinct g m) :
    wp (l.forM (addModule queue))
      (fun _ g' => Routed g' ∧ Points g' []) E g := by
  induction l generalizing g with
  | nil => exact ⟨h, hp⟩
  | cons m l ih =>
      have hm := hd m (List.mem_cons_self ..)
      have hmall := hsub m (List.mem_cons_self ..)
      rw [wp_forM_cons]
      refine h.proper.wp_addModule hm.free ?_
      intro g₁ ha
      refine ih (fun n hn => hsub n (List.mem_cons_of_mem _ hn))
        (h.added hm ha) (hp.added ha) ?_
      intro n hn
      have hn' := hd n (List.mem_cons_of_mem _ hn)
      have hnall := hsub n (List.mem_cons_of_mem _ hn)
      refine ⟨hn'.free, fun hty => ?_, fun hty => ?_⟩
      · rw [ha.view_other]
        · exact hn'.dtn hty
        · intro hs
          obtain ⟨hmty, hid⟩ := slotName_storage hs
          exact hall n hnall hty m hmall hmty hid
      · rw [ha.view_other]
        · exact hn'.storage hty
        · intro hs
          obtain ⟨hmty, hid⟩ := slotName_dtn hs
          exact hall m hmall hmty n hnall hty hid.symm

theorem wp_addModules_designated {queue : String} {l : List Module}
    (h : Routed g) (hp : Points g []) (hc : Clear g l) :
    wp (addModules queue l) (fun _ g' => Routed g' ∧ Points g' [])
      (fun g' => Routed g' ∧ Points g' []) g := by
  rw [addModules, wp_bind]
  refine (wp_addModules_points (fun _ hm => hm)
    (fun m hm ht => (hc.dtn m hm ht).2) h hp ?_).mono ?_ fun _ he => he
  · intro m hm
    exact ⟨hc.free m hm, fun ht => hasStorageNode_false.mp (hc.dtn m hm ht).1,
      fun ht => hasDtnNode_false.mp (hc.storage m hm ht)⟩
  · intro _ g₁ h₁
    refine wp_forM_inv ?_ h₁
    intro m hm g₂ h₂
    unfold linkModule
    split
    · rename_i hty
      refine wp_forM_inv ?_ h₂
      intro s hs g₃ h₃
      exact wp_mapStorageCaught h₃.1.proper.named fun g₄ hm₄ =>
        ⟨h₃.1.mapped hm₄ (hc.mapping m hm hty s hs) (hc.free m hm),
          h₃.2.mapped h₃.1 hm₄⟩
    · exact h₂

-- ================================================================ removal

/-- The ids a deregistration gets to: `del_node` throws at "gateway". -/
def removedIds (modules : List Module) : List String :=
  (modules.takeWhile fun m => m.id != "gateway").map Module.id

/-- A deregistration that removes no DTN designated by a storage that
stays. -/
structure Released (g : RGraph) (modules : List Module) : Prop where
  free : ∀ m ∈ modules, ¬ ReservedKey m.id
  storages : ∀ sid did d a, view g (.storage, sid) = some d →
    d.pDtn = some a → addrOf g (.dtn, did) = some a →
    did ∈ removedIds modules → sid ∈ removedIds modules

theorem Routed.drops (h : Routed g) {g' : RGraph} {x : NodeName}
    (hd : Drops g g' x) (hx : x ≠ gatewayName) : Routed g' := by
  refine ⟨h.proper.drops hd hx, ?_, ?_⟩
  · intro id
    have hsub : ∀ y, view g y = none → view g' y = none := by
      intro y hy
      rw [hd.view, Function.update_apply]
      split
      · rfl
      · exact hy
    exact (h.apart id).imp (hsub _) (hsub _)
  · intro p hp
    rw [hd.links] at hp
    exact h.sources p (PtrGraph.mem_linksWithout.mp hp).1

/-- The state of the loop of `del_modules` from `g₀`, with some modules
left: only storages that are still to go may point astray. -/
structure Removing (g₀ : RGraph) (modules l : List Module) (g : RGraph) :
    Prop where
  routed : Routed g
  gone : ∀ id ∈ removedIds modules, id ∉ removedIds l →
    view g (.storage, id) = none
  points : Points g (removedIds l)
  sub : ∀ sid d, view g (.storage, sid) = some d →
    view g₀ (.storage, sid) = some d
  addr : ∀ y a, addrOf g y = some a → addrOf g₀ y = some a
  left : ∀ m ∈ l, ¬ ReservedKey m.id
  ids : ∀ id ∈ removedIds l, id ∈ removedIds modules

theorem Removing.step {g₀ : RGraph} {modules l : List Module} {m : Module}
    (hr : Released g₀ modules) (h : Removing g₀ modules (m :: l) g)
    (hgw : m.id ≠ "gateway") :
    Removing g₀ modules l (deleted g m.id) := by
  have hfree := h.left m (List.mem_cons_self ..)
  have hids : removedIds (m :: l) = m.id :: removedIds l := by
    rw [removedIds, List.takeWhile_cons_of_pos (by simpa using hgw)]
    rfl
  have hmid : m.id ∈ removedIds modules :=
    h.ids m.id (by rw [hids]; exact List.mem_cons_self ..)
  have hnone := h.routed.proper.deleted_storage hfree hgw
  -- the tables only shrink
  have hview : ∀ y d, view (deleted g m.id) y = some d →
      view g y = some d := by
    intro y d hy
    rcases h.routed.proper.deleted_cases hfree with he | ⟨x, -, hd⟩
    · rw [he] at hy
      exact hy
    · rw [hd.view, Function.update_apply] at hy
      split at hy
      · cases hy
      · exact hy
  have haddr : ∀ y a, addrOf (deleted g m.id) y = some a →
      addrOf g y = some a := by
    intro y a hy
    rcases h.routed.proper.deleted_cases hfree with he | ⟨x, -, hd⟩
    · rw [he] at hy
      exact hy
    · rw [hd.addr, Function.update_apply] at hy
      split at hy
      · cases hy
      · exact hy
  have hgone : ∀ id ∈ removedIds modules, id ∉ removedIds l →
      view (deleted g m.id) (.storage, id) = none := by
    intro id hid hl
    by_cases he : id = m.id
    · rw [he]
      exact hnone
    · cases hv : view (deleted g m.id) (.storage, id) with
      | none => rfl
      | some d =>
          have hg := h.gone id hid (by
            rw [hids, List.mem_cons]
            exact fun hor => hor.elim he hl)
          rw [hview _ d hv] at hg
          cases hg
  refine ⟨?_, hgone, ?_, fun sid d hd => h.sub sid d (hview _ d hd),
    fun y a hy => h.addr y a (haddr y a hy),
    fun n hn => h.left n (List.mem_cons_of_mem _ hn), fun id hid =>
      h.ids id (by rw [hids]; exact List.mem_cons_of_mem _ hid)⟩
  · rcases h.routed.proper.deleted_cases hfree with he | ⟨x, hs, hd⟩
    · rw [he]
      exact h.routed
    · exact h.routed.drops hd hs.not_gateway
  · intro sid d a hd hptr
    have hold := hview _ d hd
    rcases h.points sid d a hold hptr with hin | ⟨did, hdid, hl⟩
    · rw [hids, List.mem_cons] at hin
      rcases hin with rfl | hin
      · rw [hnone] at hd
        cases hd
      · exact .inl hin
    · rcases h.routed.proper.deleted_cases hfree with he | ⟨x, hs, hdr⟩
      · rw [he]
        exact .inr ⟨did, hdid, hl⟩
      · by_cases hx : x = (.dtn, did)
        · -- the DTN goes, so the storage is one of those to go
          left
          obtain ⟨e, hev⟩ := hs.present
          have hrid : did = m.id := by
            have hkey := h.routed.proper.rid x e hev (by rw [hx]; simp)
            rw [hs.rid e hev, hx] at hkey
            exact hkey.symm
          have hsid := hr.storages sid did d a (h.sub sid d hold) hptr
            (h.addr _ a hdid) (hrid ▸ hmid)
          by_contra hnot
          rw [hgone sid hsid hnot] at hd
          cases hd
        · right
          have hsx : (NodeKind.storage, sid) ≠ x := by
            rintro rfl
            rw [hdr.view, Function.update_self] at hd
            cases hd
          refine ⟨did, ?_, ?_⟩
          · rw [hdr.addr, Function.update_of_ne (fun he => hx he.symm)]
            exact hdid
          · rw [hdr.links]
            exact PtrGraph.mem_linksWithout.mpr ⟨hl,
              fun he => hsx (Option.some.inj he),
              fun he => hx (Option.some.inj he).symm⟩

theorem wp_delModules_designated {l : List Module} (h : Routed g)
    (hp : Points g []) (hr : Released g l) :
    wp (delModules l) (fun _ g' => Routed g' ∧ Points g' [])
      (fun g' => Routed g' ∧ Points g' []) g := by
  have hstart : Removing g l l g :=
    ⟨h, fun id hid hno => absurd hid hno,
      fun sid d a hd hptr => (hp sid d a hd hptr).imp_left
        (fun hin => by cases hin),
      fun _ _ hd => hd, fun _ _ ha => ha, hr.free, fun _ hid => hid⟩
  refine (wp_forM (I := Removing g l) ?_ l hstart).mono ?_ fun _ he => he
  · intro m rest g₁ h₁
    rw [wp_delNode]
    split
    · rename_i hgw
      have hnil : removedIds (m :: rest) = [] := by
        rw [removedIds, List.takeWhile_cons_of_neg (by simp [hgw])]
        rfl
      have hpts := h₁.points
      rw [hnil] at hpts
      exact ⟨h₁.routed, hpts⟩
    · rename_i hgw
      exact h₁.step hr hgw
  · intro _ g' h'
    exact ⟨h'.routed, h'.points⟩

-- ============================================================= whole runs

/-- A call that leaves no storage pointing astray. -/
def Tended (g : RGraph) : RegMsg → Prop
  | .online i => Clear g i.modules
  | .offline i => Released g i.modules

/-- Every message of a run is tended where it arrives. -/
def TendedRun : RGraph → List RegMsg → Prop
  | _, [] => True
  | g, msg :: msgs =>
      Tended g msg ∧ TendedRun (after (resourceConstruct msg) g) msgs

/-- The DTN a storage designates is valid after every tended run. -/
theorem designated_dtn_valid (msgs : List RegMsg)
    (h : TendedRun initial msgs) :
    Designated (runAll (msgs.map resourceConstruct) initial) := by
  have hrun : ∀ (msgs : List RegMsg) (g : RGraph), TendedRun g msgs →
      Routed g → Points g [] →
      Designated (runAll (msgs.map resourceConstruct) g) := by
    intro msgs
    induction msgs with
    | nil => intro g _ hr hp; exact hr.designated hp
    | cons msg msgs ih =>
        intro g ht hr hp
        have hstep : Routed (after (resourceConstruct msg) g) ∧
            Points (after (resourceConstruct msg) g) [] := by
          refine wp.after (P := fun g' => Routed g' ∧ Points g' []) ?_
          cases msg with
          | online i => exact wp_addModules_designated hr hp ht.1
          | offline i => exact wp_delModules_designated hr hp ht.1
        exact ih _ ht.2 hstep.1 hstep.2
  have hlaid := bare_laid ({} : RGraph)
  refine hrun msgs initial h ⟨hlaid.proper, hlaid.apart, ?_⟩ ?_
  · intro p hp
    rw [initial_eq, links_bare] at hp
    cases hp
  · intro sid d a hd
    have hname := congrArg Prod.fst (view_bare (g := {}) hd).1
    cases hname

/-- The DTN and the disk of one machine go together. -/
theorem designated_dtn_valid_machine :
    Designated (runAll
      ([.online ⟨"c1", "q1", diskAndDtn⟩, .online ⟨"c1", "q1", diskAndDtn⟩,
        .offline ⟨"c1", "q1", diskAndDtn⟩].map resourceConstruct)
      initial) := by
  have hids : ∀ m ∈ diskAndDtn, ¬ ReservedKey m.id := by decide +kernel
  have hclear : ∀ g : RGraph, hasStorageNode g "dtn1" = false →
      hasDtnNode g "disk1" = false → Clear g diskAndDtn := by
    intro g hs hd
    refine ⟨hids, ?_, ?_, ?_⟩
    · simp [diskAndDtn, hs]
    · simp [diskAndDtn, hd]
    · simp only [diskAndDtn, List.mem_cons, List.not_mem_nil, or_false]
      rintro m (rfl | rfl) ht s hs
      · cases ht
      · rw [List.mem_singleton] at hs
        subst hs
        decide
  refine designated_dtn_valid _ ⟨hclear _ ?_ ?_, hclear _ ?_ ?_,
    ⟨hids, ?_⟩, trivial⟩
  · decide +kernel
  · decide +kernel
  · decide +kernel
  · decide +kernel
  · intro sid did d a hd _ _ _
    have hmem : ∀ n ∈ (after (resourceConstruct (.online
        ⟨"c1", "q1", diskAndDtn⟩)) (after (resourceConstruct (.online
        ⟨"c1", "q1", diskAndDtn⟩)) initial)).nodes,
        n.data.kind = .storage → n.data.key = "disk1" := by decide +kernel
    obtain ⟨n, hn, rfl⟩ := view_eq_some.mp hd
    obtain ⟨hin, hname⟩ := PtrGraph.find_some hn
    have hkey := hmem n hin (congrArg Prod.fst hname)
    have hsid : n.data.key = sid := congrArg Prod.snd hname
    rw [← hsid, hkey]
    decide

/-- A DTN agent that goes offline leaves the storages of another agent
with a pointer to a node that is gone. -/
theorem dangling_designated_dtn :
    ¬ Designated (runAll
      ([.online ⟨"c1", "q1", [{ id := "disk1", type := .localStorage }]⟩,
        .online ⟨"c2", "q2", [{ id := "dtn1", type := .dtn,
                                storages := [{ id := "disk1" }] }]⟩,
        .offline ⟨"c2", "q2", [{ id := "dtn1", type := .dtn,
                                 storages := [{ id := "disk1" }] }]⟩].map
        resourceConstruct) initial) := by
  unfold Designated
  decide +kernel

end RGraph

end BigDataExpress
