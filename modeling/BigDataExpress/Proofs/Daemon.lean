/-
The registration of an agent, from its modules to the resource graph.

While the daemon prepares, its modules rename themselves, set properties
and add other modules. Through all of it the properties of a module name it
as its fields do (`Coherent`). When `prepare` has returned, every module
has registered, and from then on its id and name do not change
(`afterCalls_named`).

So the registration that the daemon publishes, and the deregistration it
leaves as its will, name the same modules, and they are the ones that it
later hands requests to. What the server makes of the two messages is the
registration and the deregistration of one `Instance`: the daemon is an
agent as the presence of agents has it (`daemon_is_instance`).
-/
import BigDataExpress.Proofs.Relay
import BigDataExpress.Proofs.RpcHandler
import BigDataExpress.Server.OnMsg

namespace BigDataExpress

open Stateful ResourceManager Json

-- ================================================================ modules

/-- The value a call sets is one of the library. -/
def ModuleCall.Stored : ModuleCall → Prop
  | .setProp _ val => Json.Storable val
  | _ => True

/-- What the call sets can be stored. -/
def BootCall.Stored : BootCall → Prop
  | .self c => c.Stored
  | .add .. => True

/-- Whatever a module sets can be stored. -/
structure Behaviour.Stored (b : Behaviour) : Prop where
  bootstrap : ∀ c ∈ b.bootstrap, c.Stored
  init : ∀ c ∈ b.init, c.Stored
  registration : ∀ c ∈ b.registration, c.Stored

namespace AgentModule

/-- The properties name a module as its fields do, and the queue of its
daemon. -/
structure Coherent (queue : String) (m : AgentModule) : Prop where
  id : lookup "id" m.prop = some (.str m.id)
  name : lookup "name" m.prop = some (.str m.name)
  type : lookup "type" m.prop = some (.str m.type)
  queue : lookup "queue" m.prop = some (.str queue)
  sorted : Json.Sorted m.prop
  stored : ∀ f ∈ m.prop, Json.Storable f.2

variable {queue : String} {m : AgentModule}

/-- A property has the value it was set to, and the others theirs. -/
theorem lookup_setProp (m : AgentModule) (key k : String) (val : Json) :
    lookup key (m.setProp k val).prop
      = if k = key then some val else lookup key m.prop :=
  lookup_assign ..

/-- The properties stay sorted. -/
theorem sorted_setProp {key : String} {val : Json} (h : Json.Sorted m.prop) :
    Json.Sorted (m.setProp key val).prop := h.assign

/-- They can be stored if the new value can. -/
theorem storable_setProp {key : String} {val : Json} (hval : Json.Storable val)
    (h : ∀ f ∈ m.prop, Json.Storable f.2) :
    ∀ f ∈ (m.setProp key val).prop, Json.Storable f.2 := by
  intro f hf
  rcases mem_assign hf with rfl | hf
  · exact hval
  · exact h f hf

/-- Setting a property that is not reserved keeps a module coherent. -/
theorem Coherent.setProp (h : m.Coherent queue) {key : String} {val : Json}
    (hkey : key ∉ reserved) (hval : Json.Storable val) :
    (m.setProp key val).Coherent queue := by
  have hne : ∀ k ∈ reserved, key ≠ k := fun k hk he => hkey (he ▸ hk)
  have hkeep : ∀ k ∈ reserved,
      lookup k (m.setProp key val).prop = lookup k m.prop := by
    intro k hk
    rw [lookup_setProp, if_neg (hne k hk)]
  exact
    { id := (hkeep "id" (by simp [reserved])).trans h.id
      name := (hkeep "name" (by simp [reserved])).trans h.name
      type := (hkeep "type" (by simp [reserved])).trans h.type
      queue := (hkeep "queue" (by simp [reserved])).trans h.queue
      sorted := h.sorted.assign
      stored := storable_setProp hval h.stored }

/-- So does renaming, which sets the property with it. -/
theorem Coherent.setId (h : m.Coherent queue) (id : String) :
    ({ m with id := id }.setProp "id" (.str id)).Coherent queue where
  id := (lookup_setProp ..).trans (if_pos rfl)
  name := (lookup_setProp ..).trans h.name
  type := (lookup_setProp ..).trans h.type
  queue := (lookup_setProp ..).trans h.queue
  sorted := h.sorted.assign
  stored := storable_setProp (m := { m with id := id }) (.str id) h.stored

/-- So does giving another name. -/
theorem Coherent.setName (h : m.Coherent queue) (name : String) :
    ({ m with name := name }.setProp "name" (.str name)).Coherent queue where
  id := (lookup_setProp ..).trans h.id
  name := (lookup_setProp ..).trans (if_pos rfl)
  type := (lookup_setProp ..).trans h.type
  queue := (lookup_setProp ..).trans h.queue
  sorted := h.sorted.assign
  stored := storable_setProp (m := { m with name := name }) (.str name) h.stored

/-- A module as it is when its daemon has it. -/
theorem manage_make (id name type queue : String) :
    ((make id name type).manage queue).Coherent queue where
  id := by simp [manage, make, setProp, lookup_assign]
  name := by simp [manage, make, setProp, lookup_assign]
  type := by simp [manage, make, setProp, lookup_assign]
  queue := by simp [manage, make, setProp, lookup_assign]
  sorted := by
    have hnone : Json.Sorted (AgentModule.mk id name type "" [] 0).prop := .nil
    exact (sorted_setProp (sorted_setProp (sorted_setProp (sorted_setProp
      hnone)))).assign
  stored := by
    have hnone : ∀ f ∈ (AgentModule.mk id name type "" [] 0).prop,
        Json.Storable f.2 := by simp
    exact storable_setProp (.str queue) (storable_setProp (.str "")
      (storable_setProp (.str type) (storable_setProp (.str name)
        (storable_setProp (.str id) hnone))))

/-- What the server calls a module by. -/
def ident (m : AgentModule) : String × String × String :=
  (m.id, m.name, m.type)

end AgentModule

namespace Daemon

variable {queue : String} {d : Daemon}

-- ================================================================== calls

/-- What a call may do to a module. -/
theorem changed_follows {m m' : AgentModule} {c : ModuleCall}
    (h : d.changed m c = .ok m') :
    (∀ q, c.Stored → m.Coherent q → m'.Coherent q)
      ∧ m'.stage = m.stage ∧ (3 ≤ m.stage → m'.ident = m.ident) := by
  cases c with
  | updateId id =>
      rw [changed] at h
      by_cases hstage : 3 ≤ m.stage
      · rw [if_pos hstage] at h
        cases h
      · rw [if_neg hstage] at h
        by_cases hdup : d.hasModule id = true
        · rw [if_pos hdup] at h
          cases h
        · rw [if_neg hdup] at h
          injection h with h
          subst h
          exact ⟨fun _ _ h => h.setId id, rfl, fun h3 => absurd h3 hstage⟩
  | updateName name =>
      rw [changed] at h
      by_cases hstage : 3 ≤ m.stage
      · rw [if_pos hstage] at h
        cases h
      · rw [if_neg hstage] at h
        injection h with h
        subst h
        exact ⟨fun _ _ h => h.setName name, rfl, fun h3 => absurd h3 hstage⟩
  | setProp key val =>
      rw [changed] at h
      by_cases hkey : key ∈ AgentModule.reserved
      · rw [if_pos hkey] at h
        cases h
      · rw [if_neg hkey] at h
        injection h with h
        subst h
        exact ⟨fun _ hval h => h.setProp hkey hval, rfl, fun _ => rfl⟩

/-- The modules are coherent, under this queue. -/
structure Coherent (q : String) (d : Daemon) : Prop where
  queue : d.queue = q
  modules : ∀ m ∈ d.mstore, m.Coherent q

/-- The stages of the modules, in order. -/
def stages (d : Daemon) : List Nat := d.mstore.map AgentModule.stage

/-- Modifying one element leaves what it does not change. -/
theorem map_modify_of_eq {α β : Type} {f : α → α} {g : α → β} {l : List α}
    {i : Nat} (h : ∀ a, l[i]? = some a → g (f a) = g a) :
    (l.modify i f).map g = l.map g := by
  apply List.ext_getElem?
  intro j
  rw [List.getElem?_map, List.getElem?_map, List.getElem?_modify]
  by_cases hj : i = j
  · subst hj
    cases ha : l[i]? with
    | none => rfl
    | some a => simp [h a ha]
  · simp [hj]

/-- A change to one fixed value sets it. -/
theorem map_modify_set {α β : Type} {f : α → α} {g : α → β} {b : β}
    (h : ∀ a, g (f a) = b) (l : List α) (i : Nat) :
    (l.modify i f).map g = (l.map g).set i b := by
  apply List.ext_getElem?
  intro j
  rw [List.getElem?_map, List.getElem?_modify, List.getElem?_set']
  by_cases hj : i = j
  · subst hj
    cases ha : l[i]? with
    | none => simp [ha]
    | some a => simp [ha, h]
  · simp [hj]

/-- What all elements have, all have after, if the modified one has it. -/
theorem forall_mem_modify {α : Type} {P : α → Prop} {f : α → α} {l : List α}
    {i : Nat} (h : ∀ a ∈ l, P a) (hf : ∀ a, l[i]? = some a → P (f a)) :
    ∀ a ∈ l.modify i f, P a := by
  intro a ha
  obtain ⟨j, hj⟩ := List.getElem?_of_mem ha
  rw [List.getElem?_modify] at hj
  cases hb : l[j]? with
  | none =>
      rw [hb] at hj
      cases hj
  | some b =>
      rw [hb] at hj
      injection hj with hj
      subst hj
      show P (if i = j then f b else b)
      by_cases hij : i = j
      · rw [if_pos hij]
        exact hf b (hij ▸ hb)
      · rw [if_neg hij]
        exact h b (List.mem_of_getElem? hb)

/-- A call changes the module that makes it, or throws and changes
nothing. -/
theorem wp_call {i : Nat} {c : ModuleCall} {Q : Unit → Daemon → Prop}
    {E : Daemon → Prop} (hE : E d) (hnone : Q () d)
    (hQ : ∀ m m', d.mstore[i]? = some m → d.changed m c = .ok m' →
      Q () { d with mstore := d.mstore.modify i fun _ => m' }) :
    wp (call i c) Q E d := by
  unfold call
  rw [wp_bind, wp_get]
  cases hm : d.mstore[i]? with
  | none => exact hnone
  | some m =>
      show wp (ofExcept (d.changed m c) >>= fun m => setAt i fun _ => m) Q E d
      rw [wp_bind]
      cases hm' : d.changed m c with
      | error e => exact hE
      | ok m' => exact hQ m m' hm hm'

/-- A call of a module keeps the daemon coherent and the stages as they
are. -/
theorem call_coherent {i : Nat} {c : ModuleCall} (hc : c.Stored)
    {n : List Nat} (h : d.Coherent queue) (hn : d.stages = n) :
    wp (call i c) (fun _ d' => d'.Coherent queue ∧ d'.stages = n)
      (fun d' => d'.Coherent queue ∧ d'.stages = n) d := by
  apply wp_call ⟨h, hn⟩ ⟨h, hn⟩
  intro m m' hm hm'
  obtain ⟨hcoherent, hstage, -⟩ := changed_follows hm'
  refine ⟨⟨h.queue, forall_mem_modify h.modules fun _ _ => ?_⟩, ?_⟩
  · exact hcoherent _ hc (h.modules m (List.mem_of_getElem? hm))
  · rw [← hn]
    apply map_modify_of_eq
    intro a ha
    rw [hm] at ha
    injection ha with ha
    exact ha ▸ hstage

/-- So do calls in a row. -/
theorem calls_coherent {i : Nat} {cs : List ModuleCall}
    (hcs : ∀ c ∈ cs, c.Stored) {n : List Nat} (h : d.Coherent queue)
    (hn : d.stages = n) :
    wp (cs.forM (call i)) (fun _ d' => d'.Coherent queue ∧ d'.stages = n)
      (fun d' => d'.Coherent queue ∧ d'.stages = n) d :=
  wp_forM_inv (fun c hc _ ht => call_coherent (hcs c hc) ht.1 ht.2) ⟨h, hn⟩

/-- Setting a stage changes only that stage. -/
theorem setStage_coherent {i n : Nat} (h : d.Coherent queue) :
    wp (setStage i n)
      (fun _ d' => d'.Coherent queue ∧ d'.stages = d.stages.set i n)
      (fun _ => False) d := by
  refine ⟨⟨h.queue, forall_mem_modify h.modules fun m hm => ?_⟩, ?_⟩
  · obtain ⟨hid, hname, htype, hqueue, hsorted, hstored⟩ :=
      h.modules m (List.mem_of_getElem? hm)
    exact ⟨hid, hname, htype, hqueue, hsorted, hstored⟩
  · have hset : ∀ m : AgentModule, { m with stage := n }.stage = n :=
      fun _ => rfl
    exact map_modify_set hset d.mstore i

/-- A new module is coherent. -/
theorem add_coherent (h : d.Coherent queue) (id name type : String) :
    (d.add (.make id name type)).Coherent queue := by
  refine ⟨h.queue, fun m hm => ?_⟩
  rcases List.mem_append.1 hm with hm | hm
  · exact h.modules m hm
  · rw [List.mem_singleton.1 hm, h.queue]
    exact AgentModule.manage_make ..

/-- The daemon starts coherent. -/
theorem start_coherent (queue : String)
    (mods : List (String × String × String)) :
    (start queue mods).Coherent queue := by
  unfold start
  have hfirst : (Daemon.mk queue [] 100).Coherent queue :=
    ⟨rfl, fun _ hm => absurd hm List.not_mem_nil⟩
  revert hfirst
  generalize Daemon.mk queue [] 100 = d
  induction mods generalizing d with
  | nil => exact id
  | cons m mods ih => exact fun h => ih _ (add_coherent h ..)

-- =============================================================== preparing

/-- The loop goes over the modules that were there when it began. -/
theorem wp_forEach {f : Nat → Managing Unit} {Q : Unit → Daemon → Prop}
    {E : Daemon → Prop} :
    wp (forEach f) Q E d
      ↔ wp ((List.range d.mstore.length).forM f) Q E d := by
  unfold forEach
  rw [wp_bind, wp_get]

/-- Whatever a module does when it boots keeps the daemon coherent. -/
theorem bootCall_coherent {i : Nat} {c : BootCall} (hc : c.Stored)
    (h : d.Coherent queue) :
    wp (bootCall i c) (fun _ => Daemon.Coherent queue)
      (Daemon.Coherent queue) d := by
  cases c with
  | self c =>
      exact (call_coherent hc h rfl).mono (fun _ _ h => h.1) fun _ h => h.1
  | add id name type =>
      unfold bootCall
      rw [wp_bind, wp_get]
      by_cases hfull : d.mstore.length = d.capacity
      · rw [if_pos hfull]
        exact h
      · rw [if_neg hfull]
        exact add_coherent h ..

/-- The first loop: the modules stay coherent, and so are those they add. -/
theorem bootstrap_coherent {does : Nat → Behaviour}
    (hdoes : ∀ i, (does i).Stored) (h : d.Coherent queue) :
    wp (forEach fun i => do
        (does i).bootstrap.forM (bootCall i)
        setStage i 1)
      (fun _ => Daemon.Coherent queue) (fun _ => True) d := by
  rw [wp_forEach]
  refine wp_forM (I := fun _ => Daemon.Coherent queue) (fun i _ t ht => ?_) _ h
  rw [wp_bind]
  have hboot : wp ((does i).bootstrap.forM (bootCall i))
      (fun _ => Daemon.Coherent queue) (Daemon.Coherent queue) t :=
    wp_forM_inv (fun c hc _ h => bootCall_coherent ((hdoes i).bootstrap c hc) h)
      ht
  exact hboot.mono
    (fun _ _ h => (setStage_coherent h).mono (fun _ _ h => h.1)
      fun _ h => h.elim)
    fun _ _ => trivial

/-- What is left of the second loop: the modules that had their turn have
registered. -/
structure Registering (q : String) (n : Nat) (rest : List Nat) (d : Daemon) :
    Prop where
  coherent : d.Coherent q
  length : d.stages.length = n
  done : ∀ i < n, i ∉ rest → d.stages[i]? = some 3

/-- One module is initialised and registered, and the others wait. -/
theorem register_turn {does : Nat → Behaviour} (hdoes : ∀ i, (does i).Stored)
    {n i : Nat} {rest : List Nat} (h : Registering queue n (i :: rest) d) :
    wp (do
        (does i).init.forM (call i)
        setStage i 2
        (does i).registration.forM (call i)
        setStage i 3)
      (fun _ => Registering queue n rest) (fun _ => True) d := by
  rw [wp_bind]
  refine (calls_coherent (hdoes i).init h.coherent rfl).mono ?_
    fun _ _ => trivial
  intro _ t ⟨ht, hstages⟩
  rw [wp_bind]
  refine (setStage_coherent ht).mono ?_ fun _ h => h.elim
  intro _ t ⟨ht, hset⟩
  rw [wp_bind]
  refine (calls_coherent (hdoes i).registration ht hset).mono ?_
    fun _ _ => trivial
  intro _ t ⟨ht, hkept⟩
  refine (setStage_coherent ht).mono ?_ fun _ h => h.elim
  intro _ t ⟨ht, hlast⟩
  rw [hkept, hstages, List.set_set] at hlast
  refine ⟨ht, by rw [hlast, List.length_set, h.length], fun j hj hrest => ?_⟩
  rw [hlast]
  by_cases hij : i = j
  · subst hij
    rw [List.getElem?_set_self (h.length ▸ hj)]
  · rw [List.getElem?_set_ne hij]
    exact h.done j hj fun hmem => (List.mem_cons.1 hmem).elim
      (fun he => hij he.symm) hrest

/-- When `prepare` has returned, every module has registered. -/
theorem prepare_registers {does : Nat → Behaviour}
    (hdoes : ∀ i, (does i).Stored) (h : d.Coherent queue) :
    wp (prepare does)
      (fun _ d' => d'.Coherent queue ∧ ∀ m ∈ d'.mstore, m.stage = 3)
      (fun _ => True) d := by
  unfold prepare
  rw [wp_bind]
  refine (bootstrap_coherent hdoes h).mono ?_ fun _ _ => trivial
  intro _ t ht
  rw [wp_forEach]
  have hfirst : Registering queue t.mstore.length
      (List.range t.mstore.length) t :=
    ⟨ht, List.length_map .., fun i hi hrest =>
      absurd (List.mem_range.2 hi) hrest⟩
  have hloop := wp_forM (I := Registering queue t.mstore.length)
    (fun _ _ _ hreg => register_turn hdoes hreg) _ hfirst
  refine hloop.mono ?_ fun _ h => h
  intro _ t' hreg
  refine ⟨hreg.coherent, fun m hm => ?_⟩
  obtain ⟨i, hi⟩ := List.getElem?_of_mem hm
  have hstage : t'.stages[i]? = some m.stage := by
    rw [stages, List.getElem?_map, hi]
    rfl
  have hlt : i < t.mstore.length := by
    rw [← hreg.length, stages, List.length_map]
    exact (List.getElem?_eq_some_iff.1 hi).1
  rw [hreg.done i hlt List.not_mem_nil] at hstage
  exact (Option.some.inj hstage).symm

-- ============================================================== afterwards

/-- What is known of the modules by others: ids, names and types. -/
def idents (d : Daemon) : List (String × String × String) :=
  d.mstore.map AgentModule.ident

/-- After registration a call changes no id, name or type. -/
theorem call_named {i : Nat} {c : ModuleCall}
    (h : ∀ m ∈ d.mstore, m.stage = 3) :
    wp (call i c)
      (fun _ d' => (∀ m ∈ d'.mstore, m.stage = 3) ∧ d'.idents = d.idents)
      (fun d' => (∀ m ∈ d'.mstore, m.stage = 3) ∧ d'.idents = d.idents) d := by
  apply wp_call ⟨h, rfl⟩ ⟨h, rfl⟩
  intro m m' hm hm'
  obtain ⟨-, hstage, hident⟩ := changed_follows hm'
  have h3 : m.stage = 3 := h m (List.mem_of_getElem? hm)
  refine ⟨forall_mem_modify h fun _ _ => hstage.trans h3, ?_⟩
  apply map_modify_of_eq
  intro a ha
  rw [hm] at ha
  injection ha with ha
  exact ha ▸ hident (by omega)

/-- Modules that have registered keep their ids and names. -/
theorem afterCalls_named (h : ∀ m ∈ d.mstore, m.stage = 3)
    (cs : List (Nat × ModuleCall)) : (d.afterCalls cs).idents = d.idents := by
  induction cs generalizing d with
  | nil => rfl
  | cons c cs ih =>
      obtain ⟨hstages, hidents⟩ := (call_named (i := c.1) (c := c.2) h).after
      exact (ih hstages).trans hidents

end Daemon

-- ================================================================= on the wire

section Wire

variable {extract : Text.Chars → Option Float}

/-- A text arrives as it is. -/
theorem Json.lookup_receivedMembers {fields ws : List (String × Json)}
    (h : receivedMembers extract fields = some ws) {key s : String}
    (hkey : lookup key fields = some (.str s)) :
    lookup key ws = some (.str s) := by
  induction fields generalizing ws with
  | nil => cases hkey
  | cons f fields ih =>
      obtain ⟨k, v⟩ := f
      obtain ⟨w, hw, hcons⟩ := Option.bind_eq_some_iff.1 h
      obtain ⟨rest, hrest, rfl⟩ := Option.map_eq_some_iff.1 hcons
      unfold lookup at hkey ⊢
      by_cases hk : k = key
      · rw [if_pos hk] at hkey ⊢
        injection hkey with hkey
        subst hkey
        exact congrArg some (Option.some.inj hw).symm
      · rw [if_neg hk] at hkey ⊢
        exact ih hrest hkey

/-- The text of a member that is one. -/
theorem textOf_obj {fields : List (String × Json)} {key s : String}
    (h : lookup key fields = some (.str s)) :
    textOf (.obj fields) key = .ok s := by
  rw [textOf_of_get (get_obj fields key), h]
  rfl

/-- A module as it arrives. -/
def Arrives (extract : Text.Chars → Option Float) (m : AgentModule)
    (w : Json) : Prop :=
  ∃ ws, w = .obj ws ∧ receivedMembers extract m.prop = some ws

/-- The server reads id, name and type of a module as the agent has them. -/
theorem readHead_arrives {queue : String} {m : AgentModule} {w : Json}
    (h : m.Coherent queue) (hw : Arrives extract m w) :
    readHead w
      = .ok { id := m.id, type := .ofString m.type, name := m.name } := by
  obtain ⟨ws, rfl, hws⟩ := hw
  unfold readHead
  rw [textOf_obj (lookup_receivedMembers hws h.id),
    textOf_obj (lookup_receivedMembers hws h.type),
    textOf_obj (lookup_receivedMembers hws h.name)]
  rfl

/-- Whatever else is read of a module, it has the id, the type and the name
that its head has. -/
theorem readModule_head {value : Float → Rat} {w : Json} {m : Module}
    (h : readModule value w = .ok m) {head : Module}
    (hhead : readHead w = .ok head) :
    m.id = head.id ∧ m.type = head.type ∧ m.name = head.name := by
  obtain ⟨head', hhead', h⟩ := bind_eq_ok.1 h
  rw [hhead] at hhead'
  injection hhead' with hhead'
  subst hhead'
  cases htype : head.type with
  | dtn =>
      rw [htype] at h
      obtain ⟨v, -, h⟩ := bind_eq_ok.1 h
      obtain ⟨ip, -, h⟩ := bind_eq_ok.1 h
      obtain ⟨rate, -, h⟩ := bind_eq_ok.1 h
      obtain ⟨storages, -, h⟩ := bind_eq_ok.1 h
      obtain ⟨refs, -, h⟩ := bind_eq_ok.1 h
      injection h with h
      exact h ▸ ⟨rfl, rfl, rfl⟩
  | localStorage =>
      rw [htype] at h
      obtain ⟨folder, -, h⟩ := bind_eq_ok.1 h
      injection h with h
      exact h ▸ ⟨rfl, rfl, rfl⟩
  | launcher =>
      rw [htype] at h
      injection h with h
      exact h ▸ ⟨rfl, htype, rfl⟩
  | sdn =>
      rw [htype] at h
      injection h with h
      exact h ▸ ⟨rfl, htype, rfl⟩
  | other t =>
      rw [htype] at h
      injection h with h
      exact h ▸ ⟨rfl, htype, rfl⟩

/-- The message as the server's handler gets it. -/
def regMessage (online : Bool) (queue : String) (modules : List Json) : Json :=
  .obj [("modules", .arr modules), ("online", .bool online),
    ("queue", .str queue)]

/-- The message has the properties of the modules, in order. -/
theorem regVal_eq (d : Daemon) (online : Bool) :
    d.regVal online
      = regMessage online d.queue (d.mstore.map fun m => .obj m.prop) := by
  simp only [Daemon.regVal, regMessage, object, List.foldl_cons,
    List.foldl_nil, assign, String.reduceEq, String.reduceLT, if_true,
    if_false]

/-- The message can be stored. -/
theorem storable_regVal {queue : String} {d : Daemon} (h : d.Coherent queue)
    (online : Bool) : Json.Storable (d.regVal online) := by
  rw [regVal_eq]
  apply Made.obj
  · exact sorted_iff.2 (show ["modules", "online", "queue"].Pairwise (· < ·) by
      decide)
  · intro f hf
    simp only [List.mem_cons, List.not_mem_nil, or_false] at hf
    rcases hf with rfl | rfl | rfl
    · apply Made.arr
      intro v hv
      obtain ⟨m, hm, rfl⟩ := List.mem_map.1 hv
      exact .obj (h.modules m hm).sorted (h.modules m hm).stored
    · exact .bool online
    · exact .str d.queue

/-- The modules arrive in order, each by itself. -/
theorem received_modules {mods : List AgentModule} {ws : List Json}
    (h : receivedItems extract (mods.map fun m => .obj m.prop) = some ws) :
    List.Forall₂ (Arrives extract) mods ws := by
  induction mods generalizing ws with
  | nil =>
      injection h with h
      exact h ▸ .nil
  | cons m mods ih =>
      obtain ⟨w, hw, hcons⟩ := Option.bind_eq_some_iff.1 h
      obtain ⟨rest, hrest, rfl⟩ := Option.map_eq_some_iff.1 hcons
      obtain ⟨fields, hfields, rfl⟩ := Option.map_eq_some_iff.1 hw
      exact .cons ⟨fields, rfl, hfields⟩ (ih hrest)

/-- A registration that gets through has the modules in their order. -/
theorem handled_regVal {queue : String} {d : Daemon} (h : d.Coherent queue)
    {online : Bool} {msg : Json}
    (hmsg : Mqtt.handled extract (Mqtt.frame (d.regVal online)) = some msg) :
    ∃ ws, msg = regMessage online queue ws
      ∧ List.Forall₂ (Arrives extract) d.mstore ws := by
  rw [handled_frame (storable_regVal h online), readable_eq_some,
    regVal_eq] at hmsg
  obtain ⟨fields, hfields, rfl⟩ := Option.map_eq_some_iff.1 hmsg.2
  obtain ⟨w, hw, hcons⟩ := Option.bind_eq_some_iff.1 hfields
  obtain ⟨rest, hrest, rfl⟩ := Option.map_eq_some_iff.1 hcons
  obtain ⟨ws, hws, rfl⟩ := Option.map_eq_some_iff.1 hw
  injection hrest with hrest
  refine ⟨ws, ?_, received_modules hws⟩
  rw [← hrest, h.queue]
  rfl

/-- The message passes the checks, and one of an agent that goes is
cleared. -/
theorem onMsg_regMessage (online : Bool) (cid queue : String)
    (ws : List Json) :
    onMsg ["reg", cid] (regMessage online queue ws)
      = .ok (MainCall.resourceConstruct online cid queue (.arr ws)
        :: if online then [] else [.clrRetain ["reg", cid]]) := by
  cases online <;> rfl

-- =============================================================== the server

/-- Lists that correspond to one that corresponds to a third. -/
theorem forall₂_comp {α β γ : Type} {r : α → β → Prop} {p : β → γ → Prop}
    {as : List α} {bs : List β} {cs : List γ} (h : List.Forall₂ r as bs)
    (h' : List.Forall₂ p bs cs) :
    List.Forall₂ (fun a c => ∃ b, r a b ∧ p b c) as cs := by
  induction h generalizing cs with
  | nil =>
      cases h'
      exact .nil
  | cons hab _ ih =>
      cases h' with
      | cons hbc hrest => exact .cons ⟨_, hab, hbc⟩ (ih hrest)

/-- Lists that correspond have the same images. -/
theorem map_eq_map {α β γ : Type} {f : α → γ} {g : β → γ} {as : List α}
    {bs : List β} (h : List.Forall₂ (fun a b => f a = g b) as bs) :
    bs.map g = as.map f := by
  induction h with
  | nil => rfl
  | cons hab _ ih => rw [List.map_cons, List.map_cons, hab, ih]

/-- Deleting goes by the ids alone. -/
theorem delModules_congr {ms ms' : List Module}
    (h : ms.map Module.id = ms'.map Module.id) :
    delModules ms = delModules ms' := by
  unfold delModules
  induction ms generalizing ms' with
  | nil =>
      rw [List.map_nil] at h
      rw [List.map_eq_nil_iff.1 h.symm]
  | cons m ms ih =>
      obtain ⟨m', ms'', rfl, hid, hrest⟩ := List.map_eq_cons_iff.1 h.symm
      show (RGraph.delNode m.id >>= fun _ => ms.forM fun m =>
        RGraph.delNode m.id) = _
      rw [ih hrest.symm, ← hid]
      rfl

/-- The head of a module, as the server reads it. -/
def headOf (m : AgentModule) : Module :=
  { id := m.id, type := .ofString m.type, name := m.name }

variable {value : Float → Rat} {queue : String} {mods : List AgentModule}
  {ws : List Json}

/-- The deregistration arrives with the heads of the modules. -/
theorem readDeregistration_arrives (h : ∀ m ∈ mods, m.Coherent queue)
    (hws : List.Forall₂ (Arrives extract) mods ws) (cid : String) :
    readDeregistration cid queue (.arr ws)
      = .ok ⟨cid, queue, mods.map headOf⟩ := by
  have hheads : ws.mapM readHead = .ok (mods.map headOf) := by
    rw [mapM_eq_ok, List.forall₂_map_right_iff]
    refine ((List.forall₂_and_left _ _).2 ⟨h, hws⟩).flip.imp fun w m hm => ?_
    exact readHead_arrives hm.1 hm.2
  show (ws.mapM readHead >>= fun ms => _) = _
  rw [hheads]
  rfl

/-- What the server reads of the modules of a daemon. -/
structure Registered (i : Instance) (d : Daemon) : Prop where
  ids : i.modules.map Module.id = d.mstore.map AgentModule.id
  names : i.modules.map Module.name = d.mstore.map AgentModule.name
  types : i.modules.map Module.type
    = d.mstore.map fun m => .ofString m.type

/-- The registration arrives as one of the modules. -/
theorem readRegistration_arrives {d : Daemon} (h : d.Coherent queue)
    (hws : List.Forall₂ (Arrives extract) d.mstore ws) {cid : String}
    {i : Instance} (hi : readRegistration value cid queue (.arr ws) = .ok i) :
    i.cid = cid ∧ i.queue = queue ∧ Registered i d := by
  obtain ⟨ms, hms, hinst⟩ := bind_eq_ok.1 hi
  injection hinst with hinst
  subst hinst
  have hhead : List.Forall₂ (fun m n => n.id = (headOf m).id
      ∧ n.type = (headOf m).type ∧ n.name = (headOf m).name) d.mstore ms := by
    refine (forall₂_comp ((List.forall₂_and_left _ _).2 ⟨h.modules, hws⟩)
      (mapM_eq_ok.1 hms)).imp fun m n hmn => ?_
    obtain ⟨w, ⟨hm, hw⟩, hn⟩ := hmn
    exact readModule_head hn (readHead_arrives hm hw)
  exact ⟨rfl, rfl, map_eq_map (hhead.imp fun _ _ h => h.1.symm),
    map_eq_map (hhead.imp fun _ _ h => h.2.2.symm),
    map_eq_map (hhead.imp fun _ _ h => h.2.1.symm)⟩

/-- An instance is registered by ids, names and types alone. -/
theorem Registered.of_idents {i : Instance} {d d' : Daemon}
    (h : Registered i d) (heq : d'.idents = d.idents) : Registered i d' := by
  have hmap {γ : Type} (f : String × String × String → γ) :
      d.mstore.map (fun m => f m.ident) = d'.mstore.map fun m => f m.ident := by
    have h := congrArg (List.map f) heq.symm
    rwa [Daemon.idents, Daemon.idents, List.map_map, List.map_map] at h
  exact ⟨h.ids.trans (hmap fun t => t.1), h.names.trans (hmap fun t => t.2.1),
    h.types.trans (hmap fun t => ModuleType.ofString t.2.2)⟩

/-- The daemon is this agent to the server, by the modules of its two
messages, and stays it whatever its modules do later. -/
structure Daemon.Is (value : Float → Rat) (registered deregistered : Json)
    (d : Daemon) (i : Instance) : Prop where
  queue : i.queue = d.queue
  online : constructResource value true i.cid d.queue registered
    = resourceConstruct (regMsg i true)
  offline : constructResource value false i.cid d.queue deregistered
    = resourceConstruct (regMsg i false)
  registered : ∀ later, Registered i (d.afterCalls later)
  hands : ∀ later, ∀ m ∈ i.modules, m.id ≠ "" ∧ m.id ≠ "daemon" →
    ∀ request cmd, textOf request "target" = .ok m.id →
      textOf request "cmd" = .ok cmd →
      ∃ n params, (d.afterCalls later).rpcMsgHandler request
        = .ok (.command n cmd params)
      ∧ n.id = m.id ∧ request.get "params" = .ok params

/-- A daemon with all its modules registered is the instance. -/
theorem is_of_registered {d : Daemon} {i : Instance} {reg dereg : Json}
    (hstages : ∀ m ∈ d.mstore, m.stage = 3) (hi : Registered i d)
    (hqueue : i.queue = d.queue)
    (hon : readRegistration value i.cid d.queue reg = .ok i) {j : Instance}
    (hoff : readDeregistration i.cid d.queue dereg = .ok j)
    (hj : j.modules.map Module.id = d.mstore.map AgentModule.id) :
    d.Is value reg dereg i := by
  have hlater (later : List (Nat × ModuleCall)) :
      Registered i (d.afterCalls later) :=
    hi.of_idents (Daemon.afterCalls_named hstages later)
  refine ⟨hqueue, ?_, ?_, hlater, ?_⟩
  · unfold constructResource
    rw [hon]
    rfl
  · have hdel : delModules j.modules = delModules i.modules :=
      delModules_congr (hj.trans hi.ids.symm)
    unfold constructResource
    rw [hoff]
    exact hdel
  · intro later m hm hid request cmd htarget hcmd
    exact handed hm hid htarget (d.afterCalls later) (hlater later).ids.symm
      cmd hcmd

/-- To the server the daemon is one agent. Whatever its modules do while it
prepares, its registration and its deregistration get past the checks of
`on_msg`, and the second is cleared at the broker. Their handlers are those
of one instance, with the ids, the names and the types of the modules, and
whatever the modules do later, the daemon hands them the requests that name
them. Only a registration with a field that does not convert is none, and
ends the server. -/
theorem daemon_is_instance (value : Float → Rat)
    {mods : List (String × String × String)} {does : Nat → Behaviour}
    (hdoes : ∀ i, (does i).Stored) {d : Daemon}
    (hprepared : Daemon.prepare does (.start queue mods) = .ok () d)
    (cid : String) {on off : Json}
    (hon : Mqtt.handled extract (Mqtt.frame (d.regVal true)) = some on)
    (hoff : Mqtt.handled extract (Mqtt.frame (d.regVal false)) = some off) :
    ∃ reg dereg : Json,
      onMsg ["reg", cid] on = .ok [.resourceConstruct true cid queue reg]
      ∧ onMsg ["reg", cid] off
        = .ok [.resourceConstruct false cid queue dereg,
          .clrRetain ["reg", cid]]
      ∧ ((∃ e, ∀ g, constructResource value true cid queue reg g
            = .error e g)
        ∨ ∃ i : Instance, i.cid = cid ∧ i.queue = queue
          ∧ d.Is value reg dereg i) := by
  obtain ⟨hcoherent, hstages⟩ := (Daemon.prepare_registers hdoes
    (Daemon.start_coherent queue mods)).ok hprepared
  obtain ⟨ws, rfl, hws⟩ := handled_regVal hcoherent hon
  obtain ⟨ws', rfl, hws'⟩ := handled_regVal hcoherent hoff
  refine ⟨.arr ws, .arr ws', onMsg_regMessage .., onMsg_regMessage .., ?_⟩
  cases hi : readRegistration value cid queue (.arr ws) with
  | error e =>
      refine .inl ⟨e, fun g => ?_⟩
      unfold constructResource
      rw [hi]
      rfl
  | ok i =>
      obtain ⟨rfl, hqueue, hreg⟩ := readRegistration_arrives hcoherent hws hi
      have hj := readDeregistration_arrives hcoherent.modules hws' i.cid
      refine .inr ⟨i, rfl, hqueue, is_of_registered hstages hreg
        (hqueue.trans hcoherent.queue.symm) ?_ (hcoherent.queue.symm ▸ hj) ?_⟩
      · rw [hcoherent.queue, hi]
      · rw [List.map_map]
        rfl

/-- A launcher, which takes its id and its name as it bootstraps. -/
def launching (_ : Nat) : Behaviour :=
  { bootstrap := [.self (.updateId "launcher-agent"),
      .self (.updateName "Launching Agent on host")] }

/-- The properties of a launcher agent. -/
def launcherProp : List (String × Json) :=
  [("id", .str "launcher-agent"), ("name", .str "Launching Agent on host"),
    ("queue", .str "rpc/1"), ("type", .str "Launcher")]

/-- A daemon with a launcher agent only. -/
def launcherDaemon : Daemon :=
  { queue := "rpc/1"
    mstore := [⟨"launcher-agent", "Launching Agent on host", "Launcher",
      "rpc/1", launcherProp, 3⟩] }

/-- It is an instance with the one module. -/
theorem daemon_is_instance_launcher : ∃ (reg dereg : Json) (i : Instance),
    i.cid = "1" ∧ i.modules.map Module.id = ["launcher-agent"]
      ∧ launcherDaemon.Is (fun _ => 0) reg dereg i := by
  have hstored : ∀ i, (launching i).Stored := by
    refine fun i => ⟨fun c hc => ?_, by simp [launching], by simp [launching]⟩
    simp only [launching, List.mem_cons, List.not_mem_nil, or_false] at hc
    rcases hc with rfl | rfl <;> exact trivial
  have hprepared : Daemon.prepare launching
      (.start "rpc/1" [("", "", "Launcher")]) = .ok () launcherDaemon := rfl
  have hcoherent : launcherDaemon.Coherent "rpc/1" :=
    ((Daemon.prepare_registers hstored (Daemon.start_coherent ..)).ok
      hprepared).1
  have harrives (online : Bool) :
      Mqtt.handled (fun _ => none) (Mqtt.frame (launcherDaemon.regVal online))
        = some (regMessage online "rpc/1" [.obj launcherProp]) := by
    rw [handled_frame (storable_regVal hcoherent online), readable_eq_some,
      regVal_eq]
    exact ⟨by cases online <;> decide, rfl⟩
  obtain ⟨reg, dereg, hon, -, h⟩ := daemon_is_instance (fun _ => 0) hstored
    hprepared "1" (harrives true) (harrives false)
  rw [onMsg_regMessage] at hon
  injection hon with hon
  injection hon with hon
  injection hon with _ _ _ hon
  rcases h with ⟨e, h⟩ | ⟨i, hcid, -, h⟩
  · have hfails := h {}
    rw [← hon] at hfails
    cases hfails
  · exact ⟨reg, dereg, i, hcid, (h.registered []).ids, h⟩

end Wire

end BigDataExpress
