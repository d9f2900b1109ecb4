/-
Who owns what in the resource graph.

# The registry

The abstract model is a table from the name a module is kept under to
the instance that registered it last, with the module. An online message
enters its modules; an offline message takes out what its own instance
owns, and nothing else. A launcher or an SDN agent has one slot, which
the last registration owns.

# What the code does instead

The graph is emptied by module id, whoever registered it. It follows the
registry along every run in which no offline message names a module that
an instance still online took over (`owned_modules_stay`); a last will
that arrives after the restarted agent registered breaks it
(`late_will_removes_node`).
-/
import BigDataExpress.Proofs.Modules

namespace BigDataExpress

open Stateful ResourceManager RGraph

/-- The owner of every name, and the module it registered. -/
abbrev Registry : Type := NodeName → Option (Instance × Module)

namespace Registry

def register (i : Instance) (R : Registry) (m : Module) : Registry :=
  match slotName m with
  | some x => Function.update R x (some (i, m))
  | none => R

/-- One message, by ownership. -/
def step (R : Registry) : RegMsg → Registry
  | .online i => i.modules.foldl (register i) R
  | .offline i => fun x => (R x).filter fun o => o.1.cid != i.cid

/-- The registry after a run of messages. -/
def run (msgs : List RegMsg) : Registry :=
  msgs.foldl step fun _ => none

end Registry

/-- Every module whose owner is online is in the graph with the queue of
its owner. -/
def Owned (R : Registry) (g : RGraph) : Prop :=
  ∀ x i m, R x = some (i, m) →
    ∃ d, view g x = some d ∧ d.rid = m.id ∧ d.queue = i.queue

/-- No id of the message is a key of the general nodes, and an offline
message names no module that another instance owns by now. -/
def Undisputed (R : Registry) : RegMsg → Prop
  | .online i => ∀ m ∈ i.modules, ¬ ReservedKey m.id
  | .offline i => ∀ m ∈ i.modules, ¬ ReservedKey m.id ∧
      ∀ x o n, R x = some (o, n) → n.id = m.id → o.cid = i.cid

/-- Every message of a run is undisputed when it arrives. -/
def Orderly : Registry → List RegMsg → Prop
  | _, [] => True
  | R, msg :: msgs => Undisputed R msg ∧ Orderly (R.step msg) msgs

/-- The graph after a run of messages. -/
def RGraph.afterMsgs (msgs : List RegMsg) : RGraph :=
  runAll (msgs.map resourceConstruct) initial

variable {R : Registry} {g : RGraph} {E : RGraph → Prop}

-- ============================================================== one message

theorem owned_added (h : Owned R g) {g' : RGraph} {i : Instance}
    {m : Module} (ha : Added g g' i.queue m) :
    Owned (R.register i m) g' := by
  intro x o n hx
  rw [ha.view, viewAdded]
  cases hs : slotName m with
  | none =>
      rw [Registry.register, hs] at hx
      exact h x o n hx
  | some y =>
      simp only [Registry.register, hs, Function.update_apply] at hx
      split at hx
      · rename_i hxy
        cases hx
        subst hxy
        refine ⟨_, Function.update_self .., ?_⟩
        -- the node under the slot carries the id and the queue
        have hproper := ha.proper.rid x
        rw [ha.view, viewAdded, hs] at hproper
        have hrid := hproper _ (Function.update_self ..)
        unfold slotName at hs
        cases ht : m.type with
        | dtn =>
            rw [ht] at hs
            cases hs
            exact ⟨hrid (by simp), by simp only [registered, ht, dtnNode]⟩
        | localStorage =>
            rw [ht] at hs
            cases hs
            exact ⟨hrid (by simp), by simp only [registered, ht, storageNode]⟩
        | launcher => simp only [registered, ht, and_self]
        | sdn => simp only [registered, ht, and_self]
        | other t => rw [ht] at hs; cases hs
      · rename_i hxy
        simp only [Function.update_of_ne hxy]
        exact h x o n hx

theorem owned_mapped (h : Owned R g) {g' : RGraph} {sid did : String}
    (hm : Mapped g g' sid did) : Owned R g' := by
  intro x o n hx
  obtain ⟨d, hd, hr, hq⟩ := h x o n hx
  rw [hm.view]
  rcases viewMapped_cases (g := g) sid did x with hc | ⟨e, a, -, he, -, hc⟩
  · exact ⟨d, hc.trans hd, hr, hq⟩
  · rw [hd] at he
    cases he
    exact ⟨_, hc, hr, hq⟩

theorem wp_addModules_owned {i : Instance} {l : List Module}
    (hl : ∀ m ∈ l, ¬ ReservedKey m.id) {R : Registry} {g : RGraph}
    (hp : Proper g) (h : Owned R g) :
    wp (l.forM (addModule i.queue))
      (fun _ g' => Proper g' ∧ Owned (l.foldl (Registry.register i) R) g')
      E g := by
  induction l generalizing R g with
  | nil => exact ⟨hp, h⟩
  | cons m l ih =>
      rw [wp_forM_cons]
      refine hp.wp_addModule (hl m (List.mem_cons_self ..)) ?_
      intro g' ha
      exact ih (fun n hn => hl n (List.mem_cons_of_mem _ hn)) ha.proper
        (owned_added h ha)

/-- Links leave the owners alone. -/
theorem wp_linkModule_owned {m : Module} (hp : Proper g) (h : Owned R g) :
    wp (linkModule m) (fun _ g' => Proper g' ∧ Owned R g')
      (fun g' => Proper g' ∧ Owned R g') g := by
  unfold linkModule
  split
  · refine wp_forM_inv ?_ ⟨hp, h⟩
    intro s _ g₁ h₁
    exact wp_mapStorageCaught h₁.1.named fun g₂ hm =>
      ⟨h₁.1.mapped hm, owned_mapped h₁.2 hm⟩
  · exact ⟨hp, h⟩

/-- A dropped name was not one that another instance owns. -/
theorem owned_drops {id : String} {x : NodeName}
    {g' : RGraph}
    (hR : ∀ y o n, R y = some (o, n) → n.id ≠ id)
    (h : Owned R g) (hs : Stands g id x) (hd : Drops g g' x) :
    Owned R g' := by
  intro y o n hy
  obtain ⟨d, hv, hr, hq⟩ := h y o n hy
  refine ⟨d, ?_, hr, hq⟩
  have hne : y ≠ x := by
    intro he
    rw [he] at hv
    have hid : n.id = id := hr.symm.trans (hs.rid d hv)
    exact hR y o n hy hid
  rw [hd.view, Function.update_of_ne hne]
  exact hv

theorem wp_delModules_owned {l : List Module}
    (hl : ∀ m ∈ l, ¬ ReservedKey m.id ∧
      ∀ y o n, R y = some (o, n) → n.id ≠ m.id)
    (hp : Proper g) (h : Owned R g) :
    wp (l.forM fun m => delNode m.id) (fun _ g' => Proper g' ∧ Owned R g')
      (fun g' => Proper g' ∧ Owned R g') g := by
  refine wp_forM_inv ?_ ⟨hp, h⟩
  intro m hm g₁ h₁
  rw [wp_delNode]
  split
  · exact h₁
  · obtain ⟨hfree, hother⟩ := hl m hm
    rcases h₁.1.deleted_cases hfree with he | ⟨x, hs, hd⟩
    · rw [he]
      exact h₁
    · exact ⟨h₁.1.drops hd hs.not_gateway,
        owned_drops hother h₁.2 hs hd⟩

theorem owned_step {msg : RegMsg} (hu : Undisputed R msg) (hp : Proper g)
    (h : Owned R g) :
    Proper (after (resourceConstruct msg) g) ∧
      Owned (R.step msg) (after (resourceConstruct msg) g) := by
  cases msg with
  | online i =>
      refine wp.after (P := fun g' => Proper g' ∧ Owned _ g') ?_
      rw [resourceConstruct, addModules, wp_bind]
      refine (wp_addModules_owned hu hp h).mono ?_ fun _ he => he
      intro _ g₁ h₁
      refine wp_forM_inv ?_ h₁
      intro m _ g₂ h₂
      exact wp_linkModule_owned h₂.1 h₂.2
  | offline i =>
      refine wp.after (P := fun g' => Proper g' ∧ Owned _ g') ?_
      have hout : ∀ x o n, R.step (.offline i) x = some (o, n) →
          R x = some (o, n) ∧ o.cid ≠ i.cid := by
        intro x o n hx
        obtain ⟨hx, hc⟩ := Option.filter_eq_some_iff.mp hx
        exact ⟨hx, bne_iff_ne.mp hc⟩
      refine wp_delModules_owned ?_ hp fun x o n hx => h x o n (hout x o n hx).1
      intro m hm
      obtain ⟨hfree, hown⟩ := hu m hm
      refine ⟨hfree, fun x o n hx hid => ?_⟩
      obtain ⟨hx, hc⟩ := hout x o n hx
      exact hc (hown x o n hx hid)

-- ============================================================= whole runs

/-- An agent with a module of every kind, before and after a restart. -/
def siteAgent (cid queue : String) : Instance :=
  { cid := cid, queue := queue,
    modules := [{ id := "dtn1", type := .dtn },
      { id := "disk1", type := .localStorage },
      { id := "launcher1", type := .launcher },
      { id := "sdn1", type := .sdn }] }

/-- Along an orderly run every module stays registered for the instance
that owns it. -/
theorem owned_modules_stay (msgs : List RegMsg)
    (h : Orderly (fun _ => none) msgs) :
    Owned (Registry.run msgs) (afterMsgs msgs) := by
  -- from any pair of a registry and a graph that follows it
  have hrun : ∀ (msgs : List RegMsg) (R : Registry) (g : RGraph),
      Orderly R msgs → Proper g → Owned R g →
      Owned (msgs.foldl Registry.step R)
        (runAll (msgs.map resourceConstruct) g) := by
    intro msgs
    induction msgs with
    | nil => intro R g _ _ ho; exact ho
    | cons msg msgs ih =>
        intro R g hord hp ho
        obtain ⟨hp', ho'⟩ := owned_step hord.1 hp ho
        exact ih _ _ hord.2 hp' ho'
  exact hrun msgs _ _ h (bare_proper {}) fun x i m hx => by cases hx

/-- A restart whose last will comes before the new registration. -/
theorem owned_modules_stay_restart :
    Owned
      (Registry.run [.online (siteAgent "c1" "q1"),
        .offline (siteAgent "c1" "q1"), .online (siteAgent "c2" "q2")])
      (afterMsgs [.online (siteAgent "c1" "q1"),
        .offline (siteAgent "c1" "q1"), .online (siteAgent "c2" "q2")]) := by
  have hids : ∀ c q, ∀ m ∈ (siteAgent c q).modules, ¬ ReservedKey m.id := by
    intro c q m hm
    simp only [siteAgent, List.mem_cons, List.not_mem_nil, or_false] at hm
    rcases hm with rfl | rfl | rfl | rfl <;> decide
  refine owned_modules_stay _ ⟨hids _ _, ?_, hids _ _, trivial⟩
  intro m hm
  refine ⟨hids _ _ m hm, fun x o n hx _ => ?_⟩
  -- everything is owned by the one instance there is
  have hown : ∀ x o n,
      Registry.step (fun _ => none) (.online (siteAgent "c1" "q1")) x
        = some (o, n) → o.cid = "c1" := by
    intro x o n hx
    simp only [Registry.step, siteAgent, List.foldl_cons, List.foldl_nil,
      Registry.register, slotName, Function.update_apply] at hx
    split at hx
    · cases hx; rfl
    · split at hx
      · cases hx; rfl
      · split at hx
        · cases hx; rfl
        · split at hx
          · cases hx; rfl
          · cases hx
  exact hown x o n hx

/-- A last will that arrives after the restarted agent registered
removes every node the new instance owns. -/
theorem late_will_removes_node :
    ¬ Owned
      (Registry.run [.online (siteAgent "c1" "q1"),
        .online (siteAgent "c2" "q2"), .offline (siteAgent "c1" "q1")])
      (afterMsgs [.online (siteAgent "c1" "q1"),
        .online (siteAgent "c2" "q2"), .offline (siteAgent "c1" "q1")]) := by
  intro h
  obtain ⟨d, hd, -, -⟩ := h (.dtn, "dtn1") (siteAgent "c2" "q2")
    { id := "dtn1", type := .dtn } rfl
  have hnone : view (afterMsgs [.online (siteAgent "c1" "q1"),
      .online (siteAgent "c2" "q2"), .offline (siteAgent "c1" "q1")])
      (.dtn, "dtn1") = none := by decide +kernel
  rw [hnone] at hd
  cases hd

end BigDataExpress
