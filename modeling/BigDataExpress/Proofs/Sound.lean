/-
The invariant of an sjob between handlers, and that every outcome keeps
it.

An sjob has at most one flow, the flow names one of its blocks, and a
block in transfer is the one the flow names. An sjob has an error
message exactly when its state is error, and an sjob that has ended,
well or not, has no flow that is sampled.
-/
import BigDataExpress.Proofs.Report

namespace BigDataExpress

open Interact Collection

-- ======================================================== the invariant

structure Sjob.Sound (x : Sjob) : Prop where
  single : x.flows.length ≤ 1
  names : ∀ f ∈ x.flows, f.block ∈ x.blockIds
  carried : ∀ b ∈ x.blocks, b.state = .transferring →
    ∃ f ∈ x.flows, f.block = b.id
  failed : x.error.isSome = true ↔ x.state = .error
  ended : x.state = .error ∨ x.state = .finished →
    ∀ f ∈ x.flows, ¬ f.Live

/-- A flow among at most one is the only one. -/
theorem Sjob.Sound.flows_eq {x : Sjob} (h : x.Sound) {f : Flow}
    (hf : f ∈ x.flows) : x.flows = [f] := by
  have hlen := h.single
  cases hfl : x.flows with
  | nil => rw [hfl] at hf; cases hf
  | cons g gs =>
      rw [hfl] at hf hlen
      cases gs with
      | nil => rw [List.mem_singleton.mp hf]
      | cons g' gs => simp at hlen

/-- The invariant only reads what is visible. -/
theorem Sjob.Alike.sound {x y : Sjob} (h : x.Alike y) (hx : x.Sound) :
    y.Sound where
  single := by
    have := congrArg List.length h.flows
    rw [List.length_map, List.length_map] at this
    rw [this]
    exact hx.single
  names := by
    intro f hf
    obtain ⟨f', hf', hm⟩ := h.flow hf
    have hbl : f'.block = f.block := congrArg (·.2.2) hm
    rw [h.blockIds, ← hbl]
    exact hx.names f' hf'
  carried := by
    intro b hb hst
    obtain ⟨b', hb', hm⟩ := h.block hb
    obtain ⟨f', hf', hfb⟩ := hx.carried b' hb'
      ((congrArg (·.2.1) hm).trans hst)
    obtain ⟨f, hf, hfm⟩ := h.symm.flow hf'
    refine ⟨f, hf, ?_⟩
    have h₁ : f.block = f'.block := congrArg (·.2.2) hfm
    have h₂ : b'.id = b.id := congrArg (·.1) hm
    rw [h₁, hfb, h₂]
  failed := by
    rw [h.error, h.state]
    exact hx.failed
  ended := by
    intro hend f hf hlive
    obtain ⟨f', hf', hm⟩ := h.flow hf
    rw [h.state] at hend
    have hst : f'.state = f.state := congrArg (·.2.1) hm
    refine hx.ended hend f' hf' ?_
    unfold Flow.Live at hlive ⊢
    rw [hst]
    exact hlive

-- ================================================ documents of outcomes

section update

variable {x : Sjob} {f : Flow}

theorem Sjob.onFlow_single (hx : x.flows = [f]) (g : Flow → Flow) :
    (x.onFlow f.task g).flows = [g f] := by
  simp [onFlow, hx, updateOne]

/-- The blocks after an update of one of them. -/
theorem Sjob.mem_onBlock (hnodup : x.blockIds.Nodup) {i : Oid}
    {g : Block → Block} {b : Block} :
    b ∈ (x.onBlock i g).blocks
      ↔ ∃ k ∈ x.blocks, b = if k.id = i then g k else k := by
  have hmap : (x.onBlock i g).blocks
      = x.blocks.map fun k => if k.id = i then g k else k :=
    updateOne_key hnodup
  rw [hmap, List.mem_map]
  constructor
  · rintro ⟨k, hk, rfl⟩
    exact ⟨k, hk, rfl⟩
  · rintro ⟨k, hk, rfl⟩
    exact ⟨k, hk, rfl⟩

/-- Only the block `i` can be in transfer. -/
def Sjob.Carries (i : Oid) (x : Sjob) : Prop :=
  ∀ b ∈ x.blocks, b.state = .transferring → b.id = i

theorem Sjob.Sound.carries (h : x.Sound) (hf : x.flows = [f]) :
    x.Carries f.block := by
  intro b hb hst
  obtain ⟨f', hf', hfb⟩ := h.carried b hb hst
  rw [hf, List.mem_singleton] at hf'
  rw [← hfb, hf']

/-- The block that could be in transfer is written: it stays the only
one. -/
theorem Sjob.Carries.onBlock {i : Oid} (h : x.Carries i)
    (hnodup : x.blockIds.Nodup) {g : Block → Block}
    (hg : ∀ k, (g k).id = k.id) : (x.onBlock i g).Carries i := by
  intro b hb hst
  obtain ⟨k, hk, rfl⟩ := (mem_onBlock hnodup).mp hb
  by_cases hid : k.id = i
  · rw [if_pos hid, hg, hid]
  · rw [if_neg hid] at hst ⊢
    exact h k hk hst

/-- It is written to something else than in transfer: then none is. -/
theorem Sjob.Carries.clear {i : Oid} (h : x.Carries i)
    (hnodup : x.blockIds.Nodup) {g : Block → Block}
    (hg : ∀ k, (g k).state ≠ .transferring) (j : Oid) :
    (x.onBlock i g).Carries j := by
  intro b hb hst
  obtain ⟨k, hk, rfl⟩ := (mem_onBlock hnodup).mp hb
  split at hst
  · exact absurd hst (hg k)
  · rename_i hid
    exact absurd (h k hk hst) hid

/-- The invariant of a document with one flow. -/
theorem Sjob.Sound.of_single {z : Sjob} {g : Flow} (hf : z.flows = [g])
    (hn : g.block ∈ z.blockIds) (hc : z.Carries g.block)
    (hfail : z.error.isSome = true ↔ z.state = .error)
    (hend : z.state = .error ∨ z.state = .finished → ¬ g.Live) :
    z.Sound where
  single := by rw [hf]; exact le_refl 1
  names := by
    intro f hf'
    rw [hf, List.mem_singleton] at hf'
    rw [hf']
    exact hn
  carried := by
    intro b hb hst
    exact ⟨g, by rw [hf]; exact List.mem_singleton_self g,
      (hc b hb hst).symm⟩
  failed := hfail
  ended := by
    intro he f hf'
    rw [hf, List.mem_singleton] at hf'
    rw [hf']
    exact hend he

end update

-- ====================================================== every outcome

section outcome

variable {files : Oid → BlockFiles} {launcher : Bool} {x : Sjob} {f : Flow}
  {d : Delta}

theorem ReportOutcome.sound {params : StatusParams} {v : Bool}
    (hx : x.Sound) (hnodup : x.blockIds.Nodup) (hf : x.flows = [f])
    (herr : x.error = none)
    (ho : ReportOutcome files launcher x f params v d) : d.doc.Sound := by
  have hb : f.block ∈ x.blockIds := hx.names f (by simp [hf])
  have hne : x.state ≠ .error := fun hc => by
    have := hx.failed.mpr hc
    simp [herr] at this
  have hc := hx.carries hf
  have hone := Sjob.onFlow_single (x := x) hf
  have hdead : ∀ st, st ≠ .setting → st ≠ .transferring →
      ¬ (f.setState st).Live := by
    rintro st h1 h2 (h | h)
    · exact h1 h
    · exact h2 h
  cases ho with
  | ignored => exact hx
  | started h1 =>
      refine .of_single (hone _) hb hc ?_ ?_
      · simp [herr, Sjob.setState, Sjob.onFlow]
      · rintro (hs | hs) <;> cases hs
  | failed h2 =>
      exact .of_single (hone _) (by simpa using hb)
        (hc.onBlock hnodup fun _ => rfl) (by simp [Sjob.fail])
        fun _ => hdead _ nofun nofun
  | @next fin n h3 hv hsel hl =>
      obtain ⟨-, k, hk, rfl, -⟩ := selectBlock_some hsel
      refine .of_single (hone _) ?_ ?_ ?_ ?_
      · have hkm : k.id ∈ x.blockIds := List.mem_map_of_mem hk
        simpa using hkm
      · have hclear := hc.clear hnodup (g := Block.complete .finished)
          (fun _ => nofun) k.id
        exact hclear.onBlock (by simpa using hnodup) fun _ => rfl
      · simp [herr, Sjob.setState, Sjob.onFlow, Sjob.onBlock]
      · rintro (hs | hs) <;> cases hs
  | nextFails h3 hv hsel hl =>
      exact .of_single (hone _) (by simpa using hb)
        (hc.onBlock hnodup fun _ => rfl) (by simp [Sjob.fail])
        fun _ => hdead _ nofun nofun
  | last h3 hv hsel =>
      refine .of_single (hone _) (by simpa using hb)
        (hc.onBlock hnodup fun _ => rfl) ?_ fun _ => hdead _ nofun nofun
      simp [herr, Sjob.setState, Sjob.onFlow, Sjob.onBlock]
  | @rest s h3 hv hsel hs =>
      have hs' : s ≠ .error := by
        rcases hs with rfl | hs
        · exact hne
        · exact hs.2
      refine .of_single (hone _) (by simpa using hb)
        (hc.onBlock hnodup fun _ => rfl) ?_ fun _ => hdead _ nofun nofun
      simp [herr, Sjob.setState, Sjob.onFlow, Sjob.onBlock, hs']
  | retry h3 hv hr hl =>
      refine .of_single (hone _) (by simpa [Flow.carry] using hb)
        (hc.onBlock hnodup fun _ => rfl) ?_ ?_
      · simp [herr, Sjob.setState, Sjob.onFlow, Sjob.onBlock]
      · rintro (hs | hs) <;> cases hs
  | retryFails h3 hv hr hst =>
      exact .of_single (hone _) (by simpa using hb)
        (hc.onBlock hnodup fun _ => rfl) (by simp [Sjob.fail])
        fun _ => hdead _ nofun nofun

theorem AttemptOutcome.sound {answer : Bool → Prop} {b : Oid}
    {r : Except String Unit} (hx : x.Sound) (hnodup : x.blockIds.Nodup)
    (hempty : x.flows = []) (herr : x.error = none) (hb : b ∈ x.blockIds)
    (ho : AttemptOutcome files launcher answer x b r d) : d.doc.Sound := by
  have hnone : ∀ i, x.Carries i := by
    intro i k hk hst
    obtain ⟨f, hf, -⟩ := hx.carried k hk hst
    rw [hempty] at hf
    cases hf
  cases ho with
  | failed =>
      refine ⟨?_, ?_, ?_, by simp [Sjob.fail], ?_⟩
      · simp [Sjob.fail, hempty]
      · simp [Sjob.fail, hempty]
      · intro k hk hst
        exact hx.carried k hk hst
      · simp [Sjob.fail, hempty]
  | @refused f hst hfb hl ha =>
      refine .of_single rfl (by rw [hfb]; exact hb) (hnone _)
        (by simp [Sjob.fail]) ?_
      rintro - (h | h) <;> rw [hst] at h <;> cases h
  | @launched f hst hfb hl ha =>
      refine .of_single rfl ?_ ?_ ?_ ?_
      · rw [hfb]
        simpa using hb
      · rw [hfb]
        exact Sjob.Carries.onBlock (x := x.withFlow f) (hnone b) hnodup
          fun _ => rfl
      · simp [herr, Sjob.setState, Sjob.onBlock, Sjob.withFlow]
      · rintro (hs | hs) <;> cases hs
  | @thrown f m hst hfb hl =>
      refine .of_single rfl (by rw [hfb]; exact hb) (hnone _) ?_ ?_
      · simp [herr, Sjob.setState, Sjob.withFlow]
      · rintro (hs | hs) <;> cases hs

theorem SampleOutcome.sound {v : Option Int} (hx : x.Sound)
    (hnodup : x.blockIds.Nodup) (hf : x.flows = [f])
    (ho : SampleOutcome x f v d) : d.doc.Sound := by
  have hb : f.block ∈ x.blockIds := hx.names f (by simp [hf])
  have hc := hx.carries hf
  have hdead : ¬ (f.setState .error).Live := by
    rintro (h | h) <;> cases h
  cases ho with
  | skipped => exact hx
  | unknown hl =>
      exact .of_single (Sjob.onFlow_single hf _) (by simpa using hb)
        (hc.onBlock hnodup fun _ => rfl) (by simp [Sjob.fail])
        fun _ => hdead
  | counted hl =>
      exact .of_single hf (by simpa using hb)
        (hc.onBlock hnodup fun _ => rfl) hx.failed
        fun he => hx.ended he f (by simp [hf])
  | inactive hl =>
      refine .of_single (Sjob.onFlow_single hf _) (by simpa using hb) ?_
        (by simp [Sjob.fail]) fun _ => hdead
      have hw := Sjob.Carries.onBlock (g := Block.setState .waiting)
        (x := x.onFlow f.task (Flow.setState .error)) hc hnodup fun _ => rfl
      exact hw.onBlock (by simpa using hnodup) fun _ => rfl

end outcome

end BigDataExpress
