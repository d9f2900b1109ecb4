/-
Thread pools: any number of handlers interleaved at the granularity of
their single actions.

# The semantics

A pool is the shared state and the list of running handlers, each with a
tag that says which handler it is. A pool step lets one running handler
do one action (`exec`), retires a handler that has ended (`retire`),
starts a new one (`spawn`, as the dispatcher of the modelled system
allows) or moves the state from outside (`env`).

# The proof rule

`Valid` says that every running handler is rely/guarantee valid under
the contract of its tag and that the tags running together are
compatible: each one's guarantee is inside the other's rely. One action
of one handler keeps all that (`Valid.exec`) and is a guarantee step;
retiring a handler keeps it and yields the handler's postcondition
(`Valid.retire`). What is left to a development is what its dispatcher
and its environment do (`Valid.spawn`, `Valid.env`).

When a handler is started only on an empty pool, nothing interferes:
`reach_solo` and `serial_invariant` reduce such runs to solo runs.
-/
import BigDataExpress.Lib.Prog

namespace Interact

variable {σ τ ε : Type} {ρ : ε → Type}

/-- A running handler and its tag. -/
abbrev Thread (σ τ ε : Type) (ρ : ε → Type) : Type :=
  τ × Prog σ ε ρ Unit

/-- The shared state and the running handlers. -/
structure Pool (σ τ ε : Type) (ρ : ε → Type) where
  world : σ
  threads : List (Thread σ τ ε ρ)

/-- What the modelled system allows: how a call of a handler shows in
the state, when a handler may be started (and what that leaves in the
state), and what the outside may do to the state. -/
structure System (σ τ ε : Type) (ρ : ε → Type) where
  env : τ → Env σ ε ρ
  spawn : Pool σ τ ε ρ → τ → Prog σ ε ρ Unit → σ → Prop
  outside : Pool σ τ ε ρ → σ → Prop

namespace System

variable (S : System σ τ ε ρ)

/-- One step of the pool. -/
inductive Step : Pool σ τ ε ρ → Pool σ τ ε ρ → Prop
  | exec {w w' : σ} {t : τ} {p p' : Prog σ ε ρ Unit}
      (l₁ l₂ : List (Thread σ τ ε ρ)) :
      Prog.Step (S.env t) p w p' w' →
      Step ⟨w, l₁ ++ (t, p) :: l₂⟩ ⟨w', l₁ ++ (t, p') :: l₂⟩
  | retire {w : σ} {t : τ} {p : Prog σ ε ρ Unit}
      (l₁ l₂ : List (Thread σ τ ε ρ)) :
      p.Ended → Step ⟨w, l₁ ++ (t, p) :: l₂⟩ ⟨w, l₁ ++ l₂⟩
  | spawn {w w' : σ} {l : List (Thread σ τ ε ρ)} {t : τ}
      {p : Prog σ ε ρ Unit} :
      S.spawn ⟨w, l⟩ t p w' → Step ⟨w, l⟩ ⟨w', l ++ [(t, p)]⟩
  | env {w w' : σ} {l : List (Thread σ τ ε ρ)} :
      S.outside ⟨w, l⟩ w' → Step ⟨w, l⟩ ⟨w', l⟩

/-- Everything the pool can become. -/
abbrev Run : Pool σ τ ε ρ → Pool σ τ ε ρ → Prop :=
  Relation.ReflTransGen S.Step

end System

-- ====================================================== the proof rule

/-- A rely/guarantee contract for each tag. -/
structure Contract (σ τ : Type) where
  rely : τ → σ → σ → Prop
  guar : τ → σ → σ → Prop
  post : τ → σ → Prop
  refl : ∀ t w, rely t w w
  trans : ∀ t a b c, rely t a b → rely t b c → rely t a c

namespace Contract

variable (C : Contract σ τ)

/-- Two tags may run together. -/
def Compatible (t t' : τ) : Prop :=
  (∀ w w', C.guar t w w' → C.rely t' w w')
    ∧ ∀ w w', C.guar t' w w' → C.rely t w w'

/-- A handler is valid under the contract of its tag. -/
def Keeps (S : System σ τ ε ρ) (w : σ) (th : Thread σ τ ε ρ) : Prop :=
  th.2.rg (S.env th.1) (C.rely th.1) (C.guar th.1)
    (fun _ w => C.post th.1 w) w

/-- Every running handler is valid, and they may all run together. -/
structure Valid (S : System σ τ ε ρ) (P : Pool σ τ ε ρ) : Prop where
  keeps : ∀ th ∈ P.threads, C.Keeps S P.world th
  compat : P.threads.Pairwise fun a b => C.Compatible a.1 b.1

variable {C} {S : System σ τ ε ρ}

theorem Keeps.rely {w w' : σ} {th : Thread σ τ ε ρ}
    (h : C.Keeps S w th) (hw : C.rely th.1 w w') : C.Keeps S w' th :=
  Prog.rg_rely (C.trans th.1) h hw

/-- A threads' list around one of its elements: the others are
compatible with it. -/
private theorem compat_around {l₁ l₂ : List (Thread σ τ ε ρ)}
    {th : Thread σ τ ε ρ}
    (h : (l₁ ++ th :: l₂).Pairwise fun a b => C.Compatible a.1 b.1) :
    ∀ o ∈ l₁ ++ l₂, ∀ w w', C.guar th.1 w w' → C.rely o.1 w w' := by
  rw [List.pairwise_append] at h
  obtain ⟨-, hr, hx⟩ := h
  intro o ho w w' hg
  rcases List.mem_append.mp ho with ho | ho
  · exact (hx o ho th (List.mem_cons_self ..)).2 w w' hg
  · exact ((List.pairwise_cons.mp hr).1 o ho).1 w w' hg

/-- One action of one handler is a guarantee step of its tag and keeps
the whole pool valid. -/
theorem Valid.exec {w w' : σ} {t : τ} {p p' : Prog σ ε ρ Unit}
    {l₁ l₂ : List (Thread σ τ ε ρ)}
    (h : C.Valid S ⟨w, l₁ ++ (t, p) :: l₂⟩)
    (hs : Prog.Step (S.env t) p w p' w') :
    C.guar t w w' ∧ C.Valid S ⟨w', l₁ ++ (t, p') :: l₂⟩ := by
  have hp : C.Keeps S w (t, p) := h.keeps _ (by simp)
  obtain ⟨hg, hp'⟩ := Prog.rg_step (C.refl t) hp hs
  refine ⟨hg, ⟨?_, ?_⟩⟩
  · intro th hth
    rw [List.mem_append, List.mem_cons] at hth
    have other : ∀ th ∈ l₁ ++ l₂, C.Keeps S w' th := fun th hmem =>
      Keeps.rely (h.keeps th (by
        rcases List.mem_append.mp hmem with hm | hm
        · exact List.mem_append_left _ hm
        · exact List.mem_append_right _ (List.mem_cons_of_mem _ hm)))
        (compat_around h.compat th hmem w w' hg)
    rcases hth with hth | rfl | hth
    · exact other th (List.mem_append_left _ hth)
    · exact hp'
    · exact other th (List.mem_append_right _ hth)
  · have hc := h.compat
    rw [List.pairwise_append] at hc ⊢
    obtain ⟨h₁, h₂, hx⟩ := hc
    rw [List.pairwise_cons] at h₂ ⊢
    refine ⟨h₁, ⟨h₂.1, h₂.2⟩, fun a ha b hb => ?_⟩
    rcases List.mem_cons.mp hb with rfl | hb
    · exact hx a ha (t, p) (List.mem_cons_self ..)
    · exact hx a ha b (List.mem_cons_of_mem _ hb)

/-- A handler that has ended leaves its postcondition. -/
theorem Valid.retire {w : σ} {t : τ} {p : Prog σ ε ρ Unit}
    {l₁ l₂ : List (Thread σ τ ε ρ)}
    (h : C.Valid S ⟨w, l₁ ++ (t, p) :: l₂⟩) (hp : p.Ended) :
    C.post t w ∧ C.Valid S ⟨w, l₁ ++ l₂⟩ := by
  have hk : C.Keeps S w (t, p) := h.keeps _ (by simp)
  have hsub : (l₁ ++ l₂).Sublist (l₁ ++ (t, p) :: l₂) :=
    (List.Sublist.refl l₁).append (List.sublist_cons_self _ _)
  refine ⟨?_, fun th hth => h.keeps th (hsub.subset hth),
    h.compat.sublist hsub⟩
  cases hp with
  | pure a => exact hk w (C.refl t w)
  | throw m => exact hk w (C.refl t w)

/-- Starting a handler: the start itself is inside every running rely,
the new handler is valid and compatible with those running. -/
theorem Valid.spawn {w w' : σ} {l : List (Thread σ τ ε ρ)} {t : τ}
    {p : Prog σ ε ρ Unit} (h : C.Valid S ⟨w, l⟩)
    (hrely : ∀ th ∈ l, C.rely th.1 w w')
    (hp : C.Keeps S w' (t, p))
    (hcompat : ∀ th ∈ l, C.Compatible th.1 t) :
    C.Valid S ⟨w', l ++ [(t, p)]⟩ := by
  refine ⟨fun th hth => ?_, ?_⟩
  · rcases List.mem_append.mp hth with hth | hth
    · exact Keeps.rely (h.keeps th hth) (hrely th hth)
    · rw [List.mem_singleton] at hth
      rw [hth]
      exact hp
  · rw [List.pairwise_append]
    refine ⟨h.compat, List.pairwise_singleton _ _, fun a ha b hb => ?_⟩
    rw [List.mem_singleton] at hb
    rw [hb]
    exact hcompat a ha

/-- The outside moves inside every running rely. -/
theorem Valid.env {w w' : σ} {l : List (Thread σ τ ε ρ)}
    (h : C.Valid S ⟨w, l⟩) (hrely : ∀ th ∈ l, C.rely th.1 w w') :
    C.Valid S ⟨w', l⟩ :=
  ⟨fun th hth => Keeps.rely (h.keeps th hth) (hrely th hth), h.compat⟩

end Contract

-- ===================================================== concrete runs

namespace System

variable {S : System σ τ ε ρ}

/-- The executable steps of one handler are a run of the pool. -/
theorem run_steps {o : Oracle σ ε ρ} {t : τ}
    (ho : o.Admissible (S.env t)) (n : Nat) (p : Prog σ ε ρ Unit) (w : σ)
    (l₁ l₂ : List (Thread σ τ ε ρ)) :
    S.Run ⟨w, l₁ ++ (t, p) :: l₂⟩
      ⟨(p.steps (S.env t) o n w).2,
        l₁ ++ (t, (p.steps (S.env t) o n w).1) :: l₂⟩ := by
  induction n generalizing p w with
  | zero => exact .refl
  | succ n ih =>
      cases p with
      | pure a => exact .refl
      | throw m => exact .refl
      | act f k => exact .head (.exec l₁ l₂ .act) (ih (k w) (f w))
      | call e k =>
          exact .head (.exec l₁ l₂ (.call (ho w e))) (ih _ _)

/-- A handler that runs alone to its end is a run of the pool. -/
theorem run_solo {o : Oracle σ ε ρ} {t : τ}
    (ho : o.Admissible (S.env t)) (p : Prog σ ε ρ Unit) (w : σ)
    (l₁ l₂ : List (Thread σ τ ε ρ)) :
    S.Run ⟨w, l₁ ++ (t, p) :: l₂⟩
      ⟨(p.run (S.env t) o w).2, l₁ ++ l₂⟩ := by
  induction p generalizing w with
  | pure a => exact .single (.retire l₁ l₂ (.pure a))
  | throw m => exact .single (.retire l₁ l₂ (.throw m))
  | act f k ih => exact .head (.exec l₁ l₂ .act) (ih w (f w))
  | call e k ih => exact .head (.exec l₁ l₂ (.call (ho w e))) (ih _ _)

end System

end Interact
