/-
Handlers seen as phases: an abstract machine that a pool of handlers
refines.

Rely/guarantee contracts speak of one handler at a time. Some invariants
do not: they count how many handlers are at some point, or add up what
each of them still owes. For these a handler is described by the phase
it is in, of any type `φ`, and by the moves one action can make, from a
phase and a state to another phase and state. `Follows` says that a
handler makes only such moves.

`Phases.Shows` relates a pool to the list of the phases of its handlers,
and `Phases.invariant` is the rule: an invariant of the state and the
phases, kept by every move, by every start, by every end and from
outside, holds in every state the pool reaches.
-/
import BigDataExpress.Lib.Pool
import Mathlib.Data.List.Forall2

namespace Interact

variable {σ τ ε φ : Type} {ρ : ε → Type} {α β : Type}

-- ======================================================= one handler

/-- Every action of the handler is a move, from whatever state satisfies
the precondition of the phase the handler is in. -/
def Prog.Follows (E : Env σ ε ρ) (pre : φ → σ → Prop)
    (move : φ → σ → φ → σ → Prop) (Q : Except String α → φ → Prop) :
    Prog σ ε ρ α → φ → Prop
  | .pure a, s => Q (.ok a) s
  | .throw m, s => Q (.error m) s
  | .act f k, s => ∀ w, pre s w →
      ∃ s', move s w s' (f w) ∧ (k w).Follows E pre move Q s'
  | .call e k, s => ∀ w r, pre s w → E.adm w e r →
      ∃ s', move s w s' (E.eff w e r) ∧ (k r).Follows E pre move Q s'

namespace Prog.Follows

variable {E : Env σ ε ρ} {pre : φ → σ → Prop}
  {move : φ → σ → φ → σ → Prop} {Q : Except String α → φ → Prop} {s : φ}

theorem mono {Q' : Except String α → φ → Prop} {p : Prog σ ε ρ α}
    (h : p.Follows E pre move Q s) (hQ : ∀ r s', Q r s' → Q' r s') :
    p.Follows E pre move Q' s := by
  induction p generalizing s with
  | pure a => exact hQ _ _ h
  | throw m => exact hQ _ _ h
  | act f k ih =>
      intro w hw
      obtain ⟨s', hm, hk⟩ := h w hw
      exact ⟨s', hm, ih w hk⟩
  | call e k ih =>
      intro w r hw hr
      obtain ⟨s', hm, hk⟩ := h w r hw hr
      exact ⟨s', hm, ih r hk⟩

theorem bind {p : Prog σ ε ρ α} {g : α → Prog σ ε ρ β}
    {M : Except String α → φ → Prop} {Q : Except String β → φ → Prop}
    (hp : p.Follows E pre move M s)
    (hok : ∀ a s', M (.ok a) s' → (g a).Follows E pre move Q s')
    (herr : ∀ m s', M (.error m) s' → Q (.error m) s') :
    (p >>= g).Follows E pre move Q s := by
  show (p.bind g).Follows E pre move Q s
  induction p generalizing s with
  | pure a => exact hok a s hp
  | throw m => exact herr m s hp
  | act f k ih =>
      intro w hw
      obtain ⟨s', hm, hk⟩ := hp w hw
      exact ⟨s', hm, ih w hk⟩
  | call e k ih =>
      intro w r hw hr
      obtain ⟨s', hm, hk⟩ := hp w r hw hr
      exact ⟨s', hm, ih r hk⟩

/-- A part that ends without an exception, and what follows. -/
theorem seq {p : Prog σ ε ρ α} {g : α → Prog σ ε ρ β} {P : α → φ → Prop}
    {Q : Except String β → φ → Prop}
    (hp : p.Follows E pre move (fun r s' => ∃ a, r = .ok a ∧ P a s') s)
    (hk : ∀ a s', P a s' → (g a).Follows E pre move Q s') :
    (p >>= g).Follows E pre move Q s := by
  refine bind hp ?_ ?_
  · rintro a s' ⟨a', ha, hP⟩
    cases ha
    exact hk a s' hP
  · rintro m s' ⟨a, ha, -⟩
    cases ha

theorem pure {a : α} (h : Q (.ok a) s) :
    (Pure.pure a : Prog σ ε ρ α).Follows E pre move Q s := h

theorem modify {f : σ → σ} {k : Unit → Prog σ ε ρ α} (s' : φ)
    (hm : ∀ w, pre s w → move s w s' (f w))
    (hk : (k ()).Follows E pre move Q s') :
    (Prog.modify f >>= k).Follows E pre move Q s :=
  fun w hw => ⟨s', hm w hw, hk⟩

theorem read {f : σ → β} {k : β → Prog σ ε ρ α}
    (h : ∀ w, pre s w →
      ∃ s', move s w s' w ∧ (k (f w)).Follows E pre move Q s') :
    (Prog.read f >>= k).Follows E pre move Q s := h

theorem ask {e : ε} {k : ρ e → Prog σ ε ρ α}
    (h : ∀ w r, pre s w → E.adm w e r →
      ∃ s', move s w s' (E.eff w e r) ∧ (k r).Follows E pre move Q s') :
    (Prog.ask e >>= k).Follows E pre move Q s := h

/-- The last operation of a handler. -/
theorem last {p : Prog σ ε ρ α}
    (h : (p >>= Pure.pure).Follows E pre move Q s) :
    p.Follows E pre move Q s := by
  have hp : p >>= Pure.pure = p := Prog.bind_pure p
  rwa [hp] at h

/-- A handler whose acts and calls are moves inside one phase stays in
it. -/
theorem of_acts {K : (σ → σ) → Prop} {C : ε → Prop}
    (hK : ∀ f, K f → ∀ w, pre s w → move s w s (f w))
    (hC : ∀ e, C e → ∀ w r, pre s w → E.adm w e r →
      move s w s (E.eff w e r))
    {p : Prog σ ε ρ α} (hp : p.Acts K C) :
    p.Follows E pre move (fun r s' => ∃ a, r = .ok a ∧ s' = s) s := by
  induction p with
  | pure a => exact ⟨a, rfl, rfl⟩
  | throw m => exact hp.elim
  | act f k ih => exact fun w hw => ⟨s, hK f hp.1 w hw, ih w (hp.2 w)⟩
  | call e k ih =>
      exact fun w r hw hr => ⟨s, hC e hp.1 w r hw hr, ih r (hp.2 r)⟩

end Prog.Follows

-- ======================================================= a pool of them

/-- An abstract machine for the handlers of a system: what a phase may
rely on, the moves of a handler, and the phases a handler may end in. -/
structure Phases (σ τ ε : Type) (ρ : ε → Type) (φ : Type) where
  pre : φ → σ → Prop
  move : τ → φ → σ → φ → σ → Prop
  stop : φ → Prop

namespace Phases

variable (M : Phases σ τ ε ρ φ) (S : System σ τ ε ρ)

/-- The handler `th` is in the phase `s`. -/
def In (th : Thread σ τ ε ρ) (s : τ × φ) : Prop :=
  th.1 = s.1 ∧ th.2.Follows (S.env th.1) M.pre (M.move th.1)
    (fun _ s' => M.stop s') s.2

/-- The phases of the handlers of a pool. -/
def Shows (P : Pool σ τ ε ρ) (m : List (τ × φ)) : Prop :=
  List.Forall₂ (M.In S) P.threads m

variable {M S} {w w' : σ} {t : τ} {p p' : Prog σ ε ρ Unit}
  {l l₁ l₂ : List (Thread σ τ ε ρ)} {m : List (τ × φ)}

/-- The tags of the phases are those of the handlers. -/
theorem Shows.tags {P : Pool σ τ ε ρ} (h : M.Shows S P m) :
    m.map Prod.fst = P.threads.map Prod.fst := by
  obtain ⟨w, l⟩ := P
  have hl : List.Forall₂ (M.In S) l m := h
  clear h
  induction hl with
  | nil => rfl
  | cons hin _ ih => exact congrArg₂ List.cons hin.1.symm ih

/-- Lists related elementwise, around one element of the first. -/
private theorem forall₂_around {γ δ : Type} {R : γ → δ → Prop} {a : γ}
    {l₁ l₂ : List γ} {m : List δ} (h : List.Forall₂ R (l₁ ++ a :: l₂) m) :
    ∃ m₁ b m₂, m = m₁ ++ b :: m₂ ∧ R a b ∧ List.Forall₂ R l₁ m₁
      ∧ List.Forall₂ R l₂ m₂ := by
  induction l₁ generalizing m with
  | nil =>
      cases h with
      | cons hab h₂ => exact ⟨[], _, _, rfl, hab, .nil, h₂⟩
  | cons c l₁ ih =>
      cases h with
      | cons hc h' =>
          obtain ⟨m₁, b, m₂, rfl, hab, h₁, h₂⟩ := ih h'
          exact ⟨_ :: m₁, b, m₂, rfl, hab, .cons hc h₁, h₂⟩

/-- The phase of one handler among the others. -/
theorem Shows.split (h : M.Shows S ⟨w, l₁ ++ (t, p) :: l₂⟩ m) :
    ∃ m₁ s m₂, m = m₁ ++ (t, s) :: m₂ ∧ M.In S (t, p) (t, s)
      ∧ List.Forall₂ (M.In S) l₁ m₁ ∧ List.Forall₂ (M.In S) l₂ m₂ := by
  obtain ⟨m₁, ⟨t', s⟩, m₂, rfl, hin, h₁, h₂⟩ := forall₂_around h
  obtain rfl : t = t' := hin.1
  exact ⟨m₁, s, m₂, rfl, hin, h₁, h₂⟩

/-- One action of one handler is a move of its phase. -/
theorem Shows.exec (h : M.Shows S ⟨w, l₁ ++ (t, p) :: l₂⟩ m)
    (hpre : ∀ s ∈ m, M.pre s.2 w) (hs : Prog.Step (S.env t) p w p' w') :
    ∃ m₁ s s' m₂, m = m₁ ++ (t, s) :: m₂ ∧ M.move t s w s' w'
      ∧ M.Shows S ⟨w', l₁ ++ (t, p') :: l₂⟩ (m₁ ++ (t, s') :: m₂) := by
  obtain ⟨m₁, s, m₂, rfl, hin, h₁, h₂⟩ := h.split
  have hw : M.pre s w := hpre (t, s) (by simp)
  have hmove : ∃ s', M.move t s w s' w'
      ∧ p'.Follows (S.env t) M.pre (M.move t) (fun _ s' => M.stop s') s' := by
    have hf := hin.2
    cases hs with
    | act => exact hf w hw
    | call hr => exact hf w _ hw hr
  obtain ⟨s', hm, hf⟩ := hmove
  exact ⟨m₁, s, s', m₂, rfl, hm,
    List.rel_append h₁ (.cons ⟨rfl, hf⟩ h₂)⟩

/-- A handler that has ended is in a phase where it may. -/
theorem Shows.retire (h : M.Shows S ⟨w, l₁ ++ (t, p) :: l₂⟩ m)
    (hp : p.Ended) : ∃ m₁ s m₂, m = m₁ ++ (t, s) :: m₂ ∧ M.stop s
      ∧ M.Shows S ⟨w, l₁ ++ l₂⟩ (m₁ ++ m₂) := by
  obtain ⟨m₁, s, m₂, rfl, hin, h₁, h₂⟩ := h.split
  have hf := hin.2
  refine ⟨m₁, s, m₂, rfl, ?_, List.rel_append h₁ h₂⟩
  cases hp with
  | pure a => exact hf
  | throw m => exact hf

theorem Shows.spawn (h : M.Shows S ⟨w, l⟩ m) {s : φ}
    (hp : p.Follows (S.env t) M.pre (M.move t) (fun _ s' => M.stop s') s) :
    M.Shows S ⟨w', l ++ [(t, p)]⟩ (m ++ [(t, s)]) :=
  List.rel_append h (.cons ⟨rfl, hp⟩ .nil)

/-- An invariant of the state and the phases that every step keeps holds
in every pool of every run. -/
theorem invariant {J : σ → List (τ × φ) → Prop}
    (hpre : ∀ {w m}, J w m → ∀ s ∈ m, M.pre s.2 w)
    (hexec : ∀ {w w' m₁ m₂ t s s'}, J w (m₁ ++ (t, s) :: m₂) →
      M.move t s w s' w' → J w' (m₁ ++ (t, s') :: m₂))
    (hretire : ∀ {w m₁ m₂ t s}, J w (m₁ ++ (t, s) :: m₂) → M.stop s →
      J w (m₁ ++ m₂))
    (hspawn : ∀ {P t p w' m}, M.Shows S P m → J P.world m →
      S.spawn P t p w' → ∃ s, J w' (m ++ [(t, s)])
        ∧ p.Follows (S.env t) M.pre (M.move t) (fun _ s' => M.stop s') s)
    (henv : ∀ {P w' m}, M.Shows S P m → J P.world m → S.outside P w' →
      J w' m)
    {P P' : Pool σ τ ε ρ} (hrun : S.Run P P')
    (h : ∃ m, M.Shows S P m ∧ J P.world m) :
    ∃ m, M.Shows S P' m ∧ J P'.world m := by
  induction hrun with
  | refl => exact h
  | tail _ hs ih =>
      obtain ⟨m, hm, hJ⟩ := ih
      cases hs with
      | exec l₁ l₂ hstep =>
          obtain ⟨m₁, s, s', m₂, rfl, hmove, hm'⟩ := hm.exec (hpre hJ) hstep
          exact ⟨_, hm', hexec hJ hmove⟩
      | retire l₁ l₂ hend =>
          obtain ⟨m₁, s, m₂, rfl, hstop, hm'⟩ := hm.retire hend
          exact ⟨_, hm', hretire hJ hstop⟩
      | spawn hsp =>
          obtain ⟨s, hJ', hf⟩ := hspawn hm hJ hsp
          exact ⟨_, hm.spawn hf, hJ'⟩
      | env hout => exact ⟨m, hm, henv hm hJ hout⟩

end Phases

end Interact
