/-
Programs with a third outcome: beside returning and throwing, one that
gives up with a reason, which its caller is going to handle (`ExceptT`
over `EStateM`).

`tri x Q R E s` says of the run of `x` from `s` that it returns with `Q`,
gives up with `R` or throws in a state with `E`. Its rules are
equivalences, so what a program does can be worked out backwards along
its `do` block and nothing is lost on the way.
-/
import BigDataExpress.Lib.Stateful

namespace Stateful

variable {ε σ ρ α β : Type}

/-- A program that may give up with a reason. -/
abbrev Trying (ε σ ρ : Type) : Type → Type := ExceptT ρ (EStateM ε σ)

def giveUp (r : ρ) : Trying ε σ ρ α :=
  ExceptT.mk (pure (Except.error r))

/-- A program that does not give up. -/
def perform (x : EStateM ε σ α) : Trying ε σ ρ α := ExceptT.lift x

/-- Returns with `Q`, gives up with `R`, or throws with `E`. -/
def tri (x : Trying ε σ ρ α) (Q : α → σ → Prop) (R : ρ → σ → Prop)
    (E : σ → Prop) (s : σ) : Prop :=
  match x.run s with
  | .ok (.ok a) t => Q a t
  | .ok (.error r) t => R r t
  | .error _ t => E t

variable {Q : α → σ → Prop} {R : ρ → σ → Prop} {E : σ → Prop} {s : σ}

@[simp] theorem tri_pure (a : α) :
    tri (pure a : Trying ε σ ρ α) Q R E s ↔ Q a s := Iff.rfl

@[simp] theorem tri_giveUp (r : ρ) :
    tri (giveUp r : Trying ε σ ρ α) Q R E s ↔ R r s := Iff.rfl

@[simp] theorem tri_perform (x : EStateM ε σ α) :
    tri (perform x : Trying ε σ ρ α) Q R E s ↔ wp x Q E s := by
  have hrun : (perform x : Trying ε σ ρ α).run s
      = EStateM.map Except.ok x s := rfl
  unfold tri wp
  rw [hrun]
  unfold EStateM.map
  cases x s <;> rfl

@[simp] theorem tri_bind {Q : β → σ → Prop} (x : Trying ε σ ρ α)
    (f : α → Trying ε σ ρ β) :
    tri (x >>= f) Q R E s
      ↔ tri x (fun a t => tri (f a) Q R E t) R E s := by
  have hrun : (x >>= f).run s
      = EStateM.bind x.run (fun r => ExceptT.bindCont f r) s := rfl
  unfold tri
  rw [hrun]
  unfold EStateM.bind
  cases x.run s with
  | error e t => rfl
  | ok r t => cases r <;> rfl

/-- A program that is handled by its caller: the three outcomes are two
again. -/
theorem wp_run {Q : Except ρ α → σ → Prop} (x : Trying ε σ ρ α) :
    wp x.run Q E s
      ↔ tri x (fun a => Q (.ok a)) (fun r => Q (.error r)) E s := by
  unfold wp tri
  cases x.run s with
  | error e t => rfl
  | ok r t => cases r <;> rfl

/-- A program on a part of the state. -/
def zoom {τ : Type} (part : σ → τ) (put : σ → τ → σ)
    (x : Trying ε τ ρ α) : Trying ε σ ρ α := ExceptT.mk fun s =>
  match x.run (part s) with
  | .ok r t => .ok r (put s t)
  | .error e t => .error e (put s t)

@[simp] theorem tri_zoom {τ : Type} {part : σ → τ} {put : σ → τ → σ}
    (x : Trying ε τ ρ α) :
    tri (zoom part put x) Q R E s
      ↔ tri x (fun a t => Q a (put s t)) (fun r t => R r (put s t))
          (fun t => E (put s t)) (part s) := by
  have hrun : (zoom part put x).run s
      = match x.run (part s) with
        | .ok r t => .ok r (put s t)
        | .error e t => .error e (put s t) := rfl
  unfold tri
  rw [hrun]
  cases x.run (part s) with
  | error e t => rfl
  | ok r t => cases r <;> rfl

/-- Consequence. -/
theorem tri.mono {x : Trying ε σ ρ α} {Q' : α → σ → Prop}
    {R' : ρ → σ → Prop} {E' : σ → Prop} (h : tri x Q R E s)
    (hQ : ∀ a t, Q a t → Q' a t) (hR : ∀ r t, R r t → R' r t)
    (hE : ∀ t, E t → E' t) : tri x Q' R' E' s := by
  unfold tri at h ⊢
  split at h
  · exact hQ _ _ h
  · exact hR _ _ h
  · exact hE _ h

/-- A stateless program that returned. -/
theorem tri_read_ok {x : Except ε α} {a : α} (hx : x = .ok a) :
    tri (perform (ofExcept x) : Trying ε σ ρ α) Q R E s ↔ Q a s := by
  rw [hx]
  rfl

theorem tri_read_error {x : Except ε α} {e : ε} (hx : x = .error e) :
    tri (perform (ofExcept x) : Trying ε σ ρ α) Q R E s ↔ E s := by
  rw [hx]
  rfl

/-- Two things that are said of one run. -/
theorem tri.and {x : Trying ε σ ρ α} {Q' : α → σ → Prop}
    {R' : ρ → σ → Prop} {E' : σ → Prop} (h : tri x Q R E s)
    (h' : tri x Q' R' E' s) :
    tri x (fun a t => Q a t ∧ Q' a t) (fun r t => R r t ∧ R' r t)
      (fun t => E t ∧ E' t) s := by
  unfold tri at *
  split
  · rename_i hx
    rw [hx] at h h'
    exact ⟨h, h'⟩
  · rename_i hx
    rw [hx] at h h'
    exact ⟨h, h'⟩
  · rename_i hx
    rw [hx] at h h'
    exact ⟨h, h'⟩

/-- A run that can only return does. -/
theorem tri.returns {x : Trying ε σ ρ α}
    (h : tri x Q (fun _ _ => False) (fun _ => False) s) :
    ∃ a t, Q a t := by
  unfold tri at h
  split at h
  · exact ⟨_, _, h⟩
  · exact h.elim
  · exact h.elim

/-- A run that returned did so with `Q`. -/
theorem tri.ok {x : Trying ε σ ρ α} (h : tri x Q R E s) {a : α} {t : σ}
    (hx : x.run s = .ok (.ok a) t) : Q a t := by
  unfold tri at h
  rw [hx] at h
  exact h

end Stateful
