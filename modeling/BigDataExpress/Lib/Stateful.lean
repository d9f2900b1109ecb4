/-
Programs that change a state and may throw, where the exception keeps
what was done before it (`EStateM`).

`wp x Q E s` says of the run of `x` from `s` that it returns with `Q`, or
throws in a state with `E`. The rules below take a program apart along
its `do` block; `after` is the state a run leaves either way.
-/
import Mathlib.Tactic.Basic

namespace Stateful

variable {ε σ α β : Type}

/-- A result that is there is one that was returned. -/
theorem toOption_eq_some {x : Except ε α} {a : α}
    (h : x.toOption = some a) : x = .ok a := by
  cases x with
  | error e => cases h
  | ok b =>
      injection h with h
      rw [h]

/-- A stateless program that returned, taken apart. -/
theorem bind_eq_ok {x : Except ε α} {f : α → Except ε β} {b : β} :
    (x >>= f) = .ok b ↔ ∃ a, x = .ok a ∧ f a = .ok b := by
  cases x with
  | error e =>
      constructor
      · intro h
        cases h
      · intro h
        obtain ⟨a, ha, _⟩ := h
        cases ha
  | ok a =>
      constructor
      · exact fun h => ⟨a, rfl, h⟩
      · intro h
        obtain ⟨a', ha, hf⟩ := h
        injection ha with ha
        exact ha ▸ hf

/-- A mapped result comes of a result. -/
theorem map_eq_ok {x : Except ε α} {f : α → β} {b : β}
    (h : x.map f = .ok b) : ∃ a, x = .ok a ∧ f a = b := by
  cases x with
  | error e => cases h
  | ok a =>
      injection h with h
      exact ⟨a, rfl, h⟩

/-- The state a run leaves, returned or thrown. -/
def after (x : EStateM ε σ α) (s : σ) : σ :=
  match x s with
  | .ok _ s' => s'
  | .error _ s' => s'

/-- Returns with `Q`, or throws with `E`. -/
def wp (x : EStateM ε σ α) (Q : α → σ → Prop) (E : σ → Prop) (s : σ) :
    Prop :=
  match x s with
  | .ok a s' => Q a s'
  | .error _ s' => E s'

variable {Q : α → σ → Prop} {R : β → σ → Prop} {E : σ → Prop} {s : σ}

/-- A result establishes what holds of it. -/
@[simp] theorem wp_pure (a : α) :
    wp (pure a : EStateM ε σ α) Q E s ↔ Q a s := Iff.rfl

/-- So does an exception. -/
@[simp] theorem wp_throw (e : ε) :
    wp (throw e : EStateM ε σ α) Q E s ↔ E s := Iff.rfl

/-- A stateless program. -/
def ofExcept : Except ε α → EStateM ε σ α
  | .ok a => pure a
  | .error e => throw e

/-- A value that may be an exception, by cases. -/
@[simp] theorem wp_ofExcept (x : Except ε α) :
    wp (ofExcept x : EStateM ε σ α) Q E s
      ↔ (∀ a, x = .ok a → Q a s) ∧ (∀ e, x = .error e → E s) := by
  cases x with
  | ok a =>
      constructor
      · intro h
        refine ⟨?_, ?_⟩
        · intro b hb
          cases hb
          exact h
        · intro e he
          cases he
      · intro h
        exact h.1 a rfl
  | error e =>
      constructor
      · intro h
        refine ⟨?_, ?_⟩
        · intro b hb
          cases hb
        · intro e' _
          exact h
      · intro h
        exact h.2 e rfl

/-- A stateless program that returned. -/
theorem wp_read_ok {x : Except ε α} {a : α} (hx : x = .ok a) :
    wp (ofExcept x : EStateM ε σ α) Q E s ↔ Q a s := by
  rw [hx]
  rfl

/-- A computation that reads the state first. -/
theorem get_bind_run (f : σ → EStateM ε σ α) :
    (get >>= f) s = f s s := rfl

/-- Reading the state hands it over. -/
@[simp] theorem wp_get {Q : σ → σ → Prop} :
    wp (get : EStateM ε σ σ) Q E s ↔ Q s s := Iff.rfl

/-- Setting it replaces it. -/
@[simp] theorem wp_set {Q : PUnit → σ → Prop} (t : σ) :
    wp (set t : EStateM ε σ PUnit) Q E s ↔ Q ⟨⟩ t := Iff.rfl

/-- Modifying it applies the function. -/
@[simp] theorem wp_modify {Q : PUnit → σ → Prop} (f : σ → σ) :
    wp (modify f : EStateM ε σ PUnit) Q E s ↔ Q ⟨⟩ (f s) := Iff.rfl

/-- A sequence, by its first part; an exception ends it. -/
@[simp] theorem wp_bind (x : EStateM ε σ α) (f : α → EStateM ε σ β) :
    wp (x >>= f) R E s ↔ wp x (fun a s' => wp (f a) R E s') E s := by
  change wp (EStateM.bind x f) R E s ↔ _
  unfold wp EStateM.bind
  cases x s <;> rfl

/-- A mapped program, by the program. -/
@[simp] theorem wp_map (x : EStateM ε σ α) (f : α → β) :
    wp (f <$> x) R E s ↔ wp x (fun a => R (f a)) E s := by
  change wp (EStateM.map f x) R E s ↔ _
  unfold wp EStateM.map
  cases x s <;> rfl

/-- A handler that only returns turns every exception into a result. -/
theorem wp_catch (x : EStateM ε σ PUnit) {Q : PUnit → σ → Prop} :
    wp (tryCatch x fun _ => pure ⟨⟩) Q E s ↔ wp x Q (Q ⟨⟩) s := by
  change wp (EStateM.tryCatch x fun _ => pure ⟨⟩) Q E s ↔ _
  unfold wp EStateM.tryCatch
  cases x s <;> rfl

/-- Consequence. -/
theorem wp.mono {x : EStateM ε σ α} {Q' : α → σ → Prop} {E' : σ → Prop}
    (h : wp x Q E s) (hQ : ∀ a t, Q a t → Q' a t) (hE : ∀ t, E t → E' t) :
    wp x Q' E' s := by
  unfold wp at h ⊢
  split at h
  · exact hQ _ _ h
  · exact hE _ h

/-- A run that returned did so with `Q`. -/
theorem wp.ok {x : EStateM ε σ α} (h : wp x Q E s) {a : α} {t : σ}
    (hx : x s = .ok a t) : Q a t := by
  unfold wp at h
  rw [hx] at h
  exact h

/-- Two things that are known of one run. -/
theorem wp.and {x : EStateM ε σ α} {Q' : α → σ → Prop} {E' : σ → Prop}
    (h : wp x Q E s) (h' : wp x Q' E' s) :
    wp x (fun a t => Q a t ∧ Q' a t) (fun t => E t ∧ E' t) s := by
  unfold wp at h h' ⊢
  cases hx : x s with
  | ok a t =>
      rw [hx] at h h'
      exact ⟨h, h'⟩
  | error e t =>
      rw [hx] at h h'
      exact ⟨h, h'⟩

/-- What holds after every outcome holds of the state left. -/
theorem wp.after {x : EStateM ε σ α} {P : σ → Prop}
    (h : wp x (fun _ => P) P s) : P (after x s) := by
  unfold wp at h
  unfold Stateful.after
  split at h <;> exact h

/-- What holds after a run holds on either exit. -/
theorem wp_of_after {x : EStateM ε σ α} {P : σ → Prop}
    (h : P (Stateful.after x s)) : wp x (fun _ => P) P s := by
  unfold wp
  unfold Stateful.after at h
  split at h <;> exact h

/-- A loop, by its first turn. -/
@[simp] theorem wp_forM_cons {f : α → EStateM ε σ PUnit} {a : α}
    {l : List α} {Q : PUnit → σ → Prop} :
    wp ((a :: l).forM f) Q E s
      ↔ wp (f a) (fun _ => wp (l.forM f) Q E) E s :=
  wp_bind (f a) fun _ => l.forM f

/-- A loop, by an invariant over what is left of its list. -/
theorem wp_forM {f : α → EStateM ε σ PUnit} {I : List α → σ → Prop}
    (hstep : ∀ a l t, I (a :: l) t → wp (f a) (fun _ => I l) E t) :
    ∀ (l : List α) {t : σ}, I l t → wp (l.forM f) (fun _ => I []) E t := by
  intro l
  induction l with
  | nil => intro t h; exact h
  | cons a l ih =>
      intro t h
      rw [wp_forM_cons]
      exact (hstep a l t h).mono (fun _ t' ht => ih ht) fun _ he => he

/-- A loop whose body keeps an invariant keeps it. -/
theorem wp_forM_inv {f : α → EStateM ε σ PUnit} {I : σ → Prop} {l : List α}
    (hstep : ∀ a ∈ l, ∀ t, I t → wp (f a) (fun _ => I) I t) {t : σ}
    (h : I t) : wp (l.forM f) (fun _ => I) I t := by
  induction l generalizing t with
  | nil => exact h
  | cons a l ih =>
      rw [wp_forM_cons]
      refine (hstep a (List.mem_cons_self ..) t h).mono ?_ fun _ he => he
      intro _ t' ht
      exact ih (fun b hb => hstep b (List.mem_cons_of_mem _ hb)) ht

/-- Every outcome of a program keeps an invariant. -/
def Keeps (I : σ → Prop) (x : EStateM ε σ α) : Prop :=
  ∀ s, I s → wp x (fun _ => I) I s

section Keeps

variable {I : σ → Prop}

/-- A result keeps everything. -/
theorem Keeps.pure (a : α) : Keeps I (Pure.pure a : EStateM ε σ α) :=
  fun _ h => h

/-- A sequence keeps what its parts keep. -/
theorem Keeps.bind {x : EStateM ε σ α} {f : α → EStateM ε σ β}
    (hx : Keeps I x) (hf : ∀ a, Keeps I (f a)) : Keeps I (x >>= f) := by
  intro s h
  rw [wp_bind]
  exact (hx s h).mono (fun a t ht => hf a t ht) fun _ he => he

/-- A program that reads the state first. -/
theorem Keeps.get_bind {f : σ → EStateM ε σ α} (hf : ∀ s, Keeps I (f s)) :
    Keeps I (get >>= f) := by
  intro s h
  rw [wp_bind]
  exact hf s s h

/-- A choice keeps what both branches keep. -/
theorem Keeps.ite {c : Prop} [Decidable c] {x y : EStateM ε σ α}
    (hx : Keeps I x) (hy : Keeps I y) : Keeps I (if c then x else y) := by
  by_cases hc : c
  · rw [if_pos hc]
    exact hx
  · rw [if_neg hc]
    exact hy

/-- A program that is caught keeps what it keeps. -/
theorem Keeps.catch {x : EStateM ε σ PUnit} (hx : Keeps I x) :
    Keeps I (tryCatch x fun _ => Pure.pure ⟨⟩) := by
  intro s h
  rw [wp_catch]
  exact hx s h

/-- A loop keeps what its turns keep. -/
theorem Keeps.forM {f : α → EStateM ε σ PUnit} (hf : ∀ a, Keeps I (f a))
    (l : List α) : Keeps I (l.forM f) :=
  fun _ h => wp_forM_inv (fun a _ t ht => hf a t ht) h

end Keeps

/-- Returns, and does not throw, exactly when `P`: the state has no say in
it. -/
def ReturnsIff (P : Prop) (x : EStateM ε σ α) : Prop :=
  ∀ s, wp x (fun _ _ => P) (fun _ => ¬ P) s

section ReturnsIff

variable {P R : Prop}

/-- The condition may be replaced by an equivalent one. -/
theorem ReturnsIff.congr {x : EStateM ε σ α} (h : ReturnsIff P x)
    (hiff : P ↔ R) : ReturnsIff R x := by
  intro s
  exact (h s).mono (fun _ _ hp => hiff.1 hp) fun _ hn hr => hn (hiff.2 hr)

/-- A result always returns. -/
theorem ReturnsIff.pure (a : α) :
    ReturnsIff True (Pure.pure a : EStateM ε σ α) :=
  fun _ => trivial

/-- A first part, and a second one that returns for what the first part
can have returned. -/
theorem ReturnsIff.bind {x : EStateM ε σ α} {f : α → EStateM ε σ β}
    (hx : ReturnsIff P x) (hf : P → ∀ a, ReturnsIff R (f a)) :
    ReturnsIff (P ∧ R) (x >>= f) := by
  intro s
  rw [wp_bind]
  refine (hx s).mono ?_ ?_
  · intro a t hp
    exact (hf hp a t).mono (fun _ _ hr => ⟨hp, hr⟩) fun _ hn hpr => hn hpr.2
  · intro t hn hpr
    exact hn hpr.1

/-- After a first part that always returns. -/
theorem ReturnsIff.sure_bind {x : EStateM ε σ α} {f : α → EStateM ε σ β}
    (hx : ReturnsIff True x) (hf : ∀ a, ReturnsIff R (f a)) :
    ReturnsIff R (x >>= f) :=
  (hx.bind fun _ => hf).congr ⟨fun h => h.2, fun h => ⟨trivial, h⟩⟩

/-- Before a second part that always returns. -/
theorem ReturnsIff.bind_sure {x : EStateM ε σ α} {f : α → EStateM ε σ β}
    (hx : ReturnsIff P x) (hf : ∀ a, ReturnsIff True (f a)) :
    ReturnsIff P (x >>= f) :=
  (hx.bind fun _ => hf).congr ⟨fun h => h.1, fun h => ⟨h, trivial⟩⟩

/-- A choice returns if both branches do on the same condition. -/
theorem ReturnsIff.ite {c : Prop} [Decidable c] {x y : EStateM ε σ α}
    (hx : ReturnsIff P x) (hy : ReturnsIff P y) :
    ReturnsIff P (if c then x else y) := by
  by_cases hc : c
  · rw [if_pos hc]
    exact hx
  · rw [if_neg hc]
    exact hy

end ReturnsIff

/-- A run of programs, one after the other. -/
def runAll (xs : List (EStateM ε σ α)) (s : σ) : σ :=
  xs.foldl (fun t x => Stateful.after x t) s

/-- An invariant of every program is an invariant of the run. -/
theorem runAll_inv {I : σ → Prop} {xs : List (EStateM ε σ α)}
    (hstep : ∀ x ∈ xs, ∀ t, I t → I (Stateful.after x t)) (h : I s) :
    I (runAll xs s) := by
  induction xs generalizing s with
  | nil => exact h
  | cons x xs ih =>
      refine ih (fun y hy => hstep y (List.mem_cons_of_mem _ hy)) ?_
      exact hstep x (List.mem_cons_self ..) s h

end Stateful
